import Watchlist.Concurrency.ThreadPoolManager
import Watchlist.Messaging.MqttMessages

/-!
`RequestDispatcher.cpp` on top of the thread pool. A collection of payloads is
handled by as many calls of `HandleIncomingPayload`, each somewhere in its body;
an accepted request becomes a job, run by whichever worker takes it. A step is
one access to shared state: the flag `accepting_`, the application state, the
pool, the database, the publisher. The application state and the publisher are
there, as they are in the server.

A job that throws leaves its exception in the future that `HandleIncomingPayload`
has thrown away, so nothing else happens for it.
-/

namespace Watchlist.Dispatch

open Bytes Transition Concurrency Messaging

/-! ### The request handlers -/

def executeScript (now : Bytes) (request : MqttRequest) : MqttAck :=
  if request.scriptName ≠ some (ascii "script1") then
    makeAck now request.id (ascii "error") (ascii "script is not allowlisted")
  else makeAck now request.id (ascii "ok") (ascii "script1 executed")

def sendToDevice (now : Bytes) (request : MqttRequest) : MqttAck :=
  makeAck now request.id (ascii "ok")
    (ascii "sent payload to " ++ request.deviceId.getD (ascii "device"))

def cmdToDevice (now : Bytes) (request : MqttRequest) : MqttAck :=
  makeAck now request.id (ascii "ok")
    (ascii "sent command '" ++ request.command.getD [] ++ ascii "' to " ++
      request.deviceId.getD (ascii "device"))

/-- What `StoreDatabaseValue` returns once the value is stored. -/
def storeDatabaseValue (now : Bytes) (request : MqttRequest) : MqttAck :=
  makeAck now request.id (ascii "ok") (ascii "stored key '" ++ request.key.getD [] ++ ascii "'")

def queryAiPrompt (now : Bytes) (request : MqttRequest) : MqttAck :=
  makeAck now request.id (ascii "ok") (ascii "AI prompt queued: " ++ request.prompt.getD [])

def shuttingDown (now : Bytes) (request : MqttRequest) : MqttAck :=
  makeAck now request.id (ascii "error") (ascii "server shutting down")

/-- The request that `HandleIncomingPayload` makes up to route a parse error. -/
def errorRoute (result : ParseResult) : MqttRequest where
  id := result.requestId
  type := .executeScript
  createdUtc := []
  sourceClientId := result.sourceClientId
  scriptName := none
  deviceId := none
  payload := none
  command := none
  key := none
  value := none
  prompt := none

/-! ### The state -/

/-- What the task given to the pool captures, and the call that gave it. -/
structure Job (k : ℕ) where
  call : Fin k
  request : MqttRequest

/-- How far a valid request has come on its way to the pool. -/
inductive Stage
  /-- before the look at `accepting_` in `HandleIncomingPayload` -/
  | handling
  /-- before the look at `accepting_` in `Dispatch` -/
  | dispatching
  | noting
  | enqueueing

/-- Where a call of `HandleIncomingPayload` is. -/
inductive CallPc
  | notCalled
  | preparing (stage : Stage) (request : MqttRequest)
  /-- before `AddAck` in `RecordAndPublishAck` -/
  | recording (route : MqttRequest) (ack : MqttAck)
  | publishing (route : MqttRequest) (ack : MqttAck)
  | returned (accepted : Bool)

/-- Where the job of a call is. -/
inductive JobPc
  | absent
  | queued
  | executing
  /-- `KeyValueStore::Initialize` has returned -/
  | upserting
  | recording (ack : MqttAck)
  | publishing (ack : MqttAck)
  | ended (threw : Bool)

/-- A call of `AddAck`; the line it adds is `serializeAck ack`. -/
structure Acknowledgement (k : ℕ) where
  call : Fin k
  byWorker : Bool
  ack : MqttAck

/-- A call of `ackPublisher_`. -/
structure Publication (k : ℕ) where
  call : Fin k
  route : MqttRequest
  ack : MqttAck

structure RequestDispatcher (n k : ℕ) where
  accepting : Bool
  pool : ThreadPoolManager n (Job k)
  calls : Fin k → CallPc
  jobs : Fin k → JobPc
  received : List Bytes
  activity : List Bytes
  acks : List (Acknowledgement k)
  published : List (Publication k)
  /-- the upserts of `KeyValueStore`, in order -/
  stored : List (Bytes × Bytes)

namespace RequestDispatcher

variable {n k : ℕ}

def initial (n k : ℕ) : RequestDispatcher n k where
  accepting := true
  pool := .initial n (Job k)
  calls := fun _ => .notCalled
  jobs := fun _ => .absent
  received := []
  activity := []
  acks := []
  published := []
  stored := []

def setCall (d : RequestDispatcher n k) (i : Fin k) (at' : CallPc) : RequestDispatcher n k :=
  { d with calls := Function.update d.calls i at' }

def setJob (d : RequestDispatcher n k) (i : Fin k) (at' : JobPc) : RequestDispatcher n k :=
  { d with jobs := Function.update d.jobs i at' }

def addAck (d : RequestDispatcher n k) (i : Fin k) (byWorker : Bool) (ack : MqttAck) :
    RequestDispatcher n k :=
  { d with acks := d.acks ++ [⟨i, byWorker, ack⟩] }

def publish (d : RequestDispatcher n k) (i : Fin k) (route : MqttRequest) (ack : MqttAck) :
    RequestDispatcher n k :=
  { d with published := d.published ++ [⟨i, route, ack⟩] }

/-- The next step of a call whose request is valid. -/
def prepare (d : RequestDispatcher n k) (i : Fin k) (now : Bytes) (request : MqttRequest) :
    Stage → RequestDispatcher n k
  | .handling =>
      if d.accepting then d.setCall i (.preparing .dispatching request)
      else d.setCall i (.recording request (shuttingDown now request))
  | .dispatching =>
      -- `Dispatch` throws, and the handler around it answers
      if d.accepting then d.setCall i (.preparing .noting request)
      else d.setCall i (.recording request (shuttingDown now request))
  | .noting =>
      { d.setCall i (.preparing .enqueueing request) with
        activity := d.activity ++ [ascii "Queued " ++ toString request.type ++
          ascii " request " ++ request.id] }
  | .enqueueing =>
      if d.pool.stop then
        { d.setCall i (.recording request (shuttingDown now request)) with
          pool := d.pool.enqueue ⟨i, request⟩ }
      else
        { (d.setCall i (.returned true)).setJob i .queued with
          pool := d.pool.enqueue ⟨i, request⟩ }

/-- The next step of `HandleIncomingPayload` in call `i`. -/
def advance (parse : Bytes → Document) (payloads : Fin k → Bytes) (d : RequestDispatcher n k)
    (i : Fin k) (now : Bytes) : Option (RequestDispatcher n k) :=
  match d.calls i with
  | .notCalled =>
      let result := parseRequest parse (payloads i)
      let received := { d with received := d.received ++ [payloads i] }
      match result.request with
      | none => some (received.setCall i (.recording (errorRoute result)
          (makeAck now result.requestId (ascii "error") result.error)))
      | some request => some (received.setCall i (.preparing .handling request))
  | .preparing stage request => some (d.prepare i now request stage)
  | .recording route ack =>
      some ((d.addAck i false ack).setCall i
        (if isValidClientId route.sourceClientId then .publishing route ack else .returned false))
  | .publishing route ack => some ((d.publish i route ack).setCall i (.returned false))
  | .returned _ => none

/-- The first step of `ExecuteWorkerRequest`. -/
def executeWorkerRequest (now : Bytes) (fails : Bool) (request : MqttRequest) : JobPc :=
  match request.type with
  | .executeScript => .recording (executeScript now request)
  | .sendToDevice => .recording (sendToDevice now request)
  | .cmdToDevice => .recording (cmdToDevice now request)
  | .storeDatabaseValue => if fails then .ended true else .upserting
  | .queryAiPrompt => .recording (queryAiPrompt now request)

/-- The next step of the job that worker `w` runs; `fails` is whether SQLite throws
in it, if it uses the database. -/
def work (d : RequestDispatcher n k) (w : Fin n) (now : Bytes) (fails : Bool) :
    Option (RequestDispatcher n k) :=
  match d.pool.workers w with
  | .running t =>
      let i := t.task.call
      let request := t.task.request
      match d.jobs i with
      | .executing => some (d.setJob i (executeWorkerRequest now fails request))
      | .upserting =>
          if fails then some (d.setJob i (.ended true))
          else some { d.setJob i (.recording (storeDatabaseValue now request)) with
            stored := d.stored ++ [(request.key.getD [], request.value.getD [])] }
      | .recording ack =>
          some ((d.addAck i true ack).setJob i
            (if isValidClientId request.sourceClientId then .publishing ack else .ended false))
      | .publishing ack => some ((d.publish i request ack).setJob i (.ended false))
      | .ended threw => (d.pool.step (.finish w threw)).map fun pool => { d with pool := pool }
      | .absent | .queued => none
  | _ => none

/-- The job at the front of the queue starts. -/
def startJob (d : RequestDispatcher n k) : RequestDispatcher n k :=
  match d.pool.tasks with
  | [] => d
  | t :: _ => d.setJob t.task.call .executing

inductive Label (n k : ℕ)
  | advance (i : Fin k) (now : Bytes)
  | work (w : Fin n) (now : Bytes) (fails : Bool)
  | stopAccepting
  /-- the locked section of `StopAndJoinWorkers` -/
  | setStop
  /-- a worker's locked section in `WorkerThread` -/
  | lock (w : Fin n)
  | notifyOne (w : Fin n)
  | notifyNobody
  | notifyAll
  | wakeSpuriously (w : Fin n)

/-- A step of the pool that starts and ends no job. -/
def poolStep (d : RequestDispatcher n k) (l : ThreadPoolManager.Label n (Job k)) :
    Option (RequestDispatcher n k) :=
  (d.pool.step l).map fun pool => { d with pool := pool }

theorem poolStep_eq_some {d d' : RequestDispatcher n k} {l : ThreadPoolManager.Label n (Job k)} :
    d.poolStep l = some d' ↔ ∃ pool, d.pool.step l = some pool ∧ { d with pool := pool } = d' :=
  Option.map_eq_some_iff

def step (parse : Bytes → Document) (payloads : Fin k → Bytes) (d : RequestDispatcher n k) :
    Label n k → Option (RequestDispatcher n k)
  | .advance i now => d.advance parse payloads i now
  | .work w now fails => d.work w now fails
  | .stopAccepting => some { d with accepting := false }
  | .setStop => d.poolStep .setStop
  | .lock w => (d.pool.step (.lock w)).map fun pool => { d.startJob with pool := pool }
  | .notifyOne w => d.poolStep (.notifyOne w)
  | .notifyNobody => d.poolStep .notifyNobody
  | .notifyAll => d.poolStep .notifyAll
  | .wakeSpuriously w => d.poolStep (.wakeSpuriously w)

def machine (n k : ℕ) (parse : Bytes → Document) (payloads : Fin k → Bytes) :
    Machine (RequestDispatcher n k) (Label n k) :=
  ⟨step parse payloads⟩

end RequestDispatcher

end Watchlist.Dispatch
