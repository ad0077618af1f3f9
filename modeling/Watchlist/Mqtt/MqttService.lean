import Watchlist.Library.KeyedMap
import Watchlist.Library.Threads
import Watchlist.Mqtt.AppState

/-!
`MqttService.cpp`: the state of the service, and its functions as lists of
sections. A section is what a function does under one lock of `mutex_`, one call
into `AppState`, into the transport or into an application callback, or one
notification; between two sections of a call any other thread may run.

The transport library is not part of the repository. What the code relies on is
written out: a client has its callbacks enabled from its creation until
`disable_callbacks`; a connection starts with no subscriptions (clean session);
the broker applies the subscriptions of a client in the order they are issued;
a call on a client succeeds or throws, and subscribing needs a connection. What
`publish`, `subscribe` and `unsubscribe` throw may be anything, and what is no
`mqtt::exception` leaves the function that made the call; closing a client
(`is_connected`, `disconnect` and the wait for its token) throws nothing but an
`mqtt::exception`.

`WaitForPendingOperations`, `Connected` and `Lifecycle` only read; the
notification of `pendingOperationsChanged_` wakes nobody else and is left out. An
`AppState` is attached, as it is in both applications. Application callbacks for
status and errors are recorded when they are called; message handlers may call
the service again.
-/

namespace Watchlist.Mqtt

open Bytes Transition

inductive LifecycleStatus
  | offline
  | connecting
  | connected
  | reconnecting
  | disconnecting
  | error
  deriving DecidableEq

def statusText : LifecycleStatus → Bytes
  | .offline => ascii "Offline"
  | .connecting => ascii "Connecting"
  | .connected => ascii "Connected"
  | .reconnecting => ascii "Reconnecting"
  | .disconnecting => ascii "Disconnecting"
  | .error => ascii "Error"

/-- The loop of `TopicMatches`; every round takes at least one byte off the filter. -/
def topicMatchesLoop : ℕ → Bytes → Bytes → Bool
  | 0, _, _ => false
  | fuel + 1, filter, topic =>
      let filterLevel := filter.takeWhile (· ≠ 47)
      let topicLevel := topic.takeWhile (· ≠ 47)
      if filterLevel = ascii "#" then filterLevel.length == filter.length
      else if filterLevel ≠ ascii "+" ∧ filterLevel ≠ topicLevel then false
      else
        match filter.drop filterLevel.length, topic.drop topicLevel.length with
        | _ :: filter, _ :: topic => topicMatchesLoop fuel filter topic
        | [], [] => true
        | _, _ => false

def topicMatches (filter topic : Bytes) : Bool := topicMatchesLoop (filter.length + 1) filter topic

/-! ### The state -/

/-- An entry of `subscriptions_`; a handler is known by its number. -/
structure Subscription where
  topic : Bytes
  handler : ℕ
  deriving DecidableEq

/-- An `OperationListener`, known by its address. -/
structure Operation where
  id : ℕ
  name : Bytes
  deriving DecidableEq

/-- An `async_client`, and what the broker knows about its connection. -/
structure Client where
  callbacks : Bool
  attempted : Bool
  connected : Bool
  /-- the filters subscribed on the current connection -/
  filters : Finset Bytes
  /-- `HandleConnected` has taken its list of topics on the current connection -/
  resubscribed : Bool
  /-- the messages that `publish` has taken -/
  messages : List (Bytes × Bytes)

def Client.absent : Client := ⟨false, false, false, ∅, false, []⟩

/-- Whether the thread of `Run` sleeps on `stateChanged_`. -/
inductive Sleep
  | awake
  | asleep
  | notified
  deriving DecidableEq

/-- The fields of `MqttService::Impl`, the transport, the stop token of `Run`, and a
history that no section reads. -/
structure MqttService where
  app : AppState
  status : LifecycleStatus
  shuttingDown : Bool
  client : Option ℕ
  subscriptions : KeyedMap Subscription.topic
  pendingOperations : List Operation
  statusHandler : Option ℕ
  errorHandler : Option ℕ
  /-- `operationMutex_` is locked -/
  operationLocked : Bool
  /-- `Run` holds `mutex_` from one of its sections to the next -/
  held : Bool
  /-- the thread of `Run` -/
  sleep : Sleep
  running : Bool
  stopRequested : Bool
  stopRegistered : Bool
  /-- the stop callback has returned -/
  stopFinished : Bool
  clients : ℕ → Client
  nextClient : ℕ
  nextOperation : ℕ
  /-- the operations that `TrackOperation` has registered -/
  tracked : List Operation
  /-- those whose success callback has been delivered -/
  succeeded : List Operation
  /-- those whose initiating call threw -/
  threw : List Operation
  /-- those whose failure has been handed to `ReportError`, with its text -/
  failed : List (Operation × Bytes)
  /-- the texts given to `ReportError` -/
  reported : List Bytes
  statusCalls : List (ℕ × LifecycleStatus × Bytes)
  errorCalls : List (ℕ × Bytes)
  handlerCalls : List (ℕ × Bytes × Bytes)
  /-- `Disconnect` has written its last status, and no `Connect` has passed its check since -/
  disconnected : Bool
  /-- the argument of the last `UpdateConsoleForm` -/
  lastForm : ConsoleState

/-- A service as its constructor leaves it, next to some `AppState`. -/
def MqttService.initial (app : AppState) : MqttService where
  app := app
  status := .offline
  shuttingDown := false
  client := none
  subscriptions := .empty
  pendingOperations := []
  statusHandler := none
  errorHandler := none
  operationLocked := false
  held := false
  sleep := .awake
  running := false
  stopRequested := false
  stopRegistered := false
  stopFinished := false
  clients := fun _ => .absent
  nextClient := 0
  nextOperation := 0
  tracked := []
  succeeded := []
  threw := []
  failed := []
  reported := []
  statusCalls := []
  errorCalls := []
  handlerCalls := []
  disconnected := false
  lastForm := app.console

/-! ### Sections -/

/-- The arguments of `Connect`. -/
structure Endpoint where
  host : Bytes
  port : ℤ
  clientId : Bytes

/-- A call into a transport client. -/
inductive TransportCall
  | publish (client : ℕ) (topic payload : Bytes)
  | subscribe (client : ℕ) (topic : Bytes)
  | unsubscribe (client : ℕ) (topic : Bytes)

/-- The client that is called. -/
def TransportCall.client : TransportCall → ℕ
  | .publish c _ _ | .subscribe c _ | .unsubscribe c _ => c

/-- The three waits of `Run`, with its `retryDelay` in seconds. -/
inductive Wait
  /-- at most `retryDelay`, for the connection attempt -/
  | attempt (retryDelay : ℕ)
  /-- at most `retryDelay`, after an error -/
  | retry (retryDelay : ℕ)
  /-- without limit, while connected or reconnecting -/
  | settled (retryDelay : ℕ)
  deriving DecidableEq

def Wait.timed : Wait → Bool
  | .attempt _ | .retry _ => true
  | .settled _ => false

inductive Section
  -- `Connect`
  | lockConnect (endpoint : Endpoint)
  | connectGuard (endpoint : Endpoint)
  | createClient (endpoint : Endpoint)
  | storeClient (client : ℕ)
  | connectClient (client : ℕ)
  -- `Disconnect`
  | lockDisconnect
  | startDisconnect
  | unlockOperation
  -- `ReleaseClient`
  | takeClient
  | closeClient (client : ℕ)
  | dropClient (client : ℕ)
  | clearPending
  -- `SetStatus` and `ReportError`
  | writeStatus (status : LifecycleStatus) (detail : Bytes)
  | reportSection (error : Bytes) (changesLifecycle : Bool)
  | notifyState
  | snapshotConsole (text : Option Bytes)
  | updateConsole (console : ConsoleState)
  | addActivity (line : Bytes)
  | callStatusHandler (handler : Option ℕ) (status : LifecycleStatus) (detail : Bytes)
  | callErrorHandler (handler : Option ℕ) (error : Bytes)
  -- `Subscribe`, `Unsubscribe` and `Publish`
  | insertSubscription (topic : Bytes) (handler : ℕ)
  | eraseSubscription (topic : Bytes)
  | copyClient (topic payload : Bytes)
  -- with the topics that the caller is still going to subscribe
  | trackOperation (name : Bytes) (call : TransportCall) (next : List Bytes)
  | transportCall (operation : Operation) (call : TransportCall) (next : List Bytes)
  | cancelOperation (operation : Operation)
  | installStatusHandler (handler : Option ℕ)
  | installErrorHandler (handler : Option ℕ)
  -- transport callbacks
  | handleConnected (detail : Bytes)
  | checkShuttingDown (detail : Bytes)
  | completeOperation (operation : Operation) (error : Bytes)
  | matchHandlers (topic payload : Bytes)
  | invokeHandler (handler : ℕ) (topic payload : Bytes)
  | inHandler (topic : Bytes)
  -- `Run` and its stop token
  | enterRun (endpoint : Endpoint)
  | checkStop (endpoint : Endpoint) (retryDelay : ℕ)
  | readLifecycle (endpoint : Endpoint) (retryDelay : ℕ)
  | waitCheck (endpoint : Endpoint) (wait : Wait)
  | waitSleep (endpoint : Endpoint) (wait : Wait)
  | waitAsleep (endpoint : Endpoint) (wait : Wait)
  | waitOver (endpoint : Endpoint) (wait : Wait)
  | leaveRun
  | setStop
  | notifyStop

/-- The sections that are run under `mutex_`. -/
def Section.locks : Section → Bool
  | .connectGuard _ | .storeClient _ | .startDisconnect | .takeClient | .clearPending
  | .writeStatus .. | .reportSection .. | .insertSubscription .. | .eraseSubscription _
  | .copyClient .. | .trackOperation .. | .cancelOperation _ | .installStatusHandler _
  | .installErrorHandler _ | .handleConnected _ | .checkShuttingDown _ | .completeOperation ..
  | .matchHandlers .. | .readLifecycle .. | .waitOver .. => true
  | _ => false

/-- `ReportError` -/
def reportError (error : Bytes) (changesLifecycle : Bool) : List Section :=
  [.reportSection error changesLifecycle]

/-- `SetStatus` -/
def setStatus (status : LifecycleStatus) (detail : Bytes) : List Section :=
  [.writeStatus status detail]

/-- What `SetStatus` and `HandleConnected` do after their locked section. -/
def announce (handler : Option ℕ) (status : LifecycleStatus) (detail : Bytes) : List Section :=
  [.notifyState, .snapshotConsole (some (statusText status)), .addActivity detail,
    .callStatusHandler handler status detail]

/-- `Connect`, up to the locks. -/
def connect (endpoint : Endpoint) : List Section :=
  if endpoint.host.isEmpty then reportError (ascii "MQTT broker host must not be empty") true
  else if endpoint.port < 1 ∨ 65535 < endpoint.port then
    reportError (ascii "MQTT broker port " ++ ofInt endpoint.port ++ ascii " is outside 1-65535")
      true
  else if endpoint.clientId.isEmpty then
    reportError (ascii "MQTT client ID must not be empty") true
  else [.lockConnect endpoint]

/-- What `Connect` does once its check has passed. -/
def connectionAttempt (endpoint : Endpoint) : List Section :=
  .takeClient :: (setStatus .connecting (ascii "Connecting to " ++ endpoint.host ++ ascii ":" ++
    ofInt endpoint.port ++ ascii " as " ++ endpoint.clientId) ++ [.createClient endpoint])

def disconnect : List Section := [.lockDisconnect]

/-- `SubscribeClient` for one topic after the other. -/
def subscribeClient (client : Option ℕ) : List Bytes → List Section
  | [] => []
  | topic :: next =>
      match client with
      | none => []
      | some c =>
          [.trackOperation (ascii "MQTT subscription to " ++ topic) (.subscribe c topic) next]

/-- The error of a transport call that throws. -/
def TransportCall.error (what : Bytes) : TransportCall → Bytes
  | .publish _ _ _ => ascii "MQTT publish failed: " ++ what
  | .subscribe _ topic => ascii "MQTT subscription to " ++ topic ++ ascii " failed: " ++ what
  | .unsubscribe _ topic => ascii "MQTT unsubscribe from " ++ topic ++ ascii " failed: " ++ what

/-! ### Calls -/

inductive Call
  -- the application
  | connect (endpoint : Endpoint)
  | subscribe (topic : Bytes) (handler : Option ℕ)
  | unsubscribe (topic : Bytes)
  | publish (topic payload : Bytes)
  | disconnect
  | setStatusHandler (handler : Option ℕ)
  | setErrorHandler (handler : Option ℕ)
  | run (endpoint : Endpoint)
  | requestStop
  | updateConsoleForm (console : ConsoleState)
  -- the transport
  | connected (client : ℕ) (cause : Bytes)
  | connectSucceeded (client : ℕ)
  | connectFailed (client : ℕ) (message : Bytes) (code : ℤ)
  | connectionLost (client : ℕ) (cause : Bytes)
  | messageArrived (client : ℕ) (topic payload : Bytes)
  | operationSucceeded (operation : Operation)
  | operationFailed (operation : Operation) (message : Bytes) (code : ℤ)
  -- private functions, called by themselves
  | setStatus (status : LifecycleStatus) (detail : Bytes)
  | reportError (error : Bytes) (changesLifecycle : Bool)
  | handleConnected (detail : Bytes)

/-- The functions a message handler may call. -/
def Call.isApi : Call → Bool
  | .connect _ | .subscribe .. | .unsubscribe _ | .publish .. | .disconnect
  | .setStatusHandler _ | .setErrorHandler _ => true
  | _ => false

/-- Not one of the private functions by itself. -/
def Call.isPublic : Call → Bool
  | .setStatus .. | .reportError .. | .handleConnected _ => false
  | _ => true

/-- How a section that depends on its surroundings comes out. -/
inductive Choice
  | proceed
  /-- the transport throws an `mqtt::exception`, or a handler an exception -/
  | throws (what : Bytes)
  /-- something else is thrown -/
  | throwsOther (what : Bytes)
  /-- a timed wait runs into its limit -/
  | timesOut
  /-- a message handler calls the service -/
  | calls (call : Call)

namespace MqttService

def setClient (s : MqttService) (c : ℕ) (client : Client) : MqttService :=
  { s with clients := Function.update s.clients c client }

/-- A connection of the client is there; a new one starts with a clean session. -/
def establish (s : MqttService) (c : ℕ) : MqttService :=
  if (s.clients c).connected then s
  else s.setClient c { s.clients c with connected := true, filters := ∅, resubscribed := false }

/-- `stateChanged_.notify_all()` -/
def notifyAll (s : MqttService) : MqttService :=
  if s.sleep = .asleep then { s with sleep := .notified } else s

/-- The locked part of entering a call, and its sections. -/
def enter (_k : ℕ) (s : MqttService) : Call → Option (MqttService × List Section)
  | .connect endpoint => some (s, connect endpoint)
  | .subscribe topic handler =>
      if topic.isEmpty then
        some (s, reportError (ascii "Cannot subscribe to an empty MQTT topic") false)
      else
        match handler with
        | none => some (s, reportError (ascii "Cannot subscribe to " ++ topic ++
            ascii " without a message handler") false)
        | some handler => some (s, [.insertSubscription topic handler])
  | .unsubscribe topic =>
      if topic.isEmpty then
        some (s, reportError (ascii "Cannot unsubscribe from an empty MQTT topic") false)
      else some (s, [.eraseSubscription topic])
  | .publish topic payload =>
      if topic.isEmpty then
        some (s, reportError (ascii "Cannot publish to an empty MQTT topic") false)
      else some (s, [.copyClient topic payload])
  | .disconnect => some (s, disconnect)
  | .setStatusHandler handler => some (s, [.installStatusHandler handler])
  | .setErrorHandler handler => some (s, [.installErrorHandler handler])
  | .run endpoint =>
      if s.running then none else some ({ s with running := true }, [.enterRun endpoint])
  | .requestStop => some (s, [.setStop])
  | .updateConsoleForm console =>
      some ({ s with app := s.app.updateConsoleForm console, lastForm := console }, [])
  | .connected c cause =>
      if (s.clients c).callbacks && (s.clients c).attempted then
        some (s.establish c, [.handleConnected (if cause.isEmpty then
          ascii "Connected to MQTT broker" else ascii "MQTT reconnected: " ++ cause)])
      else none
  | .connectSucceeded c =>
      if (s.clients c).callbacks && (s.clients c).attempted then
        some (s.establish c, [.handleConnected (ascii "Connected to MQTT broker")])
      else none
  | .connectFailed c message code =>
      if (s.clients c).callbacks && (s.clients c).attempted then
        some (s, reportError (if message.isEmpty then
          ascii "MQTT connection attempt failed (code " ++ ofInt code ++ ascii ")"
          else ascii "MQTT connection attempt failed: " ++ message) true)
      else none
  | .connectionLost c cause =>
      if (s.clients c).callbacks && (s.clients c).connected then
        some (s.setClient c { s.clients c with connected := false }, [.checkShuttingDown
          (if cause.isEmpty then ascii "MQTT connection lost; reconnecting automatically"
            else ascii "MQTT connection lost: " ++ cause ++ ascii "; reconnecting automatically")])
      else none
  | .messageArrived c topic payload =>
      if (s.clients c).callbacks then some (s, [.matchHandlers topic payload]) else none
  | .operationSucceeded operation =>
      if operation ∈ s.tracked then
        some ({ s with succeeded := s.succeeded ++ [operation] }, [.completeOperation operation []])
      else none
  | .operationFailed operation message code =>
      if operation ∈ s.tracked then
        some (s, [.completeOperation operation (operation.name ++ ascii " failed: " ++ message ++
          ascii " (code " ++ ofInt code ++ ascii ")")])
      else none
  | .setStatus status detail => some (s, Mqtt.setStatus status detail)
  | .reportError error changesLifecycle => some (s, Mqtt.reportError error changesLifecycle)
  | .handleConnected detail => some (s, [.handleConnected detail])

/-- The predicates that `Run` waits for. -/
def waitedFor (s : MqttService) : Wait → Bool
  | .attempt _ => s.stopRequested || s.status = .connected || s.status = .reconnecting ||
      s.status = .error
  | .retry _ => s.stopRequested || s.status ≠ .error
  | .settled _ => s.stopRequested || (s.status ≠ .connected && s.status ≠ .reconnecting)

/-- The last `if` of `Run`'s loop, still under the lock. -/
def settle (s : MqttService) (endpoint : Endpoint) (retryDelay : ℕ) : MqttService × List Section :=
  if s.status = .connected ∨ s.status = .reconnecting then
    ({ s with held := true }, [.waitCheck endpoint (.settled retryDelay)])
  else ({ s with held := false }, [.checkStop endpoint retryDelay])

/-- The rest of the locked part of `Run`'s loop, after a wait. -/
def afterWait (s : MqttService) (endpoint : Endpoint) : Wait → MqttService × List Section
  | .attempt retryDelay =>
      if s.status = .error then
        ({ s with held := true }, [.waitCheck endpoint (.retry (min (retryDelay * 2) 30))])
      else s.settle endpoint 1
  | .retry retryDelay => s.settle endpoint retryDelay
  | .settled retryDelay => ({ s with held := false }, [.checkStop endpoint retryDelay])

/-- A call into a client that succeeds, as far as it can. -/
def accept (s : MqttService) : TransportCall → Option MqttService
  | .publish c topic payload =>
      some (s.setClient c { s.clients c with
        messages := (s.clients c).messages ++ [(topic, payload)] })
  | .subscribe c topic =>
      allow ((s.clients c).connected = true)
        (s.setClient c { s.clients c with filters := insert topic (s.clients c).filters })
  | .unsubscribe c topic =>
      allow ((s.clients c).connected = true)
        (s.setClient c { s.clients c with filters := (s.clients c).filters.erase topic })

/-- What a section does, and the sections that follow from it. -/
def runSection (k : ℕ) (s : MqttService) : Section → Choice → Option (MqttService × List Section)
  -- `Connect`
  | .lockConnect endpoint, _ =>
      if s.operationLocked then none
      else some ({ s with operationLocked := true }, [.connectGuard endpoint, .unlockOperation])
  | .connectGuard endpoint, _ =>
      if s.status = .connecting ∨ s.status = .connected ∨ s.status = .reconnecting then some (s, [])
      else some ({ s with shuttingDown := false, disconnected := false },
        connectionAttempt endpoint)
  | .createClient _, choice =>
      match choice with
      | .throws what =>
          some (s, reportError (ascii "MQTT connection attempt failed: " ++ what) true)
      | .throwsOther what =>
          some (s, reportError (ascii "Unable to create MQTT transport: " ++ what) true)
      | _ =>
          some ({ s.setClient s.nextClient { Client.absent with callbacks := true } with
            nextClient := s.nextClient + 1 },
            [.storeClient s.nextClient, .connectClient s.nextClient])
  | .storeClient c, _ => some ({ s with client := some c }, [])
  | .connectClient c, choice =>
      match choice with
      | .throws what =>
          some (s, reportError (ascii "MQTT connection attempt failed: " ++ what) true)
      | .throwsOther what =>
          some (s, reportError (ascii "Unable to create MQTT transport: " ++ what) true)
      | _ => some (s.setClient c { s.clients c with attempted := true }, [])
  -- `Disconnect`
  | .lockDisconnect, _ =>
      if s.operationLocked then none
      else some ({ s with operationLocked := true }, [.startDisconnect, .unlockOperation])
  | .startDisconnect, _ =>
      some ({ s with shuttingDown := true },
        (if s.client.isSome then setStatus .disconnecting (ascii "Disconnecting from MQTT broker")
          else []) ++ .takeClient :: setStatus .offline (ascii "Offline"))
  | .unlockOperation, _ => some ({ s with operationLocked := false }, [])
  -- `ReleaseClient`
  | .takeClient, _ =>
      some ({ s with client := none },
        match s.client with
        | none => []
        | some c => [.closeClient c, .dropClient c, .clearPending])
  | .closeClient c, choice =>
      if (s.clients c).connected then
        match choice with
        | .throws what =>
            some (s, reportError (ascii "MQTT disconnect failed: " ++ what) false)
        | .timesOut => some (s, reportError (ascii "Timed out waiting for MQTT disconnect") false)
        | .throwsOther _ => none
        | _ => some (s.setClient c { s.clients c with connected := false }, [])
      else some (s, [])
  | .dropClient c, _ =>
      some (s.setClient c { s.clients c with callbacks := false, connected := false }, [])
  | .clearPending, _ => some ({ s with pendingOperations := [] }, [])
  -- `SetStatus` and `ReportError`
  | .writeStatus status detail, _ =>
      some ({ s with
        status := status
        disconnected := if status = .offline then true else s.disconnected },
        announce s.statusHandler status detail)
  | .reportSection error changesLifecycle, _ =>
      if !s.shuttingDown && changesLifecycle then
        some ({ s with status := .error, reported := s.reported ++ [error] },
          [.notifyState, .snapshotConsole (some (statusText .error)), .addActivity error,
            .callErrorHandler s.errorHandler error])
      else
        some ({ s with reported := s.reported ++ [error] },
          [.notifyState, .snapshotConsole none, .addActivity error,
            .callErrorHandler s.errorHandler error])
  | .notifyState, _ => some (s.notifyAll, [])
  | .snapshotConsole text, _ =>
      some (s, [.updateConsole (match text with
        | none => s.app.snapshotConsole
        | some text => s.app.snapshotConsole.withStatus text)])
  | .updateConsole console, _ => some ({ s with app := s.app.updateConsole console }, [])
  | .addActivity line, _ => some ({ s with app := s.app.addActivity line }, [])
  | .callStatusHandler handler status detail, _ =>
      some ({ s with statusCalls := s.statusCalls ++ (handler.map (·, status, detail)).toList }, [])
  | .callErrorHandler handler error, _ =>
      some ({ s with errorCalls := s.errorCalls ++ (handler.map (·, error)).toList }, [])
  -- `Subscribe`, `Unsubscribe` and `Publish`
  | .insertSubscription topic handler, _ =>
      some ({ s with subscriptions := s.subscriptions.insert ⟨topic, handler⟩ },
        if s.status = .connected then subscribeClient s.client [topic] else [])
  | .eraseSubscription topic, _ =>
      some ({ s with subscriptions := s.subscriptions.erase topic },
        match s.client with
        | none => []
        | some c =>
            if s.status = .connected then
              [.trackOperation (ascii "MQTT unsubscribe from " ++ topic) (.unsubscribe c topic) []]
            else [])
  | .copyClient topic payload, _ =>
      match s.client with
      | none => some (s, reportError (ascii "Cannot publish to " ++ topic ++
          ascii " before Connect") false)
      | some c => some (s, [.trackOperation (ascii "MQTT publish to " ++ topic)
          (.publish c topic payload) []])
  | .trackOperation name call next, _ =>
      let operation : Operation := ⟨s.nextOperation, name⟩
      some ({ s with
        nextOperation := s.nextOperation + 1
        pendingOperations := s.pendingOperations ++ [operation]
        tracked := s.tracked ++ [operation] }, [.transportCall operation call next])
  | .transportCall operation call next, choice =>
      match choice with
      | .throws what =>
          some ({ s with threw := s.threw ++ [operation] },
            .cancelOperation operation :: reportError (call.error what) false ++
              subscribeClient (some call.client) next)
      -- cancelled and thrown on, out of the function and of its loop
      | .throwsOther _ =>
          some ({ s with threw := s.threw ++ [operation] }, [.cancelOperation operation])
      | _ => (s.accept call).map (·, subscribeClient (some call.client) next)
  | .cancelOperation operation, _ =>
      some ({ s with pendingOperations := s.pendingOperations.filter (· ≠ operation) }, [])
  | .installStatusHandler handler, _ => some ({ s with statusHandler := handler }, [])
  | .installErrorHandler handler, _ => some ({ s with errorHandler := handler }, [])
  -- transport callbacks
  | .handleConnected detail, _ =>
      if s.shuttingDown ∨ s.status = .connected then some (s, [])
      else
        some (match s.client with
          | none => { s with status := .connected }
          | some c => { s.setClient c { s.clients c with resubscribed := (s.clients c).connected }
              with status := .connected },
          announce s.statusHandler .connected detail ++
            subscribeClient s.client (s.subscriptions.toList.map Subscription.topic))
  | .checkShuttingDown detail, _ =>
      some (s, if s.shuttingDown then [] else setStatus .reconnecting detail)
  | .completeOperation operation error, _ =>
      if operation ∈ s.pendingOperations then
        some ({ s with
          pendingOperations := s.pendingOperations.erase operation
          failed := if error.isEmpty then s.failed else s.failed ++ [(operation, error)] },
          if error.isEmpty then [] else reportError error false)
      else some (s, [])
  | .matchHandlers topic payload, _ =>
      let handlers := s.subscriptions.toList.filter fun subscription =>
        topicMatches subscription.topic topic
      some (s, if handlers.isEmpty then
          reportError (ascii "Received MQTT message on " ++ topic ++
            ascii " without a registered handler") false
        else handlers.map fun subscription => .invokeHandler subscription.handler topic payload)
  | .invokeHandler handler topic payload, _ =>
      some ({ s with handlerCalls := s.handlerCalls ++ [(handler, topic, payload)] },
        [.inHandler topic])
  | .inHandler topic, choice =>
      match choice with
      | .throws what => some (s, reportError (ascii "MQTT message handler for " ++ topic ++
          ascii " failed: " ++ what) false)
      | .throwsOther _ => some (s, reportError (ascii "MQTT message handler for " ++ topic ++
          ascii " failed with an unknown exception") false)
      | .calls call =>
          if call.isApi then
            (s.enter k call).map fun r => (r.1, r.2 ++ [.inHandler topic])
          else none
      | _ => some (s, [])
  -- `Run` and its stop token
  | .enterRun endpoint, _ =>
      -- a callback registered after the stop request runs in the constructor
      some (if s.stopRequested then { s with stopFinished := true }
        else { s with stopRegistered := true }, [.checkStop endpoint 1])
  | .checkStop endpoint retryDelay, _ =>
      some (s, if s.stopRequested then disconnect ++ [.leaveRun]
        else [.readLifecycle endpoint retryDelay])
  | .readLifecycle endpoint retryDelay, _ =>
      some (s, (if s.status = .offline ∨ s.status = .error then connect endpoint else []) ++
        [.waitCheck endpoint (.attempt retryDelay)])
  | .waitCheck endpoint wait, _ =>
      some (if s.waitedFor wait then s.afterWait endpoint wait
        else ({ s with held := true }, [.waitSleep endpoint wait]))
  | .waitSleep endpoint wait, _ =>
      some ({ s with held := false, sleep := .asleep }, [.waitAsleep endpoint wait])
  | .waitAsleep endpoint wait, choice =>
      match choice with
      | .timesOut =>
          if wait.timed then some ({ s with sleep := .awake }, [.waitOver endpoint wait]) else none
      -- woken by a notification, or spuriously
      | _ => some ({ s with sleep := .awake }, [.waitCheck endpoint wait])
  | .waitOver endpoint wait, _ => some (s.afterWait endpoint wait)
  | .leaveRun, _ =>
      -- the destructor of the stop callback waits for a call in progress
      if s.stopRegistered && s.stopRequested && !s.stopFinished then none
      else some ({ s with stopRegistered := false, running := false }, [])
  | .setStop, _ =>
      if s.stopRequested then some (s, [])
      else some ({ s with stopRequested := true }, if s.stopRegistered then [.notifyStop] else [])
  | .notifyStop, _ => some ({ s.notifyAll with stopFinished := true }, [])

/-- A section under `mutex_` waits for `Run` to give the mutex up. -/
def run (k : ℕ) (s : MqttService) (a : Section) (choice : Choice) :
    Option (MqttService × List Section) :=
  if a.locks && s.held then none else s.runSection k a choice

def program : Program MqttService Section Call Choice := ⟨enter, run⟩

def machine : Machine (Threads MqttService Section) (Threads.Label Call Choice) := program.machine

end MqttService

end Watchlist.Mqtt
