import Watchlist.Concurrency.ThreadPoolManager

/-!
`RunApplication` of the desktop application: the main thread creates the workers of the
pool, gives them the storage service, the MQTT client, the event loop and the GUI to run,
waits for the GUI, asks the others to stop, waits for them, and leaves with an exit code.
Creating a worker and giving it a job may fail, and jobs may end in an exception or with a
failure; on every way out the pool is destroyed, which joins the workers, before what the
jobs use.

Of a job it is kept what makes it end, and what becomes of the storage results that report
a failure: the GUI or, at the end, the main thread gets them. What is allocated outside of
the `try` blocks does not fail here, and waiting for the profiler is left out.
-/

namespace Watchlist.Application

open Transition Concurrency

/-- What the pool is given to run. -/
inductive Job
  | sql
  | messaging
  | asyncIo
  | gui
  deriving DecidableEq

/-- In the order of the calls of `enqueue`. -/
def jobs : List Job := [.sql, .messaging, .asyncIo, .gui]

/-- The futures that are waited for after the stop, in order. -/
def joinedJobs : List Job := [.sql, .messaging, .asyncIo]

/-- Where the main thread is. -/
inductive MainPc
  /-- before the pool: the database path, and what the jobs will use -/
  | starting
  | creating
  | enqueueing
  /-- in `enqueue`, behind the locked section -/
  | notifying
  | emitting
  /-- in `guiFuture.get()` -/
  | awaiting
  -- on the normal way as in the `catch` blocks
  | stoppingStorage
  | stoppingMessaging
  | stoppingLoop
  /-- in the first of these futures' `get` -/
  | getting (rest : List Job)
  | polling
  -- `StopAndJoinWorkers`
  | settingStop
  | notifyingAll
  | joining (worker : ℕ)
  | returned
  deriving DecidableEq

/-- The calls of `notify_one` that the main thread has still to make. -/
def MainPc.notifyOnes : MainPc → ℕ
  | .notifying => 1
  | _ => 0

def MainPc.notifyAlls : MainPc → ℕ
  | .notifyingAll => 1
  | _ => 0

/-- Whether `stop_` has been set. -/
def MainPc.stopsPool : MainPc → Option Bool
  | .notifyingAll | .joining _ => some true
  | .returned => none
  | _ => some false

structure DesktopRun (n : ℕ) where
  pool : ThreadPoolManager n Job
  pc : MainPc
  /-- the size of `workers_` -/
  created : ℕ
  enqueued : ℕ
  storageStop : Bool
  messagingStop : Bool
  loopStop : Bool
  /-- among the results that nobody has polled is a failure -/
  failedResults : Bool
  /-- the GUI has polled a failure -/
  guiFailed : Bool
  /-- what `ImGuiStart` has returned -/
  guiSuccess : Bool
  /-- `result.success` -/
  result : Bool
  /-- the main thread leaves with an exception -/
  threw : Bool
  /-- there was a failure among the results -/
  anyFailed : Bool

namespace DesktopRun

variable {n : ℕ}

def initial (n : ℕ) : DesktopRun n where
  pool := .initial n Job
  pc := .starting
  created := 0
  enqueued := 0
  storageStop := false
  messagingStop := false
  loopStop := false
  failedResults := false
  guiFailed := false
  guiSuccess := false
  result := false
  threw := false
  anyFailed := false

def goTo (s : DesktopRun n) (pc : MainPc) : DesktopRun n := { s with pc := pc }

def throwTo (s : DesktopRun n) (pc : MainPc) : DesktopRun n := { s with threw := true, pc := pc }

/-- What the future of a job holds: whether the job threw. -/
def future (s : DesktopRun n) (job : Job) : Option Bool :=
  (s.pool.finished.find? fun f => f.1.task == job).map Prod.snd

def isExited (s : DesktopRun n) (w : Fin n) : Bool :=
  match s.pool.workers w with | .exited => true | _ => false

def runs (s : DesktopRun n) (w : Fin n) (job : Job) : Bool :=
  match s.pool.workers w with | .running t => t.task == job | _ => false

def exitCode (s : DesktopRun n) : ℕ := if s.threw || !s.result then 1 else 0

/-! ### The jobs -/

/-- Whether the job can end in this way. The storage service ends early when the database
cannot be initialised, which is a failed result; the GUI does not succeed once it has polled
one. -/
def mayEnd (s : DesktopRun n) (threw success : Bool) : Job → Bool
  | .sql => !threw && (s.storageStop || !success)
  | .messaging => true
  | .asyncIo => threw || s.loopStop
  | .gui => threw || !success || !s.guiFailed

/-- What the job leaves behind. `ImGuiStart` stops the storage service before it returns. -/
def afterJob (s : DesktopRun n) (threw success : Bool) : Job → DesktopRun n
  | .sql => { s with
      failedResults := s.failedResults || !success
      anyFailed := s.anyFailed || !success }
  | .gui => { s with guiSuccess := success, storageStop := s.storageStop || !threw }
  | .messaging | .asyncIo => s

inductive Label (n : ℕ)
  /-- the next step of the main thread -/
  | main (fails : Bool)
  /-- the `notify_one` of `enqueue`, waking the given sleeper -/
  | notifyOne (w : Fin n)
  | notifyNobody
  | lock (w : Fin n)
  | wakeSpuriously (w : Fin n)
  | finish (w : Fin n) (threw success : Bool)
  /-- a storage command fails -/
  | storageError (w : Fin n)
  /-- the GUI polls a failure -/
  | guiPoll (w : Fin n)
  | guiStops (w : Fin n)

/-- The next step of the main thread; `fails` tells whether the call in it throws. -/
def advance (s : DesktopRun n) (fails : Bool) : Option (DesktopRun n) :=
  match s.pc with
  | .starting => some (if fails then s.throwTo .returned else s.goTo .creating)
  | .creating =>
      if s.created < n then
        some (if fails then s.throwTo .settingStop else { s with created := s.created + 1 })
      else some (s.goTo .enqueueing)
  | .enqueueing =>
      match jobs[s.enqueued]? with
      | none => some (s.goTo .emitting)
      | some job =>
          if fails then some (s.throwTo .stoppingStorage)
          else (s.pool.step (.enqueue job)).map fun p =>
            { s with pool := p, enqueued := s.enqueued + 1, pc := .notifying }
  | .notifying => none
  | .emitting => some (s.goTo .awaiting)
  | .awaiting => (s.future .gui).map fun threw =>
      if threw then s.throwTo .stoppingStorage
      else { s with result := s.guiSuccess, pc := .stoppingStorage }
  | .stoppingStorage => some { s with storageStop := true, pc := .stoppingMessaging }
  | .stoppingMessaging => some { s with messagingStop := true, pc := .stoppingLoop }
  | .stoppingLoop => some { s with
      loopStop := true
      pc := if s.threw then .settingStop else .getting joinedJobs }
  | .getting [] => some (s.goTo .polling)
  | .getting (job :: rest) => (s.future job).map fun threw =>
      if threw then s.throwTo .settingStop else s.goTo (.getting rest)
  | .polling => some { s with
      result := s.result && !s.failedResults
      failedResults := false
      pc := .settingStop }
  | .settingStop => (s.pool.step .setStop).map fun p => { s with pool := p, pc := .notifyingAll }
  | .notifyingAll => (s.pool.step .notifyAll).map fun p => { s with pool := p, pc := .joining 0 }
  | .joining worker =>
      if worker < s.created then
        allow (∀ w : Fin n, w.val = worker → s.isExited w = true) (s.goTo (.joining (worker + 1)))
      else some (s.goTo .returned)
  | .returned => none

def step (s : DesktopRun n) : Label n → Option (DesktopRun n)
  | .main fails => s.advance fails
  | .notifyOne w =>
      if s.pc = .notifying then
        (s.pool.step (.notifyOne w)).map fun p => { s with pool := p, pc := .enqueueing }
      else none
  | .notifyNobody =>
      if s.pc = .notifying then
        (s.pool.step .notifyNobody).map fun p => { s with pool := p, pc := .enqueueing }
      else none
  | .lock w =>
      if w.val < s.created then (s.pool.step (.lock w)).map fun p => { s with pool := p }
      else none
  | .wakeSpuriously w => (s.pool.step (.wakeSpuriously w)).map fun p => { s with pool := p }
  | .finish w threw success =>
      match s.pool.workers w with
      | .running t =>
          if s.mayEnd threw success t.task then
            (s.pool.step (.finish w threw)).map fun p =>
              { s.afterJob threw success t.task with pool := p }
          else none
      | _ => none
  | .storageError w =>
      allow (s.runs w .sql = true) { s with failedResults := true, anyFailed := true }
  | .guiPoll w =>
      allow (s.runs w .gui = true ∧ s.failedResults = true)
        { s with failedResults := false, guiFailed := true, storageStop := true }
  | .guiStops w =>
      allow (s.runs w .gui = true ∧ s.storageStop = false) { s with storageStop := true }

def machine (n : ℕ) : Machine (DesktopRun n) (Label n) := ⟨step⟩

/-- Each worker takes a job as soon as it is accepted, and the main thread comes to wait for the
GUI. -/
def heldRun (n : ℕ) : List (Label n) :=
  List.replicate (n + 2) (.main false) ++
    ((List.finRange n).flatMap fun w => [.main false, .notifyNobody, .lock w]) ++
    (List.replicate (4 - n) [.main false, .notifyNobody]).flatten ++ [.main false, .main false]

variable {s t : DesktopRun n} {l : Label n}

/-! ### What a step can do -/

/-- The ways in which the main thread goes on. -/
inductive MainStep (s : DesktopRun n) : DesktopRun n → Prop
  | start (hpc : s.pc = .starting) : MainStep s (s.goTo .creating)
  | startFails (hpc : s.pc = .starting) : MainStep s (s.throwTo .returned)
  | create (hpc : s.pc = .creating) (hmore : s.created < n) :
      MainStep s { s with created := s.created + 1 }
  | createFails (hpc : s.pc = .creating) (hmore : s.created < n) :
      MainStep s (s.throwTo .settingStop)
  | createdAll (hpc : s.pc = .creating) (hall : ¬s.created < n) :
      MainStep s (s.goTo .enqueueing)
  | enqueue {job : Job} (hpc : s.pc = .enqueueing) (hjob : jobs[s.enqueued]? = some job) :
      MainStep s { s with
        pool := s.pool.enqueue job, enqueued := s.enqueued + 1, pc := .notifying }
  | enqueueFails {job : Job} (hpc : s.pc = .enqueueing) (hjob : jobs[s.enqueued]? = some job) :
      MainStep s (s.throwTo .stoppingStorage)
  | enqueuedAll (hpc : s.pc = .enqueueing) (hall : jobs[s.enqueued]? = none) :
      MainStep s (s.goTo .emitting)
  | emit (hpc : s.pc = .emitting) : MainStep s (s.goTo .awaiting)
  | guiReturned (hpc : s.pc = .awaiting) (hget : s.future .gui = some false) :
      MainStep s { s with result := s.guiSuccess, pc := .stoppingStorage }
  | guiThrew (hpc : s.pc = .awaiting) (hget : s.future .gui = some true) :
      MainStep s (s.throwTo .stoppingStorage)
  | stopStorage (hpc : s.pc = .stoppingStorage) :
      MainStep s { s with storageStop := true, pc := .stoppingMessaging }
  | stopMessaging (hpc : s.pc = .stoppingMessaging) :
      MainStep s { s with messagingStop := true, pc := .stoppingLoop }
  | stopLoop (hpc : s.pc = .stoppingLoop) (hthrew : s.threw = false) :
      MainStep s { s with loopStop := true, pc := .getting joinedJobs }
  | stopLoopThrew (hpc : s.pc = .stoppingLoop) (hthrew : s.threw = true) :
      MainStep s { s with loopStop := true, pc := .settingStop }
  | get {job : Job} {rest : List Job} (hpc : s.pc = .getting (job :: rest))
      (hget : s.future job = some false) : MainStep s (s.goTo (.getting rest))
  | getThrew {job : Job} {rest : List Job} (hpc : s.pc = .getting (job :: rest))
      (hget : s.future job = some true) : MainStep s (s.throwTo .settingStop)
  | gotAll (hpc : s.pc = .getting []) : MainStep s (s.goTo .polling)
  | poll (hpc : s.pc = .polling) :
      MainStep s { s with
        result := s.result && !s.failedResults, failedResults := false, pc := .settingStop }
  | setStop (hpc : s.pc = .settingStop) :
      MainStep s { s with pool := s.pool.setStop, pc := .notifyingAll }
  | notifyAll (hpc : s.pc = .notifyingAll) (hall : 0 < s.pool.notifyAlls) :
      MainStep s { s with
        pool := { s.pool.wakeAll with notifyAlls := s.pool.notifyAlls - 1 }, pc := .joining 0 }
  | join {worker : ℕ} (hpc : s.pc = .joining worker) (hmore : worker < s.created)
      (hexited : ∀ w : Fin n, w.val = worker → s.isExited w = true) :
      MainStep s (s.goTo (.joining (worker + 1)))
  | joinedAll {worker : ℕ} (hpc : s.pc = .joining worker) (hall : ¬worker < s.created) :
      MainStep s (s.goTo .returned)

theorem main_cases {fails : Bool} (h : s.advance fails = some t) : MainStep s t := by
  unfold advance at h
  split at h
  case h_1 hpc =>
    obtain rfl := Option.some.inj h
    split
    · exact .startFails hpc
    · exact .start hpc
  case h_2 hpc =>
    split at h
    · rename_i hmore
      obtain rfl := Option.some.inj h
      split
      · exact .createFails hpc hmore
      · exact .create hpc hmore
    · rename_i hall
      obtain rfl := Option.some.inj h
      exact .createdAll hpc hall
  case h_3 hpc =>
    split at h
    · rename_i hall
      obtain rfl := Option.some.inj h
      exact .enqueuedAll hpc hall
    · rename_i job hjob
      split at h
      · obtain rfl := Option.some.inj h
        exact .enqueueFails hpc hjob
      · obtain ⟨p, hstep, rfl⟩ := Option.map_eq_some_iff.mp h
        obtain rfl := Option.some.inj hstep
        exact .enqueue hpc hjob
  case h_4 => cases h
  case h_5 hpc =>
    obtain rfl := Option.some.inj h
    exact .emit hpc
  case h_6 hpc =>
    obtain ⟨threw, hget, rfl⟩ := Option.map_eq_some_iff.mp h
    cases threw with
    | true => exact .guiThrew hpc hget
    | false => exact .guiReturned hpc hget
  case h_7 hpc =>
    obtain rfl := Option.some.inj h
    exact .stopStorage hpc
  case h_8 hpc =>
    obtain rfl := Option.some.inj h
    exact .stopMessaging hpc
  case h_9 hpc =>
    obtain rfl := Option.some.inj h
    split
    · rename_i hthrew
      exact .stopLoopThrew hpc hthrew
    · rename_i hthrew
      exact .stopLoop hpc (Bool.eq_false_of_not_eq_true hthrew)
  case h_10 hpc =>
    obtain rfl := Option.some.inj h
    exact .gotAll hpc
  case h_11 job rest hpc =>
    obtain ⟨threw, hget, rfl⟩ := Option.map_eq_some_iff.mp h
    cases threw with
    | true => exact .getThrew hpc hget
    | false => exact .get hpc hget
  case h_12 hpc =>
    obtain rfl := Option.some.inj h
    exact .poll hpc
  case h_13 hpc =>
    obtain ⟨p, hstep, rfl⟩ := Option.map_eq_some_iff.mp h
    obtain rfl := Option.some.inj hstep
    exact .setStop hpc
  case h_14 hpc =>
    obtain ⟨p, hstep, rfl⟩ := Option.map_eq_some_iff.mp h
    obtain ⟨hall, rfl⟩ := allow_eq_some.mp hstep
    exact .notifyAll hpc hall
  case h_15 worker hpc =>
    split at h
    · rename_i hmore
      obtain ⟨hexited, rfl⟩ := allow_eq_some.mp h
      exact .join hpc hmore hexited
    · rename_i hall
      obtain rfl := Option.some.inj h
      exact .joinedAll hpc hall
  case h_16 => cases h

/-- The ways in which a step comes out. -/
inductive Does (s : DesktopRun n) : Label n → DesktopRun n → Prop
  | main {fails : Bool} {t : DesktopRun n} (h : MainStep s t) : Does s (.main fails) t
  | notifyOne {w : Fin n} (hpc : s.pc = .notifying) (hone : 0 < s.pool.notifyOnes)
      (hasleep : s.pool.workers w = .asleep) :
      Does s (.notifyOne w) { s with
        pool := { s.pool.setWorker w .ready with notifyOnes := s.pool.notifyOnes - 1 }
        pc := .enqueueing }
  | notifyNobody (hpc : s.pc = .notifying) (hone : 0 < s.pool.notifyOnes)
      (hnobody : ∀ w, s.pool.isAsleep w = false) :
      Does s .notifyNobody { s with
        pool := { s.pool with notifyOnes := s.pool.notifyOnes - 1 }, pc := .enqueueing }
  | lock {w : Fin n} (hcreated : w.val < s.created) (hready : s.pool.workers w = .ready) :
      Does s (.lock w) { s with pool := s.pool.lock w }
  | wakeSpuriously {w : Fin n} (hasleep : s.pool.workers w = .asleep) :
      Does s (.wakeSpuriously w) { s with pool := s.pool.setWorker w .ready }
  | finish {w : Fin n} {threw success : Bool} {ticket : Ticket Job}
      (hruns : s.pool.workers w = .running ticket)
      (hmay : s.mayEnd threw success ticket.task = true) :
      Does s (.finish w threw success) { s.afterJob threw success ticket.task with
        pool := { s.pool.setWorker w .ready with
          finished := s.pool.finished ++ [(ticket, threw)] } }
  | storageError {w : Fin n} (hruns : s.runs w .sql = true) :
      Does s (.storageError w) { s with failedResults := true, anyFailed := true }
  | guiPoll {w : Fin n} (hruns : s.runs w .gui = true) (hfailed : s.failedResults = true) :
      Does s (.guiPoll w) { s with failedResults := false, guiFailed := true, storageStop := true }
  | guiStops {w : Fin n} (hruns : s.runs w .gui = true) (hfirst : s.storageStop = false) :
      Does s (.guiStops w) { s with storageStop := true }

theorem does_of_step (h : (machine n).step s l = some t) : Does s l t := by
  cases l with
  | main fails => exact .main (main_cases h)
  | notifyOne w =>
      replace h : (if _ then _ else _ : Option (DesktopRun n)) = _ := h
      split at h
      · rename_i hpc
        obtain ⟨p, hstep, rfl⟩ := Option.map_eq_some_iff.mp h
        obtain ⟨⟨hone, hasleep⟩, rfl⟩ := allow_eq_some.mp hstep
        exact .notifyOne hpc hone (ThreadPoolManager.workers_of_isAsleep hasleep)
      · cases h
  | notifyNobody =>
      replace h : (if _ then _ else _ : Option (DesktopRun n)) = _ := h
      split at h
      · rename_i hpc
        obtain ⟨p, hstep, rfl⟩ := Option.map_eq_some_iff.mp h
        obtain ⟨⟨hone, hnobody⟩, rfl⟩ := allow_eq_some.mp hstep
        exact .notifyNobody hpc hone hnobody
      · cases h
  | lock w =>
      replace h : (if _ then _ else _ : Option (DesktopRun n)) = _ := h
      split at h
      · rename_i hcreated
        obtain ⟨p, hstep, rfl⟩ := Option.map_eq_some_iff.mp h
        obtain ⟨hready, rfl⟩ := allow_eq_some.mp hstep
        exact .lock hcreated (ThreadPoolManager.workers_of_isReady hready)
      · cases h
  | wakeSpuriously w =>
      obtain ⟨p, hstep, rfl⟩ := Option.map_eq_some_iff.mp h
      obtain ⟨hasleep, rfl⟩ := allow_eq_some.mp hstep
      exact .wakeSpuriously (ThreadPoolManager.workers_of_isAsleep hasleep)
  | finish w threw success =>
      replace h : (match s.pool.workers w with | .running t => _ | _ => _) = some _ := h
      split at h
      · rename_i ticket hruns
        split at h
        · rename_i hmay
          obtain ⟨p, hstep, rfl⟩ := Option.map_eq_some_iff.mp h
          simp only [ThreadPoolManager.step, hruns] at hstep
          obtain rfl := Option.some.inj hstep
          exact .finish hruns hmay
        · cases h
      · cases h
  | storageError w =>
      obtain ⟨hruns, rfl⟩ := allow_eq_some.mp h
      exact .storageError hruns
  | guiPoll w =>
      obtain ⟨⟨hruns, hfailed⟩, rfl⟩ := allow_eq_some.mp h
      exact .guiPoll hruns hfailed
  | guiStops w =>
      obtain ⟨⟨hruns, hfirst⟩, rfl⟩ := allow_eq_some.mp h
      exact .guiStops hruns hfirst

/-! ### The pool beside the main thread -/

theorem isExited_iff {w : Fin n} : s.isExited w = true ↔ s.pool.workers w = .exited := by
  unfold isExited
  cases s.pool.workers w <;> simp

theorem runs_iff {w : Fin n} {job : Job} :
    s.runs w job = true ↔ ∃ ticket, s.pool.workers w = .running ticket ∧ ticket.task = job := by
  unfold runs
  cases s.pool.workers w <;> simp

/-- All have been asked to stop. -/
structure AllStopped (s : DesktopRun n) : Prop where
  storage : s.storageStop = true
  messaging : s.messagingStop = true
  loop : s.loopStop = true

/-- What holds where the main thread is. -/
def At (s : DesktopRun n) : MainPc → Prop
  | .starting => s.created = 0 ∧ s.enqueued = 0 ∧ s.threw = false
  | .creating => s.enqueued = 0 ∧ s.threw = false
  | .enqueueing | .notifying => s.created = n ∧ s.threw = false
  | .emitting | .awaiting => s.created = n ∧ s.enqueued = 4 ∧ s.threw = false
  | .stoppingStorage => s.created = n ∧ (s.threw = false → s.enqueued = 4)
  | .stoppingMessaging =>
      s.created = n ∧ (s.threw = false → s.enqueued = 4) ∧ s.storageStop = true
  | .stoppingLoop =>
      s.created = n ∧ (s.threw = false → s.enqueued = 4) ∧ s.storageStop = true ∧
        s.messagingStop = true
  | .getting _ | .polling => s.created = n ∧ s.enqueued = 4 ∧ s.threw = false ∧ s.AllStopped
  | .settingStop | .notifyingAll => s.enqueued = 0 ∨ s.AllStopped
  | .joining worker =>
      (s.enqueued = 0 ∨ s.AllStopped) ∧ ∀ w : Fin n, w.val < worker → s.isExited w = true
  | .returned => ∀ w : Fin n, w.val < s.created → s.isExited w = true

/-- What holds in every state. -/
structure Sound (s : DesktopRun n) : Prop where
  reaches : (ThreadPoolManager.machine n Job).Reaches (.initial n Job) s.pool
  notifyOnes : s.pool.notifyOnes = s.pc.notifyOnes
  notifyAlls : s.pool.notifyAlls = s.pc.notifyAlls
  stop : ∀ b, s.pc.stopsPool = some b → s.pool.stop = b
  accepted : s.pool.accepted.map Ticket.task = jobs.take s.enqueued
  enqueued : s.enqueued ≤ 4
  created : s.created ≤ n
  full : s.enqueued = 0 ∨ s.created = n
  unstarted : ∀ w : Fin n, s.created ≤ w.val → s.pool.workers w = .ready
  place : s.At s.pc

theorem sound_initial : Sound (initial n) where
  reaches := .refl _ _
  notifyOnes := rfl
  notifyAlls := rfl
  stop := by
    rintro b hb
    exact Option.some.inj hb
  accepted := rfl
  enqueued := Nat.zero_le _
  created := Nat.zero_le _
  full := .inl rfl
  unstarted _ _ := rfl
  place := ⟨rfl, rfl, rfl⟩

/-- Beside the main thread it stays where it is, a stop that has been requested stays so, and a
worker that has left. -/
theorem At.mono {pc : MainPc} (h : s.At pc) (hcreated : t.created = s.created)
    (henqueued : t.enqueued = s.enqueued) (hthrew : t.threw = s.threw)
    (hstorage : s.storageStop = true → t.storageStop = true)
    (hmessaging : t.messagingStop = s.messagingStop) (hloop : t.loopStop = s.loopStop)
    (hexited : ∀ w, s.pool.workers w = .exited → t.pool.workers w = .exited) : t.At pc := by
  have hall : s.AllStopped → t.AllStopped := fun h =>
    ⟨hstorage h.storage, hmessaging.trans h.messaging, hloop.trans h.loop⟩
  have hleft : ∀ w, s.isExited w = true → t.isExited w = true := fun w hw =>
    isExited_iff.mpr (hexited w (isExited_iff.mp hw))
  cases pc <;> simp only [At, hcreated, henqueued, hthrew, hmessaging] at h ⊢
  case stoppingMessaging => exact ⟨h.1, h.2.1, hstorage h.2.2⟩
  case stoppingLoop => exact ⟨h.1, h.2.1, hstorage h.2.2.1, h.2.2.2⟩
  case getting | polling => exact ⟨h.1, h.2.1, h.2.2.1, hall h.2.2.2⟩
  case settingStop | notifyingAll => exact h.imp_right hall
  case joining => exact ⟨h.1.imp_right hall, fun w hw => hleft w (h.2 w hw)⟩
  case returned => exact fun w hw => hleft w (h w hw)
  all_goals exact h

/-- The main thread moves on, and the pool is as it was. -/
theorem Sound.move (h : Sound s) {a b : MainPc} (hfrom : s.pc = a) (hto : t.pc = b)
    (hpool : t.pool = s.pool) (hcreated : t.created = s.created)
    (henqueued : t.enqueued = s.enqueued) (hones : b.notifyOnes = a.notifyOnes)
    (halls : b.notifyAlls = a.notifyAlls)
    (hstops : ∀ c, b.stopsPool = some c → a.stopsPool = some c) (hplace : s.At a → t.At b) :
    Sound t where
  reaches := hpool ▸ h.reaches
  notifyOnes := by rw [hpool, h.notifyOnes, hfrom, hto, hones]
  notifyAlls := by rw [hpool, h.notifyAlls, hfrom, hto, halls]
  stop c hc := by
    rw [hpool]
    exact h.stop c (hfrom ▸ hstops c (hto ▸ hc))
  accepted := by rw [hpool, henqueued, h.accepted]
  enqueued := henqueued ▸ h.enqueued
  created := hcreated ▸ h.created
  full := by rw [henqueued, hcreated]; exact h.full
  unstarted := by rw [hpool, hcreated]; exact h.unstarted
  place := hto ▸ hplace (hfrom ▸ h.place)

/-- A step of the pool, or of a job that is running, leaves the main thread where it is. -/
theorem Sound.beside (h : Sound s) (hpc : t.pc = s.pc) (hcreated : t.created = s.created)
    (henqueued : t.enqueued = s.enqueued) (hthrew : t.threw = s.threw)
    (hstorage : s.storageStop = true → t.storageStop = true)
    (hmessaging : t.messagingStop = s.messagingStop) (hloop : t.loopStop = s.loopStop)
    (hreaches : (ThreadPoolManager.machine n Job).Reaches (.initial n Job) t.pool)
    (hones : t.pool.notifyOnes = s.pool.notifyOnes)
    (halls : t.pool.notifyAlls = s.pool.notifyAlls) (hstop : t.pool.stop = s.pool.stop)
    (haccepted : t.pool.accepted = s.pool.accepted)
    (hexited : ∀ w, s.pool.workers w = .exited → t.pool.workers w = .exited)
    (hready : ∀ w : Fin n, s.created ≤ w.val → s.pool.workers w = .ready →
      t.pool.workers w = .ready) : Sound t where
  reaches := hreaches
  notifyOnes := by rw [hones, hpc, h.notifyOnes]
  notifyAlls := by rw [halls, hpc, h.notifyAlls]
  stop := by rw [hpc, hstop]; exact h.stop
  accepted := by rw [haccepted, henqueued, h.accepted]
  enqueued := henqueued ▸ h.enqueued
  created := hcreated ▸ h.created
  full := by rw [henqueued, hcreated]; exact h.full
  unstarted w hw := hready w (hcreated ▸ hw) (h.unstarted w (hcreated ▸ hw))
  place := by
    rw [hpc]
    exact h.place.mono hcreated henqueued hthrew hstorage hmessaging hloop hexited

theorem AllStopped.of_eq (h : s.AllStopped) (hstorage : t.storageStop = s.storageStop)
    (hmessaging : t.messagingStop = s.messagingStop) (hloop : t.loopStop = s.loopStop) :
    t.AllStopped :=
  ⟨hstorage.trans h.storage, hmessaging.trans h.messaging, hloop.trans h.loop⟩

/-- What the main thread owes the pool where it is. -/
theorem Sound.owes (h : Sound s) {pc : MainPc} (hpc : s.pc = pc) :
    s.pool.notifyOnes = pc.notifyOnes ∧ s.pool.notifyAlls = pc.notifyAlls :=
  ⟨hpc ▸ h.notifyOnes, hpc ▸ h.notifyAlls⟩

/-- A job is accepted, as nobody has stopped the pool. -/
theorem Sound.enqueue (h : Sound s) {job : Job} (hpc : s.pc = .enqueueing)
    (hjob : jobs[s.enqueued]? = some job) : Sound { s with
      pool := s.pool.enqueue job, enqueued := s.enqueued + 1, pc := .notifying } := by
  obtain ⟨hcreated, hthrew⟩ : s.At .enqueueing := hpc ▸ h.place
  have hstop : s.pool.stop = false := h.stop false (by rw [hpc]; rfl)
  obtain ⟨hones, halls⟩ := h.owes hpc
  have hpool : s.pool.enqueue job = { s.pool with
      tasks := s.pool.tasks ++ [s.pool.nextTicket job]
      accepted := s.pool.accepted ++ [s.pool.nextTicket job]
      notifyOnes := s.pool.notifyOnes + 1 } := if_neg (by simp [hstop])
  exact {
    reaches := h.reaches.step (l := .enqueue job) rfl
    notifyOnes := by rw [hpool, hones]; rfl
    notifyAlls := by rw [hpool]; exact halls
    stop := by
      rintro b ⟨⟩
      rw [hpool, hstop]
    accepted := by
      rw [hpool, List.map_append, h.accepted, List.take_add_one, hjob]
      rfl
    enqueued := (List.getElem?_eq_some_iff.mp hjob).1
    created := h.created
    full := .inr hcreated
    unstarted := by rw [hpool]; exact h.unstarted
    place := ⟨hcreated, hthrew⟩ }

theorem Sound.setStop (h : Sound s) (hpc : s.pc = .settingStop) :
    Sound { s with pool := s.pool.setStop, pc := .notifyingAll } where
  reaches := h.reaches.step (l := .setStop) rfl
  notifyOnes := (h.owes hpc).1
  notifyAlls := congrArg (· + 1) (h.owes hpc).2
  stop := by
    rintro b ⟨⟩
    rfl
  accepted := h.accepted
  enqueued := h.enqueued
  created := h.created
  full := h.full
  unstarted := h.unstarted
  place := by
    have hplace : s.At .settingStop := hpc ▸ h.place
    exact hplace.imp_right fun hall => hall.of_eq rfl rfl rfl

theorem Sound.notifyAll (h : Sound s) (hpc : s.pc = .notifyingAll) (hall : 0 < s.pool.notifyAlls) :
    Sound { s with
      pool := { s.pool.wakeAll with notifyAlls := s.pool.notifyAlls - 1 }, pc := .joining 0 } where
  reaches := h.reaches.step (l := .notifyAll) (allow_eq_some.mpr ⟨hall, rfl⟩)
  notifyOnes := (h.owes hpc).1
  notifyAlls := congrArg (· - 1) (h.owes hpc).2
  stop := by
    rintro b ⟨⟩
    exact h.stop true (by rw [hpc]; rfl)
  accepted := h.accepted
  enqueued := h.enqueued
  created := h.created
  full := h.full
  unstarted w hw := by
    show (s.pool.wakeAll).workers w = .ready
    simp only [ThreadPoolManager.wakeAll, h.unstarted w hw]
  place := by
    have hplace : s.At .notifyingAll := hpc ▸ h.place
    exact ⟨hplace.imp_right fun hall => hall.of_eq rfl rfl rfl, fun _ hw =>
      absurd hw (Nat.not_lt_zero _)⟩

/-- The notification that `enqueue` owes is issued, to a sleeper or to nobody. -/
theorem Sound.notified (h : Sound s) (hpc : s.pc = .notifying)
    {workers : Fin n → WorkerPc Job}
    (hreaches : (ThreadPoolManager.machine n Job).Reaches (.initial n Job)
      { s.pool with workers := workers, notifyOnes := s.pool.notifyOnes - 1 })
    (hready : ∀ w, s.pool.workers w = .ready → workers w = .ready) : Sound { s with
      pool := { s.pool with workers := workers, notifyOnes := s.pool.notifyOnes - 1 }
      pc := .enqueueing } where
  reaches := hreaches
  notifyOnes := congrArg (· - 1) (h.owes hpc).1
  notifyAlls := (h.owes hpc).2
  stop := by
    rintro b ⟨⟩
    exact h.stop false (by rw [hpc]; rfl)
  accepted := h.accepted
  enqueued := h.enqueued
  created := h.created
  full := h.full
  unstarted w hw := hready w (h.unstarted w hw)
  place := by
    have hplace : s.At .notifying := hpc ▸ h.place
    exact hplace

theorem Sound.main (h : Sound s) (hstep : MainStep s t) : Sound t := by
  cases hstep with
  | start hpc =>
      exact h.move hpc rfl rfl rfl rfl rfl rfl (fun _ => id) And.right
  | startFails hpc =>
      refine h.move hpc rfl rfl rfl rfl rfl rfl nofun fun ⟨hcreated, _⟩ w hw => ?_
      exact absurd (hcreated ▸ hw : w.val < 0) (Nat.not_lt_zero _)
  | create hpc hmore =>
      obtain ⟨henqueued, hthrew⟩ : s.At .creating := hpc ▸ h.place
      exact { h with
        created := hmore
        full := .inl henqueued
        unstarted := fun w hw => h.unstarted w (Nat.le_of_succ_le hw)
        place := by
          show At _ s.pc
          rw [hpc]
          exact ⟨henqueued, hthrew⟩ }
  | createFails hpc hmore =>
      exact h.move hpc rfl rfl rfl rfl rfl rfl (fun _ => id) fun ⟨henqueued, _⟩ => .inl henqueued
  | createdAll hpc hall =>
      exact h.move hpc rfl rfl rfl rfl rfl rfl (fun _ => id) fun ⟨_, hthrew⟩ =>
        ⟨le_antisymm h.created (not_lt.mp hall), hthrew⟩
  | enqueue hpc hjob => exact h.enqueue hpc hjob
  | enqueueFails hpc hjob =>
      exact h.move hpc rfl rfl rfl rfl rfl rfl (fun _ => id) fun ⟨hcreated, _⟩ =>
        ⟨hcreated, nofun⟩
  | enqueuedAll hpc hall =>
      exact h.move hpc rfl rfl rfl rfl rfl rfl (fun _ => id) fun ⟨hcreated, hthrew⟩ =>
        ⟨hcreated, le_antisymm h.enqueued (List.getElem?_eq_none_iff.mp hall), hthrew⟩
  | emit hpc => exact h.move hpc rfl rfl rfl rfl rfl rfl (fun _ => id) id
  | guiReturned hpc hget =>
      exact h.move hpc rfl rfl rfl rfl rfl rfl (fun _ => id) fun ⟨hcreated, henqueued, _⟩ =>
        ⟨hcreated, fun _ => henqueued⟩
  | guiThrew hpc hget =>
      exact h.move hpc rfl rfl rfl rfl rfl rfl (fun _ => id) fun ⟨hcreated, _⟩ =>
        ⟨hcreated, nofun⟩
  | stopStorage hpc =>
      exact h.move hpc rfl rfl rfl rfl rfl rfl (fun _ => id) fun ⟨hcreated, henqueued⟩ =>
        ⟨hcreated, henqueued, rfl⟩
  | stopMessaging hpc =>
      exact h.move hpc rfl rfl rfl rfl rfl rfl (fun _ => id)
        fun ⟨hcreated, henqueued, hstorage⟩ => ⟨hcreated, henqueued, hstorage, rfl⟩
  | stopLoop hpc hthrew =>
      exact h.move hpc rfl rfl rfl rfl rfl rfl (fun _ => id)
        fun ⟨hcreated, henqueued, hstorage, hmessaging⟩ =>
          ⟨hcreated, henqueued hthrew, hthrew, hstorage, hmessaging, rfl⟩
  | stopLoopThrew hpc hthrew =>
      exact h.move hpc rfl rfl rfl rfl rfl rfl (fun _ => id)
        fun ⟨_, _, hstorage, hmessaging⟩ => .inr ⟨hstorage, hmessaging, rfl⟩
  | get hpc hget | gotAll hpc =>
      exact h.move hpc rfl rfl rfl rfl rfl rfl (fun _ => id)
        fun ⟨hcreated, henqueued, hthrew, hall⟩ =>
          ⟨hcreated, henqueued, hthrew, hall.of_eq rfl rfl rfl⟩
  | getThrew hpc hget | poll hpc =>
      exact h.move hpc rfl rfl rfl rfl rfl rfl (fun _ => id)
        fun ⟨_, _, _, hall⟩ => .inr (hall.of_eq rfl rfl rfl)
  | setStop hpc => exact h.setStop hpc
  | notifyAll hpc hall => exact h.notifyAll hpc hall
  | join hpc hmore hexited =>
      refine h.move hpc rfl rfl rfl rfl rfl rfl (fun _ => id) fun ⟨hstopped, hleft⟩ =>
        ⟨hstopped.imp_right fun hall => hall.of_eq rfl rfl rfl, fun w hw => ?_⟩
      rcases Nat.lt_succ_iff_lt_or_eq.mp hw with hbefore | hlast
      · exact hleft w hbefore
      · exact hexited w hlast
  | joinedAll hpc hall =>
      exact h.move hpc rfl rfl rfl rfl rfl rfl nofun fun ⟨_, hleft⟩ w hw =>
        hleft w (hw.trans_le (not_lt.mp hall))

/-- A worker in its locked section changes neither what the others are at nor what is told to
whom. -/
theorem lock_frame (p : ThreadPoolManager n Job) (w : Fin n) :
    (p.lock w).notifyOnes = p.notifyOnes ∧ (p.lock w).notifyAlls = p.notifyAlls ∧
      (p.lock w).stop = p.stop ∧ (p.lock w).accepted = p.accepted ∧
      (p.lock w).finished = p.finished ∧
      ∀ w', w' ≠ w → (p.lock w).workers w' = p.workers w' := by
  have hother (pc : WorkerPc Job) (w' : Fin n) (hne : w' ≠ w) :
      (p.setWorker w pc).workers w' = p.workers w' := Function.update_of_ne hne _ _
  unfold ThreadPoolManager.lock
  split
  · split <;> exact ⟨rfl, rfl, rfl, rfl, rfl, hother _⟩
  · exact ⟨rfl, rfl, rfl, rfl, rfl, hother _⟩

/-- A worker that sleeps or runs goes back to the queue. -/
theorem workers_ready {p : ThreadPoolManager n Job} {w w' : Fin n}
    (hw : p.workers w ≠ .exited) :
    (p.workers w' = .exited → (p.setWorker w .ready).workers w' = .exited) ∧
      (p.workers w' = .ready → (p.setWorker w .ready).workers w' = .ready) := by
  rw [ThreadPoolManager.workers_setWorker]
  split
  · rename_i heq
    subst heq
    exact ⟨fun hexited => absurd hexited hw, fun _ => rfl⟩
  · exact ⟨id, id⟩

theorem Sound.does (h : Sound s) (hdoes : Does s l t) : Sound t := by
  cases hdoes with
  | main hstep => exact h.main hstep
  | @notifyOne w hpc hone hasleep =>
      have hsleeps : s.pool.isAsleep w = true := by rw [ThreadPoolManager.isAsleep, hasleep]
      exact h.notified hpc
        (h.reaches.step (l := .notifyOne w) (allow_eq_some.mpr ⟨⟨hone, hsleeps⟩, rfl⟩))
        fun _ => (workers_ready (by simp [hasleep])).2
  | notifyNobody hpc hone hnobody =>
      exact h.notified hpc
        (h.reaches.step (l := .notifyNobody) (allow_eq_some.mpr ⟨⟨hone, hnobody⟩, rfl⟩))
        fun _ => id
  | @lock w hcreated hready =>
      have hisReady : s.pool.isReady w = true := by rw [ThreadPoolManager.isReady, hready]
      obtain ⟨hones, halls, hstop, haccepted, -, hworkers⟩ := lock_frame s.pool w
      refine h.beside rfl rfl rfl rfl id rfl rfl
        (h.reaches.step (l := .lock w) (allow_eq_some.mpr ⟨hisReady, rfl⟩)) hones halls hstop
        haccepted (fun w' hw' => ?_) (fun w' hlate hw' => ?_)
      · rwa [hworkers w']
        rintro rfl
        rw [hready] at hw'
        cases hw'
      · rwa [hworkers w']
        rintro rfl
        exact absurd hcreated (not_lt.mpr hlate)
  | @wakeSpuriously w hasleep =>
      have hsleeps : s.pool.isAsleep w = true := by rw [ThreadPoolManager.isAsleep, hasleep]
      exact h.beside rfl rfl rfl rfl id rfl rfl
        (h.reaches.step (l := .wakeSpuriously w) (allow_eq_some.mpr ⟨hsleeps, rfl⟩)) rfl rfl rfl rfl
        (fun _ => (workers_ready (by simp [hasleep])).1)
        (fun _ _ => (workers_ready (by simp [hasleep])).2)
  | @finish w threw success ticket hruns hmay =>
      have hreaches := h.reaches.step (l := .finish w threw)
        (u := { s.pool.setWorker w .ready with
          finished := s.pool.finished ++ [(ticket, threw)] }) (by
            show s.pool.step (.finish w threw) = some _
            simp only [ThreadPoolManager.step, hruns])
      have hback : (s.afterJob threw success ticket.task).pc = s.pc ∧
          (s.afterJob threw success ticket.task).created = s.created ∧
          (s.afterJob threw success ticket.task).enqueued = s.enqueued ∧
          (s.afterJob threw success ticket.task).threw = s.threw ∧
          (s.storageStop = true → (s.afterJob threw success ticket.task).storageStop = true) ∧
          (s.afterJob threw success ticket.task).messagingStop = s.messagingStop ∧
          (s.afterJob threw success ticket.task).loopStop = s.loopStop := by
        cases ticket.task <;> simp +contextual [afterJob]
      obtain ⟨hpc, hcreated, henqueued, hthrew, hstorage, hmessaging, hloop⟩ := hback
      exact h.beside hpc hcreated henqueued hthrew hstorage hmessaging hloop hreaches rfl rfl rfl
        rfl (fun _ => (workers_ready (by simp [hruns])).1)
        (fun _ _ => (workers_ready (by simp [hruns])).2)
  | storageError hruns =>
      exact h.beside rfl rfl rfl rfl id rfl rfl h.reaches rfl rfl rfl rfl (fun _ => id)
        (fun _ _ => id)
  | guiPoll hruns hfailed =>
      exact h.beside rfl rfl rfl rfl (fun _ => rfl) rfl rfl h.reaches rfl rfl rfl rfl (fun _ => id)
        (fun _ _ => id)
  | guiStops hruns hfirst =>
      exact h.beside rfl rfl rfl rfl (fun _ => rfl) rfl rfl h.reaches rfl rfl rfl rfl (fun _ => id)
        (fun _ _ => id)

theorem sound_of_exec {ls : List (Label n)} (hrun : (machine n).exec (initial n) ls = some s) :
    Sound s :=
  Machine.invariant Sound (fun _ _ _ hs hstep => hs.does (does_of_step hstep)) ⟨ls, hrun⟩
    sound_initial

theorem Sound.accounted (h : Sound s) : s.pool.Accounted :=
  ThreadPoolManager.accounted_of_reaches h.reaches

/-! ### The futures -/

theorem nodup_jobs : jobs.Nodup := by decide

/-- No job is given to the pool twice. -/
theorem Sound.ticket_eq (h : Sound s) {a b : Ticket Job} (ha : a ∈ s.pool.accepted)
    (hb : b ∈ s.pool.accepted) (hab : a.task = b.task) : a = b := by
  have hnodup : (s.pool.accepted.map Ticket.task).Nodup := by
    rw [h.accepted]
    exact nodup_jobs.sublist (List.take_sublist _ _)
  exact List.inj_on_of_nodup_map hnodup ha hb hab

theorem Sound.started_accepted (h : Sound s) {ticket : Ticket Job}
    (hstarted : ticket ∈ s.pool.started) : ticket ∈ s.pool.accepted := by
  rw [h.accounted.queue]
  exact List.mem_append_left _ hstarted

theorem future_eq_none_iff {job : Job} :
    s.future job = none ↔ ∀ ticket ∈ s.pool.finished.map Prod.fst, ticket.task ≠ job := by
  rw [future, Option.map_eq_none_iff, List.find?_eq_none, List.forall_mem_map]
  simp only [beq_iff_eq, ne_eq]

/-- Nothing is in the future of a job that runs. -/
theorem Sound.future_of_running (h : Sound s) {w : Fin n} {ticket : Ticket Job}
    (hruns : s.pool.workers w = .running ticket) : s.future ticket.task = none := by
  obtain ⟨hstarted, hunfinished⟩ := h.accounted.running w ticket hruns
  refine future_eq_none_iff.mpr fun other hother htask => hunfinished ?_
  have hsame := h.ticket_eq (h.started_accepted (h.accounted.finished_started other hother))
    (h.started_accepted hstarted) htask
  exact hsame ▸ hother

theorem Sound.future_of_runs (h : Sound s) {w : Fin n} {job : Job} (hruns : s.runs w job = true) :
    s.future job = none := by
  obtain ⟨ticket, hworker, rfl⟩ := runs_iff.mp hruns
  exact h.future_of_running hworker

theorem future_finished {ticket : Ticket Job} {threw : Bool}
    (hfinished : t.pool.finished = s.pool.finished ++ [(ticket, threw)]) (job : Job) :
    t.future job = (s.future job).or (if ticket.task = job then some threw else none) := by
  rw [future, hfinished, List.find?_append, Option.map_or, ← future, List.find?_singleton]
  by_cases htask : ticket.task = job <;> simp [htask]

end DesktopRun

end Watchlist.Application
