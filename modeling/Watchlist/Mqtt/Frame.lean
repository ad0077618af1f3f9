import Watchlist.Mqtt.MqttService

/-!
What a section leaves alone. Each field of the service is written by a few
sections only; one pass over the sections says so for all fields at once, and the
proofs about a field then look at its writers.
-/

namespace Watchlist.Mqtt

open Bytes Transition

namespace Section

def writesConsole : Section → Bool
  | .updateConsole _ => true
  | _ => false

def writesStatus : Section → Bool
  | .writeStatus .. | .reportSection .. | .handleConnected _ => true
  | _ => false

def writesShuttingDown : Section → Bool
  | .connectGuard _ | .startDisconnect => true
  | _ => false

def writesDisconnected : Section → Bool
  | .connectGuard _ | .writeStatus .. => true
  | _ => false

def writesClient : Section → Bool
  | .takeClient | .storeClient _ => true
  | _ => false

def writesOperationLocked : Section → Bool
  | .lockConnect _ | .lockDisconnect | .unlockOperation => true
  | _ => false

def writesStop : Section → Bool
  | .enterRun _ | .leaveRun | .setStop | .notifyStop => true
  | _ => false

def writesRunning : Section → Bool
  | .leaveRun => true
  | _ => false

def writesSleep : Section → Bool
  | .notifyState | .waitSleep .. | .waitAsleep .. | .notifyStop => true
  | _ => false

def writesOperations : Section → Bool
  | .clearPending | .trackOperation .. | .transportCall .. | .cancelOperation _
  | .completeOperation .. => true
  | _ => false

def writesReported : Section → Bool
  | .reportSection .. => true
  | _ => false

def writesSubscriptions : Section → Bool
  | .insertSubscription .. | .eraseSubscription _ => true
  | _ => false

def writesClients : Section → Bool
  | .createClient _ | .connectClient _ | .closeClient _ | .dropClient _ | .transportCall ..
  | .handleConnected _ => true
  | _ => false

/-- The sections of `Run` itself. -/
def ofRun : Section → Bool
  | .enterRun _ | .checkStop .. | .readLifecycle .. | .waitCheck .. | .waitSleep ..
  | .waitAsleep .. | .waitOver .. | .leaveRun => true
  | _ => false

/-- The sections that a function of the interface starts with. -/
def starts : Section → Bool
  | .lockConnect _ | .lockDisconnect | .reportSection .. | .insertSubscription ..
  | .eraseSubscription _ | .copyClient .. | .installStatusHandler _ | .installErrorHandler _ => true
  | _ => false

/-- The sections that a call other than `SetStatus` starts with. -/
def enters : Section → Bool
  | .enterRun _ | .setStop | .handleConnected _ | .checkShuttingDown _ | .matchHandlers ..
  | .completeOperation .. => true
  | a => a.starts

end Section

namespace MqttService

variable {k : ℕ} {s s' : MqttService} {a : Section} {x : Choice} {as : List Section} {call : Call}

/-! ### Setters -/

@[simp] theorem clients_setClient (s : MqttService) (c c' : ℕ) (client : Client) :
    (s.setClient c client).clients c' = if c' = c then client else s.clients c' :=
  Function.update_apply ..

theorem notifyAll_eq (s : MqttService) :
    s.notifyAll = { s with sleep := s.notifyAll.sleep } := by
  unfold notifyAll
  split <;> rfl

@[simp] theorem sleep_notifyAll (s : MqttService) :
    s.notifyAll.sleep = if s.sleep = .asleep then .notified else s.sleep := by
  unfold notifyAll
  split <;> rfl

theorem establish_eq (s : MqttService) (c : ℕ) :
    s.establish c = { s with clients := (s.establish c).clients } := by
  unfold establish
  split <;> rfl

/-- A call into a client changes what the transport knows, and nothing else. -/
theorem accept_eq {t : TransportCall} (h : s.accept t = some s') :
    s' = { s with clients := s'.clients } := by
  cases t with
  | publish c topic payload =>
      obtain rfl := Option.some.inj h
      rfl
  | subscribe c topic | unsubscribe c topic =>
      obtain ⟨-, rfl⟩ := allow_eq_some.mp h
      rfl

theorem settle_eq (s : MqttService) (endpoint : Endpoint) (retryDelay : ℕ) :
    (s.settle endpoint retryDelay).1 = { s with held := (s.settle endpoint retryDelay).1.held } := by
  unfold settle
  split <;> rfl

theorem afterWait_eq (s : MqttService) (endpoint : Endpoint) (wait : Wait) :
    (s.afterWait endpoint wait).1 = { s with held := (s.afterWait endpoint wait).1.held } := by
  cases wait with
  | attempt retryDelay =>
      simp only [afterWait]
      split
      · rfl
      · exact settle_eq s endpoint 1
  | retry retryDelay => exact settle_eq s endpoint retryDelay
  | settled retryDelay => rfl

/-- After a wait, `Run` waits again or goes round its loop. -/
theorem mem_afterWait {endpoint : Endpoint} {wait : Wait} {b : Section}
    (h : b ∈ (s.afterWait endpoint wait).2) :
    (∃ wait, b = .waitCheck endpoint wait) ∨ ∃ retryDelay, b = .checkStop endpoint retryDelay := by
  have hsettle : ∀ retryDelay, b ∈ (s.settle endpoint retryDelay).2 →
      (∃ wait, b = .waitCheck endpoint wait) ∨ ∃ retryDelay, b = .checkStop endpoint retryDelay := by
    intro retryDelay h
    unfold settle at h
    split at h
    · exact Or.inl ⟨_, List.mem_singleton.mp h⟩
    · exact Or.inr ⟨_, List.mem_singleton.mp h⟩
  cases wait with
  | attempt retryDelay =>
      simp only [afterWait] at h
      split at h
      · exact Or.inl ⟨_, List.mem_singleton.mp h⟩
      · exact hsettle 1 h
  | retry retryDelay => exact hsettle retryDelay h
  | settled retryDelay => exact Or.inr ⟨_, List.mem_singleton.mp h⟩

/-! ### Entering a call -/

theorem starts_connect {endpoint : Endpoint} {b : Section} (h : b ∈ connect endpoint) :
    b.starts = true := by
  unfold connect reportError at h
  split_ifs at h
  all_goals
    obtain rfl := List.mem_singleton.mp h
    rfl

/-- A function of the interface does nothing before its first section. -/
theorem enter_api (hcall : call.isApi = true) (h : s.enter k call = some (s', as)) :
    s' = s ∧ ∀ b ∈ as, b.starts = true := by
  have hone : ∀ {b : Section}, b.starts = true → ∀ b' ∈ [b], b'.starts = true := by
    intro b hb b' hb'
    rwa [List.mem_singleton.mp hb']
  cases call with
  | connect endpoint =>
      obtain ⟨rfl, rfl⟩ := Prod.mk.inj (Option.some.inj h)
      exact ⟨rfl, fun b hb => starts_connect hb⟩
  | disconnect | setStatusHandler | setErrorHandler =>
      obtain ⟨rfl, rfl⟩ := Prod.mk.inj (Option.some.inj h)
      exact ⟨rfl, hone rfl⟩
  | subscribe topic handler =>
      simp only [enter] at h
      split at h
      · obtain ⟨rfl, rfl⟩ := Prod.mk.inj (Option.some.inj h)
        exact ⟨rfl, hone rfl⟩
      · split at h
        · obtain ⟨rfl, rfl⟩ := Prod.mk.inj (Option.some.inj h)
          exact ⟨rfl, hone rfl⟩
        · obtain ⟨rfl, rfl⟩ := Prod.mk.inj (Option.some.inj h)
          exact ⟨rfl, hone rfl⟩
  | unsubscribe topic | publish topic payload =>
      simp only [enter] at h
      split at h
      · obtain ⟨rfl, rfl⟩ := Prod.mk.inj (Option.some.inj h)
        exact ⟨rfl, hone rfl⟩
      · obtain ⟨rfl, rfl⟩ := Prod.mk.inj (Option.some.inj h)
        exact ⟨rfl, hone rfl⟩
  | run | requestStop | updateConsoleForm | connected | connectSucceeded | connectFailed
  | connectionLost | messageArrived | operationSucceeded | operationFailed | setStatus
  | reportError | handleConnected => cases hcall

/-- What entering a call leaves alone. -/
theorem enter_eq (h : s.enter k call = some (s', as)) :
    s' = { s with
      app := s'.app, running := s'.running, clients := s'.clients, succeeded := s'.succeeded
      lastForm := s'.lastForm } := by
  by_cases hcall : call.isApi = true
  · rw [(enter_api hcall h).1]
  cases call with
  | connect | subscribe | unsubscribe | publish | disconnect | setStatusHandler
  | setErrorHandler => exact absurd rfl hcall
  | requestStop | updateConsoleForm | setStatus | reportError | handleConnected =>
      obtain ⟨rfl, -⟩ := Prod.mk.inj (Option.some.inj h)
      rfl
  | run | connectFailed | messageArrived | operationSucceeded | operationFailed | connectionLost =>
      simp only [enter] at h
      split at h
      all_goals first
        | contradiction
        | obtain ⟨rfl, -⟩ := Prod.mk.inj (Option.some.inj h)
          rfl
  | connected c | connectSucceeded c =>
      simp only [enter] at h
      split at h
      · obtain ⟨rfl, -⟩ := Prod.mk.inj (Option.some.inj h)
        rw [establish_eq]
      · cases h

/-- A call updates the form, or leaves the console alone. -/
theorem enter_app (h : s.enter k call = some (s', as)) :
    (∃ console, call = .updateConsoleForm console ∧ s'.lastForm = console ∧
      s'.app = s.app.updateConsoleForm console ∧ as = []) ∨
    (s'.lastForm = s.lastForm ∧ s'.app = s.app) := by
  cases call with
  | updateConsoleForm console =>
      obtain ⟨rfl, rfl⟩ := Prod.mk.inj (Option.some.inj h)
      exact Or.inl ⟨console, rfl, rfl, rfl, rfl⟩
  | connect | subscribe | unsubscribe | publish | disconnect | setStatusHandler
  | setErrorHandler =>
      rw [(enter_api rfl h).1]
      exact Or.inr ⟨rfl, rfl⟩
  | requestStop | setStatus | reportError | handleConnected =>
      obtain ⟨rfl, -⟩ := Prod.mk.inj (Option.some.inj h)
      exact Or.inr ⟨rfl, rfl⟩
  | connected c | connectSucceeded c =>
      simp only [enter] at h
      split at h
      · obtain ⟨rfl, -⟩ := Prod.mk.inj (Option.some.inj h)
        rw [establish_eq]
        exact Or.inr ⟨rfl, rfl⟩
      · contradiction
  | run | connectFailed | connectionLost | messageArrived | operationSucceeded
  | operationFailed =>
      simp only [enter] at h
      split at h
      all_goals first
        | contradiction
        | obtain ⟨rfl, -⟩ := Prod.mk.inj (Option.some.inj h)
          exact Or.inr ⟨rfl, rfl⟩

theorem enters_of_starts {b : Section} (h : b.starts = true) : b.enters = true := by
  cases b <;> first | rfl | cases h

/-- What a call starts with. -/
theorem enter_sections (h : s.enter k call = some (s', as)) :
    ∀ b ∈ as, b.enters = true ∨
      ∃ status detail, call = .setStatus status detail ∧ b = .writeStatus status detail := by
  by_cases hcall : call.isApi = true
  · intro b hb
    exact Or.inl (enters_of_starts ((enter_api hcall h).2 b hb))
  have hone : ∀ {b : Section}, b.enters = true → ∀ b' ∈ [b], b'.enters = true ∨
      ∃ status detail, call = .setStatus status detail ∧ b' = .writeStatus status detail := by
    intro b hb b' hb'
    rw [List.mem_singleton.mp hb']
    exact Or.inl hb
  cases call with
  | connect | subscribe | unsubscribe | publish | disconnect | setStatusHandler
  | setErrorHandler => exact absurd rfl hcall
  | setStatus status detail =>
      obtain ⟨-, rfl⟩ := Prod.mk.inj (Option.some.inj h)
      intro b hb
      exact Or.inr ⟨status, detail, rfl, List.mem_singleton.mp hb⟩
  | updateConsoleForm =>
      obtain ⟨-, rfl⟩ := Prod.mk.inj (Option.some.inj h)
      nofun
  | requestStop | reportError | handleConnected =>
      obtain ⟨-, rfl⟩ := Prod.mk.inj (Option.some.inj h)
      exact hone rfl
  | run | connected | connectSucceeded | connectFailed | connectionLost | messageArrived
  | operationSucceeded | operationFailed =>
      simp only [enter] at h
      split at h
      all_goals first
        | contradiction
        | obtain ⟨-, rfl⟩ := Prod.mk.inj (Option.some.inj h)
          exact hone rfl

/-! ### A call into a client -/

@[simp] theorem subscribeClient_nil (client : Option ℕ) : subscribeClient client [] = [] := rfl

/-- A call throws and is cancelled, or it goes through; anything but an `mqtt::exception`
leaves the topics that were to follow unsubscribed. -/
theorem transportCall_cases {operation : Operation} {call : TransportCall} {next : List Bytes}
    (h : s.runSection k (.transportCall operation call next) x = some (s', as)) :
    (∃ what, x = .throws what ∧ s' = { s with threw := s.threw ++ [operation] } ∧
      as = .cancelOperation operation :: reportError (call.error what) false ++
        subscribeClient (some call.client) next) ∨
    (∃ what, x = .throwsOther what ∧ s' = { s with threw := s.threw ++ [operation] } ∧
      as = [.cancelOperation operation]) ∨
    s.accept call = some s' ∧ as = subscribeClient (some call.client) next := by
  cases x with
  | throws what =>
      obtain ⟨rfl, rfl⟩ := Prod.mk.inj (Option.some.inj h)
      exact Or.inl ⟨what, rfl, rfl, rfl⟩
  | throwsOther what =>
      obtain ⟨rfl, rfl⟩ := Prod.mk.inj (Option.some.inj h)
      exact Or.inr (Or.inl ⟨what, rfl, rfl, rfl⟩)
  | proceed | timesOut | calls =>
      obtain ⟨t, ht, heq⟩ := Option.map_eq_some_iff.mp h
      obtain ⟨rfl, rfl⟩ := Prod.mk.inj heq
      exact Or.inr (Or.inr ⟨ht, rfl⟩)

/-! ### The frame of a section -/

/-- What a section leaves alone. -/
structure Frame (a : Section) (s s' : MqttService) : Prop where
  lastForm : s'.lastForm = s.lastForm
  succeeded : s'.succeeded = s.succeeded
  console : a.writesConsole = false → s'.app.console = s.app.console
  status : a.writesStatus = false → s'.status = s.status
  shuttingDown : a.writesShuttingDown = false → s'.shuttingDown = s.shuttingDown
  disconnected : a.writesDisconnected = false → s'.disconnected = s.disconnected
  client : a.writesClient = false → s'.client = s.client
  operationLocked : a.writesOperationLocked = false → s'.operationLocked = s.operationLocked
  stop : a.writesStop = false → s'.stopRequested = s.stopRequested ∧
    s'.stopRegistered = s.stopRegistered ∧ s'.stopFinished = s.stopFinished
  running : a.writesRunning = false → s'.running = s.running
  sleep : a.writesSleep = false → s'.sleep = s.sleep
  operations : a.writesOperations = false → s'.pendingOperations = s.pendingOperations ∧
    s'.tracked = s.tracked ∧ s'.threw = s.threw
  failed : a.writesOperations = false → s'.failed = s.failed
  reported : a.writesReported = false → s'.reported = s.reported
  subscriptions : a.writesSubscriptions = false → s'.subscriptions = s.subscriptions
  clients : a.writesClients = false → s'.clients = s.clients

theorem Frame.refl (a : Section) (s : MqttService) : Frame a s s := by
  constructor <;> intros <;> first | rfl | exact ⟨rfl, rfl, rfl⟩

theorem frame_runSection (h : s.runSection k a x = some (s', as)) : Frame a s s' := by
  cases a
  case notifyState =>
      obtain ⟨rfl, -⟩ := Prod.mk.inj (Option.some.inj h)
      rw [notifyAll_eq]
      constructor <;> intros <;> first | rfl | exact ⟨rfl, rfl, rfl⟩ | contradiction
  case notifyStop =>
      obtain ⟨rfl, -⟩ := Prod.mk.inj (Option.some.inj h)
      rw [notifyAll_eq]
      constructor <;> intros <;> first | rfl | exact ⟨rfl, rfl, rfl⟩ | contradiction
  case transportCall operation call next =>
      obtain ⟨what, -, rfl, -⟩ | ⟨what, -, rfl, -⟩ | ⟨haccept, -⟩ := transportCall_cases h
      · constructor <;> intros <;> first | rfl | exact ⟨rfl, rfl, rfl⟩ | contradiction
      · constructor <;> intros <;> first | rfl | exact ⟨rfl, rfl, rfl⟩ | contradiction
      · rw [accept_eq haccept]
        constructor <;> intros <;> first | rfl | exact ⟨rfl, rfl, rfl⟩ | contradiction
  case inHandler topic =>
      simp only [runSection] at h
      split at h
      case h_3 =>
          split at h
          · rename_i hapi
            obtain ⟨⟨t, bs⟩, hcall, heq⟩ := Option.map_eq_some_iff.mp h
            obtain ⟨rfl, -⟩ := Prod.mk.inj heq
            rw [(enter_api hapi hcall).1]
            exact Frame.refl _ _
          · cases h
      all_goals
        obtain ⟨rfl, -⟩ := Prod.mk.inj (Option.some.inj h)
        exact Frame.refl _ _
  case waitCheck endpoint wait =>
      simp only [runSection, Option.some.injEq] at h
      split at h
      · obtain rfl : (s.afterWait endpoint wait).1 = s' := congrArg Prod.fst h
        rw [afterWait_eq]
        constructor <;> intros <;> first | rfl | exact ⟨rfl, rfl, rfl⟩
      · obtain ⟨rfl, -⟩ := Prod.mk.inj h
        constructor <;> intros <;> first | rfl | exact ⟨rfl, rfl, rfl⟩
  case waitOver endpoint wait =>
      obtain rfl : (s.afterWait endpoint wait).1 = s' := congrArg Prod.fst (Option.some.inj h)
      rw [afterWait_eq]
      constructor <;> intros <;> first | rfl | exact ⟨rfl, rfl, rfl⟩
  -- every other section sets the fields itself
  all_goals
    simp only [runSection] at h
    repeat' split at h
  all_goals first
    | contradiction
    | (obtain ⟨rfl, -⟩ := Prod.mk.inj (Option.some.inj h)
       constructor <;> intros <;> first | rfl | exact ⟨rfl, rfl, rfl⟩ | contradiction)

/-- A section runs when it finds the mutex free, if it needs it. -/
theorem run_eq_some :
    s.run k a x = some (s', as) ↔
      (a.locks = true → s.held = false) ∧ s.runSection k a x = some (s', as) := by
  unfold run
  cases a.locks <;> cases s.held <;> simp

/-- The two kinds of step of the service. -/
theorem step_cases {s t : Threads MqttService Section} {l : Threads.Label Call Choice}
    (h : machine.step s l = some t) :
    (∃ k call s' as, l = .enter k call ∧ s.pending k = [] ∧
      s.shared.enter k call = some (s', as) ∧ t = s.become k s' as) ∨
    (∃ k choice a rest s' as, l = .advance k choice ∧ s.pending k = a :: rest ∧
      (a.locks = true → s.shared.held = false) ∧
      s.shared.runSection k a choice = some (s', as) ∧ t = s.become k s' (as ++ rest)) := by
  cases Program.moves_of_step h with
  | enter hidle hcall => exact Or.inl ⟨_, _, _, _, rfl, hidle, hcall, rfl⟩
  | advance hat hrun =>
      obtain ⟨hfree, hsection⟩ := run_eq_some.mp hrun
      exact Or.inr ⟨_, _, _, _, _, _, rfl, hat, hfree, hsection, rfl⟩

/-! ### Where sections come from -/

/-- Where a section can have come from, for the sections whose origin matters: the
section that was run in `s`, with `s'` after it. -/
def Origin (s s' : MqttService) (a : Section) : Section → Prop
  | .updateConsole _ => ∃ text, a = .snapshotConsole text
  | .writeStatus status _ =>
      (∃ endpoint, a = .connectGuard endpoint ∧ status = .connecting) ∨
      (a = .startDisconnect ∧ (status = .offline ∨ status = .disconnecting ∧ s.client.isSome)) ∨
      ∃ detail, a = .checkShuttingDown detail ∧ status = .reconnecting ∧ s.shuttingDown = false
  | .connectGuard endpoint => a = .lockConnect endpoint
  | .createClient endpoint => a = .connectGuard endpoint
  | .storeClient _ | .connectClient _ => ∃ endpoint, a = .createClient endpoint
  | .takeClient => (∃ endpoint, a = .connectGuard endpoint) ∨ a = .startDisconnect
  | .closeClient _ | .dropClient _ | .clearPending => a = .takeClient
  | .startDisconnect => a = .lockDisconnect
  | .unlockOperation => (∃ endpoint, a = .lockConnect endpoint) ∨ a = .lockDisconnect
  | .trackOperation _ _ _ =>
      (∃ topic handler, a = .insertSubscription topic handler) ∨
      (∃ topic, a = .eraseSubscription topic) ∨ (∃ topic payload, a = .copyClient topic payload) ∨
      (∃ detail, a = .handleConnected detail) ∨
      ∃ operation call next, a = .transportCall operation call next ∧ next ≠ []
  | .transportCall _ call next => ∃ name, a = .trackOperation name call next
  | .cancelOperation operation => operation ∈ s'.threw
  | .handleConnected _ | .checkShuttingDown _ | .completeOperation _ _ => False
  | .enterRun _ => False
  | .checkStop .. | .readLifecycle .. | .waitCheck .. | .waitOver .. | .leaveRun => a.ofRun = true
  | .waitSleep endpoint wait => a = .waitCheck endpoint wait ∧ s.waitedFor wait = false
  | .waitAsleep endpoint wait => a = .waitSleep endpoint wait
  | .notifyStop => a = .setStop ∧ s'.stopRequested = true
  | _ => True

theorem origin_of_starts {b : Section} (h : b.starts = true) : Origin s s' a b := by
  cases b <;> trivial

theorem origin_announce {handler : Option ℕ} {status : LifecycleStatus} {detail : Bytes} :
    ∀ b ∈ announce handler status detail, Origin s s' a b := by
  simp [announce, Origin]

theorem mem_subscribeClient {client : Option ℕ} {topics : List Bytes} {b : Section}
    (h : b ∈ subscribeClient client topics) :
    ∃ c topic next, client = some c ∧ topics = topic :: next ∧
      b = .trackOperation (ascii "MQTT subscription to " ++ topic) (.subscribe c topic) next := by
  cases topics with
  | nil => cases h
  | cons topic next =>
      cases client with
      | none => cases h
      | some c => exact ⟨c, topic, next, rfl, rfl, List.mem_singleton.mp h⟩

theorem origin_afterWait {endpoint : Endpoint} {wait : Wait} (ha : a.ofRun = true) :
    ∀ b ∈ (s.afterWait endpoint wait).2, Origin s s' a b := by
  intro b hb
  rcases mem_afterWait hb with ⟨_, rfl⟩ | ⟨_, rfl⟩ <;> exact ha

/-- The control flow of the service. -/
theorem origin_runSection (h : s.runSection k a x = some (s', as)) :
    ∀ b ∈ as, Origin s s' a b := by
  cases a
  case transportCall operation call next =>
      have hnext : ∀ b ∈ subscribeClient (some call.client) next,
          Origin s s' (.transportCall operation call next) b := by
        intro b hb
        obtain ⟨c, topic, rest, -, rfl, rfl⟩ := mem_subscribeClient hb
        exact Or.inr (Or.inr (Or.inr (Or.inr ⟨operation, call, _, rfl, List.cons_ne_nil _ _⟩)))
      obtain ⟨what, -, rfl, rfl⟩ | ⟨what, -, rfl, rfl⟩ | ⟨-, rfl⟩ := transportCall_cases h
      · refine List.forall_mem_append.mpr ⟨?_, hnext⟩
        simp [reportError, Origin]
      · simp [Origin]
      · exact hnext
  case insertSubscription topic handler =>
      simp only [runSection, Option.some.injEq] at h
      obtain ⟨rfl, rfl⟩ := Prod.mk.inj h
      intro b hb
      split at hb
      · obtain ⟨c, _, _, -, -, rfl⟩ := mem_subscribeClient hb
        exact Or.inl ⟨topic, handler, rfl⟩
      · cases hb
  case handleConnected detail =>
      simp only [runSection] at h
      split at h
      · obtain ⟨rfl, rfl⟩ := Prod.mk.inj (Option.some.inj h)
        nofun
      · obtain ⟨-, rfl⟩ := Prod.mk.inj (Option.some.inj h)
        refine List.forall_mem_append.mpr ⟨origin_announce, fun b hb => ?_⟩
        obtain ⟨c, _, _, -, -, rfl⟩ := mem_subscribeClient hb
        exact Or.inr (Or.inr (Or.inr (Or.inl ⟨detail, rfl⟩)))
  case writeStatus status detail =>
      obtain ⟨-, rfl⟩ := Prod.mk.inj (Option.some.inj h)
      exact origin_announce
  case matchHandlers topic payload =>
      simp only [runSection, Option.some.injEq] at h
      obtain ⟨-, rfl⟩ := Prod.mk.inj h
      intro b hb
      split at hb
      · rw [List.mem_singleton.mp hb]
        trivial
      · obtain ⟨subscription, -, rfl⟩ := List.mem_map.mp hb
        trivial
  case inHandler topic =>
      simp only [runSection] at h
      split at h
      case h_3 =>
          split at h
          · rename_i hapi
            obtain ⟨⟨t, bs⟩, hcall, heq⟩ := Option.map_eq_some_iff.mp h
            obtain ⟨-, rfl⟩ := Prod.mk.inj heq
            refine List.forall_mem_append.mpr ⟨fun b hb => ?_, by simp [Origin]⟩
            exact origin_of_starts ((enter_api hapi hcall).2 b hb)
          · cases h
      all_goals
        obtain ⟨-, rfl⟩ := Prod.mk.inj (Option.some.inj h)
        simp [reportError, Origin]
  case checkStop endpoint retryDelay =>
      simp only [runSection, Option.some.injEq] at h
      obtain ⟨-, rfl⟩ := Prod.mk.inj h
      split <;> simp [disconnect, Origin, Section.ofRun]
  case readLifecycle endpoint retryDelay =>
      simp only [runSection, Option.some.injEq] at h
      obtain ⟨-, rfl⟩ := Prod.mk.inj h
      refine List.forall_mem_append.mpr ⟨fun b hb => ?_, by simp [Origin, Section.ofRun]⟩
      split at hb
      · exact origin_of_starts (starts_connect hb)
      · cases hb
  case waitCheck endpoint wait =>
      simp only [runSection, Option.some.injEq] at h
      split at h
      · obtain rfl : (s.afterWait endpoint wait).2 = as := congrArg Prod.snd h
        exact origin_afterWait rfl
      · rename_i hwaited
        obtain ⟨-, rfl⟩ := Prod.mk.inj h
        simpa [Origin] using hwaited
  case waitOver endpoint wait =>
      obtain rfl : (s.afterWait endpoint wait).2 = as := congrArg Prod.snd (Option.some.inj h)
      exact origin_afterWait rfl
  -- every other section names what follows from it
  all_goals
    simp only [runSection] at h
    repeat' split at h
  all_goals first
    | contradiction
    | (obtain ⟨rfl, rfl⟩ := Prod.mk.inj (Option.some.inj h)
       simp_all [reportError, setStatus, connectionAttempt, Origin, Section.ofRun])

/-! ### Runs -/

/-- `n` sections of a thread. -/
def steps (k n : ℕ) : List (Threads.Label Call Choice) := List.replicate n (.advance k .proceed)

/-- The broker of the console as it is default-initialised. -/
def localBroker : Endpoint := ⟨ascii "localhost", 1883, ascii "watchlist-client"⟩

/-- The first `Connect`, whole. -/
def connecting (k : ℕ) : List (Threads.Label Call Choice) :=
  .enter k (.connect localBroker) :: steps k 13

end MqttService

end Watchlist.Mqtt
