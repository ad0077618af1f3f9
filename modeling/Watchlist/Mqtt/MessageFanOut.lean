import Watchlist.Library.ThreadLog
import Watchlist.Mqtt.Frame

/-!
`message_arrived`. Its loop is first taken by itself, with the exceptions of the
handlers and the `catch` clauses around each call: whatever the handlers throw, the
loop returns, and what it leaves is a function of the handlers and of how they end.
Then the sections that the callback runs in the service, with any other thread in
between and with handlers that subscribe and unsubscribe, leave just that.
-/

namespace Watchlist.Mqtt

open Bytes Transition Transition.Program

/-! ### The loop and its exceptions -/

/-- What a handler throws. -/
inductive Thrown
  | standard (what : Bytes)
  | other
  deriving DecidableEq

/-- What others see of the callback. -/
inductive Event
  | invoked (handler : ℕ) (topic payload : Bytes)
  | reported (error : Bytes)
  deriving DecidableEq

/-- Code that may throw, with a record of what others see of it. -/
abbrev Recorded := ExceptT Thrown (StateM (List Event))

def record (event : Event) : Recorded Unit := modify fun events => events ++ [event]

/-- A call of a handler that ends as given. -/
def callHandler (topic payload : Bytes) (handler : ℕ × Option Thrown) : Recorded Unit := do
  record (.invoked handler.1 topic payload)
  match handler.2 with
  | none => pure ()
  | some thrown => throw thrown

def unhandledText (topic : Bytes) : Bytes :=
  ascii "Received MQTT message on " ++ topic ++ ascii " without a registered handler"

def failureText (topic : Bytes) : Thrown → Bytes
  | .standard what => ascii "MQTT message handler for " ++ topic ++ ascii " failed: " ++ what
  | .other => ascii "MQTT message handler for " ++ topic ++ ascii " failed with an unknown exception"

/-- `message_arrived` after the handlers have been copied. -/
def messageArrived (topic payload : Bytes) (handlers : List (ℕ × Option Thrown)) : Recorded Unit :=
  if handlers.isEmpty then record (.reported (unhandledText topic))
  else
    handlers.forM fun handler =>
      tryCatch (callHandler topic payload handler) fun
        | .standard what => record (.reported (failureText topic (.standard what)))
        | .other => record (.reported (failureText topic .other))

/-- The report that a handler's ending causes. -/
def failure (topic : Bytes) : Option Thrown → List Event
  | none => []
  | some thrown => [.reported (failureText topic thrown)]

/-- What the callback is for: each handler gets the message once, in order, and each
failure is reported once; a message that nobody wants is reported. -/
def fanOut (topic payload : Bytes) (handlers : List (ℕ × Option Thrown)) : List Event :=
  if handlers.isEmpty then [.reported (unhandledText topic)]
  else handlers.flatMap fun handler =>
    .invoked handler.1 topic payload :: failure topic handler.2

/-- Code that returns whatever has been recorded before, and records `events`. -/
def Records (p : Recorded Unit) (events : List Event) : Prop :=
  ∀ before, p before = (.ok (), before ++ events)

theorem records_record (event : Event) : Records (record event) [event] := fun _ => rfl

theorem Records.bind {p : Recorded Unit} {f : Unit → Recorded Unit} {es es' : List Event}
    (hp : Records p es) (hf : Records (f ()) es') : Records (p >>= f) (es ++ es') := by
  intro before
  have hbind : (p >>= f) before = f () (before ++ es) := by
    show (StateT.bind p (ExceptT.bindCont f) : StateM (List Event) _) before = _
    simp only [StateT.bind, hp before]
    rfl
  rw [hbind, hf, List.append_assoc]

/-- A throw that is caught: what has been recorded stays. -/
theorem records_tryCatch {handler : ℕ × Option Thrown} {topic payload : Bytes}
    {catches : Thrown → Recorded Unit}
    (h : ∀ thrown, Records (catches thrown) [.reported (failureText topic thrown)]) :
    Records (tryCatch (callHandler topic payload handler) catches)
      (.invoked handler.1 topic payload :: failure topic handler.2) := by
  intro before
  obtain ⟨number, ending⟩ := handler
  cases ending with
  | none => rfl
  | some thrown =>
      have hcatch : (tryCatch (callHandler topic payload (number, some thrown)) catches) before =
          catches thrown (before ++ [.invoked number topic payload]) := rfl
      rw [hcatch, h, List.append_assoc]
      rfl

/-- Whatever the handlers throw, the loop returns. -/
theorem records_messageArrived (topic payload : Bytes) (handlers : List (ℕ × Option Thrown)) :
    Records (messageArrived topic payload handlers) (fanOut topic payload handlers) := by
  unfold messageArrived fanOut
  split
  · exact records_record _
  · clear * -
    induction handlers with
    | nil =>
        intro before
        rw [List.flatMap_nil, List.append_nil]
        rfl
    | cons handler handlers ih =>
        rw [List.flatMap_cons]
        refine Records.bind ?_ ih
        apply records_tryCatch
        intro thrown
        cases thrown with
        | standard what => exact records_record _
        | other => exact records_record _

/-! ### The sections of the callback -/

/-- A report about a message that has arrived. -/
def concernsMessage (error : Bytes) : Bool :=
  (ascii "MQTT message handler for ").isPrefixOf error ||
    (ascii "Received MQTT message on ").isPrefixOf error

/-- What others see of a section. -/
def Section.seen : Section → List Event
  | .invokeHandler handler topic payload => [.invoked handler topic payload]
  | .reportSection error _ => if concernsMessage error then [.reported error] else []
  | _ => []

/-- How a handler ends, where one does. -/
def Section.ending : Section → Choice → List (Option Thrown)
  | .inHandler _, .throws what => [some (.standard what)]
  | .inHandler _, .throwsOther _ => [some .other]
  | .inHandler _, .calls _ => []
  | .inHandler _, _ => [none]
  | _, _ => []

/-- The topic of a handler that has not ended yet. -/
def Section.unended : Section → Option Bytes
  | .invokeHandler _ topic _ | .inHandler topic => some topic
  | _ => none

/-- A call that only changes the subscriptions. -/
def Call.isSubscription : Call → Bool
  | .subscribe .. | .unsubscribe _ => true
  | _ => false

/-- The sections of reports that leave the status alone, and of `Subscribe` and
`Unsubscribe`; no report of theirs concerns a message. -/
def Section.isQuiet : Section → Bool
  | .reportSection error changesLifecycle => !changesLifecycle && !concernsMessage error
  | .notifyState | .snapshotConsole _ | .updateConsole _ | .addActivity _ | .callErrorHandler ..
  | .insertSubscription .. | .eraseSubscription _ | .trackOperation .. | .transportCall ..
  | .cancelOperation _ => true
  | _ => false

/-- The sections of the callback once it has copied the handlers. -/
def Section.isFanOut : Section → Bool
  | .invokeHandler .. | .inHandler _ => true
  | .reportSection _ changesLifecycle => !changesLifecycle
  | a => a.isQuiet

/-- The error that a section reports. -/
def Section.report : Section → Option Bytes
  | .reportSection error _ => some error
  | _ => none

/-- The sections of a report after its first. -/
def Section.isAfterReport : Section → Bool
  | .notifyState | .snapshotConsole _ | .updateConsole _ | .addActivity _ | .callErrorHandler .. =>
      true
  | _ => false

/-- How many handlers of a list of sections have not ended yet. -/
def unended (as : List Section) : ℕ := (as.filterMap Section.unended).length

/-- What others are still to see of a list of sections, when its handlers end as given. -/
def expected : List Section → List (Option Thrown) → List Event
  | [], _ => []
  | a :: rest, endings =>
      match a.unended with
      | none => a.seen ++ expected rest endings
      | some topic => a.seen ++ failure topic (endings.headD none) ++ expected rest endings.tail

@[simp] theorem concernsMessage_failureText (topic : Bytes) (thrown : Thrown) :
    concernsMessage (failureText topic thrown) = true := by
  have hstart : ∀ s, (ascii "MQTT message handler for ").isPrefixOf
      (ascii "MQTT message handler for " ++ s) = true :=
    fun s => List.isPrefixOf_iff_prefix.mpr (List.prefix_append _ s)
  cases thrown <;> simp [concernsMessage, failureText, hstart]

@[simp] theorem concernsMessage_unhandledText (topic : Bytes) :
    concernsMessage (unhandledText topic) = true := by
  have hstart : ∀ s, (ascii "Received MQTT message on ").isPrefixOf
      (ascii "Received MQTT message on " ++ s) = true :=
    fun s => List.isPrefixOf_iff_prefix.mpr (List.prefix_append _ s)
  simp [concernsMessage, unhandledText, hstart]

@[simp] theorem concernsMessage_error (call : TransportCall) (what : Bytes) :
    concernsMessage (call.error what) = false := by
  cases call <;> rfl

theorem Section.isFanOut_of_isQuiet {a : Section} (h : a.isQuiet = true) : a.isFanOut = true := by
  cases a <;> simp_all [isQuiet, isFanOut]

theorem Section.unended_of_isQuiet {a : Section} (h : a.isQuiet = true) : a.unended = none := by
  cases a <;> first | rfl | cases h

theorem Section.seen_of_isQuiet {a : Section} (h : a.isQuiet = true) : a.seen = [] := by
  cases a <;> simp_all [isQuiet, seen]

theorem expected_append_of_quiet {as : List Section} (h : ∀ a ∈ as, a.isQuiet = true)
    (rest : List Section) (endings : List (Option Thrown)) :
    expected (as ++ rest) endings = expected rest endings := by
  induction as with
  | nil => rfl
  | cons a as ih =>
      obtain ⟨ha, has⟩ := List.forall_mem_cons.mp h
      simp [expected, Section.unended_of_isQuiet ha, Section.seen_of_isQuiet ha, ih has]

@[simp] theorem unended_append (as rest : List Section) :
    unended (as ++ rest) = unended as + unended rest := by
  simp [unended]

theorem unended_of_quiet {as : List Section} (h : ∀ a ∈ as, a.isQuiet = true) :
    unended as = 0 := by
  rw [unended, List.filterMap_eq_nil_iff.mpr fun a ha => Section.unended_of_isQuiet (h a ha)]
  rfl

namespace MqttService

/-- What a handler's call of `Subscribe` or `Unsubscribe` does before its first section. -/
theorem enter_isSubscription {k : ℕ} {s s' : MqttService} {call : Call} {as : List Section}
    (hcall : call.isSubscription = true) (h : enter k s call = some (s', as)) :
    s' = s ∧ ∀ a ∈ as, a.isQuiet = true := by
  cases call <;> simp only [Call.isSubscription, Bool.false_eq_true] at hcall
  case subscribe topic handler =>
    simp only [enter] at h
    split at h
    · obtain ⟨rfl, rfl⟩ := Prod.mk.inj (Option.some.inj h)
      simp [Mqtt.reportError, Section.isQuiet]
      rfl
    · split at h
      · obtain ⟨rfl, rfl⟩ := Prod.mk.inj (Option.some.inj h)
        simp [Mqtt.reportError, Section.isQuiet]
        rfl
      · obtain ⟨rfl, rfl⟩ := Prod.mk.inj (Option.some.inj h)
        simp [Section.isQuiet]
  case unsubscribe topic =>
    simp only [enter] at h
    split at h
    · obtain ⟨rfl, rfl⟩ := Prod.mk.inj (Option.some.inj h)
      simp [Mqtt.reportError, Section.isQuiet]
      rfl
    · obtain ⟨rfl, rfl⟩ := Prod.mk.inj (Option.some.inj h)
      simp [Section.isQuiet]

variable {k : ℕ} {s s' : MqttService} {a : Section} {choice : Choice} {as : List Section}

theorem quiet_of_subscribeClient {client : Option ℕ} {topics : List Bytes} :
    ∀ b ∈ subscribeClient client topics, b.isQuiet = true := by
  intro b hb
  obtain ⟨c, topic, next, -, -, rfl⟩ := mem_subscribeClient hb
  rfl

/-- A quiet section is followed by quiet ones. -/
theorem quiet_of_run (ha : a.isQuiet = true) (h : s.run k a choice = some (s', as)) :
    ∀ b ∈ as, b.isQuiet = true := by
  obtain ⟨-, h⟩ := run_eq_some.mp h
  cases a <;> simp only [Section.isQuiet, Bool.false_eq_true] at ha
  case reportSection error changesLifecycle =>
    simp only [Bool.and_eq_true, Bool.not_eq_true'] at ha
    simp only [runSection, ha.1, Bool.and_false, Bool.false_eq_true, if_false] at h
    obtain ⟨-, rfl⟩ := Prod.mk.inj (Option.some.inj h)
    simp [Section.isQuiet]
  case snapshotConsole text =>
    obtain ⟨-, rfl⟩ := Prod.mk.inj (Option.some.inj h)
    simp [Section.isQuiet]
  case insertSubscription topic handler =>
    obtain ⟨-, rfl⟩ := Prod.mk.inj (Option.some.inj h)
    intro b hb
    split at hb
    · exact quiet_of_subscribeClient b hb
    · cases hb
  case eraseSubscription topic =>
    obtain ⟨-, rfl⟩ := Prod.mk.inj (Option.some.inj h)
    repeat' split
    all_goals simp [Section.isQuiet]
  case trackOperation name call next =>
    obtain ⟨-, rfl⟩ := Prod.mk.inj (Option.some.inj h)
    simp [Section.isQuiet]
  case transportCall operation call next =>
    obtain ⟨what, -, -, rfl⟩ | ⟨what, -, -, rfl⟩ | ⟨-, rfl⟩ := transportCall_cases h
    · refine List.forall_mem_append.mpr ⟨?_, quiet_of_subscribeClient⟩
      simp [Mqtt.reportError, Section.isQuiet, concernsMessage_error]
    · simp [Section.isQuiet]
    · exact quiet_of_subscribeClient
  all_goals
    obtain ⟨-, rfl⟩ := Prod.mk.inj (Option.some.inj h)
    exact List.forall_mem_nil _

/-- No section of the callback changes the status. -/
theorem status_of_isFanOut (ha : a.isFanOut = true) (h : s.run k a choice = some (s', as)) :
    s'.status = s.status := by
  have hrun := (run_eq_some.mp h).2
  by_cases hwrites : a.writesStatus = false
  · exact (frame_runSection hrun).status hwrites
  cases a with
  | reportSection error changesLifecycle =>
      have hchanges : changesLifecycle = false := by simpa [Section.isFanOut] using ha
      rw [hchanges] at hrun
      simp only [runSection, Bool.and_false, Bool.false_eq_true, if_false] at hrun
      obtain ⟨rfl, -⟩ := Prod.mk.inj (Option.some.inj hrun)
      rfl
  | writeStatus | handleConnected => cases ha
  | _ => exact absurd rfl hwrites

/-- What a section of the callback takes off what is expected, and what it leaves. -/
structure Unfolds (a : Section) (choice : Choice) (as : List Section) : Prop where
  isFanOut : ∀ b ∈ as, b.isFanOut = true
  unended : unended [a] = (a.ending choice).length + unended as
  expected : ∀ rest endings,
    expected (a :: rest) (a.ending choice ++ endings) = a.seen ++ expected (as ++ rest) endings

theorem unfolds_of_quiet (hending : a.ending choice = []) (hunended : a.unended = none)
    (h : ∀ b ∈ as, b.isQuiet = true) : Unfolds a choice as where
  isFanOut := fun b hb => Section.isFanOut_of_isQuiet (h b hb)
  unended := by
    rw [hending, unended_of_quiet h]
    simp [Mqtt.unended, hunended]
  expected := fun rest endings => by
    rw [hending, expected_append_of_quiet h]
    simp [Mqtt.expected, hunended]

theorem quiet_of_report {error : Bytes} (h : s.run k (.reportSection error false) choice =
    some (s', as)) : ∀ b ∈ as, b.isQuiet = true := by
  obtain ⟨-, h⟩ := run_eq_some.mp h
  simp only [runSection, Bool.and_false, Bool.false_eq_true, if_false] at h
  obtain ⟨-, rfl⟩ := Prod.mk.inj (Option.some.inj h)
  simp [Section.isQuiet]

theorem unfolds_of_throw {topic : Bytes} (thrown : Thrown)
    (hending : (Section.inHandler topic).ending choice = [some thrown]) :
    Unfolds (.inHandler topic) choice [.reportSection (failureText topic thrown) false] where
  isFanOut := by simp [Section.isFanOut]
  unended := by
    rw [hending]
    rfl
  expected := fun rest endings => by
    rw [hending]
    simp [Mqtt.expected, Section.unended, Section.seen, failure]

theorem unfolds_of_run (ha : a.isFanOut = true)
    (hcalls : ∀ call, choice = .calls call → call.isSubscription = true)
    (h : s.run k a choice = some (s', as)) : Unfolds a choice as := by
  by_cases hquiet : a.isQuiet = true
  · refine unfolds_of_quiet ?_ (Section.unended_of_isQuiet hquiet) (quiet_of_run hquiet h)
    cases a <;> first | rfl | cases hquiet
  cases a <;> simp only [Section.isFanOut, hquiet, Bool.false_eq_true] at ha
  case reportSection error changesLifecycle =>
    obtain rfl : changesLifecycle = false := by simpa using ha
    exact unfolds_of_quiet rfl rfl (quiet_of_report h)
  case invokeHandler handler topic payload =>
    obtain ⟨-, h⟩ := run_eq_some.mp h
    obtain ⟨-, rfl⟩ := Prod.mk.inj (Option.some.inj h)
    exact {
      isFanOut := by simp [Section.isFanOut]
      unended := rfl
      expected := fun rest endings => by
        simp [Mqtt.expected, Section.unended, Section.seen, Section.ending] }
  case inHandler topic =>
    obtain ⟨-, h⟩ := run_eq_some.mp h
    cases choice with
    | throws what =>
        obtain ⟨-, rfl⟩ := Prod.mk.inj (Option.some.inj h)
        exact unfolds_of_throw (.standard what) rfl
    | throwsOther what =>
        obtain ⟨-, rfl⟩ := Prod.mk.inj (Option.some.inj h)
        exact unfolds_of_throw .other rfl
    | calls call =>
        -- the handler goes on after the sections of its call
        simp only [runSection] at h
        split at h
        · obtain ⟨⟨t, bs⟩, hcall, heq⟩ := Option.map_eq_some_iff.mp h
          obtain ⟨-, rfl⟩ := Prod.mk.inj heq
          have hbs := (enter_isSubscription (hcalls call rfl) hcall).2
          exact {
            isFanOut := List.forall_mem_append.mpr
              ⟨fun b hb => Section.isFanOut_of_isQuiet (hbs b hb), by simp [Section.isFanOut]⟩
            unended := by
              rw [unended_append, unended_of_quiet hbs]
              rfl
            expected := fun rest endings => by
              rw [List.append_assoc, expected_append_of_quiet hbs]
              rfl }
        · cases h
    | proceed | timesOut =>
        obtain ⟨-, rfl⟩ := Prod.mk.inj (Option.some.inj h)
        exact {
          isFanOut := List.forall_mem_nil _
          unended := rfl
          expected := fun rest endings => rfl }

/-! ### The log of a callback -/

abbrev Log := List (Entry MqttService Section Choice)

/-- What others have seen of the callback. -/
def seen (log : Log) : List Event := log.flatMap fun e => e.ran.seen

/-- How its handlers have ended. -/
def endings (log : Log) : List (Option Thrown) := log.flatMap fun e => e.ran.ending e.choice

/-- All that it has reported, whatever it is about. -/
def reports (log : Log) : List Bytes := log.filterMap fun e => e.ran.report

/-- The handlers whose filters match the topic, in the order of the filters. -/
def matched (s : MqttService) (topic : Bytes) : List ℕ :=
  (s.subscriptions.toList.filter fun subscription =>
    topicMatches subscription.topic topic).map Subscription.handler

/-- After the handlers have been copied, with `left` still to do: up to what is left, the
callback has done what its loop does with the handlers that matched on arrival, each
ending as it did; and that loop returns. -/
structure FannedOut (arrival : MqttService) (topic payload : Bytes) (log : Log)
    (left : List Section) : Prop where
  events : ∃ later rest,
    (endings log ++ later).length = (matched arrival topic).length ∧
    fanOut topic payload ((matched arrival topic).zip (endings log ++ later)) =
      seen log ++ rest ∧
    messageArrived topic payload ((matched arrival topic).zip (endings log ++ later)) [] =
      (.ok (), seen log ++ rest) ∧
    (left = [] → later = [] ∧ rest = [])
  unhandled : matched arrival topic = [] → left = [] → reports log = [unhandledText topic]

/-- What the callback does, as far as it has come. -/
structure Delivers (k : ℕ) (topic payload : Bytes) (log : Log) (left : List Section) : Prop where
  /-- it waits for the lock, or goes on from what it found under the lock -/
  arrival : log = [] ∧ left = [.matchHandlers topic payload] ∨
    ∃ arrival choice rest, log = ⟨arrival, .matchHandlers topic payload, choice⟩ :: rest ∧
      FannedOut arrival topic payload rest left
  status : ∀ e ∈ log, ∀ s' as, e.state.run k e.ran e.choice = some (s', as) →
    s'.status = e.state.status

theorem runs_fanOut {left : List Section} {log : Log}
    (h : program.Runs Anything k s as log s' left)
    (hcalls : ∀ e ∈ log, ∀ call, e.choice = .calls call → call.isSubscription = true)
    (has : ∀ a ∈ as, a.isFanOut = true) :
    unended as = (endings log).length + unended left ∧
      ∀ more, expected as (endings log ++ more) = seen log ++ expected left more := by
  induction h with
  | stop as hothers => exact ⟨(Nat.zero_add _).symm, fun more => rfl⟩
  | @next _ s _ _ a choice as rest left log hothers hrun hrest ih =>
      obtain ⟨hcall, hlater⟩ := List.forall_mem_cons.mp hcalls
      obtain ⟨ha, hrest'⟩ := List.forall_mem_cons.mp has
      have hunfolds : Unfolds a choice as := unfolds_of_run ha hcall hrun
      obtain ⟨hcount, hevents⟩ :=
        ih hlater (List.forall_mem_append.mpr ⟨hunfolds.isFanOut, hrest'⟩)
      have hendings : endings (⟨s, a, choice⟩ :: log) = a.ending choice ++ endings log := rfl
      have hseen : seen (⟨s, a, choice⟩ :: log) = a.seen ++ seen log := rfl
      rw [hendings, hseen]
      constructor
      · have hsplit : unended (a :: rest) = unended [a] + unended rest := unended_append [a] rest
        rw [hsplit, hunfolds.unended, List.length_append]
        rw [unended_append] at hcount
        omega
      · intro more
        rw [List.append_assoc, hunfolds.expected, hevents, List.append_assoc]

theorem expected_invocations {topic payload : Bytes} {handlers : List ℕ}
    {ends : List (Option Thrown)} (h : ends.length = handlers.length) :
    expected (handlers.map fun handler => .invokeHandler handler topic payload) ends =
      (handlers.zip ends).flatMap fun handler =>
        .invoked handler.1 topic payload :: failure topic handler.2 := by
  induction handlers generalizing ends with
  | nil => rfl
  | cons handler handlers ih =>
      cases ends with
      | nil => cases h
      | cons ending ends =>
          have hrest := ih (Nat.succ.inj h)
          simp [expected, Section.unended, Section.seen, hrest]

theorem unended_invocations (topic payload : Bytes) (handlers : List ℕ) :
    unended (handlers.map fun handler => .invokeHandler handler topic payload) =
      handlers.length := by
  induction handlers with
  | nil => rfl
  | cons handler handlers ih => simp [unended, Section.unended]

/-- What follows the locked section of the callback. -/
def afterMatch (topic payload : Bytes) (handlers : List ℕ) : List Section :=
  if handlers.isEmpty then [.reportSection (unhandledText topic) false]
  else handlers.map fun handler => .invokeHandler handler topic payload

theorem run_matchHandlers {topic payload : Bytes}
    (h : s.run k (.matchHandlers topic payload) choice = some (s', as)) :
    s' = s ∧ as = afterMatch topic payload (matched s topic) := by
  obtain ⟨-, h⟩ := run_eq_some.mp h
  obtain ⟨rfl, rfl⟩ := Prod.mk.inj (Option.some.inj h)
  refine ⟨rfl, ?_⟩
  simp only [afterMatch, matched, List.isEmpty_map, List.map_map]
  rfl

theorem isFanOut_afterMatch {topic payload : Bytes} {handlers : List ℕ} :
    ∀ a ∈ afterMatch topic payload handlers, a.isFanOut = true := by
  unfold afterMatch
  split <;> simp [Section.isFanOut]

theorem unended_afterMatch (topic payload : Bytes) (handlers : List ℕ) :
    unended (afterMatch topic payload handlers) = handlers.length := by
  unfold afterMatch
  split
  · rename_i hempty
    rw [List.isEmpty_iff.mp hempty]
    rfl
  · exact unended_invocations topic payload handlers

theorem expected_afterMatch {topic payload : Bytes} {handlers : List ℕ}
    {ends : List (Option Thrown)} (h : ends.length = handlers.length) :
    expected (afterMatch topic payload handlers) ends =
      fanOut topic payload (handlers.zip ends) := by
  unfold afterMatch fanOut
  cases handlers with
  | nil => simp [expected, Section.unended, Section.seen]
  | cons handler handlers =>
      cases ends with
      | nil => cases h
      | cons ending ends => exact expected_invocations h

/-! ### A message that nobody wants -/

theorem run_of_isAfterReport (ha : Section.isAfterReport a = true)
    (h : s.run k a choice = some (s', as)) : ∀ b ∈ as, Section.isAfterReport b = true := by
  obtain ⟨-, h⟩ := run_eq_some.mp h
  cases a <;> simp only [Section.isAfterReport, Bool.false_eq_true] at ha
  all_goals
    obtain ⟨-, rfl⟩ := Prod.mk.inj (Option.some.inj h)
    simp [Section.isAfterReport]

theorem reports_of_isAfterReport {left : List Section} {log : Log}
    (h : program.Runs Anything k s as log s' left) (has : ∀ a ∈ as, Section.isAfterReport a = true) :
    reports log = [] := by
  have hran := h.forall_ran (J := fun a => Section.isAfterReport a = true)
    (fun e _ s' bs ha hrun => run_of_isAfterReport ha hrun) has
  apply List.filterMap_eq_nil_iff.mpr
  intro e he
  have ha := hran e he
  revert ha
  cases e.ran <;> simp [Section.isAfterReport, Section.report]

theorem reports_of_report {error : Bytes} {log : Log}
    (h : program.Runs Anything k s [.reportSection error false] log s' []) :
    reports log = [error] := by
  cases h with
  | @next _ s _ _ a choice as rest left log hothers hrun hrest =>
      have has : ∀ b ∈ as, Section.isAfterReport b = true := by
        obtain ⟨-, h⟩ := run_eq_some.mp hrun
        simp only [runSection, Bool.and_false, Bool.false_eq_true, if_false] at h
        obtain ⟨-, rfl⟩ := Prod.mk.inj (Option.some.inj h)
        simp [Section.isAfterReport]
      rw [List.append_nil] at hrest
      have hlater := reports_of_isAfterReport hrest has
      show error :: reports log = [error]
      rw [hlater]

/-! ### The callback -/

theorem fannedOut_of_runs {topic payload : Bytes} {left : List Section} {log : Log}
    {x : MqttService}
    (h : program.Runs Anything k x (afterMatch topic payload (matched s topic)) log s' left)
    (hcalls : ∀ e ∈ log, ∀ call, e.choice = .calls call → call.isSubscription = true) :
    FannedOut s topic payload log left := by
  obtain ⟨hcount, hevents⟩ := runs_fanOut h hcalls isFanOut_afterMatch
  rw [unended_afterMatch] at hcount
  constructor
  · -- the handlers that have not ended yet may end in any way
    let later : List (Option Thrown) := List.replicate (unended left) none
    have hlength : (endings log ++ later).length = (matched s topic).length := by
      simp [later, hcount]
    have hfanOut : fanOut topic payload ((matched s topic).zip (endings log ++ later)) =
        seen log ++ expected left later := by
      rw [← expected_afterMatch hlength, hevents]
    refine ⟨later, expected left later, hlength, hfanOut, ?_, ?_⟩
    · rw [records_messageArrived, hfanOut]
      rfl
    · rintro rfl
      exact ⟨rfl, rfl⟩
  · rintro hnone rfl
    rw [hnone] at h
    exact reports_of_report h

theorem delivers_of_runs {topic payload : Bytes} {left : List Section} {log : Log}
    (h : program.Runs Anything k s [.matchHandlers topic payload] log s' left)
    (hcalls : ∀ e ∈ log, ∀ call, e.choice = .calls call → call.isSubscription = true) :
    Delivers k topic payload log left := by
  cases h with
  | stop as hothers => exact ⟨.inl ⟨rfl, rfl⟩, fun e he => absurd he List.not_mem_nil⟩
  | @next _ arrival _ _ a choice as rest left log hothers hmatch hrest =>
      obtain ⟨rfl, rfl⟩ := run_matchHandlers hmatch
      rw [List.append_nil] at hrest
      obtain ⟨-, hlater⟩ := List.forall_mem_cons.mp hcalls
      refine ⟨.inr ⟨_, choice, log, rfl, fannedOut_of_runs hrest hlater⟩, ?_⟩
      have hran := hrest.forall_ran (J := fun a => a.isFanOut = true)
        (fun e he s' bs ha hrun => (unfolds_of_run ha (hlater e he) hrun).isFanOut)
        isFanOut_afterMatch
      refine List.forall_mem_cons.mpr ⟨fun s' as h => ?_, fun e he s' as h => ?_⟩
      · rw [(run_matchHandlers h).1]
      · exact status_of_isFanOut (hran e he) h

theorem enter_messageArrived {s t : Threads MqttService Section} {k c : ℕ} {topic payload : Bytes}
    (h : machine.step s (.enter k (.messageArrived c topic payload)) = some t) :
    t.pending k = [.matchHandlers topic payload] ∧ t.shared.status = s.shared.status := by
  obtain ⟨j, call, s', as, hl, -, henter, rfl⟩ | ⟨j, choice, a, rest, s', as, hl, -⟩ :=
    step_cases h
  · obtain ⟨rfl, rfl⟩ := Threads.Label.enter.inj hl
    simp only [enter] at henter
    split at henter
    · obtain ⟨rfl, rfl⟩ := Prod.mk.inj (Option.some.inj henter)
      exact ⟨Threads.pending_become_self .., rfl⟩
    · cases henter
  · cases hl

/-- In every run, whatever other threads do and whatever handlers throw, the callback
`message_arrived` delivers the message to the handlers that match on arrival. -/
theorem message_fan_out {s t u : Threads MqttService Section} {k c : ℕ} {topic payload : Bytes}
    {ls : List (Threads.Label Call Choice)}
    (harrives : machine.step s (.enter k (.messageArrived c topic payload)) = some t)
    (hrun : machine.exec t ls = some u) (hown : ∀ call, .enter k call ∉ ls)
    (hcalls : ∀ call, .advance k (.calls call) ∈ ls → call.isSubscription = true) :
    t.shared.status = s.shared.status ∧
      Delivers k topic payload (program.ranBy k t ls) (u.pending k) := by
  obtain ⟨hpending, hstatus⟩ := enter_messageArrived harrives
  have hruns := runs_ranBy_anything hown hrun
  rw [hpending] at hruns
  refine ⟨hstatus, delivers_of_runs hruns fun e he call hcall => ?_⟩
  apply hcalls
  rw [← hcall]
  exact choice_mem_of_ranBy he

/-- A service with two filters that match the topic `a`; the handler of `#` throws, the
handler of `a` subscribes to another topic. -/
def twoHandlers : MqttService :=
  { MqttService.initial .initial with
    clients := fun _ => { Client.absent with callbacks := true }
    subscriptions := (KeyedMap.empty.insert ⟨[97], 1⟩).insert ⟨[35], 2⟩ }

def twoHandlersRun : List (Threads.Label Call Choice) :=
  List.replicate 2 (.advance 0 .proceed) ++ .advance 0 (.throws [98]) ::
    List.replicate 7 (.advance 0 .proceed) ++
      .advance 0 (.calls (.subscribe [99] (some 3))) ::
        List.replicate 2 (.advance 0 .proceed)

theorem message_fan_out_twoHandlers : ∃ t u,
    machine.step (Threads.initial twoHandlers) (.enter 0 (.messageArrived 0 [97] [100])) = some t ∧
    machine.exec t twoHandlersRun = some u ∧ u.pending 0 = [] ∧
    seen (program.ranBy 0 t twoHandlersRun) = [.invoked 2 [97] [100],
      .reported (failureText [97] (.standard [98])), .invoked 1 [97] [100]] ∧
    Delivers 0 [97] [100] (program.ranBy 0 t twoHandlersRun) [] := by
  have harrives : machine.step (Threads.initial twoHandlers)
      (.enter 0 (.messageArrived 0 [97] [100])) =
        some ((Threads.initial twoHandlers).become 0 twoHandlers [.matchHandlers [97] [100]]) := rfl
  have hend : (machine.exec ((Threads.initial twoHandlers).become 0 twoHandlers
      [.matchHandlers [97] [100]]) twoHandlersRun).map (fun u => (u.pending 0).isEmpty) =
        some true := by decide +kernel
  have hseen : seen (program.ranBy 0 ((Threads.initial twoHandlers).become 0 twoHandlers
      [.matchHandlers [97] [100]]) twoHandlersRun) = [.invoked 2 [97] [100],
        .reported (failureText [97] (.standard [98])), .invoked 1 [97] [100]] := by decide +kernel
  obtain ⟨u, hrun, hempty⟩ := Option.map_eq_some_iff.mp hend
  have hdone : u.pending 0 = [] := List.isEmpty_iff.mp hempty
  obtain ⟨-, hdelivers⟩ := message_fan_out harrives hrun (by simp [twoHandlersRun])
    (by simp [twoHandlersRun, Call.isSubscription])
  rw [hdone] at hdelivers
  exact ⟨_, u, harrives, hrun, hdone, hseen, hdelivers⟩

end MqttService

end Watchlist.Mqtt
