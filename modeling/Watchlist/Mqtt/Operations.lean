import Watchlist.Mqtt.Frame

/-!
The operations that `TrackOperation` has registered. An operation leaves
`pendingOperations_` when its callback completes it, when its initiating call has
thrown, and when `ReleaseClient` clears the list. The first two leave a trace: a
success callback, an error that names the operation, an exception. The third
leaves none, so an operation is lost when the client is released before either.
-/

namespace Watchlist.Mqtt.MqttService

open Bytes Transition

variable {s t : Threads MqttService Section} {l : Threads.Label Call Choice}

/-- The operation is pending, or its success callback has been delivered, or its
initiating call has thrown, or its failure has been handed to `ReportError`, with
an error that names it. -/
def Accounted (s : Threads MqttService Section) (operation : Operation) : Prop :=
  operation ∈ s.shared.pendingOperations ∨ operation ∈ s.shared.succeeded ∨
    operation ∈ s.shared.threw ∨
    ∃ error, (operation, error) ∈ s.shared.failed ∧ operation.name <+: error ∧
      (error ∈ s.shared.reported ∨ s.Pending (.reportSection error false))

/-- `ReleaseClient` clears the list when the operations left in it have had their
success callback, or an exception. -/
def ClearsSettled (s : Threads MqttService Section) : Threads.Label Call Choice → Prop
  | .advance k _ => ∀ rest, s.pending k = .clearPending :: rest →
      ∀ operation ∈ s.shared.pendingOperations,
        operation ∈ s.shared.succeeded ∨ operation ∈ s.shared.threw
  | .enter .. => True

/-! ### One section -/

section Sections

variable {k : ℕ} {s s' : MqttService} {a : Section} {x : Choice} {as : List Section} {call : Call}

/-- How a section treats the operations. -/
structure Treats (s s' : MqttService) (a : Section) (as : List Section) : Prop where
  tracked : ∀ operation ∈ s'.tracked, operation ∈ s.tracked ∨ operation ∈ s'.pendingOperations
  pending : ∀ operation ∈ s.pendingOperations, operation ∈ s'.pendingOperations ∨
    a = .clearPending ∨ a = .cancelOperation operation ∨
    ∃ error, a = .completeOperation operation error ∧
      (error = [] ∨ (operation, error) ∈ s'.failed)
  threw : s.threw ⊆ s'.threw
  failed : s.failed ⊆ s'.failed
  failures : ∀ operation error, (operation, error) ∈ s'.failed → (operation, error) ∈ s.failed ∨
    a = .completeOperation operation error ∧ error ≠ [] ∧ .reportSection error false ∈ as
  reported : s.reported ⊆ s'.reported

theorem Treats.of_same (hoperations : s'.pendingOperations = s.pendingOperations ∧
      s'.tracked = s.tracked ∧ s'.threw = s.threw) (hfailed : s'.failed = s.failed)
    (hreported : s.reported ⊆ s'.reported) : Treats s s' a as := by
  obtain ⟨hpending, htracked, hthrew⟩ := hoperations
  constructor
  · rw [htracked]
    exact fun _ => Or.inl
  · rw [hpending]
    exact fun _ => Or.inl
  · rw [hthrew]
    exact List.Subset.refl _
  · rw [hfailed]
    exact List.Subset.refl _
  · rw [hfailed]
    exact fun _ _ => Or.inl
  · exact hreported

theorem reported_subset (h : s.runSection k a x = some (s', as)) : s.reported ⊆ s'.reported := by
  cases hw : a.writesReported with
  | false =>
      rw [(frame_runSection h).reported hw]
      exact List.Subset.refl _
  | true =>
      cases a <;> try contradiction
      case reportSection error changesLifecycle =>
          simp only [runSection] at h
          split at h
          all_goals
            obtain ⟨rfl, -⟩ := Prod.mk.inj (Option.some.inj h)
            exact List.subset_append_left _ _

theorem treats_runSection (h : s.runSection k a x = some (s', as)) : Treats s s' a as := by
  have hreported := reported_subset h
  cases hw : a.writesOperations with
  | false =>
      exact .of_same ((frame_runSection h).operations hw) ((frame_runSection h).failed hw) hreported
  | true =>
      cases a <;> try contradiction
      case clearPending =>
          obtain ⟨rfl, rfl⟩ := Prod.mk.inj (Option.some.inj h)
          exact ⟨fun _ => Or.inl, fun _ _ => Or.inr (Or.inl rfl), List.Subset.refl _,
            List.Subset.refl _, fun _ _ => Or.inl, hreported⟩
      case trackOperation name call next =>
          obtain ⟨rfl, rfl⟩ := Prod.mk.inj (Option.some.inj h)
          refine ⟨fun operation hop => ?_, fun operation hop => ?_, List.Subset.refl _,
            List.Subset.refl _, fun _ _ => Or.inl, hreported⟩
          · rcases List.mem_append.mp hop with hold | hnew
            · exact Or.inl hold
            · exact Or.inr (List.mem_append_right _ hnew)
          · exact Or.inl (List.mem_append_left _ hop)
      case transportCall operation call next =>
          obtain ⟨what, -, rfl, -⟩ | ⟨what, -, rfl, -⟩ | ⟨haccept, -⟩ := transportCall_cases h
          · exact ⟨fun _ => Or.inl, fun _ => Or.inl, List.subset_append_left _ _,
              List.Subset.refl _, fun _ _ => Or.inl, hreported⟩
          · exact ⟨fun _ => Or.inl, fun _ => Or.inl, List.subset_append_left _ _,
              List.Subset.refl _, fun _ _ => Or.inl, hreported⟩
          · rw [accept_eq haccept]
            exact .of_same ⟨rfl, rfl, rfl⟩ rfl (List.Subset.refl _)
      case cancelOperation operation =>
          obtain ⟨rfl, rfl⟩ := Prod.mk.inj (Option.some.inj h)
          refine ⟨fun _ => Or.inl, fun other hother => ?_, List.Subset.refl _,
            List.Subset.refl _, fun _ _ => Or.inl, hreported⟩
          by_cases heq : other = operation
          · subst heq
            exact Or.inr (Or.inr (Or.inl rfl))
          · exact Or.inl (List.mem_filter.mpr ⟨hother, by simpa using heq⟩)
      case completeOperation operation error =>
          simp only [runSection] at h
          split at h
          · obtain ⟨rfl, rfl⟩ := Prod.mk.inj (Option.some.inj h)
            refine ⟨fun _ => Or.inl, fun other hother => ?_, List.Subset.refl _, ?_, ?_, hreported⟩
            · by_cases heq : other = operation
              · subst heq
                refine Or.inr (Or.inr (Or.inr ⟨error, rfl, ?_⟩))
                by_cases herror : error = []
                · exact Or.inl herror
                · right
                  simp [herror]
              · exact Or.inl ((List.mem_erase_of_ne heq).mpr hother)
            · intro e he
              dsimp only
              split
              · exact he
              · exact List.mem_append_left _ he
            · intro other error' hfailed
              dsimp only at hfailed
              split at hfailed
              · exact Or.inl hfailed
              · rename_i hnonempty
                rcases List.mem_append.mp hfailed with hold | hnew
                · exact Or.inl hold
                · obtain ⟨rfl, rfl⟩ := Prod.mk.inj (List.mem_singleton.mp hnew)
                  refine Or.inr ⟨rfl, by simpa using hnonempty, ?_⟩
                  rw [if_neg hnonempty]
                  exact List.mem_singleton_self _
          · obtain ⟨rfl, rfl⟩ := Prod.mk.inj (Option.some.inj h)
            exact .of_same ⟨rfl, rfl, rfl⟩ rfl hreported

/-- A callback completes an operation after its success has been delivered, or with
an error that starts with its name. -/
def Settles (s : MqttService) (operation : Operation) (error : Bytes) : Prop :=
  error = [] ∧ operation ∈ s.succeeded ∨ error ≠ [] ∧ operation.name <+: error

theorem settles_enter (h : s.enter k call = some (s', as)) :
    s.succeeded ⊆ s'.succeeded ∧
      ∀ operation error, .completeOperation operation error ∈ as →
        Settles s' operation error := by
  have hother : (∀ operation error, Section.completeOperation operation error ∉ as) →
      s'.succeeded = s.succeeded → s.succeeded ⊆ s'.succeeded ∧
        ∀ operation error, .completeOperation operation error ∈ as →
          Settles s' operation error := by
    intro hnone hsame
    rw [hsame]
    exact ⟨List.Subset.refl _, fun operation error hmem => absurd hmem (hnone operation error)⟩
  cases call with
  | operationSucceeded operation =>
      simp only [enter] at h
      split at h
      · obtain ⟨rfl, rfl⟩ := Prod.mk.inj (Option.some.inj h)
        refine ⟨List.subset_append_left _ _, fun operation' error hmem => ?_⟩
        obtain ⟨rfl, rfl⟩ := Section.completeOperation.inj (List.mem_singleton.mp hmem)
        exact Or.inl ⟨rfl, List.mem_append_right _ (List.mem_singleton_self _)⟩
      · contradiction
  | operationFailed operation message code =>
      simp only [enter] at h
      split at h
      · obtain ⟨rfl, rfl⟩ := Prod.mk.inj (Option.some.inj h)
        refine ⟨List.Subset.refl _, fun operation' error hmem => ?_⟩
        obtain ⟨rfl, rfl⟩ := Section.completeOperation.inj (List.mem_singleton.mp hmem)
        refine Or.inr ⟨fun hnil => ?_, ?_⟩
        · have hparenthesis : ascii ")" = [] := (List.append_eq_nil_iff.mp hnil).2
          revert hparenthesis
          decide
        · simp only [List.append_assoc]
          exact List.prefix_append _ _
      · contradiction
  | connect | subscribe | unsubscribe | publish | disconnect | setStatusHandler
  | setErrorHandler =>
      obtain ⟨rfl, hstarts⟩ := enter_api rfl h
      refine hother (fun operation error hmem => ?_) rfl
      cases hstarts _ hmem
  | requestStop | updateConsoleForm | setStatus | reportError | handleConnected =>
      obtain ⟨rfl, rfl⟩ := Prod.mk.inj (Option.some.inj h)
      exact hother (by simp [Mqtt.setStatus, Mqtt.reportError]) rfl
  | connected c | connectSucceeded c =>
      simp only [enter] at h
      split at h
      · obtain ⟨rfl, rfl⟩ := Prod.mk.inj (Option.some.inj h)
        exact hother (by simp) (congrArg (·.succeeded) (establish_eq s c))
      · contradiction
  | run | connectFailed | connectionLost | messageArrived =>
      simp only [enter] at h
      split at h
      all_goals first
        | contradiction
        | obtain ⟨rfl, rfl⟩ := Prod.mk.inj (Option.some.inj h)
          exact hother (by simp [Mqtt.reportError]) rfl

end Sections

/-! ### Runs -/

structure OperationInvariant (s : Threads MqttService Section) : Prop where
  accounted : ∀ operation ∈ s.shared.tracked, operation ∈ s.shared.pendingOperations ∨
    operation ∈ s.shared.succeeded ∨ operation ∈ s.shared.threw ∨
    ∃ error, (operation, error) ∈ s.shared.failed
  failures : ∀ operation error, (operation, error) ∈ s.shared.failed → operation.name <+: error ∧
    (error ∈ s.shared.reported ∨ s.Pending (.reportSection error false))
  cancelled : ∀ operation, s.Pending (.cancelOperation operation) → operation ∈ s.shared.threw
  completed : ∀ operation error, s.Pending (.completeOperation operation error) →
    Settles s.shared operation error

theorem operationInvariant_initial (app : AppState) :
    OperationInvariant (Threads.initial (MqttService.initial app)) where
  accounted := nofun
  failures := nofun
  cancelled := fun _ h => absurd h ((Threads.idle_initial _).not_pending _)
  completed := fun _ _ h => absurd h ((Threads.idle_initial _).not_pending _)

theorem OperationInvariant.all_accounted (h : OperationInvariant s) :
    ∀ operation ∈ s.shared.tracked, Accounted s operation := by
  intro operation hop
  obtain hpending | hsucceeded | hthrew | ⟨error, hfailed⟩ := h.accounted operation hop
  · exact Or.inl hpending
  · exact Or.inr (Or.inl hsucceeded)
  · exact Or.inr (Or.inr (Or.inl hthrew))
  · exact Or.inr (Or.inr (Or.inr ⟨error, hfailed, h.failures operation error hfailed⟩))

theorem Settles.mono {s s' : MqttService} {operation : Operation} {error : Bytes}
    (h : Settles s operation error) (hsucceeded : s.succeeded ⊆ s'.succeeded) :
    Settles s' operation error := by
  obtain ⟨hempty, hmem⟩ | herror := h
  · exact Or.inl ⟨hempty, hsucceeded hmem⟩
  · exact Or.inr herror

theorem operationInvariant_step (hs : OperationInvariant s) (hc : ClearsSettled s l)
    (h : machine.step s l = some t) : OperationInvariant t := by
  obtain ⟨k, call, s', as, rfl, hidle, hcall, rfl⟩ |
    ⟨k, choice, a, rest, s', as, rfl, hat, -, hsection, rfl⟩ := step_cases h
  · obtain ⟨hsucceeded, hsettles⟩ := settles_enter hcall
    have hsame := enter_eq hcall
    have htracked : s'.tracked = s.shared.tracked := congrArg (·.tracked) hsame
    have hpending : s'.pendingOperations = s.shared.pendingOperations :=
      congrArg (·.pendingOperations) hsame
    have hthrew : s'.threw = s.shared.threw := congrArg (·.threw) hsame
    have hfailed : s'.failed = s.shared.failed := congrArg (·.failed) hsame
    have hreported : s'.reported = s.shared.reported := congrArg (·.reported) hsame
    constructor
    · rw [Threads.shared_become, htracked, hpending, hthrew, hfailed]
      intro operation hop
      obtain hold | hold | hold | hold := hs.accounted operation hop
      · exact Or.inl hold
      · exact Or.inr (Or.inl (hsucceeded hold))
      · exact Or.inr (Or.inr (Or.inl hold))
      · exact Or.inr (Or.inr (Or.inr hold))
    · rw [Threads.shared_become, hfailed, hreported]
      intro operation error hmem
      obtain ⟨hname, hold | hold⟩ := hs.failures operation error hmem
      · exact ⟨hname, Or.inl hold⟩
      · exact ⟨hname, Or.inr (hold.enter hidle)⟩
    · intro operation hp
      rw [Threads.shared_become, hthrew]
      rcases Threads.pending_of_enter hp with hnew | hold
      · rcases enter_sections hcall _ hnew with hb | ⟨_, _, -, hb⟩ <;> cases hb
      · exact hs.cancelled operation hold
    · intro operation error hp
      rcases Threads.pending_of_enter hp with hnew | hold
      · exact hsettles operation error hnew
      · exact (hs.completed operation error hold).mono hsucceeded
  · have htreats := treats_runSection hsection
    have hsucceeded : s'.succeeded = s.shared.succeeded := (frame_runSection hsection).succeeded
    constructor
    · intro operation hop
      rw [Threads.shared_become, hsucceeded]
      rcases htreats.tracked operation hop with hold | hnew
      · obtain hpending | hdone | hthrew | ⟨error, hfailed⟩ := hs.accounted operation hold
        · -- the operation was pending: where has it gone?
          obtain hstill | rfl | rfl | ⟨error, rfl, hend⟩ := htreats.pending operation hpending
          · exact Or.inl hstill
          · rcases hc rest hat operation hpending with hdone | hthrew
            · exact Or.inr (Or.inl hdone)
            · exact Or.inr (Or.inr (Or.inl (htreats.threw hthrew)))
          · have hthrew := hs.cancelled operation (Threads.pending_head hat)
            exact Or.inr (Or.inr (Or.inl (htreats.threw hthrew)))
          · obtain ⟨-, hdone⟩ | ⟨herror, -⟩ :=
              hs.completed operation error (Threads.pending_head hat)
            · exact Or.inr (Or.inl hdone)
            · exact Or.inr (Or.inr (Or.inr ⟨error, hend.resolve_left herror⟩))
        · exact Or.inr (Or.inl hdone)
        · exact Or.inr (Or.inr (Or.inl (htreats.threw hthrew)))
        · exact Or.inr (Or.inr (Or.inr ⟨error, htreats.failed hfailed⟩))
      · exact Or.inl hnew
    · intro operation error hmem
      rcases htreats.failures operation error hmem with hold | ⟨rfl, herror, hreport⟩
      · obtain ⟨hname, hreported | hpending⟩ := hs.failures operation error hold
        · exact ⟨hname, Or.inl (htreats.reported hreported)⟩
        · refine ⟨hname, ?_⟩
          rcases hpending.become hat with rfl | hpending
          · -- the report itself
            left
            simp only [runSection, Bool.and_false, Bool.false_eq_true, if_false] at hsection
            obtain ⟨rfl, -⟩ := Prod.mk.inj (Option.some.inj hsection)
            exact List.mem_append_right _ (List.mem_singleton_self _)
          · exact Or.inr hpending
      · obtain ⟨hempty, -⟩ | ⟨-, hname⟩ :=
          hs.completed operation error (Threads.pending_head hat)
        · exact absurd hempty herror
        · exact ⟨hname, Or.inr (Threads.pending_become_of_mem hreport)⟩
    · intro operation hp
      rcases Threads.pending_of_become hat hp with hnew | hold
      · exact origin_runSection hsection _ hnew
      · exact htreats.threw (hs.cancelled operation hold)
    · intro operation error hp
      rcases Threads.pending_of_become hat hp with hnew | hold
      · exact (origin_runSection hsection _ hnew).elim
      · refine (hs.completed operation error hold).mono ?_
        rw [Threads.shared_become, hsucceeded]
        exact List.Subset.refl _

/-- An operation that is left in the list when it is cleared has disappeared. -/
theorem not_accounted_of_cleared {k : ℕ} {rest : List Section} {choice : Choice}
    {operation : Operation} (hat : s.pending k = .clearPending :: rest)
    (hfree : s.shared.held = false) (hsucceeded : operation ∉ s.shared.succeeded)
    (hthrew : operation ∉ s.shared.threw)
    (hfailed : ∀ error, (operation, error) ∉ s.shared.failed) :
    ∃ t, machine.step s (.advance k choice) = some t ∧ ¬Accounted t operation := by
  refine ⟨_, Program.step_of_moves (.advance hat (run_eq_some.mpr ⟨fun _ => hfree, rfl⟩)), ?_⟩
  rintro (hpending | hdone | hthrows | ⟨error, hmem, -⟩)
  · cases hpending
  · exact hsucceeded hdone
  · exact hthrew hthrows
  · exact hfailed error hmem

/-- In a run where the list is only cleared of settled operations, every operation
that has been registered is accounted for. -/
theorem accounted_of_meets {app : AppState} {ls : List (Threads.Label Call Choice)}
    (hmeets : machine.Meets ClearsSettled (Threads.initial (MqttService.initial app)) ls)
    (hrun : machine.exec (Threads.initial (MqttService.initial app)) ls = some t) :
    ∀ operation ∈ t.shared.tracked, Accounted t operation :=
  (Machine.invariant_of_meets OperationInvariant (fun _ _ _ => operationInvariant_step) hmeets
    hrun (operationInvariant_initial app)).all_accounted

/-! ### A publication before the first connection -/

/-- `Run` has started its first connection attempt. -/
def attemptingRun : List (Threads.Label Call Choice) := .enter 0 (.run localBroker) :: steps 0 16

/-- `Publish`, on thread 2; the client buffers the message. -/
def publishing : List (Threads.Label Call Choice) :=
  .enter 2 (.publish (ascii "t") [1]) :: steps 2 3

/-- The attempt fails; `Run` waits for its retry delay, and connects again up to the
release of the client. -/
def retrying : List (Threads.Label Call Choice) :=
  .enter 1 (.connectFailed 0 (ascii "refused") (-1)) :: steps 1 6 ++
    steps 0 3 ++ .advance 0 .timesOut :: steps 0 9

def published : Operation := ⟨0, ascii "MQTT publish to t"⟩

/-- The registered operations, and how many are in each of the other lists. -/
def operationView (s : Threads MqttService Section) : List Operation × ℕ × ℕ × ℕ × ℕ :=
  (s.shared.tracked, s.shared.pendingOperations.length, s.shared.succeeded.length,
    s.shared.threw.length, s.shared.failed.length)

theorem publication_disappears :
    ∃ t, machine.exec (Threads.initial (MqttService.initial .initial))
        (attemptingRun ++ publishing ++ retrying) = some t ∧
      published ∈ t.shared.tracked ∧ ¬Accounted t published := by
  have hend : (machine.exec (Threads.initial (MqttService.initial .initial))
      (attemptingRun ++ publishing ++ retrying)).map operationView =
        some ([published], 0, 0, 0, 0) := by
    decide +kernel
  obtain ⟨t, hrun, hobserved⟩ := Option.map_eq_some_iff.mp hend
  simp only [operationView, Prod.mk.injEq, List.length_eq_zero_iff] at hobserved
  obtain ⟨htracked, hpending, hsucceeded, hthrew, hfailed⟩ := hobserved
  refine ⟨t, hrun, by simp [htracked], ?_⟩
  simp [Accounted, hpending, hsucceeded, hthrew, hfailed]

/-- A check for `ClearsSettled`. -/
def clearsSettled (s : Threads MqttService Section) : Threads.Label Call Choice → Bool
  | .advance k _ =>
      match s.pending k with
      | .clearPending :: _ => s.shared.pendingOperations.all fun operation =>
          operation ∈ s.shared.succeeded || operation ∈ s.shared.threw
      | _ => true
  | .enter .. => true

theorem clearsSettled_of_check (h : clearsSettled s l = true) : ClearsSettled s l := by
  cases l with
  | enter k call => trivial
  | advance k choice =>
      intro rest hat operation hop
      simp only [clearsSettled, hat, List.all_eq_true] at h
      simpa using h operation hop

/-- The failed publication is completed before the retry. -/
theorem accounted_of_meets_failed :
    ∃ t, machine.exec (Threads.initial (MqttService.initial .initial))
        (attemptingRun ++ publishing ++ .enter 2 (.operationFailed published (ascii "lost") (-3)) ::
          steps 2 6 ++ retrying) = some t ∧
      t.shared.tracked = [published] ∧ ∀ operation ∈ t.shared.tracked, Accounted t operation := by
  have hend : (machine.exec (Threads.initial (MqttService.initial .initial))
      (attemptingRun ++ publishing ++ .enter 2 (.operationFailed published (ascii "lost") (-3)) ::
        steps 2 6 ++ retrying)).map (·.shared.tracked) = some [published] := by
    decide +kernel
  obtain ⟨t, hrun, htracked⟩ := Option.map_eq_some_iff.mp hend
  have hchecks : machine.Meets (fun s l => clearsSettled s l = true)
      (Threads.initial (MqttService.initial .initial))
      (attemptingRun ++ publishing ++ .enter 2 (.operationFailed published (ascii "lost") (-3)) ::
        steps 2 6 ++ retrying) := by
    decide +kernel
  exact ⟨t, hrun, htracked, accounted_of_meets
    (hchecks.mono fun _ _ => clearsSettled_of_check) hrun⟩

end Watchlist.Mqtt.MqttService
