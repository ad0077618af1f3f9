import Watchlist.Mqtt.Frame

/-!
The console form next to the status updates of the service. `SetStatus`,
`ReportError` and `HandleConnected` take a snapshot of the whole console and write
it back in a second call, so a form update between the two calls is lost when the
snapshot is written. A form is safe exactly when no snapshot with other form
fields is waiting to be written back at the moment the GUI stores it.
-/

namespace Watchlist.Mqtt.MqttService

open Bytes Transition

variable {s t : Threads MqttService Section} {l : Threads.Label Call Choice}

/-- The form fields of the console are those of the last form update. -/
def FormKept (s : Threads MqttService Section) : Prop :=
  s.shared.app.console.SameForm s.shared.lastForm

/-- A form update comes while every snapshot that is still to be written back has
its form fields. -/
def FormUpdateAlone (s : Threads MqttService Section) : Threads.Label Call Choice → Prop
  | .enter _ (.updateConsoleForm console) =>
      ∀ snapshot, s.Pending (.updateConsole snapshot) → snapshot.SameForm console
  | _ => True

/-- What carries `FormKept`: the snapshots still to be written back have the form
fields of the last form update as well. -/
structure FormInvariant (s : Threads MqttService Section) : Prop where
  kept : FormKept s
  snapshots : ∀ snapshot, s.Pending (.updateConsole snapshot) →
    snapshot.SameForm s.shared.lastForm

theorem formInvariant_initial (app : AppState) :
    FormInvariant (Threads.initial (MqttService.initial app)) where
  kept := ConsoleState.SameForm.refl _
  snapshots := fun _ h => absurd h ((Threads.idle_initial _).not_pending _)

theorem formInvariant_step (hs : FormInvariant s) (hc : FormUpdateAlone s l)
    (h : machine.step s l = some t) : FormInvariant t := by
  obtain ⟨k, call, s', as, rfl, hidle, hcall, rfl⟩ |
    ⟨k, choice, a, rest, s', as, rfl, hat, -, hsection, rfl⟩ := step_cases h
  · obtain ⟨console, rfl, hlast, happ, rfl⟩ | ⟨hlast, happ⟩ := enter_app hcall
    · constructor
      · show s'.app.console.SameForm s'.lastForm
        rw [hlast, happ]
        exact ConsoleState.withStatus_sameForm.mpr (ConsoleState.SameForm.refl console)
      · intro snapshot hp
        rw [Threads.shared_become, hlast]
        rcases Threads.pending_of_enter hp with hnew | hold
        · cases hnew
        · exact hc snapshot hold
    · constructor
      · show s'.app.console.SameForm s'.lastForm
        rw [hlast, happ]
        exact hs.kept
      · intro snapshot hp
        rw [Threads.shared_become, hlast]
        rcases Threads.pending_of_enter hp with hnew | hold
        · -- no call starts with a snapshot in its hands
          rcases enter_sections hcall _ hnew with hb | ⟨_, _, -, hb⟩ <;> cases hb
        · exact hs.snapshots snapshot hold
  · have hframe := frame_runSection hsection
    constructor
    · show s'.app.console.SameForm s'.lastForm
      rw [hframe.lastForm]
      cases ha : a.writesConsole with
      | false =>
          rw [hframe.console ha]
          exact hs.kept
      | true =>
          cases a <;> cases ha
          obtain ⟨rfl, -⟩ := Prod.mk.inj (Option.some.inj hsection)
          exact hs.snapshots _ (Threads.pending_head hat)
    · intro snapshot hp
      rw [Threads.shared_become, hframe.lastForm]
      rcases Threads.pending_of_become hat hp with hnew | hold
      · -- a snapshot is taken from a console that has kept the form
        obtain ⟨text, rfl⟩ := origin_runSection hsection _ hnew
        obtain ⟨-, rfl⟩ := Prod.mk.inj (Option.some.inj hsection)
        have heq := Section.updateConsole.inj (List.mem_singleton.mp hnew)
        rw [heq]
        cases text with
        | none => exact hs.kept
        | some text => exact ConsoleState.withStatus_sameForm.mpr hs.kept
      · exact hs.snapshots snapshot hold

/-- A form update that comes while a thread holds a snapshot with other form fields
is lost at that thread's next step. -/
theorem not_formKept_of_pending {k j : ℕ} {console snapshot : ConsoleState} {rest : List Section}
    {choice : Choice} (hidle : s.pending k = [])
    (hat : s.pending j = .updateConsole snapshot :: rest) (hform : ¬snapshot.SameForm console) :
    ∃ t, machine.exec s [.enter k (.updateConsoleForm console), .advance j choice] = some t ∧
      ¬FormKept t := by
  have hjk : j ≠ k := by
    rintro rfl
    rw [hidle] at hat
    cases hat
  obtain ⟨u, hstore, hat, hlast⟩ : ∃ u,
      machine.step s (.enter k (.updateConsoleForm console)) = some u ∧
      u.pending j = .updateConsole snapshot :: rest ∧ u.shared.lastForm = console :=
    ⟨_, Program.step_of_moves (.enter hidle rfl),
      (Threads.pending_become_of_ne hjk _ _).trans hat, rfl⟩
  refine ⟨u.become j { u.shared with app := u.shared.app.updateConsole snapshot } ([] ++ rest),
    ?_, ?_⟩
  · rw [Machine.exec_cons_of_step hstore, Machine.exec_cons_of_step (Program.step_of_moves
      (.advance hat rfl)), Machine.exec_nil]
  · show ¬ConsoleState.SameForm snapshot u.shared.lastForm
    rwa [hlast]

/-- In a run where every form update comes while the snapshots to be written back
have its form fields, the console keeps the last form. -/
theorem formKept_of_meets {app : AppState} {ls : List (Threads.Label Call Choice)}
    (hmeets : machine.Meets FormUpdateAlone (Threads.initial (MqttService.initial app)) ls)
    (hrun : machine.exec (Threads.initial (MqttService.initial app)) ls = some t) :
    FormKept t :=
  (Machine.invariant_of_meets FormInvariant (fun _ _ _ => formInvariant_step) hmeets hrun
    (formInvariant_initial app)).kept

/-! ### A form update and an error report -/

/-- A form in which the user has named another broker. -/
def editedForm : ConsoleState := { ConsoleState.initial with brokerHost := ascii "broker" }

/-- A publication that is refused reports an error; `n` counts its sections. -/
def refusedPublish (n : ℕ) : List (Threads.Label Call Choice) :=
  .enter 0 (.publish [] []) :: List.replicate n (.advance 0 .proceed)

/-- The form update falls between the snapshot and its write. -/
def overlappingEdit : List (Threads.Label Call Choice) :=
  refusedPublish 3 ++ [.enter 1 (.updateConsoleForm editedForm), .advance 0 .proceed]

theorem form_update_is_lost :
    ∃ t, machine.exec (Threads.initial (MqttService.initial .initial)) overlappingEdit = some t ∧
      t.shared.lastForm = editedForm ∧ t.shared.app.console = ConsoleState.initial ∧
      ¬FormKept t := by
  have hend : (machine.exec (Threads.initial (MqttService.initial .initial)) overlappingEdit).map
      (fun t => (t.shared.lastForm, t.shared.app.console)) =
        some (editedForm, ConsoleState.initial) := by
    decide +kernel
  obtain ⟨t, hrun, hobserved⟩ := Option.map_eq_some_iff.mp hend
  obtain ⟨hlast, hconsole⟩ := Prod.mk.inj hobserved
  refine ⟨t, hrun, hlast, hconsole, fun hkept => ?_⟩
  rw [FormKept, hlast, hconsole] at hkept
  revert hkept
  decide +kernel

theorem formKept_of_meets_edited :
    ∃ t, machine.exec (Threads.initial (MqttService.initial .initial))
        (.enter 1 (.updateConsoleForm editedForm) :: refusedPublish 4) = some t ∧
      t.shared.lastForm = editedForm ∧ FormKept t := by
  have hend : (machine.exec (Threads.initial (MqttService.initial .initial))
      (.enter 1 (.updateConsoleForm editedForm) :: refusedPublish 4)).map
        (fun t => t.shared.lastForm) = some editedForm := by
    decide +kernel
  obtain ⟨t, hrun, hlast⟩ := Option.map_eq_some_iff.mp hend
  refine ⟨t, hrun, hlast, formKept_of_meets ?_ hrun⟩
  refine ⟨fun _ h => ?_, fun u _ => ?_⟩
  · exact absurd h ((Threads.idle_initial _).not_pending _)
  · apply Machine.meets_of_forall
    simp [refusedPublish, FormUpdateAlone]

end Watchlist.Mqtt.MqttService
