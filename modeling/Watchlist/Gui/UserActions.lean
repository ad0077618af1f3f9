import Watchlist.Gui.DeviceMonitorState

/-!
What a call of `DeviceMonitorState` can do, said once. A call that changes the
devices or emits anything emits exactly one command and is one of five; the
others leave the list and the commands alone.
-/

namespace Watchlist.Gui

open Bytes

/-- Something the user did that the monitor reported as done. -/
inductive UserAction
  | submitted (mode : DeviceEditorMode) (device : DeviceViewModel)
  | deleted (id : Bytes)
  | setAlive (id : Bytes) (alive : Bool)
  deriving DecidableEq

namespace DeviceMonitorState

/-- The commands that a call emits. -/
def emissions (s : DeviceMonitorState) (op : Operation) : List DeviceCommand :=
  (s.perform op).2.commands.drop s.commands.length

/-- What a call that returned `true` did for the user. -/
def accepted (s : DeviceMonitorState) (op : Operation) : List UserAction :=
  if (s.perform op).1 then
    match op with
    | .submitEditor =>
        (s.editor.map fun editor => .submitted editor.mode editor.draft.device).toList
    | .confirmDelete => (s.pendingDeleteId.map .deleted).toList
    | .setAlive id alive => [.setAlive id alive]
    | _ => []
  else []

/-- A call that emits: the command, what it did for the user and the devices after it. -/
inductive Emits (s : DeviceMonitorState) :
    Operation → DeviceCommand → List UserAction → List DeviceViewModel → Prop
  | refresh : Emits s .requestRefresh .refresh [] s.devices
  | add {editor : DeviceEditorState} (editing : s.editor = some editor)
      (valid : validateDraft editor = none) (mode : editor.mode = .add)
      (free : s.findDevice editor.draft.id = none) :
      Emits s .submitEditor (.add editor.draft.device) [.submitted .add editor.draft.device]
        (s.devices ++ [editor.draft.device])
  | edit {editor : DeviceEditorState} (editing : s.editor = some editor)
      (valid : validateDraft editor = none) (mode : editor.mode = .edit)
      (sameId : editor.draft.id = editor.originalId)
      (found : (s.findDevice editor.draft.id).isSome = true) :
      Emits s .submitEditor (.edit editor.draft.device) [.submitted .edit editor.draft.device]
        (s.updateDevice editor.draft.id fun _ => editor.draft.device)
  | delete {id : Bytes} (pending : s.pendingDeleteId = some id)
      (found : (s.findDevice id).isSome = true) :
      Emits s .confirmDelete (.delete id) [.deleted id]
        (s.devices.eraseP fun device => device.id = id)
  | setAlive {id : Bytes} {alive : Bool} {device : DeviceViewModel}
      (found : s.findDevice id = some device) :
      Emits s (.setAlive id alive) (.setAlive id { device with alive := alive })
        [.setAlive id alive]
        (s.updateDevice id fun device => { device with alive := alive })

/-- A call that emits nothing. -/
structure Silent (s : DeviceMonitorState) (op : Operation) : Prop where
  commands : (s.perform op).2.commands = s.commands
  devices : (s.perform op).2.devices = s.devices
  accepted : s.accepted op = []

/-- A call that emits one command. -/
structure Emitting (s : DeviceMonitorState) (op : Operation) (c : DeviceCommand) : Prop where
  emits : Emits s op c (s.accepted op) (s.perform op).2.devices
  commands : (s.perform op).2.commands = s.commands ++ [c]

/-- A call that refuses shows its reason and changes nothing else. -/
theorem silent_of_refused {s : DeviceMonitorState} {op : Operation} (reason : Option Bytes)
    (h : s.perform op = (false, { s with error := reason })) : Silent s op := by
  constructor <;> simp [accepted, h]

theorem submitAdd_cases {s : DeviceMonitorState} {editor : DeviceEditorState}
    (heditor : s.editor = some editor) (hvalid : validateDraft editor = none)
    (hmode : editor.mode = .add) :
    Silent s .submitEditor ∨ ∃ c, Emitting s .submitEditor c := by
  cases hfind : s.findDevice editor.draft.id with
  | some found =>
      apply Or.inl
      apply silent_of_refused (some (ascii "A device with this ID already exists."))
      simp [perform, submitEditor, heditor, hvalid, hmode, DeviceDraft.device, hfind, setError]
  | none =>
      have hdone : s.submitEditor =
          (true, ({ s with devices := s.devices ++ [editor.draft.device] }.emit
            (.add editor.draft.device)).closeEditor) := by
        simp [submitEditor, heditor, hvalid, hmode, DeviceDraft.device, hfind]
      have haccepted : s.accepted .submitEditor = [.submitted .add editor.draft.device] := by
        simp [accepted, perform, hdone, heditor, hmode]
      refine Or.inr ⟨.add editor.draft.device, ?_, ?_⟩
      · rw [haccepted, perform, hdone]
        exact .add heditor hvalid hmode hfind
      · rw [perform, hdone]
        rfl

theorem submitEdit_cases {s : DeviceMonitorState} {editor : DeviceEditorState}
    (heditor : s.editor = some editor) (hvalid : validateDraft editor = none)
    (hmode : editor.mode = .edit) :
    Silent s .submitEditor ∨ ∃ c, Emitting s .submitEditor c := by
  by_cases hid : editor.draft.id = editor.originalId
  · cases hfind : s.findDevice editor.originalId with
    | none =>
        apply Or.inl
        apply silent_of_refused (some (ascii "The device being edited no longer exists."))
        simp [perform, submitEditor, heditor, hvalid, hmode, DeviceDraft.device, hid, hfind,
          setError]
    | some found =>
        have hdone : s.submitEditor =
            (true, ({ s with devices := (s.updateDevice editor.originalId
              (fun _ => editor.draft.device)) }.emit (.edit editor.draft.device)).closeEditor) := by
          simp [submitEditor, heditor, hvalid, hmode, DeviceDraft.device, hid, hfind]
        have haccepted : s.accepted .submitEditor = [.submitted .edit editor.draft.device] := by
          simp [accepted, perform, hdone, heditor, hmode]
        refine Or.inr ⟨.edit editor.draft.device, ?_, ?_⟩
        · rw [haccepted, perform, hdone, ← hid]
          exact .edit heditor hvalid hmode hid (by rw [hid, hfind]; rfl)
        · rw [perform, hdone]
          rfl
  · apply Or.inl
    apply silent_of_refused (some (ascii "A device ID cannot be changed after creation."))
    simp [perform, submitEditor, heditor, hvalid, hmode, DeviceDraft.device, hid, setError]

theorem submitEditor_cases (s : DeviceMonitorState) :
    Silent s .submitEditor ∨ ∃ c, Emitting s .submitEditor c := by
  cases heditor : s.editor with
  | none =>
      apply Or.inl
      constructor <;> simp [accepted, perform, submitEditor, heditor]
  | some editor =>
      cases hvalid : validateDraft editor with
      | some error =>
          apply Or.inl
          apply silent_of_refused (some error)
          simp [perform, submitEditor, heditor, hvalid, setError]
      | none =>
          cases hmode : editor.mode with
          | add => exact submitAdd_cases heditor hvalid hmode
          | edit => exact submitEdit_cases heditor hvalid hmode

theorem confirmDelete_cases (s : DeviceMonitorState) :
    Silent s .confirmDelete ∨ ∃ c, Emitting s .confirmDelete c := by
  cases hpending : s.pendingDeleteId with
  | none =>
      apply Or.inl
      constructor <;> simp [accepted, perform, confirmDelete, hpending]
  | some id =>
      cases hfind : s.findDevice id with
      | none =>
          apply Or.inl
          constructor <;>
            simp [accepted, perform, confirmDelete, hpending, hfind, setError, cancelDelete]
      | some found =>
          have haccepted : s.accepted .confirmDelete = [.deleted id] := by
            simp [accepted, perform, confirmDelete, hpending, hfind]
          refine Or.inr ⟨.delete id, ?_, ?_⟩
          · rw [haccepted]
            simp only [perform, confirmDelete, hpending, hfind]
            exact .delete hpending (by rw [hfind]; rfl)
          · simp [perform, confirmDelete, hpending, hfind, emit]

theorem setAlive_cases (s : DeviceMonitorState) (id : Bytes) (alive : Bool) :
    Silent s (.setAlive id alive) ∨ ∃ c, Emitting s (.setAlive id alive) c := by
  cases hfind : s.findDevice id with
  | none =>
      apply Or.inl
      constructor <;> simp [accepted, perform, setAlive, hfind, setError]
  | some found =>
      have haccepted : s.accepted (.setAlive id alive) = [.setAlive id alive] := by
        simp [accepted, perform, setAlive, hfind]
      refine Or.inr ⟨.setAlive id { found with alive := alive }, ?_, ?_⟩
      · rw [haccepted]
        simp only [perform, setAlive, hfind]
        exact .setAlive hfind
      · simp [perform, setAlive, hfind, emit]

/-- What a call can do. -/
theorem perform_cases (s : DeviceMonitorState) (op : Operation) :
    Silent s op ∨ ∃ c, Emitting s op c := by
  cases op with
  | requestRefresh => exact Or.inr ⟨.refresh, .refresh, rfl⟩
  | submitEditor => exact s.submitEditor_cases
  | confirmDelete => exact s.confirmDelete_cases
  | setAlive id alive => exact s.setAlive_cases id alive
  | beginEdit id =>
      apply Or.inl
      cases hfind : s.findDevice id <;>
        constructor <;> simp [accepted, perform, beginEdit, hfind, setError]
  | requestDelete id =>
      apply Or.inl
      cases hfind : s.findDevice id <;>
        constructor <;> simp [accepted, perform, requestDelete, hfind, setError]
  | beginAdd | cancelEditor | editDraft _ | cancelDelete | requestExit | setError _ | clearError =>
      exact Or.inl ⟨rfl, rfl, rfl⟩

theorem Silent.emissions {s : DeviceMonitorState} {op : Operation} (h : Silent s op) :
    s.emissions op = [] := by
  rw [DeviceMonitorState.emissions, h.commands, List.drop_length]

theorem Emitting.emissions {s : DeviceMonitorState} {op : Operation} {c : DeviceCommand}
    (h : Emitting s op c) : s.emissions op = [c] := by
  rw [DeviceMonitorState.emissions, h.commands, List.drop_left]

/-- Calls only append. -/
theorem perform_commands (s : DeviceMonitorState) (op : Operation) :
    (s.perform op).2.commands = s.commands ++ s.emissions op := by
  rcases s.perform_cases op with h | ⟨c, h⟩
  · rw [h.commands, h.emissions, List.append_nil]
  · rw [h.commands, h.emissions]

/-! ### The local list -/

theorem id_of_findDevice {s : DeviceMonitorState} {id : Bytes} {device : DeviceViewModel}
    (h : s.findDevice id = some device) : device.id = id := by
  simpa using List.find?_some h

theorem mem_of_findDevice {s : DeviceMonitorState} {id : Bytes} {device : DeviceViewModel}
    (h : s.findDevice id = some device) : device ∈ s.devices := List.mem_of_find?_eq_some h

/-- An updated list holds the updated device beside the old ones. -/
theorem mem_updateDevice {s : DeviceMonitorState} {id : Bytes}
    {f : DeviceViewModel → DeviceViewModel} {device : DeviceViewModel}
    (h : device ∈ s.updateDevice id f) :
    device ∈ s.devices ∨ ∃ old ∈ s.devices, device = f old := by
  unfold updateDevice at h
  generalize s.devices = devices at h ⊢
  induction devices with
  | nil => simp at h
  | cons head rest ih =>
      rw [List.replaceF_cons] at h
      split at h
      · rcases List.mem_cons.mp h with rfl | h
        · exact Or.inl List.mem_cons_self
        · rcases ih h with h | ⟨old, hold, rfl⟩
          · exact Or.inl (List.mem_cons_of_mem _ h)
          · exact Or.inr ⟨old, List.mem_cons_of_mem _ hold, rfl⟩
      · rename_i replacement hreplaced
        rcases List.mem_cons.mp h with rfl | h
        · refine Or.inr ⟨head, List.mem_cons_self, ?_⟩
          simp only [Option.ite_none_right_eq_some, Option.some.injEq] at hreplaced
          exact hreplaced.2.symm
        · exact Or.inl (List.mem_cons_of_mem _ h)

end DeviceMonitorState

end Watchlist.Gui
