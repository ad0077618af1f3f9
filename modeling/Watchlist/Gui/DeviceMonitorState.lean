import Watchlist.Library.Bytes

/-!
`DeviceMonitorState.cpp`: the device list the GUI shows, the editor and the
deletion dialog, and the commands that the user's actions have emitted and the
storage has not been given yet. An action changes the local list at once.

`ReplaceDevices` and `ConsumeCommands` belong to the pump; the other members are
the operations that a frame performs.
-/

namespace Watchlist.Gui

open Bytes

structure DeviceViewModel where
  id : Bytes
  name : Bytes
  address : Bytes
  port : UInt16
  alive : Bool
  deriving DecidableEq

/-- The text fields and the number field of the form. -/
structure DeviceDraft where
  id : Bytes
  name : Bytes
  address : Bytes
  port : ℤ
  alive : Bool
  deriving DecidableEq

/-- The device a draft describes; the port is cut to sixteen bits. -/
def DeviceDraft.device (draft : DeviceDraft) : DeviceViewModel :=
  ⟨draft.id, draft.name, draft.address, UInt16.ofInt draft.port, draft.alive⟩

inductive DeviceCommandKind
  | refresh
  | add
  | edit
  | delete
  | setAlive
  deriving DecidableEq

structure DeviceCommand where
  kind : DeviceCommandKind
  targetId : Bytes
  device : Option DeviceViewModel
  deriving DecidableEq

inductive DeviceEditorMode
  | add
  | edit
  deriving DecidableEq

structure DeviceEditorState where
  mode : DeviceEditorMode
  originalId : Bytes
  draft : DeviceDraft
  deriving DecidableEq

structure DeviceMonitorState where
  devices : List DeviceViewModel
  editor : Option DeviceEditorState
  pendingDeleteId : Option Bytes
  error : Option Bytes
  commands : List DeviceCommand
  exitRequested : Bool
  deriving DecidableEq

/-! ### The commands -/

namespace DeviceCommand

def refresh : DeviceCommand := ⟨.refresh, [], none⟩

def add (device : DeviceViewModel) : DeviceCommand := ⟨.add, device.id, some device⟩

def edit (device : DeviceViewModel) : DeviceCommand := ⟨.edit, device.id, some device⟩

def delete (id : Bytes) : DeviceCommand := ⟨.delete, id, none⟩

def setAlive (id : Bytes) (device : DeviceViewModel) : DeviceCommand :=
  ⟨.setAlive, id, some device⟩

end DeviceCommand

namespace DeviceMonitorState

def initial : DeviceMonitorState := ⟨[], none, none, none, [], false⟩

def findDevice (s : DeviceMonitorState) (id : Bytes) : Option DeviceViewModel :=
  s.devices.find? fun device => device.id = id

/-- Give the first device with this id other contents. -/
def updateDevice (s : DeviceMonitorState) (id : Bytes) (f : DeviceViewModel → DeviceViewModel) :
    List DeviceViewModel :=
  s.devices.replaceF fun device => if device.id = id then some (f device) else none

def setError (s : DeviceMonitorState) (error : Bytes) : DeviceMonitorState :=
  { s with error := some error }

def clearError (s : DeviceMonitorState) : DeviceMonitorState := { s with error := none }

def emit (s : DeviceMonitorState) (command : DeviceCommand) : DeviceMonitorState :=
  { s with commands := s.commands ++ [command] }

/-! ### What the pump calls -/

def replaceDevices (s : DeviceMonitorState) (devices : List DeviceViewModel) :
    DeviceMonitorState :=
  { s with devices := devices, error := none }

def consumeCommands (s : DeviceMonitorState) : List DeviceCommand × DeviceMonitorState :=
  (s.commands, { s with commands := [] })

/-! ### What a frame calls -/

def requestRefresh (s : DeviceMonitorState) : DeviceMonitorState := s.emit .refresh

def emptyDraft : DeviceDraft := ⟨[], [], [], 0, false⟩

def beginAdd (s : DeviceMonitorState) : DeviceMonitorState :=
  { s with error := none, editor := some ⟨.add, [], emptyDraft⟩ }

def beginEdit (s : DeviceMonitorState) (id : Bytes) : Bool × DeviceMonitorState :=
  match s.findDevice id with
  | none => (false, s.setError (ascii "The selected device no longer exists."))
  | some found =>
      (true, { s with
        error := none
        editor := some ⟨.edit, found.id,
          ⟨found.id, found.name, found.address, found.port.toNat, found.alive⟩⟩ })

def cancelEditor (s : DeviceMonitorState) : DeviceMonitorState := { s with editor := none }

/-- The form writes the draft through `EditSession`. -/
def editDraft (s : DeviceMonitorState) (draft : DeviceDraft) : DeviceMonitorState :=
  { s with editor := s.editor.map fun editor => { editor with draft := draft } }

/-- The error that `ValidateDraft` reports. -/
def validateDraft (editor : DeviceEditorState) : Option Bytes :=
  if editor.draft.id.isEmpty || editor.draft.name.isEmpty || editor.draft.address.isEmpty then
    some (ascii "ID, name, and address are required.")
  else if editor.draft.port < 0 || 65535 < editor.draft.port then
    some (ascii "Port must be between 0 and 65535.")
  else none

/-- The end of `SubmitEditor`: the form closes. -/
def closeEditor (s : DeviceMonitorState) : DeviceMonitorState :=
  { s with editor := none, error := none }

def submitEditor (s : DeviceMonitorState) : Bool × DeviceMonitorState :=
  match s.editor with
  | none => (false, s)
  | some editor =>
      match validateDraft editor with
      | some error => (false, s.setError error)
      | none =>
          let device := editor.draft.device
          match editor.mode with
          | .add =>
              if (s.findDevice device.id).isSome then
                (false, s.setError (ascii "A device with this ID already exists."))
              else
                (true, ({ s with devices := s.devices ++ [device] }.emit
                  (.add device)).closeEditor)
          | .edit =>
              if device.id ≠ editor.originalId then
                (false, s.setError (ascii "A device ID cannot be changed after creation."))
              else if (s.findDevice editor.originalId).isNone then
                (false, s.setError (ascii "The device being edited no longer exists."))
              else
                (true, ({ s with
                  devices := s.updateDevice editor.originalId fun _ => device }.emit
                    (.edit device)).closeEditor)

def requestDelete (s : DeviceMonitorState) (id : Bytes) : Bool × DeviceMonitorState :=
  if (s.findDevice id).isNone then
    (false, s.setError (ascii "The selected device no longer exists."))
  else (true, { s with pendingDeleteId := some id })

def cancelDelete (s : DeviceMonitorState) : DeviceMonitorState := { s with pendingDeleteId := none }

def confirmDelete (s : DeviceMonitorState) : Bool × DeviceMonitorState :=
  match s.pendingDeleteId with
  | none => (false, s)
  | some id =>
      if (s.findDevice id).isNone then
        (false, s.cancelDelete.setError
          (ascii "The device selected for deletion no longer exists."))
      else
        (true, { s with
          devices := s.devices.eraseP fun device => device.id = id
          pendingDeleteId := none
          error := none }.emit (.delete id))

def setAlive (s : DeviceMonitorState) (id : Bytes) (alive : Bool) : Bool × DeviceMonitorState :=
  match s.findDevice id with
  | none => (false, s.setError (ascii "The selected device no longer exists."))
  | some found =>
      (true, { s with
        devices := s.updateDevice id fun device => { device with alive := alive }
        error := none }.emit (.setAlive id { found with alive := alive }))

def requestExit (s : DeviceMonitorState) : DeviceMonitorState := { s with exitRequested := true }

end DeviceMonitorState

/-- A call that a frame makes. -/
inductive Operation
  | requestRefresh
  | beginAdd
  | beginEdit (id : Bytes)
  | cancelEditor
  | editDraft (draft : DeviceDraft)
  | submitEditor
  | requestDelete (id : Bytes)
  | cancelDelete
  | confirmDelete
  | setAlive (id : Bytes) (alive : Bool)
  | requestExit
  | setError (error : Bytes)
  | clearError
  deriving DecidableEq

namespace DeviceMonitorState

/-- What a call returns, where it returns anything, and the state after it. -/
def perform (s : DeviceMonitorState) : Operation → Bool × DeviceMonitorState
  | .requestRefresh => (true, s.requestRefresh)
  | .beginAdd => (true, s.beginAdd)
  | .beginEdit id => s.beginEdit id
  | .cancelEditor => (true, s.cancelEditor)
  | .editDraft draft => (true, s.editDraft draft)
  | .submitEditor => s.submitEditor
  | .requestDelete id => s.requestDelete id
  | .cancelDelete => (true, s.cancelDelete)
  | .confirmDelete => s.confirmDelete
  | .setAlive id alive => s.setAlive id alive
  | .requestExit => (true, s.requestExit)
  | .setError error => (true, s.setError error)
  | .clearError => (true, s.clearError)

end DeviceMonitorState

end Watchlist.Gui
