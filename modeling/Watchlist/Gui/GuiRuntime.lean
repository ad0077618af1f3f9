import Watchlist.Gui.UserActions
import Watchlist.Service.CommandLog

/-!
`RunGuiLifecycle` of `GuiRuntime.cpp` with the pump and `ImGuiStart` of `Gui.cpp`,
beside the thread of the storage service. A step of the GUI thread is one call of
the platform or of the storage, or one call of the monitor that `DrawFrame` makes;
what it works on between these no other thread sees. The stages that are set up
before the loop are one step, and any call of the platform may throw. The window
may be closed at any time.
-/

namespace Watchlist.Gui

open Bytes Storage Transition

structure GuiResult where
  success : Bool
  error : Bytes
  deriving DecidableEq

/-- Who runs `DeviceStorageService::Run`. -/
inductive ExecutionMode
  | ownedThread
  | callingThread
  deriving DecidableEq

/-- Where the GUI thread is. -/
inductive GuiPc
  | starting
  /-- about to ask `WindowShouldClose` -/
  | checking
  | beginning
  | pumping
  | polling
  /-- the pump has found a failed result -/
  | requestingStop (error : Bytes)
  | drawing (backgroundError : Option Bytes)
  | ending (backgroundError : Option Bytes)
  /-- `RunGuiLifecycle` has returned -/
  | stopping (result : GuiResult)
  | joining (result : GuiResult)
  | returned (result : GuiResult)
  deriving DecidableEq

structure GuiSession (σ : Type) where
  monitor : DeviceMonitorState
  service : DeviceStorageService σ
  gui : GuiPc
  /-- what `WindowShouldClose` answers -/
  windowShouldClose : Bool
  /-- the commands that the monitor has emitted, in order -/
  emitted : List DeviceCommand
  /-- what the user has done, in order -/
  accepted : List UserAction

namespace GuiSession

variable {σ : Type}

/-- Before the service is constructed; a hidden window starts with its exit
requested. -/
def initial (database : σ) (hidden : Bool) : GuiSession σ where
  monitor := { DeviceMonitorState.initial with exitRequested := hidden }
  service := .initial database
  gui := .starting
  windowShouldClose := false
  emitted := []
  accepted := []

/-- A call of the monitor in `DrawFrame`. -/
def draw (s : GuiSession σ) (op : Operation) : GuiSession σ :=
  { s with
    monitor := (s.monitor.perform op).2
    emitted := s.emitted ++ s.monitor.emissions op
    accepted := s.accepted ++ s.monitor.accepted op }

/-- The pump: what the frame before has emitted is handed over. -/
def submitCommands (s : GuiSession σ) : GuiSession σ :=
  { s with
    monitor := s.monitor.consumeCommands.2
    service := s.service.submit s.monitor.consumeCommands.1
    gui := .polling }

/-- The pump's loop over the polled results: the monitor, and the first failure. -/
def pumpResults (monitor : DeviceMonitorState) :
    List DeviceStorageResult → DeviceMonitorState × Option Bytes
  | [] => (monitor, none)
  | result :: rest =>
      if result.success then pumpResults (monitor.replaceDevices result.devices) rest
      else (monitor, some result.error)

def pollStorage (s : GuiSession σ) : GuiSession σ :=
  { s with
    monitor := (pumpResults s.monitor s.service.results).1
    service := s.service.pollResults
    gui :=
      match (pumpResults s.monitor s.service.results).2 with
      | none => .drawing none
      | some error => .requestingStop error }

/-- The end of a pump that failed, and what the loop makes of its error. -/
def failPump (s : GuiSession σ) (error : Bytes) : GuiSession σ :=
  { s with
    monitor := (s.monitor.setError error).requestExit
    service := s.service.requestStop
    windowShouldClose := true
    gui := .drawing (some error) }

/-- The loop of `ImGuiStart` over the last results. -/
def drainResults (monitor : DeviceMonitorState) (result : GuiResult) :
    List DeviceStorageResult → DeviceMonitorState × GuiResult
  | [] => (monitor, result)
  | storageResult :: rest =>
      if storageResult.success then
        drainResults (monitor.replaceDevices storageResult.devices) result rest
      else if result.success then drainResults monitor ⟨false, storageResult.error⟩ rest
      else drainResults monitor result rest

def drain (s : GuiSession σ) (result : GuiResult) : GuiSession σ :=
  { s with
    monitor := (drainResults s.monitor result s.service.results).1
    service := s.service.pollResults
    gui := .returned (drainResults s.monitor result s.service.results).2 }

/-- The next step of the GUI thread, where it has no choice. -/
def advance (mode : ExecutionMode) (s : GuiSession σ) : Option (GuiSession σ) :=
  match s.gui with
  | .starting => allow (s.service.constructed = true) { s with gui := .checking }
  | .checking =>
      some { s with gui := if s.windowShouldClose then .stopping ⟨true, []⟩ else .beginning }
  | .beginning => some { s with gui := .pumping }
  | .pumping => some s.submitCommands
  | .polling => some s.pollStorage
  | .requestingStop error => some (s.failPump error)
  | .drawing backgroundError =>
      some { s with
        windowShouldClose := s.windowShouldClose || s.monitor.exitRequested
        gui := .ending backgroundError }
  | .ending none => some { s with gui := .checking }
  | .ending (some error) => some { s with gui := .stopping ⟨false, error⟩ }
  | .stopping result => some { s with service := s.service.requestStop, gui := .joining result }
  | .joining result =>
      -- only a thread of the service's own is joined
      allow (mode = .callingThread ∨ s.service.run = .returned) (s.drain result)
  | .returned _ => none

/-- The GUI thread is in a call of the platform. -/
def callsPlatform : GuiPc → Bool
  | .starting | .checking | .beginning | .drawing _ | .ending _ => true
  | _ => false

/-- The steps that the service takes without being called. -/
def ofWorker : DeviceStorageService.Label → Bool
  | .construct | .enterRun | .callInitialize _ | .takeBatch | .executeBatch _ | .deliver => true
  | .submit _ | .pollResults | .requestStop => false

inductive Label
  | service (l : DeviceStorageService.Label)
  | closeWindow
  | platformThrows (error : Bytes)
  | draw (op : Operation)
  | advance
  deriving DecidableEq

def step (D : IDatabase σ) (mode : ExecutionMode) (s : GuiSession σ) :
    Label → Option (GuiSession σ)
  | .service l =>
      if ofWorker l then (s.service.step D l).map fun service => { s with service := service }
      else none
  | .closeWindow => some { s with windowShouldClose := true }
  | .platformThrows error =>
      allow (callsPlatform s.gui = true ∧ s.service.constructed = true)
        { s with gui := .stopping ⟨false, error⟩ }
  | .draw op =>
      match s.gui with
      | .drawing _ => some (s.draw op)
      | _ => none
  | .advance => s.advance mode

def machine (D : IDatabase σ) (mode : ExecutionMode) : Machine (GuiSession σ) Label :=
  ⟨step D mode⟩

end GuiSession

end Watchlist.Gui
