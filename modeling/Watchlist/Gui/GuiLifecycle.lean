import Watchlist.Gui.AcceptedCommands
import Watchlist.Library.Simulation

/-!
`RunGuiLifecycle` of `GuiRuntime.cpp` call by call: the stages that are set up one after
the other, each owned by a `StageOwner` from then on; the loop; and the owners' tear-down
calls in reverse order, however the function is left. Every call that sets up, draws or
asks may throw; the owners' calls do not. `calls` is everything that the platform has been
asked for. Around it are the pump and `ImGuiStart`, and beside it the storage service.
-/

namespace Watchlist.Gui

open Bytes Storage Transition

/-- `StageOwner::Stage` -/
inductive StageOwner.Stage
  | glfw
  | window
  | context
  | glfwBackend
  | openGlBackend
  deriving DecidableEq

inductive SetUpCall
  | initializeGlfw
  | createWindow
  | initializeOpenGl
  | createImGuiContext
  | initializeImGuiGlfwBackend
  | initializeImGuiOpenGlBackend
  deriving DecidableEq

/-- What the owner that is constructed after the call tears down. -/
def SetUpCall.stage : SetUpCall → Option StageOwner.Stage
  | .initializeGlfw => some .glfw
  | .createWindow => some .window
  | .initializeOpenGl => none
  | .createImGuiContext => some .context
  | .initializeImGuiGlfwBackend => some .glfwBackend
  | .initializeImGuiOpenGlBackend => some .openGlBackend

/-- The calls before the loop, in order. -/
def setUpCalls : List SetUpCall :=
  [.initializeGlfw, .createWindow, .initializeOpenGl, .createImGuiContext,
    .initializeImGuiGlfwBackend, .initializeImGuiOpenGlBackend]

inductive PlatformCall
  | setUp (call : SetUpCall)
  | tearDown (stage : StageOwner.Stage)
  | windowShouldClose
  | requestClose
  | beginFrame
  | drawFrame
  | endFrame
  deriving DecidableEq

inductive Event
  | returned (call : PlatformCall)
  /-- the text of what was thrown, if it is a `std::exception` -/
  | threw (call : PlatformCall) (what : Option Bytes)
  /-- `WindowShouldClose` has answered -/
  | asked (close : Bool)
  /-- the background pump has returned -/
  | pumped (error : Option Bytes)
  deriving DecidableEq

/-- Where the GUI thread is. -/
inductive LifecyclePc
  | settingUp (call : SetUpCall) (rest : List SetUpCall)
  | checking
  | beginning
  | pumping
  | polling
  /-- the pump has found a failed result -/
  | requestingStop (error : Bytes)
  /-- the window is asked to close because the pump has failed -/
  | closing (error : Bytes)
  | drawing (backgroundError : Option Bytes)
  /-- the window is asked to close because exit is requested -/
  | exiting (backgroundError : Option Bytes)
  | ending (backgroundError : Option Bytes)
  /-- the owners are destroyed -/
  | unwinding (result : GuiResult)
  | stopping (result : GuiResult)
  | joining (result : GuiResult)
  | returned (result : GuiResult)
  deriving DecidableEq

structure GuiLifecycle (σ : Type) where
  monitor : DeviceMonitorState
  service : DeviceStorageService σ
  pc : LifecyclePc
  /-- the owners that have been constructed, the newest first -/
  owners : List StageOwner.Stage
  calls : List Event
  /-- what `WindowShouldClose` answers -/
  windowShouldClose : Bool
  /-- the commands that the monitor has emitted, in order -/
  emitted : List DeviceCommand
  /-- what the user has done, in order -/
  accepted : List UserAction

namespace GuiLifecycle

variable {σ : Type}

def initial (database : σ) (hidden : Bool) : GuiLifecycle σ where
  monitor := { DeviceMonitorState.initial with exitRequested := hidden }
  service := .initial database
  pc := .settingUp .initializeGlfw setUpCalls.tail
  owners := []
  calls := []
  windowShouldClose := false
  emitted := []
  accepted := []

/-- The call has returned, and the thread goes on. -/
def goOn (s : GuiLifecycle σ) (event : Event) (pc : LifecyclePc) : GuiLifecycle σ :=
  { s with calls := s.calls ++ [event], pc := pc }

def afterSetUp : List SetUpCall → LifecyclePc
  | [] => .checking
  | next :: rest => .settingUp next rest

/-- A stage is set up, and its owner is constructed. -/
def setUp (s : GuiLifecycle σ) (call : SetUpCall) (rest : List SetUpCall) : GuiLifecycle σ :=
  { s.goOn (.returned (.setUp call)) (afterSetUp rest) with owners := call.stage.toList ++ s.owners }

/-- A call of the monitor in `DrawFrame`. -/
def draw (s : GuiLifecycle σ) (op : Operation) : GuiLifecycle σ :=
  { s with
    monitor := (s.monitor.perform op).2
    emitted := s.emitted ++ s.monitor.emissions op
    accepted := s.accepted ++ s.monitor.accepted op }

def submitCommands (s : GuiLifecycle σ) : GuiLifecycle σ :=
  { s with
    monitor := s.monitor.consumeCommands.2
    service := s.service.submit s.monitor.consumeCommands.1
    pc := .polling }

def pollStorage (s : GuiLifecycle σ) : GuiLifecycle σ :=
  { s with
    monitor := (GuiSession.pumpResults s.monitor s.service.results).1
    service := s.service.pollResults
    calls := s.calls ++
      match (GuiSession.pumpResults s.monitor s.service.results).2 with
      | none => [.pumped none]
      | some _ => []
    pc :=
      match (GuiSession.pumpResults s.monitor s.service.results).2 with
      | none => .drawing none
      | some error => .requestingStop error }

/-- The pump returns its error; the monitor is told before the window. -/
def failPump (s : GuiLifecycle σ) (error : Bytes) : GuiLifecycle σ :=
  { s.goOn (.pumped (some error)) (.closing error) with
    monitor := (s.monitor.setError error).requestExit
    service := s.service.requestStop }

def drain (s : GuiLifecycle σ) (result : GuiResult) : GuiLifecycle σ :=
  { s with
    monitor := (GuiSession.drainResults s.monitor result s.service.results).1
    service := s.service.pollResults
    pc := .returned (GuiSession.drainResults s.monitor result s.service.results).2 }

/-- The next step of the GUI thread, if its call returns. -/
def advance (mode : ExecutionMode) (s : GuiLifecycle σ) : Option (GuiLifecycle σ) :=
  match s.pc with
  | .settingUp call rest => allow (s.service.constructed = true) (s.setUp call rest)
  | .checking =>
      some (s.goOn (.asked s.windowShouldClose)
        (if s.windowShouldClose then .unwinding ⟨true, []⟩ else .beginning))
  | .beginning => some (s.goOn (.returned .beginFrame) .pumping)
  | .pumping => some s.submitCommands
  | .polling => some s.pollStorage
  | .requestingStop error => some (s.failPump error)
  | .closing error =>
      some { s.goOn (.returned .requestClose) (.drawing (some error)) with windowShouldClose := true }
  | .drawing backgroundError =>
      some (s.goOn (.returned .drawFrame)
        (if s.monitor.exitRequested then .exiting backgroundError else .ending backgroundError))
  | .exiting backgroundError =>
      some { s.goOn (.returned .requestClose) (.ending backgroundError) with
        windowShouldClose := true }
  | .ending backgroundError =>
      some (s.goOn (.returned .endFrame)
        (match backgroundError with
        | none => .checking
        | some error => .unwinding ⟨false, error⟩))
  | .unwinding result =>
      match s.owners with
      | [] => some { s with pc := .stopping result }
      | stage :: owners =>
          some { s.goOn (.returned (.tearDown stage)) (.unwinding result) with owners := owners }
  | .stopping result => some { s with service := s.service.requestStop, pc := .joining result }
  | .joining result =>
      allow (mode = .callingThread ∨ s.service.run = .returned) (s.drain result)
  | .returned _ => none

/-- The platform's call that the GUI thread is in, if it may throw. -/
def callAt : LifecyclePc → Option PlatformCall
  | .settingUp call _ => some (.setUp call)
  | .checking => some .windowShouldClose
  | .beginning => some .beginFrame
  | .closing _ | .exiting _ => some .requestClose
  | .drawing _ => some .drawFrame
  | .ending _ => some .endFrame
  | _ => none

/-- What the handlers of `RunGuiLifecycle` return; `what` is missing if what was thrown is
no `std::exception`. -/
def failure (what : Option Bytes) : GuiResult :=
  ⟨false, what.getD (ascii "Unknown GUI runtime failure")⟩

inductive Label
  | service (l : DeviceStorageService.Label)
  | closeWindow
  | throws (what : Option Bytes)
  | draw (op : Operation)
  | advance
  deriving DecidableEq

def step (D : IDatabase σ) (mode : ExecutionMode) (s : GuiLifecycle σ) :
    Label → Option (GuiLifecycle σ)
  | .service l =>
      if GuiSession.ofWorker l then
        (s.service.step D l).map fun service => { s with service := service }
      else none
  | .closeWindow => some { s with windowShouldClose := true }
  | .throws what =>
      match callAt s.pc with
      | some call =>
          allow (s.service.constructed = true)
            (s.goOn (.threw call what) (.unwinding (failure what)))
      | none => none
  | .draw op =>
      match s.pc with
      | .drawing _ => some (s.draw op)
      | _ => none
  | .advance => s.advance mode

def machine (D : IDatabase σ) (mode : ExecutionMode) : Machine (GuiLifecycle σ) Label :=
  ⟨step D mode⟩

/-! ### What a step can do -/

variable {D : IDatabase σ} {mode : ExecutionMode} {s t : GuiLifecycle σ} {l : Label}

/-- The steps, by the piece of code that takes them. -/
inductive Moves (D : IDatabase σ) (mode : ExecutionMode) (s : GuiLifecycle σ) :
    Label → GuiLifecycle σ → Prop
  | service {l : DeviceStorageService.Label} {service : DeviceStorageService σ}
      (worker : GuiSession.ofWorker l = true) (moves : s.service.step D l = some service) :
      Moves D mode s (.service l) { s with service := service }
  | closeWindow : Moves D mode s .closeWindow { s with windowShouldClose := true }
  | throws {what : Option Bytes} {call : PlatformCall} (here : callAt s.pc = some call)
      (constructed : s.service.constructed = true) :
      Moves D mode s (.throws what) (s.goOn (.threw call what) (.unwinding (failure what)))
  | draw {op : Operation} {backgroundError : Option Bytes} (here : s.pc = .drawing backgroundError) :
      Moves D mode s (.draw op) (s.draw op)
  | setUp {call : SetUpCall} {rest : List SetUpCall} (here : s.pc = .settingUp call rest)
      (constructed : s.service.constructed = true) : Moves D mode s .advance (s.setUp call rest)
  | loopEnds (here : s.pc = .checking) (close : s.windowShouldClose = true) :
      Moves D mode s .advance (s.goOn (.asked true) (.unwinding ⟨true, []⟩))
  | loopGoesOn (here : s.pc = .checking) (close : s.windowShouldClose = false) :
      Moves D mode s .advance (s.goOn (.asked false) .beginning)
  | beginFrame (here : s.pc = .beginning) :
      Moves D mode s .advance (s.goOn (.returned .beginFrame) .pumping)
  | submitCommands (here : s.pc = .pumping) : Moves D mode s .advance s.submitCommands
  | pollStorage (here : s.pc = .polling) : Moves D mode s .advance s.pollStorage
  | failPump {error : Bytes} (here : s.pc = .requestingStop error) :
      Moves D mode s .advance (s.failPump error)
  | closed {error : Bytes} (here : s.pc = .closing error) :
      Moves D mode s .advance
        { s.goOn (.returned .requestClose) (.drawing (some error)) with windowShouldClose := true }
  | drawn {backgroundError : Option Bytes} (here : s.pc = .drawing backgroundError)
      (exit : s.monitor.exitRequested = false) :
      Moves D mode s .advance (s.goOn (.returned .drawFrame) (.ending backgroundError))
  | drawnLast {backgroundError : Option Bytes} (here : s.pc = .drawing backgroundError)
      (exit : s.monitor.exitRequested = true) :
      Moves D mode s .advance (s.goOn (.returned .drawFrame) (.exiting backgroundError))
  | exited {backgroundError : Option Bytes} (here : s.pc = .exiting backgroundError) :
      Moves D mode s .advance
        { s.goOn (.returned .requestClose) (.ending backgroundError) with windowShouldClose := true }
  | frameEnds (here : s.pc = .ending none) :
      Moves D mode s .advance (s.goOn (.returned .endFrame) .checking)
  | frameFails {error : Bytes} (here : s.pc = .ending (some error)) :
      Moves D mode s .advance (s.goOn (.returned .endFrame) (.unwinding ⟨false, error⟩))
  | tearDown {result : GuiResult} {stage : StageOwner.Stage} {owners : List StageOwner.Stage}
      (here : s.pc = .unwinding result) (owned : s.owners = stage :: owners) :
      Moves D mode s .advance
        { s.goOn (.returned (.tearDown stage)) (.unwinding result) with owners := owners }
  | unwound {result : GuiResult} (here : s.pc = .unwinding result) (owned : s.owners = []) :
      Moves D mode s .advance { s with pc := .stopping result }
  | requestStop {result : GuiResult} (here : s.pc = .stopping result) :
      Moves D mode s .advance { s with service := s.service.requestStop, pc := .joining result }
  | drain {result : GuiResult} (here : s.pc = .joining result)
      (joined : mode = .callingThread ∨ s.service.run = .returned) :
      Moves D mode s .advance (s.drain result)

theorem moves_of_advance (h : s.advance mode = some t) : Moves D mode s .advance t := by
  unfold advance at h
  split at h
  · rename_i here
    obtain ⟨hconstructed, rfl⟩ := allow_eq_some.mp h
    exact .setUp here hconstructed
  · rename_i here
    obtain rfl := Option.some.inj h
    cases hclose : s.windowShouldClose with
    | true => exact .loopEnds here hclose
    | false => exact .loopGoesOn here hclose
  · rename_i here
    exact Option.some.inj h ▸ .beginFrame here
  · rename_i here
    exact Option.some.inj h ▸ .submitCommands here
  · rename_i here
    exact Option.some.inj h ▸ .pollStorage here
  · rename_i here
    exact Option.some.inj h ▸ .failPump here
  · rename_i here
    exact Option.some.inj h ▸ .closed here
  · rename_i here
    obtain rfl := Option.some.inj h
    cases hexit : s.monitor.exitRequested with
    | true => exact .drawnLast here hexit
    | false => exact .drawn here hexit
  · rename_i here
    exact Option.some.inj h ▸ .exited here
  · rename_i backgroundError here
    obtain rfl := Option.some.inj h
    cases backgroundError with
    | none => exact .frameEnds here
    | some error => exact .frameFails here
  · rename_i here
    split at h
    · rename_i owned
      exact Option.some.inj h ▸ .unwound here owned
    · rename_i owned
      exact Option.some.inj h ▸ .tearDown here owned
  · rename_i here
    exact Option.some.inj h ▸ .requestStop here
  · rename_i here
    obtain ⟨hjoined, rfl⟩ := allow_eq_some.mp h
    exact .drain here hjoined
  · cases h

theorem moves_of_step (h : s.step D mode l = some t) : Moves D mode s l t := by
  cases l with
  | service l =>
      simp only [step] at h
      split at h
      · rename_i hworker
        obtain ⟨service, hmoves, rfl⟩ := Option.map_eq_some_iff.mp h
        exact .service hworker hmoves
      · cases h
  | closeWindow => exact Option.some.inj h ▸ .closeWindow
  | throws what =>
      simp only [step] at h
      split at h
      · rename_i here
        obtain ⟨hconstructed, rfl⟩ := allow_eq_some.mp h
        exact .throws here hconstructed
      · cases h
  | draw op =>
      simp only [step] at h
      split at h
      · rename_i here
        exact Option.some.inj h ▸ .draw here
      · cases h
  | advance => exact moves_of_advance h

/-! ### The session without the single calls -/

/-- Where the session is; a call of the tear-down is part of what comes after it. -/
def sessionPc : LifecyclePc → GuiPc
  | .settingUp _ _ => .starting
  | .checking => .checking
  | .beginning => .beginning
  | .pumping => .pumping
  | .polling => .polling
  | .requestingStop error => .requestingStop error
  | .closing error => .drawing (some error)
  | .drawing backgroundError => .drawing backgroundError
  | .exiting backgroundError => .drawing backgroundError
  | .ending backgroundError => .ending backgroundError
  | .unwinding result => .stopping result
  | .stopping result => .stopping result
  | .joining result => .joining result
  | .returned result => .returned result

def inLoop : LifecyclePc → Bool
  | .unwinding _ | .stopping _ | .joining _ | .returned _ => false
  | _ => true

def isClosing : LifecyclePc → Bool
  | .closing _ => true
  | _ => false

def isExiting : LifecyclePc → Bool
  | .exiting _ => true
  | _ => false

/-- The session that a lifecycle is, without its single calls. It asks the window to close
as soon as the pump has failed; whether the window should close after the loop is not
said. -/
structure Abstracts (s : GuiLifecycle σ) (a : GuiSession σ) : Prop where
  monitor : a.monitor = s.monitor
  service : a.service = s.service
  emitted : a.emitted = s.emitted
  accepted : a.accepted = s.accepted
  gui : a.gui = sessionPc s.pc
  close : inLoop s.pc = true → a.windowShouldClose = (s.windowShouldClose || isClosing s.pc)
  exit : isExiting s.pc = true → s.monitor.exitRequested = true

theorem abstracts_initial (database : σ) (hidden : Bool) :
    Abstracts (initial database hidden) (GuiSession.initial database hidden) where
  monitor := rfl
  service := rfl
  emitted := rfl
  accepted := rfl
  gui := rfl
  close := fun _ => rfl
  exit := fun hexit => by cases hexit

/-- The condition that the steps of the service meet, in a session and in a lifecycle. -/
def OfService (C : DeviceStorageService σ → DeviceStorageService.Label → Prop)
    (s : GuiLifecycle σ) : Label → Prop
  | .service l => C s.service l
  | _ => True

def OfSession (C : DeviceStorageService σ → DeviceStorageService.Label → Prop)
    (s : GuiSession σ) : GuiSession.Label → Prop
  | .service l => C s.service l
  | _ => True

theorem callsPlatform_sessionPc {pc : LifecyclePc} {call : PlatformCall}
    (h : callAt pc = some call) : GuiSession.callsPlatform (sessionPc pc) = true := by
  cases pc with
  | settingUp _ _ | checking | beginning | closing _ | drawing _ | exiting _ | ending _ => rfl
  | pumping | polling | requestingStop _ | unwinding _ | stopping _ | joining _ | returned _ => cases h

/-- A step of the thread that leaves monitor and storage alone. -/
theorem Abstracts.goTo {a : GuiSession σ} (h : Abstracts s a) {calls : List Event}
    {owners : List StageOwner.Stage} {pc : LifecyclePc} {close close' : Bool}
    (hclose : inLoop pc = true → close' = (close || isClosing pc))
    (hexit : isExiting pc = true → s.monitor.exitRequested = true) :
    Abstracts { s with calls := calls, owners := owners, pc := pc, windowShouldClose := close }
      { a with gui := sessionPc pc, windowShouldClose := close' } :=
  ⟨h.monitor, h.service, h.emitted, h.accepted, rfl, hclose, hexit⟩

/-- A step of the thread that the session does not see. -/
theorem Abstracts.still {a : GuiSession σ} (h : Abstracts s a) {calls : List Event}
    {owners : List StageOwner.Stage} {pc : LifecyclePc} {close : Bool}
    (hgui : sessionPc pc = sessionPc s.pc)
    (hclose : inLoop pc = true → a.windowShouldClose = (close || isClosing pc))
    (hexit : isExiting pc = true → s.monitor.exitRequested = true) :
    Abstracts { s with calls := calls, owners := owners, pc := pc, windowShouldClose := close } a :=
  ⟨h.monitor, h.service, h.emitted, h.accepted, h.gui.trans hgui.symm, hclose, hexit⟩

section
variable {a a' : GuiSession σ} {C : DeviceStorageService σ → DeviceStorageService.Label → Prop}

theorem Abstracts.gui_at (h : Abstracts s a) {pc : LifecyclePc} (here : s.pc = pc) :
    a.gui = sessionPc pc := here ▸ h.gui

theorem Abstracts.close_at (h : Abstracts s a) {pc : LifecyclePc} (here : s.pc = pc)
    (hloop : inLoop pc = true) :
    a.windowShouldClose = (s.windowShouldClose || isClosing pc) := by
  subst here
  exact h.close hloop

theorem Abstracts.draw (h : Abstracts s a) {backgroundError : Option Bytes}
    (here : s.pc = .drawing backgroundError) (op : Operation) :
    Abstracts (s.draw op) (a.draw op) := by
  refine ⟨?_, h.service, ?_, ?_, h.gui, h.close, fun hexit => ?_⟩
  · rw [GuiSession.draw, h.monitor]
    rfl
  · rw [GuiSession.draw, h.monitor, h.emitted]
    rfl
  · rw [GuiSession.draw, h.monitor, h.accepted]
    rfl
  · change isExiting s.pc = true at hexit
    rw [here] at hexit
    cases hexit

theorem Abstracts.submitCommands (h : Abstracts s a) (here : s.pc = .pumping) :
    Abstracts s.submitCommands a.submitCommands := by
  have hclose := h.close_at here rfl
  refine ⟨?_, ?_, h.emitted, h.accepted, rfl, fun _ => hclose, by rintro ⟨⟩⟩
  · rw [GuiSession.submitCommands, h.monitor]
    rfl
  · rw [GuiSession.submitCommands, h.monitor, h.service]
    rfl

theorem Abstracts.pollStorage (h : Abstracts s a) (here : s.pc = .polling) :
    Abstracts s.pollStorage a.pollStorage := by
  have hclose := h.close_at here rfl
  unfold GuiSession.pollStorage GuiLifecycle.pollStorage
  rw [h.monitor, h.service]
  refine ⟨rfl, rfl, h.emitted, h.accepted, ?_, fun _ => ?_, fun hexit => ?_⟩
  · cases (GuiSession.pumpResults s.monitor s.service.results).2 <;> rfl
  · cases (GuiSession.pumpResults s.monitor s.service.results).2 <;> exact hclose
  · simp only at hexit
    split at hexit <;> cases hexit

theorem Abstracts.failPump (h : Abstracts s a) (error : Bytes) :
    Abstracts (s.failPump error) (a.failPump error) := by
  refine ⟨?_, ?_, h.emitted, h.accepted, rfl, fun _ => (Bool.or_true _).symm, by rintro ⟨⟩⟩
  · rw [GuiSession.failPump, h.monitor]
    rfl
  · rw [GuiSession.failPump, h.service]
    rfl

theorem Abstracts.drain (h : Abstracts s a) (result : GuiResult) :
    Abstracts (s.drain result) (a.drain result) := by
  unfold GuiSession.drain GuiLifecycle.drain
  rw [h.monitor, h.service]
  exact ⟨rfl, rfl, h.emitted, h.accepted, rfl, (fun hloop => by cases hloop), by rintro ⟨⟩⟩

/-- A step of the thread is answered by the next step of the session's. -/
theorem answered_by_advance (a' : GuiSession σ) (hadvance : a.advance mode = some a')
    (h : Abstracts t a') :
    ∃ l' b, OfSession C a l' ∧ (GuiSession.machine D mode).step a l' = some b ∧ Abstracts t b :=
  ⟨.advance, a', trivial, hadvance, h⟩

end

/-- Each step is one of the session or none: none for the calls that set up all but the
last stage, for those that ask the window to close and for those that tear down. -/
theorem simulates (C : DeviceStorageService σ → DeviceStorageService.Label → Prop) :
    (machine D mode).Simulates (GuiSession.machine D mode) Abstracts (OfService C)
      (OfSession C) := by
  intro s a l t h hcond hstep
  cases moves_of_step hstep with
  | @service l service worker moves =>
      refine Or.inr ⟨.service l, { a with service := service }, ?_, ?_, ?_⟩
      · show C a.service l
        exact h.service.symm ▸ hcond
      · exact GuiSession.step_service a mode worker (h.service.symm ▸ moves)
      · exact ⟨h.monitor, rfl, h.emitted, h.accepted, h.gui, h.close, h.exit⟩
  | closeWindow =>
      exact Or.inr ⟨.closeWindow, _, trivial, rfl, h.monitor, h.service, h.emitted, h.accepted,
        h.gui, fun _ => (Bool.true_or _).symm, h.exit⟩
  | @throws what call here constructed =>
      refine Or.inr ⟨.platformThrows (failure what).error,
        { a with gui := .stopping (failure what) }, trivial, ?_, ?_⟩
      · refine allow_eq_some.mpr ⟨⟨?_, h.service.symm ▸ constructed⟩, rfl⟩
        rw [h.gui]
        exact callsPlatform_sessionPc here
      · exact h.goTo (fun hloop => by cases hloop) (by rintro ⟨⟩)
  | @draw op backgroundError here =>
      refine Or.inr ⟨.draw op, a.draw op, trivial, ?_, h.draw here op⟩
      show GuiSession.step D mode a (.draw op) = some (a.draw op)
      rw [GuiSession.step, h.gui_at here, sessionPc]
  | @setUp call rest here constructed =>
      have hclose := h.close_at here rfl
      cases rest with
      | nil =>
          refine Or.inr (answered_by_advance { a with gui := .checking } ?_
            (h.goTo (fun _ => hclose) (by rintro ⟨⟩)))
          rw [GuiSession.advance, h.gui_at here, sessionPc]
          exact allow_eq_some.mpr ⟨h.service.symm ▸ constructed, rfl⟩
      | cons next rest =>
          exact Or.inl (h.still (by rw [here]; rfl) (fun _ => hclose) (by rintro ⟨⟩))
  | loopEnds here close =>
      refine Or.inr (answered_by_advance { a with gui := .stopping ⟨true, []⟩ } ?_
        (h.goTo (fun hloop => by cases hloop) (by rintro ⟨⟩)))
      rw [GuiSession.advance, h.gui_at here, sessionPc, h.close_at here rfl, close]
      rfl
  | loopGoesOn here close =>
      have hclose := h.close_at here rfl
      refine Or.inr (answered_by_advance { a with gui := .beginning } ?_
        (h.goTo (fun _ => hclose) (by rintro ⟨⟩)))
      rw [GuiSession.advance, h.gui_at here, sessionPc, hclose, close]
      rfl
  | beginFrame here =>
      have hclose := h.close_at here rfl
      refine Or.inr (answered_by_advance { a with gui := .pumping } ?_
        (h.goTo (fun _ => hclose) (by rintro ⟨⟩)))
      rw [GuiSession.advance, h.gui_at here, sessionPc]
  | submitCommands here =>
      refine Or.inr (answered_by_advance a.submitCommands ?_ (h.submitCommands here))
      rw [GuiSession.advance, h.gui_at here, sessionPc]
  | pollStorage here =>
      refine Or.inr (answered_by_advance a.pollStorage ?_ (h.pollStorage here))
      rw [GuiSession.advance, h.gui_at here, sessionPc]
  | @failPump error here =>
      refine Or.inr (answered_by_advance (a.failPump error) ?_ (h.failPump error))
      rw [GuiSession.advance, h.gui_at here, sessionPc]
  | @closed error here =>
      have hclose := h.close_at here rfl
      rw [isClosing, Bool.or_true] at hclose
      exact Or.inl (h.still (by rw [here]; rfl) (fun _ => hclose) (by rintro ⟨⟩))
  | @drawn backgroundError here exit =>
      have hclose := h.close_at here rfl
      refine Or.inr (answered_by_advance { a with gui := .ending backgroundError } ?_
        (h.goTo (fun _ => hclose) (by rintro ⟨⟩)))
      rw [GuiSession.advance, h.gui_at here, sessionPc, h.monitor, exit, Bool.or_false]
  | @drawnLast backgroundError here exit =>
      have hclose := h.close_at here rfl
      exact Or.inl (h.still (by rw [here]; rfl) (fun _ => hclose) fun _ => exit)
  | @exited backgroundError here =>
      have hexit := h.exit (by rw [here]; rfl)
      refine Or.inr (answered_by_advance
        { a with windowShouldClose := true, gui := .ending backgroundError } ?_
        (h.goTo (fun _ => rfl) (by rintro ⟨⟩)))
      rw [GuiSession.advance, h.gui_at here, sessionPc, h.monitor, hexit, Bool.or_true]
  | frameEnds here =>
      have hclose := h.close_at here rfl
      refine Or.inr (answered_by_advance { a with gui := .checking } ?_
        (h.goTo (fun _ => hclose) (by rintro ⟨⟩)))
      rw [GuiSession.advance, h.gui_at here, sessionPc]
  | @frameFails error here =>
      refine Or.inr (answered_by_advance { a with gui := .stopping ⟨false, error⟩ } ?_
        (h.goTo (fun hloop => by cases hloop) (by rintro ⟨⟩)))
      rw [GuiSession.advance, h.gui_at here, sessionPc]
  | tearDown here owned =>
      exact Or.inl (h.still (by rw [here]; rfl) (fun hloop => by cases hloop) (by rintro ⟨⟩))
  | unwound here owned =>
      exact Or.inl (h.still (by rw [here]; rfl) (fun hloop => by cases hloop) (by rintro ⟨⟩))
  | @requestStop result here =>
      refine Or.inr (answered_by_advance
        { a with service := a.service.requestStop, gui := .joining result } ?_ ?_)
      · rw [GuiSession.advance, h.gui_at here, sessionPc]
      · exact ⟨h.monitor, by rw [h.service], h.emitted, h.accepted, rfl,
          (fun hloop => by cases hloop), by rintro ⟨⟩⟩
  | @drain result here joined =>
      refine Or.inr (answered_by_advance (a.drain result) ?_ (h.drain result))
      rw [GuiSession.advance, h.gui_at here, sessionPc]
      exact allow_eq_some.mpr ⟨h.service.symm ▸ joined, rfl⟩

/-- Every run is a run of the session, with the same dealings between the monitor and the
storage. -/
theorem lifecycle_refines_session
    {C : DeviceStorageService σ → DeviceStorageService.Label → Prop} {database : σ} {hidden : Bool}
    {ls : List Label}
    (hmeets : (machine D mode).Meets (OfService C) (initial database hidden) ls)
    (hrun : (machine D mode).exec (initial database hidden) ls = some t) :
    ∃ ls' a, (GuiSession.machine D mode).Meets (OfSession C) (GuiSession.initial database hidden) ls' ∧
      (GuiSession.machine D mode).exec (GuiSession.initial database hidden) ls' = some a ∧
      Abstracts t a :=
  (simulates C).exec hmeets hrun (abstracts_initial database hidden)

/-- A device is added in the first frame, and the window is closed at once in the second,
which hands the command to the service. -/
def closedAtOnce : List Label :=
  .service .construct :: List.replicate 10 .advance ++
    [.draw .beginAdd, .draw (.editDraft GuiSession.router), .draw .submitEditor] ++
    List.replicate 6 .advance ++ .closeWindow :: List.replicate 11 .advance

theorem lifecycle_refines_session_closedAtOnce :
    ∃ ls' a, (GuiSession.machine sqliteDatabase .callingThread).Meets
        (OfSession fun s l => l = .construct → s.constructed = false)
        (GuiSession.initial ⟨.empty, false⟩ false) ls' ∧
      (GuiSession.machine sqliteDatabase .callingThread).exec
        (GuiSession.initial ⟨.empty, false⟩ false) ls' = some a ∧
      a.gui = .returned ⟨true, []⟩ ∧ a.emitted = [.add GuiSession.router.device] ∧
      a.service.submitted = [[.refresh], [.add GuiSession.router.device]] := by
  have hend : ((machine sqliteDatabase .callingThread).exec (initial ⟨.empty, false⟩ false)
      closedAtOnce).map (fun t => (sessionPc t.pc, t.emitted, t.service.submitted)) =
        some (.returned ⟨true, []⟩, [.add GuiSession.router.device],
          [[.refresh], [.add GuiSession.router.device]]) := by
    decide +kernel
  have hmeets : (machine sqliteDatabase .callingThread).Meets
      (OfService fun s l => l = .construct → s.constructed = false)
      (initial ⟨.empty, false⟩ false) closedAtOnce := by
    refine ⟨fun _ => rfl, fun u _ => Machine.meets_of_forall ?_⟩
    simp [OfService]
  obtain ⟨t, hrun, ht⟩ := Option.map_eq_some_iff.mp hend
  simp only [Prod.mk.injEq] at ht
  obtain ⟨hpc, hemitted, hsubmitted⟩ := ht
  obtain ⟨ls', a, hmeets', hrun', habstracts⟩ := lifecycle_refines_session hmeets hrun
  exact ⟨ls', a, hmeets', hrun', habstracts.gui.trans hpc, habstracts.emitted.trans hemitted,
    habstracts.service ▸ hsubmitted⟩

/-! ### The order of the calls -/

/-- What the owners of these calls tear down, the newest owner first. -/
def owned (done : List SetUpCall) : List StageOwner.Stage := (done.filterMap SetUpCall.stage).reverse

def setUps (done : List SetUpCall) : List Event := done.map fun call => .returned (.setUp call)

def tearDowns (stages : List StageOwner.Stage) : List Event :=
  stages.map fun stage => .returned (.tearDown stage)

/-- A frame up to `DrawFrame`. -/
def opening (backgroundError : Option Bytes) : List Event :=
  [.asked false, .returned .beginFrame, .pumped backgroundError] ++
    if backgroundError.isSome then [.returned .requestClose] else []

/-- The calls of a whole frame; `exit` is whether it ends with exit requested. -/
def frame (backgroundError : Option Bytes) (exit : Bool) : List Event :=
  opening backgroundError ++ .returned .drawFrame ::
    ((if exit then [.returned .requestClose] else []) ++ [.returned .endFrame])

/-- The frames before the last one, none of which has failed. -/
def Frames (before : List Event) : Prop :=
  ∃ frames : List (List Event), (∀ f ∈ frames, ∃ exit, f = frame none exit) ∧
    before = setUps setUpCalls ++ frames.flatten

def callOf : Event → Option PlatformCall
  | .returned call | .threw call _ => some call
  | .asked _ => some .windowShouldClose
  | .pumped _ => none

/-- What `RunGuiLifecycle` does before its owners are destroyed: the calls that have set
up something, all events, and the result. -/
inductive Body : List SetUpCall → List Event → GuiResult → Prop
  | setUpThrew {done rest : List SetUpCall} {call : SetUpCall} {what : Option Bytes}
      (h : setUpCalls = done ++ call :: rest) :
      Body done (setUps done ++ [.threw (.setUp call) what]) (failure what)
  | closed {before : List Event} (h : Frames before) :
      Body setUpCalls (before ++ [.asked true]) ⟨true, []⟩
  | pumpFailed {before : List Event} {error : Bytes} (h : Frames before) :
      Body setUpCalls (before ++ frame (some error) true) ⟨false, error⟩
  | threw {before first last : List Event} {event : Event} {call : PlatformCall}
      {backgroundError : Option Bytes} {exit : Bool} {what : Option Bytes} (h : Frames before)
      (hframe : frame backgroundError exit = first ++ event :: last) (hcall : callOf event = some call)
      (hexit : backgroundError.isSome = true → exit = true) :
      Body setUpCalls (before ++ (first ++ [.threw call what])) (failure what)

/-- The calls since the loop has last come round. -/
inductive Since : LifecyclePc → List Event → Prop
  | checking : Since .checking []
  | beginning : Since .beginning [.asked false]
  | pumping : Since .pumping [.asked false, .returned .beginFrame]
  | polling : Since .polling [.asked false, .returned .beginFrame]
  | requestingStop {error : Bytes} :
      Since (.requestingStop error) [.asked false, .returned .beginFrame]
  | closing {error : Bytes} :
      Since (.closing error) [.asked false, .returned .beginFrame, .pumped (some error)]
  | drawing {backgroundError : Option Bytes} :
      Since (.drawing backgroundError) (opening backgroundError)
  | exiting {backgroundError : Option Bytes} :
      Since (.exiting backgroundError) (opening backgroundError ++ [.returned .drawFrame])
  | ending {backgroundError : Option Bytes} {exit : Bool}
      (hexit : backgroundError.isSome = true → exit = true) :
      Since (.ending backgroundError)
        (opening backgroundError ++ .returned .drawFrame ::
          if exit then [.returned .requestClose] else [])

/-- What `RunGuiLifecycle` has returned, or is returning. -/
inductive Leaving : LifecyclePc → List StageOwner.Stage → GuiResult → Prop
  | unwinding {result : GuiResult} {owners : List StageOwner.Stage} :
      Leaving (.unwinding result) owners result
  | stopping {result : GuiResult} : Leaving (.stopping result) [] result
  | joining {result : GuiResult} : Leaving (.joining result) [] result
  | returned {result result' : GuiResult} (h : result.success = false → result' = result) :
      Leaving (.returned result') [] result

/-- What has been called where the GUI thread is. -/
inductive Called : LifecyclePc → List StageOwner.Stage → List Event → Prop
  | settingUp {done rest : List SetUpCall} {call : SetUpCall}
      (h : setUpCalls = done ++ call :: rest) :
      Called (.settingUp call rest) (owned done) (setUps done)
  | looping {pc : LifecyclePc} {before since : List Event} (h : Frames before)
      (hsince : Since pc since) : Called pc (owned setUpCalls) (before ++ since)
  | leaving {pc : LifecyclePc} {owners torn : List StageOwner.Stage} {done : List SetUpCall}
      {body : List Event} {result : GuiResult} (h : Body done body result)
      (hleaving : Leaving pc owners result) (htorn : torn ++ owners = owned done) :
      Called pc owners (body ++ tearDowns torn)

/-- The calls, and that a failed pump has requested the exit. -/
structure Ordered (s : GuiLifecycle σ) : Prop where
  called : Called s.pc s.owners s.calls
  exit : ∀ error, s.pc = .closing error ∨ s.pc = .drawing (some error) →
    s.monitor.exitRequested = true

theorem ordered_initial (database : σ) (hidden : Bool) : Ordered (initial database hidden) where
  called := (.settingUp rfl : Called _ (owned []) (setUps []))
  exit := by
    rintro error (⟨⟨⟩⟩ | ⟨⟨⟩⟩)

/-- The GUI thread is in a frame, or between two. -/
def inFrames : LifecyclePc → Bool
  | .settingUp _ _ | .unwinding _ | .stopping _ | .joining _ | .returned _ => false
  | _ => true

theorem Called.since {pc : LifecyclePc} {owners : List StageOwner.Stage} {calls : List Event}
    (h : Called pc owners calls) (hframes : inFrames pc = true) :
    owners = owned setUpCalls ∧
      ∃ before since, Frames before ∧ Since pc since ∧ calls = before ++ since := by
  cases h with
  | settingUp _ => cases hframes
  | looping hbefore hsince => exact ⟨rfl, _, _, hbefore, hsince, rfl⟩
  | leaving _ hleaving _ => cases hleaving <;> cases hframes

theorem Called.of_since {pc : LifecyclePc} {owners : List StageOwner.Stage}
    {calls before since : List Event}
    (howners : owners = owned setUpCalls) (h : Frames before) (hsince : Since pc since)
    (hcalls : calls = before ++ since) : Called pc owners calls := by
  subst howners hcalls
  exact .looping h hsince

/-- The events of a step within a frame. -/
theorem Called.goOn {pc pc' : LifecyclePc} {owners : List StageOwner.Stage}
    {calls events : List Event}
    (h : Called pc owners calls) (hframes : inFrames pc = true)
    (hnext : ∀ since, Since pc since → Since pc' (since ++ events)) :
    Called pc' owners (calls ++ events) := by
  obtain ⟨howners, before, since, hbefore, hsince, rfl⟩ := h.since hframes
  exact .of_since howners hbefore (hnext since hsince) (List.append_assoc ..)

/-- The loop is left, with all owners. -/
theorem Called.of_body {owners : List StageOwner.Stage} {done : List SetUpCall} {calls : List Event}
    {result : GuiResult} (howners : owners = owned done) (h : Body done calls result) :
    Called (.unwinding result) owners calls := by
  have hleft : Called (.unwinding result) owners (calls ++ tearDowns []) :=
    .leaving h .unwinding ((List.nil_append _).trans howners)
  rwa [tearDowns, List.map_nil, List.append_nil] at hleft

theorem Frames.add {before : List Event} (h : Frames before) (exit : Bool) :
    Frames (before ++ frame none exit) := by
  obtain ⟨frames, hframes, rfl⟩ := h
  refine ⟨frames ++ [frame none exit], ?_, ?_⟩
  · exact List.forall_mem_append.mpr ⟨hframes, List.forall_mem_singleton.mpr ⟨exit, rfl⟩⟩
  · simp

/-- The next call is that of a frame. -/
theorem Since.next {pc : LifecyclePc} {since : List Event} (h : Since pc since)
    {call : PlatformCall} (hcall : callAt pc = some call) :
    ∃ backgroundError exit event last, frame backgroundError exit = since ++ event :: last ∧
      callOf event = some call ∧ (backgroundError.isSome = true → exit = true) := by
  cases h with
  | checking =>
      obtain rfl := Option.some.inj hcall
      exact ⟨none, true, .asked false, _, rfl, rfl, fun _ => rfl⟩
  | beginning =>
      obtain rfl := Option.some.inj hcall
      exact ⟨none, true, .returned .beginFrame, _, rfl, rfl, fun _ => rfl⟩
  | pumping | polling | requestingStop => cases hcall
  | @closing error =>
      obtain rfl := Option.some.inj hcall
      exact ⟨some error, true, .returned .requestClose, _, rfl, rfl, fun _ => rfl⟩
  | @drawing backgroundError =>
      obtain rfl := Option.some.inj hcall
      exact ⟨backgroundError, true, .returned .drawFrame, _, rfl, rfl, fun _ => rfl⟩
  | @exiting backgroundError =>
      obtain rfl := Option.some.inj hcall
      refine ⟨backgroundError, true, .returned .requestClose, [.returned .endFrame], ?_, rfl,
        fun _ => rfl⟩
      rw [List.append_assoc]
      rfl
  | @ending backgroundError exit hexit =>
      obtain rfl := Option.some.inj hcall
      refine ⟨backgroundError, exit, .returned .endFrame, [], ?_, rfl, hexit⟩
      rw [frame, List.append_assoc, List.cons_append]

theorem Called.throws {pc : LifecyclePc} {owners : List StageOwner.Stage} {calls : List Event}
    (h : Called pc owners calls) {call : PlatformCall} (hcall : callAt pc = some call)
    (what : Option Bytes) :
    Called (.unwinding (failure what)) owners (calls ++ [.threw call what]) := by
  cases h with
  | settingUp hdone =>
      obtain rfl := Option.some.inj hcall
      exact .of_body rfl (.setUpThrew hdone)
  | looping hbefore hsince =>
      obtain ⟨backgroundError, exit, event, last, hframe, hevent, hexit⟩ := hsince.next hcall
      rw [List.append_assoc]
      exact .of_body rfl (.threw hbefore hframe hevent hexit)
  | leaving _ hleaving _ => cases hleaving <;> cases hcall

theorem Called.setUp {owners : List StageOwner.Stage} {calls : List Event} {call : SetUpCall}
    {rest : List SetUpCall} (h : Called (.settingUp call rest) owners calls) :
    Called (afterSetUp rest) (call.stage.toList ++ owners) (calls ++ [.returned (.setUp call)]) := by
  cases h with
  | @settingUp done rest call hdone =>
      have howned : call.stage.toList ++ owned done = owned (done ++ [call]) := by
        rw [owned, owned, List.filterMap_append, List.reverse_append]
        cases hstage : call.stage <;> simp [hstage]
      have hcalls : setUps done ++ [.returned (.setUp call)] = setUps (done ++ [call]) := by
        rw [setUps, setUps, List.map_append]
        rfl
      rw [howned, hcalls]
      cases rest with
      | nil =>
          rw [← hdone]
          exact .of_since rfl ⟨[], List.forall_mem_nil _, (List.append_nil _).symm⟩ .checking
            (List.append_nil _).symm
      | cons next rest => exact .settingUp (by rw [hdone, List.append_assoc]; rfl)
  | looping _ hsince => cases hsince
  | leaving _ hleaving _ => cases hleaving

theorem exitRequested_perform (monitor : DeviceMonitorState) (op : Operation)
    (h : monitor.exitRequested = true) : (monitor.perform op).2.exitRequested = true := by
  cases op with
  | requestExit => rfl
  | requestRefresh | beginAdd | cancelEditor | editDraft _ | cancelDelete | setError _ | clearError =>
      exact h
  | beginEdit id =>
      simp only [DeviceMonitorState.perform, DeviceMonitorState.beginEdit]
      split <;> exact h
  | submitEditor =>
      simp only [DeviceMonitorState.perform, DeviceMonitorState.submitEditor]
      repeat' split
      all_goals exact h
  | requestDelete id =>
      simp only [DeviceMonitorState.perform, DeviceMonitorState.requestDelete]
      repeat' split
      all_goals exact h
  | confirmDelete =>
      simp only [DeviceMonitorState.perform, DeviceMonitorState.confirmDelete]
      repeat' split
      all_goals exact h
  | setAlive id alive =>
      simp only [DeviceMonitorState.perform, DeviceMonitorState.setAlive]
      repeat' split
      all_goals exact h

/-- A step whose state cannot be one after a failed pump. -/
theorem Ordered.of_called (hcalled : Called t.pc t.owners t.calls)
    (hexit : ∀ error, t.pc ≠ .closing error ∧ t.pc ≠ .drawing (some error)) : Ordered t :=
  ⟨hcalled, fun error hpc => hpc.elim (fun h => absurd h (hexit error).1)
    fun h => absurd h (hexit error).2⟩

theorem Ordered.pollStorage (h : Ordered s) (here : s.pc = .polling) : Ordered s.pollStorage := by
  obtain ⟨howners, before, since, hbefore, hsince, hcalls⟩ := h.called.since (by rw [here]; rfl)
  rw [here] at hsince
  cases hsince
  unfold GuiLifecycle.pollStorage
  cases (GuiSession.pumpResults s.monitor s.service.results).2 with
  | none =>
      refine .of_called (.of_since howners hbefore .drawing ?_) fun error => ⟨by rintro ⟨⟩, by rintro ⟨⟩⟩
      simp [hcalls, opening]
  | some error =>
      refine .of_called (.of_since howners hbefore .requestingStop ?_) fun error =>
        ⟨by rintro ⟨⟩, by rintro ⟨⟩⟩
      simp [hcalls]

/-- The end of a frame: the loop goes on, or it is left with the error of the pump. -/
theorem Ordered.endFrame (h : Ordered s) {backgroundError : Option Bytes}
    (here : s.pc = .ending backgroundError) :
    Ordered (s.goOn (.returned .endFrame)
      (match backgroundError with
      | none => .checking
      | some error => .unwinding ⟨false, error⟩)) := by
  obtain ⟨howners, before, since, hbefore, hsince, hcalls⟩ := h.called.since (by rw [here]; rfl)
  rw [here] at hsince
  cases hsince with
  | @ending _ exit hexit =>
      have hframe : s.calls ++ [.returned .endFrame] = before ++ frame backgroundError exit := by
        rw [hcalls, frame]
        simp
      cases backgroundError with
      | none =>
          refine .of_called (.of_since howners (hbefore.add exit) .checking ?_) fun error =>
            ⟨by rintro ⟨⟩, by rintro ⟨⟩⟩
          exact hframe.trans (List.append_nil _).symm
      | some error =>
          refine .of_called ?_ fun error => ⟨by rintro ⟨⟩, by rintro ⟨⟩⟩
          show Called _ s.owners (s.calls ++ [.returned .endFrame])
          rw [hframe, hexit rfl]
          exact .of_body howners (.pumpFailed hbefore)

/-- An owner is destroyed. -/
theorem Ordered.tearDown (h : Ordered s) {result : GuiResult} {stage : StageOwner.Stage}
    {owners : List StageOwner.Stage}
    (here : s.pc = .unwinding result) (owned : s.owners = stage :: owners) :
    Ordered { s.goOn (.returned (.tearDown stage)) (.unwinding result) with owners := owners } := by
  refine .of_called ?_ fun error => ⟨by rintro ⟨⟩, by rintro ⟨⟩⟩
  show Called (.unwinding result) owners (s.calls ++ [.returned (.tearDown stage)])
  have hcalled := h.called
  rw [here, owned] at hcalled
  generalize s.calls = calls at hcalled
  cases hcalled with
  | looping _ hsince => cases hsince
  | @leaving _ _ torn done body _ hbody hleaving htorn =>
      cases hleaving
      have htorn' : tearDowns torn ++ [.returned (.tearDown stage)] = tearDowns (torn ++ [stage]) := by
        rw [tearDowns, tearDowns, List.map_append]
        rfl
      rw [List.append_assoc, htorn']
      refine .leaving hbody .unwinding ?_
      rw [List.append_assoc]
      exact htorn

/-- A step after the loop that calls nothing. -/
theorem Ordered.leave (h : Ordered s) (hlate : inLoop s.pc = false)
    (hleaving : ∀ result, Leaving s.pc s.owners result → Leaving t.pc s.owners result)
    (howners : t.owners = s.owners) (hcalls : t.calls = s.calls)
    (hexit : ∀ error, t.pc ≠ .closing error ∧ t.pc ≠ .drawing (some error)) : Ordered t := by
  refine .of_called ?_ hexit
  rw [howners, hcalls]
  have hcalled := h.called
  generalize s.calls = calls at hcalled
  generalize s.owners = owners at hcalled hleaving
  generalize s.pc = pc at hcalled hleaving hlate
  cases hcalled with
  | settingUp _ => cases hlate
  | looping _ hsince => cases hsince <;> cases hlate
  | leaving hbody hleaving' htorn => exact .leaving hbody (hleaving _ hleaving') htorn

/-- What is left to drain changes no failure. -/
theorem drainResults_of_failed (monitor : DeviceMonitorState) {result : GuiResult}
    (h : result.success = false) (results : List DeviceStorageResult) :
    (GuiSession.drainResults monitor result results).2 = result := by
  induction results generalizing monitor with
  | nil => rfl
  | cons storageResult rest ih =>
      rw [GuiSession.drainResults, h]
      split
      · exact ih _
      · exact ih _

theorem Ordered.drain (h : Ordered s) {result : GuiResult} (here : s.pc = .joining result) :
    Ordered (s.drain result) := by
  refine h.leave (by rw [here]; rfl) (fun result' hleaving => ?_) rfl rfl
    fun error => ⟨by rintro ⟨⟩, by rintro ⟨⟩⟩
  rw [here] at hleaving
  generalize s.owners = owners at hleaving
  cases hleaving
  exact .returned fun hfailed => drainResults_of_failed s.monitor hfailed _

theorem Ordered.step (h : Ordered s) (hstep : s.step D mode l = some t) : Ordered t := by
  cases moves_of_step hstep with
  | service _ _ => exact ⟨h.called, h.exit⟩
  | closeWindow => exact ⟨h.called, h.exit⟩
  | @throws what call here _ =>
      exact .of_called (h.called.throws here what) fun error => ⟨by rintro ⟨⟩, by rintro ⟨⟩⟩
  | @draw op _ here => exact ⟨h.called, fun error hpc => exitRequested_perform _ op (h.exit error hpc)⟩
  | @setUp call rest here _ =>
      have hcalled := h.called
      rw [here] at hcalled
      refine .of_called hcalled.setUp fun error => ?_
      cases rest <;> exact ⟨by rintro ⟨⟩, by rintro ⟨⟩⟩
  | loopEnds here _ =>
      obtain ⟨howners, before, since, hbefore, hsince, hcalls⟩ := h.called.since (by rw [here]; rfl)
      rw [here] at hsince
      cases hsince
      refine .of_called ?_ fun error => ⟨by rintro ⟨⟩, by rintro ⟨⟩⟩
      show Called _ s.owners (s.calls ++ [.asked true])
      rw [hcalls, List.append_nil]
      exact .of_body howners (.closed hbefore)
  | loopGoesOn here _ =>
      refine .of_called (h.called.goOn (by rw [here]; rfl) fun since hsince => ?_)
        fun error => ⟨by rintro ⟨⟩, by rintro ⟨⟩⟩
      rw [here] at hsince
      cases hsince
      exact .beginning
  | beginFrame here =>
      refine .of_called (h.called.goOn (by rw [here]; rfl) fun since hsince => ?_)
        fun error => ⟨by rintro ⟨⟩, by rintro ⟨⟩⟩
      rw [here] at hsince
      cases hsince
      exact .pumping
  | submitCommands here =>
      obtain ⟨howners, before, since, hbefore, hsince, hcalls⟩ := h.called.since (by rw [here]; rfl)
      rw [here] at hsince
      cases hsince
      exact .of_called (.of_since howners hbefore .polling hcalls)
        fun error => ⟨by rintro ⟨⟩, by rintro ⟨⟩⟩
  | pollStorage here => exact h.pollStorage here
  | @failPump error here =>
      refine ⟨h.called.goOn (by rw [here]; rfl) fun since hsince => ?_, fun _ _ => rfl⟩
      rw [here] at hsince
      cases hsince
      exact .closing
  | @closed error here =>
      refine ⟨h.called.goOn (by rw [here]; rfl) fun since hsince => ?_,
        fun _ _ => h.exit error (Or.inl here)⟩
      rw [here] at hsince
      cases hsince
      exact .drawing
  | @drawn backgroundError here exit =>
      have hpumped : backgroundError.isSome = true → false = true := by
        intro hsome
        obtain ⟨error, rfl⟩ := Option.isSome_iff_exists.mp hsome
        exact exit.symm.trans (h.exit error (Or.inr here))
      refine .of_called (h.called.goOn (by rw [here]; rfl) fun since hsince => ?_)
        fun error => ⟨by rintro ⟨⟩, by rintro ⟨⟩⟩
      rw [here] at hsince
      cases hsince
      exact .ending hpumped
  | drawnLast here _ =>
      refine .of_called (h.called.goOn (by rw [here]; rfl) fun since hsince => ?_)
        fun error => ⟨by rintro ⟨⟩, by rintro ⟨⟩⟩
      rw [here] at hsince
      cases hsince
      exact .exiting
  | @exited backgroundError here =>
      refine .of_called (h.called.goOn (by rw [here]; rfl) fun since hsince => ?_)
        fun error => ⟨by rintro ⟨⟩, by rintro ⟨⟩⟩
      rw [here] at hsince
      cases hsince
      rw [List.append_assoc]
      exact .ending fun _ => rfl
  | frameEnds here => exact h.endFrame here
  | frameFails here => exact h.endFrame here
  | tearDown here owned => exact h.tearDown here owned
  | unwound here owned =>
      refine h.leave (by rw [here]; rfl) (fun result' hleaving => ?_) rfl rfl
        fun error => ⟨by rintro ⟨⟩, by rintro ⟨⟩⟩
      rw [here] at hleaving
      rw [owned] at hleaving ⊢
      cases hleaving
      exact .stopping
  | requestStop here =>
      refine h.leave (by rw [here]; rfl) (fun result' hleaving => ?_) rfl rfl
        fun error => ⟨by rintro ⟨⟩, by rintro ⟨⟩⟩
      rw [here] at hleaving
      generalize s.owners = owners at hleaving
      cases hleaving
      exact .joining
  | drain here _ => exact h.drain here

/-- A frame that is not over can still be cut off by a call that throws. -/
theorem Since.cut {pc : LifecyclePc} {since : List Event} (h : Since pc since) :
    ∃ backgroundError exit first event last call,
      frame backgroundError exit = first ++ event :: last ∧ callOf event = some call ∧
        (backgroundError.isSome = true → exit = true) ∧ since <+: first := by
  cases hcall : callAt pc with
  | some call =>
      obtain ⟨backgroundError, exit, event, last, hframe, hevent, hexit⟩ := h.next hcall
      exact ⟨_, _, _, _, _, _, hframe, hevent, hexit, List.prefix_rfl⟩
  | none =>
      cases h with
      | pumping | polling | requestingStop =>
          exact ⟨none, true, opening none, .returned .drawFrame, _, .drawFrame, rfl, rfl, fun _ => rfl,
            [.pumped none], rfl⟩
      | checking | beginning | closing | drawing | exiting | ending => cases hcall

/-- `RunGuiLifecycle` has returned. -/
def hasLeft : LifecyclePc → Bool
  | .stopping _ | .joining _ | .returned _ => true
  | _ => false

/-- The result that `ImGuiStart` goes on with is that of the lifecycle, and a failure is
not changed by what it drains. -/
def ResultAt (result : GuiResult) : LifecyclePc → Prop
  | .stopping result' | .joining result' => result' = result
  | .returned result' => result.success = false → result' = result
  | _ => True

theorem Leaving.resultAt {pc : LifecyclePc} {owners : List StageOwner.Stage} {result : GuiResult}
    (h : Leaving pc owners result) : ResultAt result pc := by
  cases h with
  | unwinding => trivial
  | stopping | joining => rfl
  | returned h => exact h

theorem Leaving.owners_eq {pc : LifecyclePc} {owners : List StageOwner.Stage} {result : GuiResult}
    (h : Leaving pc owners result) (hleft : hasLeft pc = true) : owners = [] := by
  cases h with
  | unwinding => cases hleft
  | stopping | joining | returned _ => rfl

/-- Whatever throws and whenever the window is closed: what the platform is asked for is
the calls that set up stages, in their order up to the first that throws; frames, if all
have been set up; and the tear-down of exactly the stages that have been set up, in reverse
order, and nothing after it. The result is that of what has ended the loop, with the text
of what was thrown if a call has thrown. -/
theorem calls_of_lifecycle {database : σ} {hidden : Bool} {ls : List Label}
    (hrun : (machine D mode).exec (initial database hidden) ls = some t) :
    ∃ done body result, Body done body result ∧ t.calls <+: body ++ tearDowns (owned done) ∧
      (hasLeft t.pc = true → t.calls = body ++ tearDowns (owned done) ∧ ResultAt result t.pc) := by
  have hordered : Ordered t := Machine.invariant Ordered (fun _ _ _ hs hstep => hs.step hstep)
    ⟨ls, hrun⟩ (ordered_initial database hidden)
  have hcalled := hordered.called
  generalize t.calls = calls at hcalled ⊢
  generalize t.owners = owners at hcalled
  generalize t.pc = pc at hcalled ⊢
  cases hcalled with
  | @settingUp done rest call hdone =>
      have hbody : Body done _ (failure none) := .setUpThrew hdone
      refine ⟨done, _, _, hbody, ?_, fun hleft => by cases hleft⟩
      rw [List.append_assoc]
      exact List.prefix_append ..
  | @looping pc before since hbefore hsince =>
      obtain ⟨backgroundError, exit, first, event, last, call, hframe, hevent, hexit, hsub⟩ :=
        hsince.cut
      have hbody : Body setUpCalls _ (failure none) := .threw hbefore hframe hevent hexit
      refine ⟨setUpCalls, _, _, hbody, ?_, ?_⟩
      · rw [List.append_assoc]
        refine (List.prefix_append_right_inj before).mpr ?_
        rw [List.append_assoc]
        exact hsub.trans (List.prefix_append ..)
      · intro hleft
        cases hsince <;> cases hleft
  | @leaving pc owners torn done body result hbody hleaving htorn =>
      refine ⟨done, body, result, hbody, ?_, fun hleft => ⟨?_, hleaving.resultAt⟩⟩
      · rw [← htorn, tearDowns, tearDowns, List.map_append]
        exact (List.prefix_append_right_inj body).mpr (List.prefix_append ..)
      · rw [hleaving.owners_eq hleft, List.append_nil] at htorn
        rw [htorn]

/-- `CreateImGuiContext` throws; what is set up by then is torn down. -/
def contextThrows : List Label :=
  .service .construct :: List.replicate 3 .advance ++
    .throws (some (ascii "no context")) :: List.replicate 3 .advance

theorem calls_of_lifecycle_contextThrows :
    ∃ t : GuiLifecycle SQLiteDatabase, t.calls =
        setUps [.initializeGlfw, .createWindow, .initializeOpenGl] ++
          [.threw (.setUp .createImGuiContext) (some (ascii "no context"))] ++
            tearDowns [.window, .glfw] ∧
      t.pc = .stopping ⟨false, ascii "no context"⟩ ∧
      ∃ done body result, Body done body result ∧ t.calls = body ++ tearDowns (owned done) ∧
        ResultAt result t.pc := by
  have hend : ((machine sqliteDatabase .callingThread).exec (initial ⟨.empty, false⟩ false)
      contextThrows).map (fun t => (t.calls, t.pc)) =
        some (setUps [.initializeGlfw, .createWindow, .initializeOpenGl] ++
          [.threw (.setUp .createImGuiContext) (some (ascii "no context"))] ++
            tearDowns [.window, .glfw], .stopping ⟨false, ascii "no context"⟩) := by
    decide +kernel
  obtain ⟨t, hrun, hend⟩ := Option.map_eq_some_iff.mp hend
  obtain ⟨hcalls, hpc⟩ := Prod.mk.inj hend
  obtain ⟨done, body, result, hbody, -, hresult⟩ := calls_of_lifecycle hrun
  have hleft : hasLeft t.pc = true := by
    rw [hpc]
    rfl
  exact ⟨t, hcalls, hpc, done, body, result, hbody, hresult hleft⟩

end GuiLifecycle

end Watchlist.Gui
