import Watchlist.Gui.GuiRuntime

/-!
The way of a command from the monitor to the storage. What the monitor has emitted
is what has been submitted, after the refresh of the constructor, and what the
monitor still holds. What it holds when the loop ends is never submitted: after a
successful run the service has executed what was emitted exactly when nothing was
emitted in the last frame.
-/

namespace Watchlist.Gui.GuiSession

open Bytes Storage Transition DeviceStorageService

variable {σ : Type} {D : IDatabase σ} {mode : ExecutionMode}

/-! ### What a step can do -/

/-- The steps, by the piece of code that takes them. -/
inductive Moves (D : IDatabase σ) (mode : ExecutionMode) (s : GuiSession σ) :
    Label → GuiSession σ → Prop
  | service {l : DeviceStorageService.Label} {service : DeviceStorageService σ}
      (worker : ofWorker l = true) (moves : s.service.step D l = some service) :
      Moves D mode s (.service l) { s with service := service }
  | closeWindow : Moves D mode s .closeWindow { s with windowShouldClose := true }
  | platformThrows {error : Bytes} (calling : callsPlatform s.gui = true)
      (constructed : s.service.constructed = true) :
      Moves D mode s (.platformThrows error) { s with gui := .stopping ⟨false, error⟩ }
  | draw {op : Operation} {backgroundError : Option Bytes} (here : s.gui = .drawing backgroundError) :
      Moves D mode s (.draw op) (s.draw op)
  | setUp (here : s.gui = .starting) (constructed : s.service.constructed = true) :
      Moves D mode s .advance { s with gui := .checking }
  | loopEnds (here : s.gui = .checking) (close : s.windowShouldClose = true) :
      Moves D mode s .advance { s with gui := .stopping ⟨true, []⟩ }
  | loopGoesOn (here : s.gui = .checking) (close : s.windowShouldClose = false) :
      Moves D mode s .advance { s with gui := .beginning }
  | beginFrame (here : s.gui = .beginning) : Moves D mode s .advance { s with gui := .pumping }
  | submitCommands (here : s.gui = .pumping) : Moves D mode s .advance s.submitCommands
  | pollStorage (here : s.gui = .polling) : Moves D mode s .advance s.pollStorage
  | failPump {error : Bytes} (here : s.gui = .requestingStop error) :
      Moves D mode s .advance (s.failPump error)
  | drawn {backgroundError : Option Bytes} (here : s.gui = .drawing backgroundError) :
      Moves D mode s .advance { s with
        windowShouldClose := s.windowShouldClose || s.monitor.exitRequested
        gui := .ending backgroundError }
  | frameEnds (here : s.gui = .ending none) : Moves D mode s .advance { s with gui := .checking }
  | frameFails {error : Bytes} (here : s.gui = .ending (some error)) :
      Moves D mode s .advance { s with gui := .stopping ⟨false, error⟩ }
  | requestStop {result : GuiResult} (here : s.gui = .stopping result) :
      Moves D mode s .advance { s with service := s.service.requestStop, gui := .joining result }
  | drain {result : GuiResult} (here : s.gui = .joining result)
      (joined : mode = .callingThread ∨ s.service.run = .returned) :
      Moves D mode s .advance (s.drain result)

variable {s t : GuiSession σ} {l : Label}

theorem moves_of_step (h : s.step D mode l = some t) : Moves D mode s l t := by
  cases l with
  | service l =>
      simp only [step] at h
      split at h
      · rename_i hworker
        obtain ⟨service, hmoves, rfl⟩ := Option.map_eq_some_iff.mp h
        exact .service hworker hmoves
      · cases h
  | closeWindow =>
      obtain rfl := Option.some.inj h
      exact .closeWindow
  | platformThrows error =>
      obtain ⟨⟨hcalling, hconstructed⟩, rfl⟩ := allow_eq_some.mp h
      exact .platformThrows hcalling hconstructed
  | draw op =>
      simp only [step] at h
      split at h
      · rename_i hgui
        obtain rfl := Option.some.inj h
        exact .draw hgui
      · cases h
  | advance =>
      simp only [step, advance] at h
      split at h
      · rename_i hgui
        obtain ⟨hconstructed, rfl⟩ := allow_eq_some.mp h
        exact .setUp hgui hconstructed
      · rename_i hgui
        obtain rfl := Option.some.inj h
        by_cases hclose : s.windowShouldClose = true
        · rw [if_pos hclose]
          exact .loopEnds hgui hclose
        · rw [if_neg hclose]
          exact .loopGoesOn hgui (by simpa using hclose)
      · rename_i hgui
        obtain rfl := Option.some.inj h
        exact .beginFrame hgui
      · rename_i hgui
        obtain rfl := Option.some.inj h
        exact .submitCommands hgui
      · rename_i hgui
        obtain rfl := Option.some.inj h
        exact .pollStorage hgui
      · rename_i hgui
        obtain rfl := Option.some.inj h
        exact .failPump hgui
      · rename_i hgui
        obtain rfl := Option.some.inj h
        exact .drawn hgui
      · rename_i hgui
        obtain rfl := Option.some.inj h
        exact .frameEnds hgui
      · rename_i hgui
        obtain rfl := Option.some.inj h
        exact .frameFails hgui
      · rename_i hgui
        obtain rfl := Option.some.inj h
        exact .requestStop hgui
      · rename_i hgui
        obtain ⟨hjoined, rfl⟩ := allow_eq_some.mp h
        exact .drain hgui hjoined
      · cases h

theorem step_service (s : GuiSession σ) (mode : ExecutionMode) {l : DeviceStorageService.Label}
    {service : DeviceStorageService σ} (hworker : ofWorker l = true)
    (h : s.service.step D l = some service) : s.step D mode (.service l) = some { s with service := service } := by
  rw [step, if_pos hworker, h]
  rfl

/-- What the steps of the service that nobody calls for leave to the callers. -/
structure LeavesCallers (s t : DeviceStorageService σ) : Prop where
  submitted : t.submitted = s.submitted
  constructed : t.constructed = s.constructed
  stopRequested : t.stopRequested = s.stopRequested
  beforeStop : t.beforeStop = s.beforeStop
  polled : t.polled = s.polled

theorem leavesCallers_of_step {l : DeviceStorageService.Label} {s t : DeviceStorageService σ}
    (hworker : ofWorker l = true) (h : s.step D l = some t) :
    (s.constructed = false ∧ t = { s.submit [.refresh] with constructed := true }) ∨
      LeavesCallers s t := by
  cases l with
  | construct =>
      obtain ⟨hfresh, rfl⟩ := allow_eq_some.mp h
      exact Or.inl ⟨hfresh, rfl⟩
  | submit _ | pollResults | requestStop => cases hworker
  | enterRun =>
      obtain rfl := Option.some.inj h
      apply Or.inr
      unfold enterRun
      split <;> exact ⟨rfl, rfl, rfl, rfl, rfl⟩
  | callInitialize faults =>
      obtain ⟨_, rfl⟩ := allow_eq_some.mp h
      apply Or.inr
      unfold callInitialize
      split <;> exact ⟨rfl, rfl, rfl, rfl, rfl⟩
  | takeBatch =>
      obtain ⟨_, rfl⟩ := allow_eq_some.mp h
      apply Or.inr
      unfold takeBatch
      split <;> exact ⟨rfl, rfl, rfl, rfl, rfl⟩
  | executeBatch faults =>
      obtain ⟨batch, _, rfl⟩ := executeBatch_eq_some h
      exact Or.inr ⟨rfl, rfl, rfl, rfl, rfl⟩
  | deliver =>
      obtain ⟨result, _, rfl⟩ := deliver_eq_some h
      exact Or.inr ⟨rfl, rfl, rfl, rfl, rfl⟩

/-! ### The account -/

/-- A failure is on its way out of the loop, or out of `ImGuiStart`. -/
def failed : GuiPc → Bool
  | .requestingStop _ | .drawing (some _) | .ending (some _) => true
  | .stopping result | .joining result | .returned result => !result.success
  | _ => false

/-- `ImGuiStart` has requested the stop of the storage. -/
def closed : GuiPc → Bool
  | .joining _ | .returned _ => true
  | _ => false

/-- The loop is over. -/
def loopOver : GuiPc → Bool
  | .stopping _ | .joining _ | .returned _ => true
  | _ => false

/-- The refresh that the constructor submits. -/
def firstCommands (constructed : Bool) : List DeviceCommand :=
  if constructed then [.refresh] else []

/-- The invariant. -/
structure Accounted (s : GuiSession σ) : Prop where
  queued : Queued s.service
  constructed : s.gui ≠ .starting → s.service.constructed = true
  emitted : s.service.submitted.flatten ++ s.monitor.commands =
    firstCommands s.service.constructed ++ s.emitted
  polled : failed s.gui = false → ∀ r ∈ s.service.polled, r.success = true
  stop : failed s.gui = false → s.service.stopRequested = closed s.gui
  stopped : failed s.gui = false → closed s.gui = true → s.service.beforeStop = s.service.submitted

/-- The service's thread is entered once and initialises its database. -/
def Assumed (D : IDatabase σ) (s : GuiSession σ) : Label → Prop
  | .service l => DeviceStorageService.Assumed D s.service l
  | _ => True

theorem accounted_initial (database : σ) (hidden : Bool) : Accounted (initial database hidden) where
  queued := queued_initial database
  constructed := fun h => absurd rfl h
  emitted := rfl
  polled := by simp [initial, DeviceStorageService.initial]
  stop := fun _ => rfl
  stopped := by simp [initial, closed]

/-- A step that only takes the GUI thread further. -/
theorem Accounted.goTo (h : Accounted s) {gui : GuiPc} {close : Bool}
    (hconstructed : s.service.constructed = true) (hfailed : failed s.gui = false ∨ failed gui = true)
    (hclosed : failed gui = true ∨ closed gui = closed s.gui) :
    Accounted { s with gui := gui, windowShouldClose := close } where
  queued := h.queued
  constructed := fun _ => hconstructed
  emitted := h.emitted
  polled := fun hok => h.polled (hfailed.resolve_right (by simp [hok]))
  stop := fun hok => by
    rw [hclosed.resolve_left (by simp [hok])]
    exact h.stop (hfailed.resolve_right (by simp [hok]))
  stopped := fun hok hclose => by
    rw [hclosed.resolve_left (by simp [hok])] at hclose
    exact h.stopped (hfailed.resolve_right (by simp [hok])) hclose

theorem submit_flatten (s : DeviceStorageService σ) (commands : Batch) :
    (s.submit commands).submitted.flatten = s.submitted.flatten ++ commands := by
  unfold DeviceStorageService.submit
  cases commands with
  | nil => simp
  | cons c rest => simp

@[simp] theorem submit_polled (s : DeviceStorageService σ) (commands : Batch) :
    (s.submit commands).polled = s.polled := by
  unfold DeviceStorageService.submit
  split <;> rfl

@[simp] theorem submit_stopRequested (s : DeviceStorageService σ) (commands : Batch) :
    (s.submit commands).stopRequested = s.stopRequested := by
  unfold DeviceStorageService.submit
  split <;> rfl

@[simp] theorem submit_constructed (s : DeviceStorageService σ) (commands : Batch) :
    (s.submit commands).constructed = s.constructed := by
  unfold DeviceStorageService.submit
  split <;> rfl

/-- The pump stops at a failed result, and at nothing else. -/
theorem pumpResults_eq_none {monitor : DeviceMonitorState} {results : List DeviceStorageResult} :
    (pumpResults monitor results).2 = none ↔ ∀ r ∈ results, r.success = true := by
  induction results generalizing monitor with
  | nil => simp [pumpResults]
  | cons r rest ih =>
      rw [pumpResults, List.forall_mem_cons]
      split
      · rename_i hsuccess
        rw [ih]
        simp [hsuccess]
      · rename_i hfailure
        simp [hfailure]

/-- The last results leave a success alone exactly when none of them is a failure. -/
theorem drainResults_success {monitor : DeviceMonitorState} {result : GuiResult}
    {results : List DeviceStorageResult} :
    (drainResults monitor result results).2.success = true ↔
      result.success = true ∧ ∀ r ∈ results, r.success = true := by
  induction results generalizing monitor result with
  | nil => simp [drainResults]
  | cons r rest ih =>
      rw [drainResults, List.forall_mem_cons]
      split
      · rename_i hsuccess
        rw [ih]
        simp [hsuccess]
      · rename_i hfailure
        split
        · rw [ih]
          simp [hfailure]
        · rename_i hresult
          rw [ih]
          simp [hfailure, hresult]

theorem pumpResults_commands (monitor : DeviceMonitorState) (results : List DeviceStorageResult) :
    (pumpResults monitor results).1.commands = monitor.commands := by
  induction results generalizing monitor with
  | nil => rfl
  | cons r rest ih =>
      rw [pumpResults]
      split
      · exact ih _
      · rfl

theorem drainResults_commands (monitor : DeviceMonitorState) (result : GuiResult)
    (results : List DeviceStorageResult) :
    (drainResults monitor result results).1.commands = monitor.commands := by
  induction results generalizing monitor result with
  | nil => rfl
  | cons r rest ih =>
      rw [drainResults]
      split_ifs
      · exact ih _ _
      · exact ih _ _
      · exact ih _ _

/-! ### The steps -/

/-- A step of the service's own. -/
theorem Accounted.service (h : Accounted s) {l : DeviceStorageService.Label}
    {service : DeviceStorageService σ} (hworker : ofWorker l = true)
    (hassumed : DeviceStorageService.Assumed D s.service l)
    (hmoves : s.service.step D l = some service) : Accounted { s with service := service } := by
  have hqueued := h.queued.step hassumed hmoves
  rcases leavesCallers_of_step hworker hmoves with ⟨hfresh, rfl⟩ | hleaves
  · -- the constructor, before which nothing is submitted
    obtain ⟨hnone, _⟩ := h.queued.unconstructed hfresh
    have hstarting : s.gui = .starting := by
      by_contra hne
      cases hfresh.symm.trans (h.constructed hne)
    have hemitted := h.emitted
    rw [hfresh, hnone] at hemitted
    exact {
      queued := hqueued
      constructed := fun _ => rfl
      emitted := by
        change (s.service.submitted ++ [[DeviceCommand.refresh]]).flatten ++ s.monitor.commands =
          [DeviceCommand.refresh] ++ s.emitted
        rw [hnone]
        exact congrArg _ hemitted
      polled := h.polled
      stop := h.stop
      stopped := by simp [hstarting, closed] }
  · exact {
      queued := hqueued
      constructed := fun hne => hleaves.constructed.trans (h.constructed hne)
      emitted := by
        rw [hleaves.submitted, hleaves.constructed]
        exact h.emitted
      polled := by
        rw [hleaves.polled]
        exact h.polled
      stop := by
        rw [hleaves.stopRequested]
        exact h.stop
      stopped := by
        rw [hleaves.beforeStop, hleaves.submitted]
        exact h.stopped }

theorem Accounted.draw (h : Accounted s) (op : Operation) : Accounted (s.draw op) where
  queued := h.queued
  constructed := h.constructed
  emitted := by
    change s.service.submitted.flatten ++ (s.monitor.perform op).2.commands =
      firstCommands s.service.constructed ++ (s.emitted ++ s.monitor.emissions op)
    rw [DeviceMonitorState.perform_commands, ← List.append_assoc, h.emitted, List.append_assoc]
  polled := h.polled
  stop := h.stop
  stopped := h.stopped

theorem Accounted.submitCommands (h : Accounted s) (hgui : s.gui = .pumping) :
    Accounted s.submitCommands where
  queued := h.queued.submit (h.constructed (by simp [hgui])) s.monitor.commands
  constructed := fun _ => by
    refine (submit_constructed s.service s.monitor.commands).trans ?_
    exact h.constructed (by simp [hgui])
  emitted := by
    change (s.service.submit s.monitor.commands).submitted.flatten ++ [] =
      firstCommands (s.service.submit s.monitor.commands).constructed ++ s.emitted
    rw [submit_flatten, submit_constructed, List.append_nil, h.emitted]
  polled := fun _ => by
    change ∀ r ∈ (s.service.submit s.monitor.commands).polled, r.success = true
    rw [submit_polled]
    exact h.polled (by simp [hgui, failed])
  stop := fun _ => by
    refine (submit_stopRequested s.service s.monitor.commands).trans ?_
    rw [h.stop (by simp [hgui, failed]), hgui]
    rfl
  stopped := fun _ hclosed => by cases hclosed

theorem Accounted.pollStorage (h : Accounted s) (hgui : s.gui = .polling) :
    Accounted s.pollStorage := by
  have hnotFailed : failed s.gui = false := by simp [hgui, failed]
  have hfailed : failed s.pollStorage.gui = false →
      (pumpResults s.monitor s.service.results).2 = none := by
    intro hok
    cases hpump : (pumpResults s.monitor s.service.results).2 with
    | none => rfl
    | some error => simp [GuiSession.pollStorage, hpump, failed] at hok
  have hclosed : closed s.pollStorage.gui = false := by
    unfold GuiSession.pollStorage
    cases (pumpResults s.monitor s.service.results).2 <;> rfl
  exact {
    queued := h.queued.pollResults
    constructed := fun _ => h.constructed (by simp [hgui])
    emitted := by
      change s.service.submitted.flatten ++ (pumpResults s.monitor s.service.results).1.commands = _
      rw [pumpResults_commands]
      exact h.emitted
    polled := by
      intro hok r hr
      rcases List.mem_append.mp hr with hr | hr
      · exact h.polled hnotFailed r hr
      · exact pumpResults_eq_none.mp (hfailed hok) r hr
    stop := fun _ => by
      rw [hclosed]
      exact (h.stop hnotFailed).trans (by rw [hgui]; rfl)
    stopped := fun _ hclose => by
      rw [hclosed] at hclose
      cases hclose }

theorem Accounted.failPump (h : Accounted s) {error : Bytes} (hgui : s.gui = .requestingStop error) :
    Accounted (s.failPump error) where
  queued := h.queued.requestStop (h.constructed (by simp [hgui]))
  constructed := fun _ => h.constructed (by simp [hgui])
  emitted := h.emitted
  polled := fun hok => by cases hok
  stop := fun hok => by cases hok
  stopped := fun hok => by cases hok

theorem Accounted.requestStop (h : Accounted s) {result : GuiResult}
    (hgui : s.gui = .stopping result) :
    Accounted { s with service := s.service.requestStop, gui := .joining result } := by
  have hfailed : failed (.joining result) = failed s.gui := by rw [hgui]; rfl
  exact {
    queued := h.queued.requestStop (h.constructed (by simp [hgui]))
    constructed := fun _ => h.constructed (by simp [hgui])
    emitted := h.emitted
    polled := fun hok => h.polled (hfailed ▸ hok)
    stop := fun _ => rfl
    stopped := fun hok _ => by
      have hnone : s.service.stopRequested = false := by
        rw [h.stop (hfailed ▸ hok), hgui]
        rfl
      simp [DeviceStorageService.requestStop, hnone] }

theorem Accounted.drain (h : Accounted s) {result : GuiResult} (hgui : s.gui = .joining result) :
    Accounted (s.drain result) := by
  have hok (hnot : failed (s.drain result).gui = false) :
      result.success = true ∧ ∀ r ∈ s.service.results, r.success = true := by
    apply drainResults_success.mp
    simpa [GuiSession.drain, failed] using hnot
  have hnotFailed (hnot : failed (s.drain result).gui = false) : failed s.gui = false := by
    simp [hgui, failed, (hok hnot).1]
  exact {
    queued := h.queued.pollResults
    constructed := fun _ => h.constructed (by simp [hgui])
    emitted := by
      change s.service.submitted.flatten ++
        (drainResults s.monitor result s.service.results).1.commands = _
      rw [drainResults_commands]
      exact h.emitted
    polled := by
      intro hnot r hr
      rcases List.mem_append.mp hr with hr | hr
      · exact h.polled (hnotFailed hnot) r hr
      · exact (hok hnot).2 r hr
    stop := fun hnot => (h.stop (hnotFailed hnot)).trans (by rw [hgui]; rfl)
    stopped := fun hnot _ => h.stopped (hnotFailed hnot) (by rw [hgui]; rfl) }

/-- The step lemma. -/
theorem Accounted.step (h : Accounted s) (hassumed : Assumed D s l)
    (hstep : s.step D mode l = some t) : Accounted t := by
  cases moves_of_step hstep with
  | service worker moves => exact h.service worker hassumed moves
  | closeWindow => exact ⟨h.queued, h.constructed, h.emitted, h.polled, h.stop, h.stopped⟩
  | platformThrows calling constructed =>
      exact h.goTo constructed (Or.inr rfl) (Or.inl rfl)
  | draw _ => exact h.draw _
  | setUp here constructed =>
      exact h.goTo constructed (Or.inl (by rw [here]; rfl)) (Or.inr (by rw [here]; rfl))
  | loopEnds here _ | loopGoesOn here _ | beginFrame here | frameEnds here =>
      exact h.goTo (h.constructed (by simp [here])) (Or.inl (by rw [here]; rfl))
        (Or.inr (by rw [here]; rfl))
  | submitCommands here => exact h.submitCommands here
  | pollStorage here => exact h.pollStorage here
  | failPump here => exact h.failPump here
  | @drawn backgroundError here =>
      have hconstructed := h.constructed (by simp [here])
      cases backgroundError with
      | none => exact h.goTo hconstructed (Or.inl (by rw [here]; rfl)) (Or.inr (by rw [here]; rfl))
      | some error => exact h.goTo hconstructed (Or.inr rfl) (Or.inl rfl)
  | frameFails here => exact h.goTo (h.constructed (by simp [here])) (Or.inr rfl) (Or.inl rfl)
  | requestStop here => exact h.requestStop here
  | drain here _ => exact h.drain here

/-- The run lemma. -/
theorem accounted_of_exec {database : σ} {hidden : Bool} {ls : List Label}
    (hrun : (machine D mode).exec (initial database hidden) ls = some s)
    (hassumed : (machine D mode).Meets (Assumed D) (initial database hidden) ls) : Accounted s :=
  Machine.invariant_of_meets Accounted (fun _ _ _ hs hc hstep => hs.step hc hstep) hassumed hrun
    (accounted_initial database hidden)

/-! ### What is executed -/

/-- When the loop ends because the window should close, the frame before has emitted
nothing. -/
def HandedOver (s : GuiSession σ) : Label → Prop
  | .advance => s.gui = .checking → s.windowShouldClose = true → s.monitor.commands = []
  | _ => True

instance (s : GuiSession σ) (l : Label) : Decidable (HandedOver s l) := by
  cases l <;> unfold HandedOver <;> infer_instance

/-- Nothing is held back by a monitor whose loop is over. -/
def NothingHeld (s : GuiSession σ) : Prop := loopOver s.gui = true → s.monitor.commands = []

/-- A failure stays one. -/
theorem not_failed_before (hmoves : Moves D mode s l t) (hok : failed t.gui = false) :
    failed s.gui = false := by
  cases hmoves with
  | service _ _ => exact hok
  | closeWindow => exact hok
  | draw _ => exact hok
  | platformThrows _ _ => cases hok
  | setUp here _ | loopEnds here _ | loopGoesOn here _ | beginFrame here | submitCommands here
  | pollStorage here | frameEnds here => simp [here, failed]
  | failPump _ => cases hok
  | @drawn backgroundError here =>
      rw [here]
      cases backgroundError with
      | none => rfl
      | some error => cases hok
  | frameFails _ => cases hok
  | requestStop here =>
      rw [here]
      exact hok
  | @drain result here _ =>
      have hsuccess : (drainResults s.monitor result s.service.results).2.success = true := by
        simpa [GuiSession.drain, failed] using hok
      simp [here, failed, (drainResults_success.mp hsuccess).1]

/-- The loop ends without a failure in one place, where the condition is about. -/
theorem nothingHeld_step (hmoves : Moves D mode s l t) (hok : failed t.gui = false) :
    NothingHeld t ↔ NothingHeld s ∧ HandedOver s l := by
  have unaffected (hover : loopOver t.gui = loopOver s.gui)
      (hheld : loopOver s.gui = true → t.monitor.commands = s.monitor.commands)
      (hcondition : HandedOver s l) : NothingHeld t ↔ NothingHeld s ∧ HandedOver s l := by
    rw [NothingHeld, NothingHeld, hover]
    constructor
    · intro h
      exact ⟨fun ho => (hheld ho).symm.trans (h ho), hcondition⟩
    · intro h ho
      exact (hheld ho).trans (h.1 ho)
  cases hmoves with
  | service _ _ => exact unaffected rfl (fun _ => rfl) trivial
  | closeWindow => exact unaffected rfl (fun _ => rfl) trivial
  | platformThrows _ _ => cases hok
  | draw here => exact unaffected rfl (fun hover => by simp [here, loopOver] at hover) trivial
  | setUp here _ | beginFrame here | frameEnds here =>
      exact unaffected (by rw [here]; rfl) (fun _ => rfl) (fun hc => by cases here.symm.trans hc)
  | loopEnds here close =>
      have hs : NothingHeld s := fun hover => by simp [here, loopOver] at hover
      constructor
      · intro h
        exact ⟨hs, fun _ _ => h rfl⟩
      · intro h _
        exact h.2 here close
  | loopGoesOn here close =>
      refine unaffected (by rw [here]; rfl) (fun _ => rfl) fun _ hclose => ?_
      cases close.symm.trans hclose
  | submitCommands here =>
      exact unaffected (by rw [here]; rfl) (fun hover => by simp [here, loopOver] at hover)
        (fun hc => by cases here.symm.trans hc)
  | pollStorage here =>
      refine unaffected ?_ (fun hover => by simp [here, loopOver] at hover)
        (fun hc => by cases here.symm.trans hc)
      rw [here]
      unfold GuiSession.pollStorage
      cases (pumpResults s.monitor s.service.results).2 <;> rfl
  | failPump _ => cases hok
  | drawn here =>
      exact unaffected (by rw [here]; rfl) (fun _ => rfl) (fun hc => by cases here.symm.trans hc)
  | frameFails _ => cases hok
  | requestStop here =>
      exact unaffected (by rw [here]; rfl) (fun _ => rfl) (fun hc => by cases here.symm.trans hc)
  | drain here _ =>
      exact unaffected (by rw [here]; rfl) (fun _ => drainResults_commands _ _ _)
        (fun hc => by cases here.symm.trans hc)

/-- The service has drained: its thread is gone, and nothing that is left to poll is
a failure. -/
def Drained (s : DeviceStorageService σ) : Prop :=
  s.run = .returned ∧ ∀ r ∈ s.results, r.success = true

/-- Every batch has succeeded, and the commands of the batches in order are the first
refresh and what the monitor has emitted. -/
def ExecutedExactly (s : GuiSession σ) : Prop :=
  (∀ r ∈ s.service.polled ++ s.service.results, r.success = true) ∧
    (s.service.executed.map Prod.fst).flatten = .refresh :: s.emitted

/-- After a reported success everything that was submitted has been executed. -/
theorem Accounted.executed_eq_submitted (h : Accounted s) {result : GuiResult}
    (hreturned : s.gui = .returned result) (hsuccess : result.success = true)
    (hdrained : Drained s.service) :
    s.service.executed.map Prod.fst = s.service.submitted := by
  have hok : failed s.gui = false := by simp [hreturned, failed, hsuccess]
  have hbefore : s.service.beforeStop = s.service.submitted :=
    h.stopped hok (by rw [hreturned]; rfl)
  have hbegins : s.service.submitted <+: s.service.executed.map Prod.fst :=
    hbefore ▸ (h.queued.returned hdrained.1).2
  have hother : s.service.executed.map Prod.fst <+: s.service.submitted := by
    rw [h.queued.queue, List.append_assoc]
    exact List.prefix_append _ _
  exact hother.eq_of_length_le hbegins.length_le

theorem Accounted.executedExactly_iff (h : Accounted s) {result : GuiResult}
    (hreturned : s.gui = .returned result) (hsuccess : result.success = true)
    (hdrained : Drained s.service) : ExecutedExactly s ↔ s.monitor.commands = [] := by
  have hpolled := h.polled (by simp [hreturned, failed, hsuccess])
  have hemitted := h.emitted
  rw [h.constructed (by simp [hreturned])] at hemitted
  rw [ExecutedExactly, h.executed_eq_submitted hreturned hsuccess hdrained]
  constructor
  · intro hexactly
    rw [hexactly.2] at hemitted
    exact List.append_right_eq_self.mp hemitted
  · intro hnone
    rw [hnone, List.append_nil] at hemitted
    refine ⟨fun r hr => ?_, hemitted⟩
    rcases List.mem_append.mp hr with hr | hr
    · exact hpolled r hr
    · exact hdrained.2 r hr

/-- After a run that reports success, and once the service has drained, exactly the
emitted commands have been executed if and only if nothing was emitted in the frame
before the loop ended. -/
theorem executedExactly_iff_handedOver {database : σ} {hidden : Bool} {ls : List Label}
    {result : GuiResult} (hrun : (machine D mode).exec (initial database hidden) ls = some s)
    (hassumed : (machine D mode).Meets (Assumed D) (initial database hidden) ls)
    (hreturned : s.gui = .returned result) (hsuccess : result.success = true)
    (hdrained : Drained s.service) :
    ExecutedExactly s ↔ (machine D mode).Meets HandedOver (initial database hidden) ls := by
  have h := accounted_of_exec hrun hassumed
  have hmeets := (Machine.meets_iff_of_good (fun _ => True) (fun s => failed s.gui = false)
    NothingHeld (fun _ _ _ _ _ => trivial)
    (fun _ _ _ _ hstep => not_failed_before (moves_of_step hstep))
    (fun _ _ _ _ hstep => nothingHeld_step (moves_of_step hstep)) hrun trivial
    (by simp [hreturned, failed, hsuccess])).2
  rw [h.executedExactly_iff hreturned hsuccess hdrained]
  have hheld : NothingHeld s ↔ s.monitor.commands = [] := by simp [NothingHeld, hreturned, loopOver]
  have hinitial : NothingHeld (initial database hidden) := fun _ => rfl
  rw [← hheld, hmeets]
  exact and_iff_right hinitial

/-! ### Two runs on a new file -/

/-- A session on a file that is not there yet. -/
def newSession : GuiSession SQLiteDatabase := initial ⟨.empty, false⟩ false

/-- It, once the service's thread has started. -/
def startedSession : GuiSession SQLiteDatabase :=
  { newSession with service := newService.enterRun }

/-- It, once the service has opened the file. -/
def openedSession : GuiSession SQLiteDatabase :=
  { newSession with
    service := { newService.enterRun with database := ⟨freshDatabase, true⟩, run := .waiting } }

theorem step_newSession : (machine sqliteDatabase mode).step newSession (.service .enterRun) =
    some startedSession := rfl

theorem step_startedSession : (machine sqliteDatabase mode).step startedSession
    (.service (.callInitialize [])) = some openedSession := by
  have hcall : startedSession.service.callInitialize sqliteDatabase [] = openedSession.service :=
    callInitialize_new rfl
  have hservice : startedSession.service.step sqliteDatabase (.callInitialize []) =
      some openedSession.service :=
    allow_eq_some.mpr ⟨(rfl : startedSession.service.run = .initializing), hcall⟩
  exact step_service startedSession mode rfl hservice

/-- A run that starts with the opening of a new file. -/
def onNewFile (ls : List Label) : List Label :=
  .service .enterRun :: .service (.callInitialize []) :: ls

theorem exec_onNewFile {α : Type} {ls : List Label} (f : GuiSession SQLiteDatabase → α) {a : α}
    (h : ((machine sqliteDatabase mode).exec openedSession ls).map f = some a) :
    ∃ s, (machine sqliteDatabase mode).exec newSession (onNewFile ls) = some s ∧ f s = a := by
  obtain ⟨s, hs, ha⟩ := Option.map_eq_some_iff.mp h
  refine ⟨s, ?_, ha⟩
  rw [onNewFile, Machine.exec_cons_of_step step_newSession,
    Machine.exec_cons_of_step step_startedSession, hs]

theorem meets_onNewFile {C : GuiSession SQLiteDatabase → Label → Prop} {ls : List Label}
    (henter : C newSession (.service .enterRun))
    (hcall : C startedSession (.service (.callInitialize [])))
    (h : (machine sqliteDatabase mode).Meets C openedSession ls) :
    (machine sqliteDatabase mode).Meets C newSession (onNewFile ls) := by
  refine ⟨henter, fun s hs => ?_⟩
  obtain rfl := Option.some.inj (step_newSession.symm.trans hs)
  refine ⟨hcall, fun t ht => ?_⟩
  obtain rfl := Option.some.inj (step_startedSession.symm.trans ht)
  exact h

/-- The steps that the assumptions are about. -/
def opens : Label → Bool
  | .service .enterRun | .service (.callInitialize _) => true
  | _ => false

theorem assumed_onNewFile {ls : List Label} (hls : ls.all (fun l => !opens l) = true) :
    (machine sqliteDatabase mode).Meets (Assumed sqliteDatabase) newSession (onNewFile ls) := by
  refine meets_onNewFile rfl ⟨_, _, initializeDatabase_new⟩ ?_
  refine Machine.meets_of_forall fun l hl v => ?_
  have hnot := List.all_eq_true.mp hls l hl
  cases l with
  | service l =>
      cases l with
      | enterRun | callInitialize _ => cases hnot
      | construct | submit _ | pollResults | requestStop | takeBatch | executeBatch _ | deliver =>
          trivial
  | closeWindow | platformThrows _ | draw _ | advance => trivial

def router : DeviceDraft := ⟨ascii "r", ascii "Router", ascii "10.0.0.1", 80, true⟩

/-- What a finished run is judged by. -/
def outcome (s : GuiSession σ) :
    GuiPc × RunPc × List Bool × List DeviceCommand × List DeviceCommand :=
  (s.gui, s.service.run, (s.service.polled ++ s.service.results).map (·.success), s.emitted,
    (s.service.executed.map Prod.fst).flatten)

/-- A first frame that adds a device, without its end. -/
def addInFirstFrame : List Label :=
  [.service .construct, .advance, .advance, .advance, .advance, .advance, .draw .beginAdd,
    .draw (.editDraft router), .draw .submitEditor]

/-- The loop ends, and the service executes so many batches and returns. -/
def finish (batches : ℕ) : List Label :=
  ([.advance, .advance, .advance, .advance] : List Label) ++ (List.replicate batches
    ([.service .takeBatch, .service (.executeBatch []), .service .deliver] : List Label)).flatten ++
    ([.service .takeBatch, .advance] : List Label)

/-- The window is closed in the frame that adds the device. -/
def closedAtOnce : List Label := addInFirstFrame ++ .closeWindow :: finish 1

/-- The window is closed in the frame after it. -/
def closedLater : List Label :=
  addInFirstFrame ++
    ([.advance, .advance, .advance, .advance, .advance, .advance, .closeWindow] : List Label) ++
    finish 2

/-- The run reports success, and the device is not added. -/
theorem closing_loses_the_last_frame :
    ∃ s, (machine sqliteDatabase .ownedThread).exec newSession (onNewFile closedAtOnce) = some s ∧
      (machine sqliteDatabase .ownedThread).Meets (Assumed sqliteDatabase) newSession
        (onNewFile closedAtOnce) ∧
      s.gui = .returned ⟨true, []⟩ ∧ Drained s.service ∧ s.emitted = [.add router.device] ∧
      (s.service.executed.map Prod.fst).flatten = [.refresh] ∧ ¬ ExecutedExactly s := by
  obtain ⟨s, hs, ho⟩ := exec_onNewFile outcome
    (show ((machine sqliteDatabase .ownedThread).exec openedSession closedAtOnce).map outcome =
      some (.returned ⟨true, []⟩, .returned, [true], [.add router.device], [.refresh]) by
        decide +kernel)
  simp only [outcome, Prod.mk.injEq] at ho
  obtain ⟨hgui, hreturned, hresults, hemitted, hexecuted⟩ := ho
  refine ⟨s, hs, assumed_onNewFile rfl, hgui, ⟨hreturned, fun r hr => ?_⟩, hemitted, hexecuted, ?_⟩
  · have hmem := List.mem_map_of_mem (f := (·.success)) (List.mem_append_right s.service.polled hr)
    rw [hresults] at hmem
    simpa using hmem
  · intro hexactly
    have hboth := hexactly.2
    rw [hexecuted, hemitted] at hboth
    cases hboth

theorem executedExactly_iff_handedOver_later :
    ∃ s, (machine sqliteDatabase .ownedThread).exec newSession (onNewFile closedLater) = some s ∧
      s.gui = .returned ⟨true, []⟩ ∧ ExecutedExactly s ∧
      (machine sqliteDatabase .ownedThread).Meets HandedOver newSession (onNewFile closedLater) := by
  obtain ⟨s, hs, ho⟩ := exec_onNewFile outcome
    (show ((machine sqliteDatabase .ownedThread).exec openedSession closedLater).map outcome =
      some (.returned ⟨true, []⟩, .returned, [true, true], [.add router.device],
        [.refresh, .add router.device]) by decide +kernel)
  simp only [outcome, Prod.mk.injEq] at ho
  obtain ⟨hgui, hreturned, hresults, hemitted, hexecuted⟩ := ho
  have hsuccess : ∀ r ∈ s.service.polled ++ s.service.results, r.success = true := by
    intro r hr
    have hmem := List.mem_map_of_mem (f := (·.success)) hr
    rw [hresults] at hmem
    simpa using hmem
  have hexactly : ExecutedExactly s := ⟨hsuccess, hexecuted.trans (by rw [hemitted])⟩
  refine ⟨s, hs, hgui, hexactly, ?_⟩
  exact (executedExactly_iff_handedOver hs (assumed_onNewFile rfl) hgui rfl
    ⟨hreturned, fun r hr => hsuccess r (List.mem_append_right _ hr)⟩).mp hexactly

end Watchlist.Gui.GuiSession
