import Watchlist.Gui.DeviceView

/-!
What the user's accepted actions make of the stored devices. An action is worked out
on the local list, which a snapshot may have taken back behind commands that are
still on their way; the command that it emits is executed on what these leave. The
two agree as long as the local entry an action rests on is up to date.
-/

namespace Watchlist.Gui

open Bytes Storage Transition

/-- What an action is meant to make of the device with this id: an addition or an
edit decides all fields, an edit only of a device that is there; a change of the
alive flag decides that flag; a deletion leaves nothing. -/
def intended (id : Bytes) (stored : Option DatabaseItem) : UserAction → Option DatabaseItem
  | .submitted .add device => if device.id = id then some (toDatabaseItem device) else stored
  | .submitted .edit device =>
      if device.id = id then stored.map fun _ => toDatabaseItem device else stored
  | .deleted target => if target = id then none else stored
  | .setAlive target alive =>
      if target = id then stored.map fun item => { item with alive := alive } else stored

/-- The device that an action is about. -/
def UserAction.target : UserAction → Bytes
  | .submitted _ device => device.id
  | .deleted target => target
  | .setAlive target _ => target

theorem intended_of_ne {id : Bytes} {action : UserAction} (h : action.target ≠ id)
    (stored : Option DatabaseItem) : intended id stored action = stored := by
  cases action with
  | submitted mode device =>
      have hne : device.id ≠ id := h
      cases mode <;> simp [intended, hne]
  | deleted target | setAlive target alive =>
      have hne : target ≠ id := h
      simp [intended, hne]

/-- What is to be stored under an id after the actions in order. -/
def expected (m₀ : DeviceMap) (actions : List UserAction) (id : Bytes) : Option DatabaseItem :=
  actions.foldl (intended id) (m₀.getItem id)

theorem expected_concat (m₀ : DeviceMap) (actions : List UserAction) (action : UserAction)
    (id : Bytes) :
    expected m₀ (actions ++ [action]) id = intended id (expected m₀ actions id) action := by
  simp [expected]

/-! ### What this says of the last actions -/

/-- The fields that the form and nothing else decides. -/
def formFields (item : DatabaseItem) : Bytes × Bytes × UInt16 :=
  (item.name, item.ipAddress, item.port)

/-- An action that neither adds, edits nor deletes the device. -/
def LeavesForm (id : Bytes) : UserAction → Prop
  | .submitted _ device => device.id ≠ id
  | .deleted target => target ≠ id
  | .setAlive _ _ => True

theorem foldl_intended_formFields {id : Bytes} {actions : List UserAction}
    (h : ∀ action ∈ actions, LeavesForm id action) (stored : Option DatabaseItem) :
    (actions.foldl (intended id) stored).map formFields = stored.map formFields := by
  induction actions generalizing stored with
  | nil => rfl
  | cons action rest ih =>
      obtain ⟨haction, hrest⟩ := List.forall_mem_cons.mp h
      rw [List.foldl_cons, ih hrest]
      cases action with
      | submitted mode device =>
          have hne : (UserAction.submitted mode device).target ≠ id := haction
          rw [intended_of_ne hne]
      | deleted target =>
          have hne : (UserAction.deleted target).target ≠ id := haction
          rw [intended_of_ne hne]
      | setAlive target alive =>
          by_cases htarget : target = id
          · simp only [intended, if_pos htarget, Option.map_map]
            rfl
          · simp only [intended, if_neg htarget]

/-- The name, the address and the port are those of the last submitted form. -/
theorem expected_formFields {m₀ : DeviceMap} {before after : List UserAction}
    {mode : DeviceEditorMode} {device : DeviceViewModel}
    (hthere : mode = .edit → (expected m₀ before device.id).isSome = true)
    (hafter : ∀ action ∈ after, LeavesForm device.id action) :
    (expected m₀ (before ++ .submitted mode device :: after) device.id).map formFields =
      some (formFields (toDatabaseItem device)) := by
  rw [expected, List.foldl_append, List.foldl_cons, foldl_intended_formFields hafter]
  cases mode with
  | add => simp [intended]
  | edit =>
      obtain ⟨item, hitem⟩ := Option.isSome_iff_exists.mp (hthere rfl)
      rw [expected] at hitem
      simp [intended, hitem]

/-- A device is not stored after its deletion, until it is added again. -/
theorem expected_deleted {m₀ : DeviceMap} {before after : List UserAction} {id : Bytes}
    (hafter : ∀ device : DeviceViewModel, device.id = id →
      UserAction.submitted .add device ∉ after) :
    expected m₀ (before ++ .deleted id :: after) id = none := by
  rw [expected, List.foldl_append, List.foldl_cons]
  have hdeleted (stored : Option DatabaseItem) : intended id stored (.deleted id) = none := by
    simp [intended]
  rw [hdeleted]
  induction after with
  | nil => rfl
  | cons action rest ih =>
      have hnone : intended id none action = none := by
        cases action with
        | submitted mode device =>
            cases mode with
            | add =>
                have hne : device.id ≠ id := fun he => hafter device he List.mem_cons_self
                simp [intended, hne]
            | edit => simp [intended]
        | deleted target => simp [intended]
        | setAlive target alive => simp [intended]
      rw [List.foldl_cons, hnone]
      exact ih fun device he hmem => hafter device he (List.mem_cons_of_mem _ hmem)

/-- The alive flag is that of the last change of it, of a device that is there. -/
theorem expected_alive {m₀ : DeviceMap} {before after : List UserAction} {id : Bytes} {alive : Bool}
    (hthere : (expected m₀ before id).isSome = true)
    (hafter : ∀ action ∈ after, ∀ stored, intended id stored action = stored) :
    (expected m₀ (before ++ .setAlive id alive :: after) id).map (·.alive) = some alive := by
  obtain ⟨item, hitem⟩ := Option.isSome_iff_exists.mp hthere
  have hfold (stored : Option DatabaseItem) : after.foldl (intended id) stored = stored := by
    induction after with
    | nil => rfl
    | cons action rest ih =>
        obtain ⟨haction, hrest⟩ := List.forall_mem_cons.mp hafter
        rw [List.foldl_cons, haction, ih hrest]
  rw [expected, List.foldl_append, List.foldl_cons, hfold]
  rw [expected] at hitem
  simp [intended, hitem]

/-! ### One action on a map -/

/-- What the action's command is to be executed on holds the device as the local
list does. -/
def FreshFor (m : DeviceMap) (monitor : DeviceMonitorState) : UserAction → Prop
  | .submitted .edit device => (m.getItem device.id).isSome = true
  | .setAlive id _ => (m.getItem id).map formFields =
      (monitor.findDevice id).map fun device => formFields (toDatabaseItem device)
  | .submitted .add _ | .deleted _ => True

instance (m : DeviceMap) (monitor : DeviceMonitorState) (action : UserAction) :
    Decidable (FreshFor m monitor action) :=
  match action with
  | .submitted .edit device => inferInstanceAs (Decidable ((m.getItem device.id).isSome = true))
  | .setAlive id _ => inferInstanceAs (Decidable ((m.getItem id).map formFields =
      (monitor.findDevice id).map fun device => formFields (toDatabaseItem device)))
  | .submitted .add _ => isTrue trivial
  | .deleted _ => isTrue trivial

/-- What the commands of the actions so far leave is what the actions were meant to
make of the initial devices. -/
def Agrees (m₀ m : DeviceMap) (actions : List UserAction) : Prop :=
  ∀ id, m.getItem id = expected m₀ actions id

/-- Storing a device under its id is one action on the map. -/
theorem agrees_put {m₀ m : DeviceMap} {actions : List UserAction} {action : UserAction}
    {item : DatabaseItem} (hvalid : ValidItem item) (h : Agrees m₀ m actions)
    (htarget : action.target = item.id) :
    Agrees m₀ (m.put item hvalid) (actions ++ [action]) ↔
      some item = intended item.id (m.getItem item.id) action := by
  constructor
  · intro hagrees
    have hitem := hagrees item.id
    rwa [DeviceMap.getItem_put, if_pos rfl, expected_concat, ← h item.id] at hitem
  · intro hitem id
    rw [DeviceMap.getItem_put, expected_concat, ← h id]
    by_cases hid : id = item.id
    · rw [if_pos hid, hid, hitem]
    · rw [if_neg hid, intended_of_ne (by rw [htarget]; exact Ne.symm hid)]

/-- An accepted action is carried out as it was meant exactly when it was worked out
on a fresh entry. -/
theorem agrees_action_iff {monitor : DeviceMonitorState} {op : Operation} {c : DeviceCommand}
    {m₀ m m' : DeviceMap} {actions : List UserAction}
    (hemits : DeviceMonitorState.Emitting monitor op c) (h : Agrees m₀ m actions)
    (happly : applyCommand m c = .ok m') :
    Agrees m₀ m' (actions ++ monitor.accepted op) ↔
      ∀ action ∈ monitor.accepted op, FreshFor m monitor action := by
  have hcases := hemits.emits
  generalize monitor.accepted op = accepted at hcases ⊢
  generalize (monitor.perform op).2.devices = devices at hcases
  cases hcases with
  | refresh =>
      obtain rfl := Except.ok.inj happly
      rw [List.append_nil]
      exact iff_of_true h (fun _ hmem => by cases hmem)
  | @add editor editing valid hmode free =>
      obtain ⟨hvalid, _, rfl⟩ := DeviceMap.addItem_eq_ok happly
      rw [agrees_put hvalid h rfl]
      refine iff_of_true ?_ (by simp [FreshFor])
      exact (if_pos rfl).symm
  | @edit editor editing valid hmode sameId found =>
      obtain ⟨hvalid, rfl⟩ := DeviceMap.upsertItem_eq_ok happly
      rw [agrees_put hvalid h rfl, List.forall_mem_singleton]
      have hintended : intended editor.draft.device.id (m.getItem editor.draft.device.id)
          (.submitted .edit editor.draft.device) =
            (m.getItem editor.draft.device.id).map fun _ => toDatabaseItem editor.draft.device :=
        if_pos rfl
      change some _ = intended editor.draft.device.id (m.getItem editor.draft.device.id) _ ↔
        (m.getItem editor.draft.device.id).isSome = true
      rw [hintended]
      cases m.getItem editor.draft.device.id <;> simp
  | @delete id pending found =>
      obtain rfl := Except.ok.inj happly
      refine iff_of_true (fun id' => ?_) (by simp [FreshFor])
      change (m.remove id).getItem id' = _
      rw [DeviceMap.getItem_remove, expected_concat, ← h id']
      by_cases hid : id' = id
      · rw [if_pos hid, intended, if_pos hid.symm]
      · rw [if_neg hid, intended_of_ne (Ne.symm hid)]
  | @setAlive id alive device found =>
      obtain ⟨hvalid, rfl⟩ := DeviceMap.upsertItem_eq_ok happly
      have hdevice := DeviceMonitorState.id_of_findDevice found
      have hid : (toDatabaseItem { device with alive := alive }).id = id := hdevice
      have htarget : (UserAction.setAlive id alive).target = id := rfl
      rw [agrees_put hvalid h (htarget.trans hid.symm), List.forall_mem_singleton, FreshFor, found, hid, intended,
        if_pos rfl]
      cases hitem : m.getItem id with
      | none => simp
      | some item =>
          have hitemId := DeviceMap.id_of_getItem hitem
          simp only [Option.map_some, Option.some.injEq, formFields, toDatabaseItem,
            DatabaseItem.mk.injEq, Prod.mk.injEq]
          constructor
          · rintro ⟨_, hname, haddress, hport, _⟩
            exact ⟨hname.symm, haddress.symm, hport.symm⟩
          · rintro ⟨hname, haddress, hport⟩
            exact ⟨hdevice.trans hitemId.symm, hname.symm, haddress.symm, hport.symm, trivial⟩

/-! ### Runs -/

namespace GuiSession

variable {σ : Type} {D : IDatabase σ} {mode : ExecutionMode} {s t : GuiSession σ} {l : Label}
variable {R : σ → DeviceMap → Prop} {s₀ : σ} {m₀ : DeviceMap}

/-- The local entry that an accepted action rests on is the one that the commands
emitted so far leave in the database. -/
def Fresh (m₀ : DeviceMap) (s : GuiSession σ) : Label → Prop
  | .draw op => ∀ m, applyAll m₀ s.emitted = .ok m →
      ∀ action ∈ s.monitor.accepted op, FreshFor m s.monitor action
  | _ => True

instance (m₀ : DeviceMap) (s : GuiSession σ) (l : Label) : Decidable (Fresh m₀ s l) :=
  match l with
  | .draw op =>
      match h : applyAll m₀ s.emitted with
      | .ok m => decidable_of_iff (∀ action ∈ s.monitor.accepted op, FreshFor m s.monitor action)
          ⟨fun hf m' hm => Except.ok.inj (h.symm.trans hm) ▸ hf, fun hf => hf m h⟩
      | .error e => isTrue fun m hm => by cases h.symm.trans hm
  | .service _ | .closeWindow | .platformThrows _ | .advance => isTrue trivial

/-- What the emitted commands leave is what the accepted actions were meant to. -/
def Kept (m₀ : DeviceMap) (s : GuiSession σ) : Prop :=
  ∀ m, applyAll m₀ s.emitted = .ok m → Agrees m₀ m s.accepted

theorem kept_initial (database : σ) (hidden : Bool) : Kept m₀ (initial database hidden) := by
  intro m hm id
  obtain rfl := Except.ok.inj hm
  rfl

theorem applyAll_concat_eq_ok {m m' : DeviceMap} {batch : Batch} {c : DeviceCommand}
    (h : applyAll m (batch ++ [c]) = .ok m') :
    ∃ m₁, applyAll m batch = .ok m₁ ∧ applyCommand m₁ c = .ok m' := by
  rw [applyAll_append] at h
  cases hbatch : applyAll m batch with
  | error e =>
      rw [hbatch] at h
      cases h
  | ok m₁ =>
      rw [hbatch] at h
      refine ⟨m₁, rfl, ?_⟩
      change (applyAll m₁ [c]) = .ok m' at h
      rw [applyAll_cons] at h
      cases hc : applyCommand m₁ c with
      | error e =>
          rw [hc] at h
          cases h
      | ok m₂ =>
          rw [hc] at h
          exact h

theorem Kept.draw (h : Kept m₀ s) {op : Operation} (hfresh : Fresh m₀ s (.draw op)) :
    Kept m₀ (s.draw op) := by
  intro m' hm'
  change applyAll m₀ (s.emitted ++ s.monitor.emissions op) = .ok m' at hm'
  change Agrees m₀ m' (s.accepted ++ s.monitor.accepted op)
  rcases s.monitor.perform_cases op with hsilent | ⟨c, hemitting⟩
  · rw [hsilent.emissions, List.append_nil] at hm'
    rw [hsilent.accepted, List.append_nil]
    exact h m' hm'
  · rw [hemitting.emissions] at hm'
    obtain ⟨m, hm, happly⟩ := applyAll_concat_eq_ok hm'
    exact (agrees_action_iff hemitting (h m hm) happly).mpr (hfresh m hm)

/-- The step lemma. -/
theorem Kept.step (h : Kept m₀ s) (hfresh : Fresh m₀ s l) (hstep : s.step D mode l = some t) :
    Kept m₀ t := by
  cases moves_of_step hstep with
  | draw _ => exact h.draw hfresh
  | service _ _ | closeWindow | platformThrows _ _ | setUp _ _ | loopEnds _ _ | loopGoesOn _ _
  | beginFrame _ | submitCommands _ | pollStorage _ | failPump _ | drawn _ | frameEnds _
  | frameFails _ | requestStop _ | drain _ _ => exact h

/-- A log without a failure is one run of all its commands. -/
theorem applied_of_log {s s' : σ} {m m' : DeviceMap} {log : List (Batch × List Bool)}
    {results : List DeviceStorageResult} (h : CommandLog D R s m log results s' m')
    (hsuccess : ∀ r ∈ results, r.success = true) :
    applyAll m (log.map Prod.fst).flatten = .ok m' := by
  induction h with
  | nil _ => rfl
  | snoc before last ih =>
      obtain ⟨hbefore, hlast⟩ := List.forall_mem_append.mp hsuccess
      rw [List.map_append, List.flatten_append, applyAll_append, ih hbefore]
      cases last with
      | succeeded _ _ applied _ =>
          simpa [Except.bind] using applied
      | commandThrew _ _ _ _ _ => cases hlast _ (List.mem_singleton_self _)
      | readThrew _ _ _ _ => cases hlast _ (List.mem_singleton_self _)

/-- In a session that is quiet and saw no failure, the database holds what the
emitted commands make of the map it was opened with. -/
theorem database_of_quiet (hD : D.Refines R)
    (h₀ : ∀ faults u w, D.initializeDatabase ⟨s₀, faults⟩ = (.ok u, w) → R w.state m₀)
    {hidden : Bool} {ls : List Label}
    (hrun : (machine D mode).exec (initial s₀ hidden) ls = some s) (hsuccess : Succeeding s)
    (hquiet : Quiet s) (hconstructed : s.service.constructed = true) :
    ∃ m, R s.service.database m ∧ applyAll m₀ s.emitted = .ok m := by
  have hassumed := (meets_of_succeeding hrun hsuccess).mono fun _ _ hc => hc.1
  have hlogged := logged_of_exec hD h₀ hrun hassumed
  have hemitted := (accounted_of_exec hrun hassumed).emitted
  rw [hconstructed, hquiet.unconsumed, List.append_nil] at hemitted
  have hqueue := hlogged.queue
  rw [hquiet.taken, hquiet.commands, List.append_nil, List.append_nil] at hqueue
  rw [hqueue] at hemitted
  -- the refresh of the constructor has been executed, so the database is open
  have hexecuted : s.service.executed ≠ [] := by
    intro hnone
    rw [hnone] at hemitted
    cases hemitted
  obtain ⟨opened, m, _, hlog⟩ : DeviceStorageService.Opened D R m₀ s.service := by
    apply hlogged.opened
    · exact fun hrun => hexecuted (hlogged.unopened (Or.inl hrun)).2.1
    · exact fun hrun => hexecuted (hlogged.unopened (Or.inr hrun)).2.1
  have happlied := applied_of_log hlog hsuccess
  rw [hemitted] at happlied
  exact ⟨m, hlog.holds, happlied⟩

/-- In a run whose actions all rest on fresh entries and that sees no failure, the
database holds, whenever nothing is on its way, what the user's actions were meant to
make of the devices it was opened with. -/
theorem edits_kept_of_fresh (hD : D.Refines R)
    (h₀ : ∀ faults u w, D.initializeDatabase ⟨s₀, faults⟩ = (.ok u, w) → R w.state m₀)
    {hidden : Bool} {ls : List Label}
    (hrun : (machine D mode).exec (initial s₀ hidden) ls = some s)
    (hfresh : (machine D mode).Meets (Fresh m₀) (initial s₀ hidden) ls) (hsuccess : Succeeding s)
    (hquiet : Quiet s) (hconstructed : s.service.constructed = true) :
    ∃ m, R s.service.database m ∧ ∀ id, m.getItem id = expected m₀ s.accepted id := by
  obtain ⟨m, hm, hemitted⟩ := database_of_quiet hD h₀ hrun hsuccess hquiet hconstructed
  have hkept : Kept m₀ s := Machine.invariant_of_meets (Kept m₀)
    (fun _ _ _ h hc hstep => h.step hc hstep) hfresh hrun (kept_initial s₀ hidden)
  exact ⟨m, hm, hkept m hemitted⟩

/-! ### An edit that is lost, and one that is not -/

/-- A frame with these calls. -/
def frame (ops : List Operation) : List Label :=
  List.replicate 4 .advance ++ ops.map .draw ++ List.replicate 2 .advance

/-- The service executes so many batches. -/
def work (batches : ℕ) : List Label :=
  (List.replicate batches
    [.service .takeBatch, .service (.executeBatch []), .service .deliver]).flatten

def gateway : DeviceDraft := { router with name := ascii "Gateway" }

/-- A device is added in one frame, renamed in the next and marked as down in the
third; the service executes `early` batches after the renaming and `late` ones after
the frames. -/
def renamedRun (early late : ℕ) : List Label :=
  [.service .construct, .advance] ++
    frame [.beginAdd, .editDraft router, .submitEditor] ++
    frame [.beginEdit router.id, .editDraft gateway, .submitEditor] ++ work early ++
    frame [.setAlive router.id false] ++ List.replicate 3 .advance ++ work late ++ [.advance]

/-- What the two runs are judged by. -/
def history (s : GuiSession σ) : List UserAction × List DeviceCommand × List Bool :=
  (s.accepted, s.emitted,
    [s.service.constructed, s.service.allResults.all (·.success), isQuiet s])

theorem of_history {accepted : List UserAction} {emitted : List DeviceCommand}
    (h : history s = (accepted, emitted, [true, true, true])) :
    s.accepted = accepted ∧ s.emitted = emitted ∧ s.service.constructed = true ∧ Succeeding s ∧
      Quiet s := by
  simp only [history, Prod.mk.injEq, List.cons.injEq] at h
  obtain ⟨haccepted, hemitted, hconstructed, hsuccess, hquiet, _⟩ := h
  exact ⟨haccepted, hemitted, hconstructed, List.all_eq_true.mp hsuccess, quiet_of_isQuiet hquiet⟩

/-- The snapshot of the addition arrives between the renaming and the change of the
flag: the change brings the old name back. -/
theorem renaming_is_lost :
    ∃ s, (machine sqliteDatabase .ownedThread).exec newSession (onNewFile (renamedRun 2 2)) =
        some s ∧ Succeeding s ∧ Quiet s ∧ s.service.constructed = true ∧
      s.accepted = [.submitted .add router.device, .submitted .edit gateway.device,
        .setAlive router.id false] ∧
      ∀ m, Holds s.service.database m →
        (m.getItem router.id).map (·.name) = some (ascii "Router") ∧
        (expected .empty s.accepted router.id).map (·.name) = some (ascii "Gateway") := by
  have hend : ((machine sqliteDatabase .ownedThread).exec openedSession (renamedRun 2 2)).map
      history = some ([.submitted .add router.device, .submitted .edit gateway.device,
        .setAlive router.id false], [.add router.device, .edit gateway.device,
        .setAlive router.id { router.device with alive := false }], [true, true, true]) := by
    decide +kernel
  obtain ⟨s, hs, ho⟩ := exec_onNewFile _ hend
  obtain ⟨haccepted, hemitted, hconstructed, hsuccess, hquiet⟩ := of_history ho
  refine ⟨s, hs, hsuccess, hquiet, hconstructed, haccepted, fun m hm => ?_⟩
  obtain ⟨m', hm', happlied⟩ := database_of_quiet sqliteDatabase_refines
    DeviceStorageService.holds_new hs hsuccess hquiet hconstructed
  obtain rfl := hm.unique hm'
  have hname : (applyAll .empty s.emitted).toOption.map
      (fun m => (m.getItem router.id).map (·.name)) = some (some (ascii "Router")) := by
    rw [hemitted]
    decide +kernel
  rw [happlied] at hname
  refine ⟨Option.some.inj hname, ?_⟩
  rw [haccepted]
  decide +kernel

/-- Without the snapshot the new name is kept. -/
theorem edits_kept_of_fresh_renamed :
    ∃ s, (machine sqliteDatabase .ownedThread).exec newSession (onNewFile (renamedRun 0 4)) =
        some s ∧ ∃ m, Holds s.service.database m ∧
        ∀ id, m.getItem id = expected .empty s.accepted id := by
  have hend : ((machine sqliteDatabase .ownedThread).exec openedSession (renamedRun 0 4)).map
      history = some ([.submitted .add router.device, .submitted .edit gateway.device,
        .setAlive router.id false], [.add router.device, .edit gateway.device,
        .setAlive router.id { gateway.device with alive := false }], [true, true, true]) := by
    decide +kernel
  obtain ⟨s, hs, ho⟩ := exec_onNewFile _ hend
  obtain ⟨_, _, hconstructed, hsuccess, hquiet⟩ := of_history ho
  have hfresh : (machine sqliteDatabase .ownedThread).Meets (Fresh .empty) newSession
      (onNewFile (renamedRun 0 4)) := by
    apply meets_onNewFile trivial trivial
    decide +kernel
  exact ⟨s, hs, edits_kept_of_fresh sqliteDatabase_refines DeviceStorageService.holds_new hs hfresh
    hsuccess hquiet hconstructed⟩

end GuiSession

end Watchlist.Gui
