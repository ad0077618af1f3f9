import Watchlist.Gui.UserEdits

/-!
What the editor accepts, against what the storage accepts. The form checks less than
the storage does, and it looks for a taken id in the local list. As long as a
submitted device would pass the storage's own validation, and an added one has an id
that the commands emitted before leave free, no command fails; and where none has
failed and everything has been executed, this was so.
-/

namespace Watchlist

open Bytes Faulty Faulty.Program Storage Gui Transition

/-! ### Executing what the map accepts -/

section Execute

variable {σ : Type} {D : IDatabase σ} {R : σ → DeviceMap → Prop}

theorem executeCommand_returns (hD : D.Refines R) (hA : D.Answers R) {s : σ} {m m' : DeviceMap}
    (hm : R s m) {c : DeviceCommand} (happly : applyCommand m c = .ok m') :
    ∃ s', (executeCommand D c).Returns s () s' ∧ R s' m' := by
  have hreturns : ∃ s', (executeCommand D c).Returns s () s' := by
    unfold executeCommand
    unfold applyCommand at happly
    cases hkind : c.kind with
    | refresh => exact ⟨s, returns_pure () s⟩
    | add =>
        rw [hkind] at happly
        cases hdevice : c.device with
        | none => simp [hdevice] at happly
        | some device =>
            rw [hdevice] at happly
            exact hA.addItem s m m' _ hm happly
    | edit | setAlive =>
        rw [hkind] at happly
        cases hdevice : c.device with
        | none => simp [hdevice] at happly
        | some device =>
            rw [hdevice] at happly
            exact hA.upsertItem s m m' _ hm happly
    | delete =>
        obtain ⟨found, s', hremove⟩ := hA.removeItem s m c.targetId hm
        exact ⟨s', hremove.bind (returns_pure () s')⟩
  obtain ⟨s', hs'⟩ := hreturns
  have hkeeps := executeCommand_keeps hD (w := ⟨s, []⟩) hm c
  rw [show executeCommand D c ⟨s, []⟩ = _ from hs'] at hkeeps
  obtain ⟨m₁, happly₁, hm₁⟩ := hkeeps
  obtain rfl := Except.ok.inj (happly₁.symm.trans happly)
  exact ⟨s', hs', hm₁⟩

theorem forM_executeCommand_returns (hD : D.Refines R) (hA : D.Answers R) {s : σ} {m m' : DeviceMap}
    (hm : R s m) {batch : Batch} (happly : applyAll m batch = .ok m') :
    ∃ s', (batch.forM (executeCommand D)).Returns s ⟨⟩ s' ∧ R s' m' := by
  induction batch generalizing s m with
  | nil =>
      obtain rfl := Except.ok.inj happly
      exact ⟨s, returns_pure _ s, hm⟩
  | cons c batch ih =>
      rw [applyAll_cons] at happly
      cases hc : applyCommand m c with
      | error e =>
          rw [hc] at happly
          cases happly
      | ok m₁ =>
          rw [hc] at happly
          obtain ⟨s₁, hs₁, hm₁⟩ := executeCommand_returns hD hA hm hc
          obtain ⟨s', hs', hm'⟩ := ih hm₁ happly
          exact ⟨s', hs₁.bind hs', hm'⟩

/-- Without failures, a batch that the map accepts succeeds. -/
theorem execute_success (hD : D.Refines R) (hA : D.Answers R) {s : σ} {m m' : DeviceMap}
    (hm : R s m) {batch : Batch} (happly : applyAll m batch = .ok m') :
    (execute D batch ⟨s, []⟩).1.success = true := by
  obtain ⟨s₁, hs₁, hm₁⟩ := forM_executeCommand_returns hD hA hm happly
  obtain ⟨items, s₂, hread⟩ := hA.getAllSortedById s₁ m' hm₁
  have hbody : (executeBody D batch).Returns s items s₂ := hs₁.bind hread
  rw [execute, show executeBody D batch ⟨s, []⟩ = _ from hbody]

end Execute

namespace Gui.GuiSession

open DeviceStorageService

variable {σ : Type} {D : IDatabase σ} {mode : ExecutionMode} {s t : GuiSession σ} {l : Label}
variable {R : σ → DeviceMap → Prop} {s₀ : σ} {m₀ : DeviceMap}

/-! ### The local devices -/

/-- Every device that the GUI shows would pass the storage's validation. -/
def ShowsValid (monitor : DeviceMonitorState) : Prop :=
  ∀ device ∈ monitor.devices, ValidItem (toDatabaseItem device)

theorem validItem_alive {device : DeviceViewModel} (h : ValidItem (toDatabaseItem device))
    (alive : Bool) : ValidItem (toDatabaseItem { device with alive := alive }) := h

/-- The snapshots of a log hold valid devices. -/
theorem valid_of_log {s s' : σ} {m m' : DeviceMap} {log : List (Batch × List Bool)}
    {results : List DeviceStorageResult} (h : CommandLog D R s m log results s' m') :
    ∀ r ∈ results, ∀ device ∈ r.devices, ValidItem (toDatabaseItem device) := by
  induction h with
  | nil _ => simp
  | @snoc _ _ _ _ m₂ _ _ _ _ _ _ last ih =>
      rw [List.forall_mem_append]
      refine ⟨ih, ?_⟩
      rw [List.forall_mem_singleton]
      cases last with
      | succeeded _ _ _ _ =>
          intro device hdevice
          obtain ⟨item, hitem, rfl⟩ := List.mem_map.mp hdevice
          exact m₂.valid item hitem
      | commandThrew _ _ _ _ _ => simp [failure]
      | readThrew _ _ _ _ => simp [failure]

theorem lastDevices_valid {devices : List DeviceViewModel} {results : List DeviceStorageResult}
    (hdevices : ∀ device ∈ devices, ValidItem (toDatabaseItem device))
    (hresults : ∀ r ∈ results, ∀ device ∈ r.devices, ValidItem (toDatabaseItem device)) :
    ∀ device ∈ lastDevices devices results, ValidItem (toDatabaseItem device) := by
  unfold lastDevices
  cases hlast : results.getLast? with
  | none => exact hdevices
  | some r => exact hresults r (List.mem_of_getLast? hlast)

/-- What an action of the user asks of the storage. -/
def AcceptableFor (m₀ : DeviceMap) (emitted : List DeviceCommand) : UserAction → Prop
  | .submitted mode device => ValidItem (toDatabaseItem device) ∧
      (mode = .add → ∀ m, applyAll m₀ emitted = .ok m → m.getItem device.id = none)
  | .deleted _ | .setAlive _ _ => True

/-- A submitted device would pass the storage's validation, and the id of an added
one is not taken once what has been emitted before is executed. -/
def Acceptable (m₀ : DeviceMap) (s : GuiSession σ) : Label → Prop
  | .draw op => ∀ action ∈ s.monitor.accepted op, AcceptableFor m₀ s.emitted action
  | _ => True

/-- The commands emitted so far can all be executed, in order. -/
def Executable (m₀ : DeviceMap) (s : GuiSession σ) : Prop := ∃ m, applyAll m₀ s.emitted = .ok m

theorem executable_concat {m₀ m : DeviceMap} {batch : Batch} {c : DeviceCommand}
    (hbatch : applyAll m₀ batch = .ok m) :
    (∃ m', applyAll m₀ (batch ++ [c]) = .ok m') ↔ ∃ m', applyCommand m c = .ok m' := by
  constructor
  · rintro ⟨m', hm'⟩
    obtain ⟨m₁, hm₁, hc⟩ := applyAll_concat_eq_ok hm'
    obtain rfl := Except.ok.inj (hbatch.symm.trans hm₁)
    exact ⟨m', hc⟩
  · rintro ⟨m', hc⟩
    refine ⟨m', ?_⟩
    rw [applyAll_append, hbatch]
    change (applyAll m [c]) = _
    rw [applyAll_cons, hc]
    rfl

/-- An emitted command can be executed exactly when its action was acceptable; the
devices that the GUI shows stay valid then. -/
theorem executable_emitting {monitor : DeviceMonitorState} {op : Operation} {c : DeviceCommand}
    {emitted : List DeviceCommand} {m : DeviceMap}
    (hemits : DeviceMonitorState.Emitting monitor op c) (hvalid : ShowsValid monitor)
    (hemitted : applyAll m₀ emitted = .ok m) :
    ((∃ m', applyCommand m c = .ok m') ↔
      ∀ action ∈ monitor.accepted op, AcceptableFor m₀ emitted action) ∧
    ((∃ m', applyCommand m c = .ok m') → ShowsValid (monitor.perform op).2) := by
  have hcases := hemits.emits
  unfold ShowsValid
  generalize monitor.accepted op = accepted at hcases ⊢
  generalize (monitor.perform op).2.devices = devices at hcases ⊢
  cases hcases with
  | refresh => exact ⟨iff_of_true ⟨m, rfl⟩ (by simp), fun _ => hvalid⟩
  | @add editor _ _ _ _ =>
      rw [List.forall_mem_singleton]
      constructor
      · constructor
        · rintro ⟨m', hm'⟩
          obtain ⟨hitem, hfree, _⟩ := DeviceMap.addItem_eq_ok hm'
          refine ⟨hitem, fun _ m₁ hm₁ => ?_⟩
          obtain rfl := Except.ok.inj (hemitted.symm.trans hm₁)
          exact hfree
        · rintro ⟨hitem, hfree⟩
          refine ⟨m.put _ hitem, (DeviceMap.addItem_of_valid hitem).trans (if_neg ?_)⟩
          have hnone : m.getItem (toDatabaseItem editor.draft.device).id = none :=
            hfree rfl m hemitted
          rw [DeviceMap.containsItem_eq, hnone]
          simp
      · rintro ⟨m', hm'⟩
        obtain ⟨hitem, _, _⟩ := DeviceMap.addItem_eq_ok hm'
        rw [List.forall_mem_append]
        exact ⟨hvalid, by simpa using hitem⟩
  | @edit editor _ _ _ _ _ =>
      rw [List.forall_mem_singleton]
      constructor
      · constructor
        · rintro ⟨m', hm'⟩
          obtain ⟨hitem, _⟩ := DeviceMap.upsertItem_eq_ok hm'
          exact ⟨hitem, fun hmode => by cases hmode⟩
        · rintro ⟨hitem, _⟩
          exact ⟨m.put _ hitem, DeviceMap.upsertItem_of_valid hitem⟩
      · rintro ⟨m', hm'⟩
        obtain ⟨hitem, _⟩ := DeviceMap.upsertItem_eq_ok hm'
        intro device hdevice
        rcases DeviceMonitorState.mem_updateDevice hdevice with hold | ⟨_, _, rfl⟩
        · exact hvalid device hold
        · exact hitem
  | delete _ _ =>
      refine ⟨iff_of_true ⟨_, rfl⟩ (by simp [AcceptableFor]), fun _ device hdevice => ?_⟩
      exact hvalid device (List.mem_of_mem_eraseP hdevice)
  | @setAlive id alive device found =>
      -- the entry is one of the local list, so it is valid
      have hitem := validItem_alive (hvalid device (DeviceMonitorState.mem_of_findDevice found)) alive
      refine ⟨iff_of_true ⟨m.put _ hitem, DeviceMap.upsertItem_of_valid hitem⟩
        (by simp [AcceptableFor]), fun _ device' hdevice => ?_⟩
      rcases DeviceMonitorState.mem_updateDevice hdevice with hold | ⟨old, hold, rfl⟩
      · exact hvalid device' hold
      · exact validItem_alive (hvalid old hold) alive

theorem executable_draw {op : Operation} (hshows : Executable m₀ s → ShowsValid s.monitor) :
    (Executable m₀ (s.draw op) ↔ Executable m₀ s ∧ Acceptable m₀ s (.draw op)) ∧
      (Executable m₀ (s.draw op) → ShowsValid (s.draw op).monitor) := by
  change ((∃ m, applyAll m₀ (s.emitted ++ s.monitor.emissions op) = .ok m) ↔ _) ∧
    ((∃ m, applyAll m₀ (s.emitted ++ s.monitor.emissions op) = .ok m) →
      ShowsValid (s.monitor.perform op).2)
  rcases s.monitor.perform_cases op with hsilent | ⟨c, hemitting⟩
  · have hacceptable : Acceptable m₀ s (.draw op) := by
      intro action haction
      simp [hsilent.accepted] at haction
    rw [hsilent.emissions, List.append_nil]
    refine ⟨(and_iff_left hacceptable).symm, fun hexecutable => ?_⟩
    rw [ShowsValid, hsilent.devices]
    exact hshows hexecutable
  · rw [hemitting.emissions]
    have before (h : ∃ m, applyAll m₀ (s.emitted ++ [c]) = .ok m) : Executable m₀ s := by
      obtain ⟨_, hm'⟩ := h
      obtain ⟨m, hm, _⟩ := applyAll_concat_eq_ok hm'
      exact ⟨m, hm⟩
    constructor
    · constructor
      · intro h
        obtain ⟨m, hm⟩ := before h
        refine ⟨⟨m, hm⟩, ?_⟩
        exact (executable_emitting hemitting (hshows ⟨m, hm⟩) hm).1.mp ((executable_concat hm).mp h)
      · rintro ⟨⟨m, hm⟩, hacceptable⟩
        refine (executable_concat hm).mpr ?_
        exact (executable_emitting hemitting (hshows ⟨m, hm⟩) hm).1.mpr hacceptable
    · intro h
      obtain ⟨m, hm⟩ := before h
      exact (executable_emitting hemitting (hshows ⟨m, hm⟩) hm).2 ((executable_concat hm).mp h)

/-- Executability is gained and lost by calls of the monitor alone. -/
theorem executable_step (hshows : Executable m₀ s → ShowsValid s.monitor)
    (hmoves : Moves D mode s l t) : Executable m₀ t ↔ Executable m₀ s ∧ Acceptable m₀ s l := by
  cases hmoves with
  | draw _ => exact (executable_draw hshows).1
  | service _ _ | closeWindow | platformThrows _ _ | setUp _ _ | loopEnds _ _ | loopGoesOn _ _
  | beginFrame _ | submitCommands _ | pollStorage _ | failPump _ | drawn _ | frameEnds _
  | frameFails _ | requestStop _ | drain _ _ => exact (and_iff_left trivial).symm

/-- What the GUI shows comes from valid snapshots and acceptable actions. -/
theorem showsValid_step (hsuccess : Succeeding s)
    (hsnapshots : ∀ r ∈ s.service.allResults, ∀ device ∈ r.devices,
      ValidItem (toDatabaseItem device))
    (hshows : Executable m₀ s → ShowsValid s.monitor) (hmoves : Moves D mode s l t) :
    Executable m₀ t → ShowsValid t.monitor := by
  have polled (r) (hr : r ∈ s.service.results) : r ∈ s.service.allResults :=
    List.mem_append_left _ (List.mem_append_right _ hr)
  cases hmoves with
  | draw _ => exact (executable_draw hshows).2
  | pollStorage _ =>
      intro hexecutable
      change ∀ device ∈ (pumpResults s.monitor s.service.results).1.devices, _
      rw [pumpResults_devices fun r hr => hsuccess r (polled r hr)]
      exact lastDevices_valid (hshows hexecutable) fun r hr => hsnapshots r (polled r hr)
  | @drain result _ _ =>
      intro hexecutable
      change ∀ device ∈ (drainResults s.monitor result s.service.results).1.devices, _
      rw [drainResults_devices fun r hr => hsuccess r (polled r hr)]
      exact lastDevices_valid (hshows hexecutable) fun r hr => hsnapshots r (polled r hr)
  | service _ _ | closeWindow | platformThrows _ _ | setUp _ _ | loopEnds _ _ | loopGoesOn _ _
  | beginFrame _ | submitCommands _ | failPump _ | drawn _ | frameEnds _ | frameFails _
  | requestStop _ => exact hshows

/-- The snapshots that have not been polled yet, too. -/
theorem snapshots_valid (h : Logged D R s₀ m₀ s.service) :
    ∀ r ∈ s.service.allResults, ∀ device ∈ r.devices, ValidItem (toDatabaseItem device) := by
  have unopened (hnone : s.service.allResults = []) : ∀ r ∈ s.service.allResults,
      ∀ device ∈ r.devices, ValidItem (toDatabaseItem device) := by simp [hnone]
  by_cases hnot : s.service.run = .notStarted
  · exact unopened (h.unopened (Or.inl hnot)).2.2
  · by_cases hinit : s.service.run = .initializing
    · exact unopened (h.unopened (Or.inr hinit)).2.2
    · obtain ⟨opened, m, _, hlog⟩ := h.opened hnot hinit
      exact valid_of_log hlog

/-! ### Runs -/

/-- The service is entered once, its database opens, and no statement fails. -/
def Works (D : IDatabase σ) (s : GuiSession σ) (l : Label) : Prop :=
  Assumed D s l ∧ ∀ faults, l = .service (.executeBatch faults) → faults = []

/-- The invariant of a run whose actions are acceptable. -/
structure Served (D : IDatabase σ) (R : σ → DeviceMap → Prop) (s₀ : σ) (m₀ : DeviceMap)
    (s : GuiSession σ) : Prop where
  begun : Begun s
  accounted : Accounted s
  logged : Logged D R s₀ m₀ s.service
  executable : Executable m₀ s
  shows : ShowsValid s.monitor
  succeeding : Succeeding s

theorem served_initial (hidden : Bool) : Served D R s₀ m₀ (initial s₀ hidden) where
  begun := begun_initial s₀ hidden
  accounted := accounted_initial s₀ hidden
  logged := logged_initial
  executable := ⟨m₀, rfl⟩
  shows := by simp [ShowsValid, initial, DeviceMonitorState.initial]
  succeeding := by
    intro r hr
    cases hr

theorem applyAll_prefix {m m' : DeviceMap} {batch rest : Batch}
    (h : applyAll m (batch ++ rest) = .ok m') :
    ∃ m₁, applyAll m batch = .ok m₁ ∧ applyAll m₁ rest = .ok m' := by
  rw [applyAll_append] at h
  cases hbatch : applyAll m batch with
  | error e =>
      rw [hbatch] at h
      cases h
  | ok m₁ =>
      rw [hbatch] at h
      exact ⟨m₁, rfl, h⟩

/-- The batch at hand is one of those that the emitted commands were submitted in, so
the database accepts it. -/
theorem Served.batch_success (h : Served D R s₀ m₀ s) (hD : D.Refines R) (hA : D.Answers R)
    {batch : Batch} (hrun : s.service.run = .executing batch) :
    (execute D batch ⟨s.service.database, []⟩).1.success = true := by
  have htaken : s.service.taken = [batch] := by rw [taken, hrun]
  obtain ⟨opened, m, _, hlog⟩ := h.logged.opened (by simp [hrun]) (by simp [hrun])
  have happlied := applied_of_log hlog h.succeeding
  have hconstructed : s.service.constructed = true := by
    by_contra hnot
    have hnone := (h.logged.unconstructed (by simpa using hnot)).1
    have hqueue := h.logged.queue
    rw [hnone, htaken] at hqueue
    simp at hqueue
  have hemitted := h.accounted.emitted
  rw [hconstructed, h.logged.queue, htaken, List.flatten_append, List.flatten_append,
    List.flatten_singleton, List.append_assoc, List.append_assoc] at hemitted
  obtain ⟨m', hm'⟩ := h.executable
  have hall : applyAll m₀ (firstCommands true ++ s.emitted) = .ok m' := hm'
  rw [← hemitted] at hall
  obtain ⟨m₁, hm₁, hrest⟩ := applyAll_prefix hall
  obtain rfl := Except.ok.inj (happlied.symm.trans hm₁)
  obtain ⟨m₂, hm₂, _⟩ := applyAll_prefix hrest
  exact execute_success hD hA hlog.holds hm₂

/-- The step lemma. -/
theorem Served.step (h : Served D R s₀ m₀ s) (hD : D.Refines R) (hA : D.Answers R)
    (h₀ : ∀ faults u w, D.initializeDatabase ⟨s₀, faults⟩ = (.ok u, w) → R w.state m₀)
    (hworks : Works D s l) (hacceptable : Acceptable m₀ s l) (hstep : s.step D mode l = some t) :
    Served D R s₀ m₀ t := by
  have hmoves := moves_of_step hstep
  have hexecutable := (executable_step (fun _ => h.shows) hmoves).mpr ⟨h.executable, hacceptable⟩
  have hsnapshots := snapshots_valid h.logged
  refine ⟨h.begun.step hstep, h.accounted.step hworks.1 hstep, ?_, hexecutable,
    showsValid_step h.succeeding hsnapshots (fun _ => h.shows) hmoves hexecutable, ?_⟩
  · rcases serviceStep_of_moves h.begun.constructed hmoves with
      hsame | ⟨l', hservice, hassumed, _⟩
    · rw [hsame]
      exact h.logged
    · exact h.logged.step hD h₀ (hassumed hworks.1) hservice
  · intro r hr
    rcases serviceStep_of_moves h.begun.constructed hmoves with
      hsame | ⟨l', hservice, hassumed, hlabel⟩
    · exact h.succeeding r (hsame ▸ hr)
    · rcases mem_allResults_of_step (hassumed hworks.1) hservice hr with
        hold | ⟨batch, faults, hrun, rfl, rfl⟩
      · exact h.succeeding r hold
      · rw [hworks.2 faults (hlabel.resolve_right (by simp [ofWorker]))]
        exact h.batch_success hD hA hrun

/-- What a run without a failed result keeps, whether or not its actions are
acceptable. -/
structure Watched (D : IDatabase σ) (R : σ → DeviceMap → Prop) (s₀ : σ) (m₀ : DeviceMap)
    (s : GuiSession σ) : Prop where
  begun : Begun s
  logged : Succeeding s → Logged D R s₀ m₀ s.service
  shows : Succeeding s → Executable m₀ s → ShowsValid s.monitor

theorem watched_initial (hidden : Bool) : Watched D R s₀ m₀ (initial s₀ hidden) where
  begun := begun_initial s₀ hidden
  logged := fun _ => logged_initial
  shows := fun _ _ => by simp [ShowsValid, initial, DeviceMonitorState.initial]

theorem Watched.step (h : Watched D R s₀ m₀ s) (hD : D.Refines R)
    (h₀ : ∀ faults u w, D.initializeDatabase ⟨s₀, faults⟩ = (.ok u, w) → R w.state m₀)
    (hstep : s.step D mode l = some t) : Watched D R s₀ m₀ t where
  begun := h.begun.step hstep
  logged := by
    intro ht
    have hs := succeeding_before h.begun hstep ht
    rcases serviceStep_of_moves h.begun.constructed (moves_of_step hstep) with
      hsame | ⟨l', hservice, hassumed, _⟩
    · rw [hsame]
      exact h.logged hs
    · exact (h.logged hs).step hD h₀ (hassumed (assumed_of_succeeding hstep ht)) hservice
  shows := by
    intro ht
    have hs := succeeding_before h.begun hstep ht
    exact showsValid_step hs (snapshots_valid (h.logged hs)) (h.shows hs) (moves_of_step hstep)

theorem succeeding_of_acceptable (hD : D.Refines R) (hA : D.Answers R)
    (h₀ : ∀ faults u w, D.initializeDatabase ⟨s₀, faults⟩ = (.ok u, w) → R w.state m₀)
    {hidden : Bool} {ls : List Label}
    (hrun : (machine D mode).exec (initial s₀ hidden) ls = some s)
    (hworks : (machine D mode).Meets (Works D) (initial s₀ hidden) ls)
    (hacceptable : (machine D mode).Meets (Acceptable m₀) (initial s₀ hidden) ls) :
    Succeeding s :=
  (Machine.invariant_of_meets (Served D R s₀ m₀)
    (fun _ _ _ h hc hstep => h.step hD hA h₀ hc.1 hc.2 hstep) (hworks.and hacceptable) hrun
    (served_initial hidden)).succeeding

theorem acceptable_of_succeeding (hD : D.Refines R)
    (h₀ : ∀ faults u w, D.initializeDatabase ⟨s₀, faults⟩ = (.ok u, w) → R w.state m₀)
    {hidden : Bool} {ls : List Label}
    (hrun : (machine D mode).exec (initial s₀ hidden) ls = some s) (hsuccess : Succeeding s)
    (hquiet : Quiet s) (hconstructed : s.service.constructed = true) :
    (machine D mode).Meets (Acceptable m₀) (initial s₀ hidden) ls := by
  obtain ⟨m, _, hemitted⟩ := database_of_quiet hD h₀ hrun hsuccess hquiet hconstructed
  have hiff := (Machine.meets_iff_of_good (Watched D R s₀ m₀) Succeeding (Executable m₀)
    (fun _ _ _ h hstep => h.step hD h₀ hstep)
    (fun _ _ _ h hstep => succeeding_before h.begun hstep)
    (fun _ _ _ h hstep ht => executable_step
      (h.shows (succeeding_before h.begun hstep ht)) (moves_of_step hstep))
    hrun (watched_initial hidden) hsuccess).2
  exact (hiff.mp ⟨m, hemitted⟩).2

/-- While no statement fails, a run whose actions are all acceptable sees no failed
result; and a run that has not seen one and has nothing left on its way had only
acceptable actions. -/
theorem succeeding_iff_acceptable (hD : D.Refines R) (hA : D.Answers R)
    (h₀ : ∀ faults u w, D.initializeDatabase ⟨s₀, faults⟩ = (.ok u, w) → R w.state m₀)
    {hidden : Bool} {ls : List Label}
    (hrun : (machine D mode).exec (initial s₀ hidden) ls = some s)
    (hworks : (machine D mode).Meets (Works D) (initial s₀ hidden) ls) :
    ((machine D mode).Meets (Acceptable m₀) (initial s₀ hidden) ls → Succeeding s) ∧
    (Succeeding s → Quiet s → s.service.constructed = true →
      (machine D mode).Meets (Acceptable m₀) (initial s₀ hidden) ls) :=
  ⟨succeeding_of_acceptable hD hA h₀ hrun hworks,
    fun hsuccess hquiet hconstructed =>
      acceptable_of_succeeding hD h₀ hrun hsuccess hquiet hconstructed⟩

/-! ### A name that is not an address -/

def unaddressed : DeviceDraft := ⟨ascii "r", ascii "Router", ascii "10.0.0.1/24", 80, true⟩

/-- A device is added in one frame and handed over in the next, and the storage
executes both batches. -/
def addedRun (draft : DeviceDraft) : List Label :=
  [.service .construct, .advance] ++ frame [.beginAdd, .editDraft draft, .submitEditor] ++
    List.replicate 3 .advance ++ work 2 ++ [.advance]

theorem works_onNewFile {ls : List Label} (hls : ls.all (fun l => !opens l) = true)
    (hfaults : ls.all (fun l => match l with
      | .service (.executeBatch faults) => faults.isEmpty
      | _ => true) = true) :
    (machine sqliteDatabase mode).Meets (Works sqliteDatabase) newSession (onNewFile ls) := by
  refine Machine.Meets.and (assumed_onNewFile hls) (Machine.meets_of_forall fun l hl _ => ?_)
  rintro faults rfl
  rcases List.mem_cons.mp hl with hfirst | hl
  · cases hfirst
  · rcases List.mem_cons.mp hl with hsecond | hl
    · cases hsecond
    · simpa using List.all_eq_true.mp hfaults _ hl

/-- The form takes an address that is none, and the storage does not. -/
theorem accepted_address_is_refused :
    ∃ s, (machine sqliteDatabase .ownedThread).exec newSession (onNewFile (addedRun unaddressed)) =
        some s ∧
      (machine sqliteDatabase .ownedThread).Meets (Works sqliteDatabase) newSession
        (onNewFile (addedRun unaddressed)) ∧
      s.accepted = [.submitted .add unaddressed.device] ∧
      s.service.executed.map Prod.fst = [[.refresh], [.add unaddressed.device]] ∧
      s.gui = .requestingStop (ascii
        "address must be an IPv4/IPv6 literal or ASCII DNS hostname of at most 253 bytes") ∧
      ¬ Succeeding s := by
  have hend : ((machine sqliteDatabase .ownedThread).exec openedSession (addedRun unaddressed)).map
      (fun s => (s.accepted, s.service.executed.map Prod.fst, s.gui,
        s.service.allResults.all (·.success))) =
      some ([.submitted .add unaddressed.device], [[.refresh], [.add unaddressed.device]],
        .requestingStop (ascii
          "address must be an IPv4/IPv6 literal or ASCII DNS hostname of at most 253 bytes"),
        false) := by
    decide +kernel
  obtain ⟨s, hs, ho⟩ := exec_onNewFile _ hend
  simp only [Prod.mk.injEq] at ho
  obtain ⟨haccepted, hexecuted, hgui, hfailed⟩ := ho
  refine ⟨s, hs, works_onNewFile rfl rfl, haccepted, hexecuted, hgui, fun hsuccess => ?_⟩
  rw [List.all_eq_true.mpr hsuccess] at hfailed
  cases hfailed

theorem serves_new (faults : List Bool) (u : Unit) (w : World SQLiteDatabase)
    (h : sqliteDatabase.initializeDatabase ⟨⟨.empty, false⟩, faults⟩ = (.ok u, w)) :
    Serves w.state .empty := by
  have hholds := holds_new faults u w h
  obtain ⟨v, _, rfl⟩ := SQLiteDatabase.initializeDatabase_eq_ok h
  exact ⟨rfl, hholds⟩

/-- An address that is one is stored. -/
theorem succeeding_iff_acceptable_added :
    ∃ s, (machine sqliteDatabase .ownedThread).exec newSession (onNewFile (addedRun router)) =
        some s ∧ Succeeding s ∧
      (machine sqliteDatabase .ownedThread).Meets (Acceptable .empty) newSession
        (onNewFile (addedRun router)) := by
  have hend : ((machine sqliteDatabase .ownedThread).exec openedSession (addedRun router)).map
      history = some ([.submitted .add router.device], [.add router.device],
        [true, true, true]) := by
    decide +kernel
  obtain ⟨s, hs, ho⟩ := exec_onNewFile _ hend
  obtain ⟨_, _, hconstructed, hsuccess, hquiet⟩ := of_history ho
  exact ⟨s, hs, hsuccess, (succeeding_iff_acceptable sqliteDatabase_refines_serves
    sqliteDatabase_answers serves_new hs (works_onNewFile rfl rfl)).2 hsuccess hquiet hconstructed⟩

end Gui.GuiSession

end Watchlist
