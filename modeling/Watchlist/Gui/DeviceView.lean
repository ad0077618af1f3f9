import Watchlist.Gui.AcceptedCommands

/-!
The list that the GUI shows, against the database. The list is the last snapshot
that has been applied, unless something is still on its way that will bring a later
one: a command the monitor holds, a batch, or a result.
-/

namespace Watchlist.Gui.GuiSession

open Bytes Storage Transition DeviceStorageService

variable {σ : Type} {D : IDatabase σ} {mode : ExecutionMode} {s t : GuiSession σ} {l : Label}
variable {R : σ → DeviceMap → Prop} {s₀ : σ} {m₀ : DeviceMap}

/-! ### The service below a session -/

/-- What holds of every reached state, whatever is assumed. -/
structure Begun (s : GuiSession σ) : Prop where
  started : Started s.service
  constructed : s.gui ≠ .starting → s.service.constructed = true

theorem begun_initial (database : σ) (hidden : Bool) : Begun (initial database hidden) where
  started := started_initial database
  constructed := fun h => absurd rfl h

/-- Every step is a step of the service, or leaves it alone. -/
theorem serviceStep_of_moves (hconstructed : s.gui ≠ .starting → s.service.constructed = true)
    (hmoves : Moves D mode s l t) :
    t.service = s.service ∨ ∃ l', s.service.step D l' = some t.service ∧
      (Assumed D s l → DeviceStorageService.Assumed D s.service l') ∧
      (l = .service l' ∨ ofWorker l' = false) := by
  cases hmoves with
  | service _ moves => exact Or.inr ⟨_, moves, fun hassumed => hassumed, Or.inl rfl⟩
  | submitCommands here =>
      refine Or.inr ⟨.submit s.monitor.commands, ?_, fun _ => trivial, Or.inr rfl⟩
      exact allow_eq_some.mpr ⟨hconstructed (by simp [here]), rfl⟩
  | pollStorage here | drain here _ =>
      refine Or.inr ⟨.pollResults, ?_, fun _ => trivial, Or.inr rfl⟩
      exact allow_eq_some.mpr ⟨hconstructed (by simp [here]), rfl⟩
  | failPump here | requestStop here =>
      refine Or.inr ⟨.requestStop, ?_, fun _ => trivial, Or.inr rfl⟩
      exact allow_eq_some.mpr ⟨hconstructed (by simp [here]), rfl⟩
  | closeWindow | platformThrows _ _ | draw _ | setUp _ _ | loopEnds _ _ | loopGoesOn _ _
  | beginFrame _ | drawn _ | frameEnds _ | frameFails _ => exact Or.inl rfl

theorem Begun.step (h : Begun s) (hstep : s.step D mode l = some t) : Begun t := by
  have hmoves := moves_of_step hstep
  constructor
  · rcases serviceStep_of_moves h.constructed hmoves with hsame | ⟨l', hservice, _⟩
    · rw [hsame]
      exact h.started
    · exact h.started.step hservice
  · cases hmoves with
    | service worker moves =>
        rcases leavesCallers_of_step worker moves with ⟨_, rfl⟩ | hleaves
        · exact fun _ => rfl
        · exact fun hne => hleaves.constructed.trans (h.constructed hne)
    | submitCommands here =>
        intro _
        exact (submit_constructed _ _).trans (h.constructed (by simp [here]))
    | closeWindow | draw _ => exact h.constructed
    | platformThrows _ constructed | setUp _ constructed => exact fun _ => constructed
    | loopEnds here _ | loopGoesOn here _ | beginFrame here | pollStorage here | failPump here
    | drawn here | frameEnds here | frameFails here | requestStop here | drain here _ =>
        exact fun _ => h.constructed (by simp [here])

/-- No result so far is a failure. -/
def Succeeding (s : GuiSession σ) : Prop := ∀ r ∈ s.service.allResults, r.success = true

theorem succeeding_before (h : Begun s) (hstep : s.step D mode l = some t) (ht : Succeeding t) :
    Succeeding s := by
  rcases serviceStep_of_moves h.constructed (moves_of_step hstep) with hsame | ⟨l', hservice, _⟩
  · rwa [Succeeding, ← hsame]
  · exact fun r hr => ht r (mem_allResults_step h.started hservice hr)

theorem assumed_of_succeeding (hstep : s.step D mode l = some t) (ht : Succeeding t) :
    Assumed D s l := by
  cases moves_of_step hstep with
  | service _ moves => exact assumed_of_success moves ht
  | closeWindow | platformThrows _ _ | draw _ | setUp _ _ | loopEnds _ _ | loopGoesOn _ _
  | beginFrame _ | submitCommands _ | pollStorage _ | failPump _ | drawn _ | frameEnds _
  | frameFails _ | requestStop _ | drain _ _ => trivial

/-- A run without a failed result meets what is assumed of the service, and no state
of it knows of a failure. -/
theorem meets_of_succeeding {database : σ} {hidden : Bool} {ls : List Label}
    (hrun : (machine D mode).exec (initial database hidden) ls = some s) (hs : Succeeding s) :
    (machine D mode).Meets (fun s l => Assumed D s l ∧ Succeeding s) (initial database hidden)
      ls := by
  have hiff := (Machine.meets_iff_of_good (C := fun s l => Assumed D s l ∧ Succeeding s) Begun
    Succeeding (fun _ => True) (fun _ _ _ h hstep => h.step hstep)
    (fun _ _ _ h hstep => succeeding_before h hstep)
    (fun _ _ _ h hstep ht => iff_of_true trivial
      ⟨trivial, assumed_of_succeeding hstep ht, succeeding_before h hstep ht⟩)
    hrun (begun_initial database hidden) hs).2
  exact (hiff.mp trivial).2

/-- The service keeps its log, whatever the GUI does. -/
theorem logged_of_exec (hD : D.Refines R)
    (h₀ : ∀ faults u w, D.initializeDatabase ⟨s₀, faults⟩ = (.ok u, w) → R w.state m₀)
    {hidden : Bool} {ls : List Label}
    (hrun : (machine D mode).exec (initial s₀ hidden) ls = some s)
    (hassumed : (machine D mode).Meets (Assumed D) (initial s₀ hidden) ls) :
    Logged D R s₀ m₀ s.service := by
  have hboth : Begun s ∧ Logged D R s₀ m₀ s.service := by
    refine Machine.invariant_of_meets (fun s => Begun s ∧ Logged D R s₀ m₀ s.service) ?_ hassumed
      hrun ⟨begun_initial s₀ hidden, logged_initial⟩
    rintro s l t ⟨hbegun, hlogged⟩ hc hstep
    refine ⟨hbegun.step hstep, ?_⟩
    rcases serviceStep_of_moves hbegun.constructed (moves_of_step hstep) with
      hsame | ⟨l', hservice, hassumed', _⟩
    · rwa [hsame]
    · exact hlogged.step hD h₀ (hassumed' hc) hservice
  exact hboth.2

/-! ### Nothing on its way -/

/-- The service has no batch queued or in execution, and no result that is not polled. -/
structure Idle (s : DeviceStorageService σ) : Prop where
  commands : s.commands = []
  taken : s.taken = []
  undelivered : s.undelivered = []
  results : s.results = []

/-- And the monitor has no command that is not consumed. -/
structure Quiet (s : GuiSession σ) : Prop extends Idle s.service where
  unconsumed : s.monitor.commands = []

/-- A step of the service's own that leaves it idle found it idle, and delivered
nothing. -/
theorem idle_before {s t : DeviceStorageService σ} {l : DeviceStorageService.Label}
    (hstarted : Started s) (hworker : ofWorker l = true) (hstep : s.step D l = some t)
    (h : Idle t) : Idle s ∧ t.polled = s.polled := by
  cases l with
  | submit _ | pollResults | requestStop => cases hworker
  | construct =>
      obtain ⟨_, rfl⟩ := allow_eq_some.mp hstep
      have hcommands : s.commands ++ [[DeviceCommand.refresh]] = [] := h.commands
      simp at hcommands
  | enterRun =>
      obtain rfl := Option.some.inj hstep
      unfold enterRun at h ⊢
      split
      · rename_i hagain
        rw [if_pos hagain] at h
        have hresults := h.results
        simp [addResult] at hresults
      · rename_i hfirst
        rw [if_neg hfirst] at h
        have hrun : s.run = .notStarted := hstarted.mp (by simpa using hfirst)
        exact ⟨⟨h.commands, by rw [taken, hrun], by rw [undelivered, hrun], h.results⟩, rfl⟩
  | callInitialize faults =>
      obtain ⟨hrun, rfl⟩ := allow_eq_some.mp hstep
      rcases hcall : D.initializeDatabase ⟨s.database, faults⟩ with ⟨e | u, w⟩
      · rw [callInitialize, hcall] at h
        have hresults := h.results
        simp [addResult] at hresults
      · rw [callInitialize, hcall] at h ⊢
        exact ⟨⟨h.commands, by rw [taken, hrun], by rw [undelivered, hrun], h.results⟩, rfl⟩
  | takeBatch =>
      obtain ⟨⟨hrun, _⟩, rfl⟩ := allow_eq_some.mp hstep
      cases hcommands : s.commands with
      | nil =>
          rw [takeBatch, hcommands] at h ⊢
          exact ⟨⟨hcommands, by rw [taken, hrun], by rw [undelivered, hrun], h.results⟩, rfl⟩
      | cons batch rest =>
          rw [takeBatch, hcommands] at h
          cases h.taken
  | executeBatch faults =>
      obtain ⟨batch, _, rfl⟩ := executeBatch_eq_some hstep
      cases h.undelivered
  | deliver =>
      obtain ⟨result, _, rfl⟩ := deliver_eq_some hstep
      have hresults : s.results ++ [result] = [] := h.results
      simp at hresults

/-- The device list of the last result, or the given one. -/
def lastDevices (devices : List DeviceViewModel) (results : List DeviceStorageResult) :
    List DeviceViewModel :=
  (results.getLast?.map (·.devices)).getD devices

@[simp] theorem lastDevices_cons (devices : List DeviceViewModel) (r : DeviceStorageResult)
    (rest : List DeviceStorageResult) :
    lastDevices devices (r :: rest) = lastDevices r.devices rest := by
  cases rest with
  | nil => rfl
  | cons r' rest => rfl

theorem pumpResults_devices {monitor : DeviceMonitorState} {results : List DeviceStorageResult}
    (h : ∀ r ∈ results, r.success = true) :
    (pumpResults monitor results).1.devices = lastDevices monitor.devices results := by
  induction results generalizing monitor with
  | nil => rfl
  | cons r rest ih =>
      obtain ⟨hr, hrest⟩ := List.forall_mem_cons.mp h
      rw [pumpResults, if_pos hr, ih hrest, lastDevices_cons]
      rfl

theorem drainResults_devices {monitor : DeviceMonitorState} {result : GuiResult}
    {results : List DeviceStorageResult} (h : ∀ r ∈ results, r.success = true) :
    (drainResults monitor result results).1.devices = lastDevices monitor.devices results := by
  induction results generalizing monitor with
  | nil => rfl
  | cons r rest ih =>
      obtain ⟨hr, hrest⟩ := List.forall_mem_cons.mp h
      rw [drainResults, if_pos hr, ih hrest, lastDevices_cons]
      rfl

/-- Where nothing is on its way, the list is the last snapshot. -/
def Viewed (s : GuiSession σ) : Prop :=
  Quiet s → ∀ r, s.service.polled.getLast? = some r → s.monitor.devices = r.devices

theorem viewed_initial (database : σ) (hidden : Bool) : Viewed (initial database hidden) :=
  fun _ _ hr => by cases hr

/-- What has been polled is applied. -/
theorem viewed_of_polled (h : Viewed s) {results : List DeviceStorageResult}
    (hquiet : results = [] → Quiet s) {r : DeviceStorageResult}
    (hr : (s.service.polled ++ results).getLast? = some r) :
    lastDevices s.monitor.devices results = r.devices := by
  rw [List.getLast?_append] at hr
  cases hlast : results.getLast? with
  | none =>
      have hnone : results = [] := List.getLast?_eq_none_iff.mp hlast
      rw [hlast] at hr
      rw [lastDevices, hlast]
      exact h (hquiet hnone) r hr
  | some last =>
      rw [hlast] at hr
      obtain rfl := Option.some.inj hr
      rw [lastDevices, hlast]
      rfl

theorem Viewed.pollStorage (h : Viewed s) (hsuccess : Succeeding s) : Viewed s.pollStorage := by
  intro hquiet r hr
  have hpolled : ∀ r ∈ s.service.results, r.success = true := fun r hr =>
    hsuccess r (List.mem_append_left _ (List.mem_append_right _ hr))
  refine (pumpResults_devices hpolled).trans (viewed_of_polled h (fun hnone => ?_) hr)
  refine ⟨⟨hquiet.commands, hquiet.taken, hquiet.undelivered, hnone⟩, ?_⟩
  exact (pumpResults_commands _ _).symm.trans hquiet.unconsumed

theorem Viewed.drain (h : Viewed s) (hsuccess : Succeeding s) (result : GuiResult) :
    Viewed (s.drain result) := by
  intro hquiet r hr
  have hpolled : ∀ r ∈ s.service.results, r.success = true := fun r hr =>
    hsuccess r (List.mem_append_left _ (List.mem_append_right _ hr))
  refine (drainResults_devices hpolled).trans (viewed_of_polled h (fun hnone => ?_) hr)
  refine ⟨⟨hquiet.commands, hquiet.taken, hquiet.undelivered, hnone⟩, ?_⟩
  exact (drainResults_commands _ _ _).symm.trans hquiet.unconsumed

theorem Viewed.draw (h : Viewed s) (op : Operation) : Viewed (s.draw op) := by
  intro hquiet r hr
  rcases s.monitor.perform_cases op with hsilent | ⟨c, hemitting⟩
  · refine hsilent.devices.trans (h ?_ r hr)
    exact ⟨hquiet.toIdle, hsilent.commands.symm.trans hquiet.unconsumed⟩
  · -- a call that changes the list leaves a command behind
    have hnone : s.monitor.commands ++ [c] = [] := hemitting.commands.symm.trans hquiet.unconsumed
    simp at hnone

theorem Viewed.submitCommands (h : Viewed s) : Viewed s.submitCommands := by
  intro hquiet r hr
  have hcommands : (s.service.submit s.monitor.commands).commands = [] := hquiet.commands
  have hnone : s.monitor.commands = [] := by
    by_contra hne
    unfold DeviceStorageService.submit at hcommands
    rw [if_neg (by simpa using hne)] at hcommands
    simp at hcommands
  have hsame : s.service.submit s.monitor.commands = s.service := by
    rw [hnone]
    rfl
  have hidle : Idle (s.service.submit s.monitor.commands) := hquiet.toIdle
  rw [hsame] at hidle
  have hpolled : (s.service.submit s.monitor.commands).polled.getLast? = some r := hr
  rw [hsame] at hpolled
  exact h ⟨hidle, hnone⟩ r hpolled

/-- The step lemma. -/
theorem Viewed.step (h : Viewed s) (hbegun : Begun s) (hsuccess : Succeeding s)
    (hstep : s.step D mode l = some t) : Viewed t := by
  cases moves_of_step hstep with
  | service worker moves =>
      intro hquiet r hr
      obtain ⟨hidle, hpolled⟩ := idle_before hbegun.started worker moves hquiet.toIdle
      exact h ⟨hidle, hquiet.unconsumed⟩ r (hpolled ▸ hr)
  | draw _ => exact h.draw _
  | submitCommands _ => exact h.submitCommands
  | pollStorage _ => exact h.pollStorage hsuccess
  | drain _ _ => exact h.drain hsuccess _
  | failPump _ | requestStop _ =>
      intro hquiet r hr
      exact h ⟨⟨hquiet.commands, hquiet.taken, hquiet.undelivered, hquiet.results⟩,
        hquiet.unconsumed⟩ r hr
  | closeWindow | platformThrows _ _ | setUp _ _ | loopEnds _ _ | loopGoesOn _ _ | beginFrame _
  | drawn _ | frameEnds _ | frameFails _ =>
      intro hquiet r hr
      exact h ⟨hquiet.toIdle, hquiet.unconsumed⟩ r hr

/-! ### The view -/

/-- The last result of a log without a failure lists what the database holds. -/
theorem devices_of_log {s s' : σ} {m m' : DeviceMap} {log : List (Batch × List Bool)}
    {results : List DeviceStorageResult} (h : CommandLog D R s m log results s' m')
    {r : DeviceStorageResult} (hlast : results.getLast? = some r) (hsuccess : r.success = true) :
    r.devices = m'.getAllSortedById.map toViewModel := by
  cases h with
  | nil _ => cases hlast
  | snoc _ last =>
      rw [List.getLast?_concat] at hlast
      obtain rfl := Option.some.inj hlast
      cases last with
      | succeeded _ _ _ _ => rfl
      | commandThrew _ _ _ _ _ => cases hsuccess
      | readThrew _ _ _ _ => cases hsuccess

/-- Where no result is a failure, nothing is on its way and the first snapshot has
been applied, the GUI shows what the database holds, in the order of the ids. -/
theorem devices_eq_database (hD : D.Refines R)
    (h₀ : ∀ faults u w, D.initializeDatabase ⟨s₀, faults⟩ = (.ok u, w) → R w.state m₀)
    {hidden : Bool} {ls : List Label}
    (hrun : (machine D mode).exec (initial s₀ hidden) ls = some s) (hsuccess : Succeeding s)
    (hquiet : Quiet s) (hrefreshed : s.service.polled ≠ []) :
    ∃ m, R s.service.database m ∧ s.monitor.devices = m.getAllSortedById.map toViewModel := by
  have hmeets := meets_of_succeeding hrun hsuccess
  have hviewed : Begun s ∧ Viewed s :=
    Machine.invariant_of_meets (fun s => Begun s ∧ Viewed s)
      (fun _ _ _ h hc hstep => ⟨h.1.step hstep, h.2.step h.1 hc.2 hstep⟩) hmeets hrun
      ⟨begun_initial s₀ hidden, viewed_initial s₀ hidden⟩
  have hlogged := logged_of_exec hD h₀ hrun (hmeets.mono fun _ _ hc => hc.1)
  -- a result has been delivered, so the database is open
  have hall : s.service.allResults = s.service.polled := by
    rw [allResults, hquiet.results, hquiet.undelivered, List.append_nil, List.append_nil]
  have hopened : Opened D R m₀ s.service := by
    apply hlogged.opened
    · intro hrun
      exact hrefreshed (hall.symm.trans (hlogged.unopened (Or.inl hrun)).2.2)
    · intro hrun
      exact hrefreshed (hall.symm.trans (hlogged.unopened (Or.inr hrun)).2.2)
  obtain ⟨opened, m, _, hlog⟩ := hopened
  rw [hall] at hlog
  have hlast := List.getLast?_eq_some_getLast hrefreshed
  refine ⟨m, hlog.holds, ?_⟩
  rw [hviewed.2 hquiet _ hlast]
  apply devices_of_log hlog hlast
  apply hsuccess
  rw [hall]
  exact List.getLast_mem hrefreshed

/-- The check for it, at a thread of `Run` that waits or is gone. -/
def isQuiet (s : GuiSession σ) : Bool :=
  s.service.commands.isEmpty && s.service.results.isEmpty && s.monitor.commands.isEmpty &&
    (s.service.run = .waiting || s.service.run = .returned)

theorem quiet_of_isQuiet (h : isQuiet s = true) : Quiet s := by
  simp only [isQuiet, Bool.and_eq_true, Bool.or_eq_true, List.isEmpty_iff, decide_eq_true_eq] at h
  obtain ⟨⟨⟨hcommands, hresults⟩, hunconsumed⟩, hrun⟩ := h
  rcases hrun with hrun | hrun <;>
    exact ⟨⟨hcommands, by rw [taken, hrun], by rw [undelivered, hrun], hresults⟩, hunconsumed⟩

theorem devices_eq_database_added :
    ∃ s, (machine sqliteDatabase .ownedThread).exec newSession (onNewFile closedLater) = some s ∧
      Quiet s ∧ ∃ m, Holds s.service.database m ∧
        s.monitor.devices = m.getAllSortedById.map toViewModel := by
  obtain ⟨s, hs, hend⟩ := exec_onNewFile (fun s => (s.service.polled, isQuiet s))
    (show ((machine sqliteDatabase .ownedThread).exec openedSession closedLater).map
      (fun s => (s.service.polled, isQuiet s)) =
        some ([⟨true, [], []⟩, ⟨true, [], [router.device]⟩], true) by decide +kernel)
  obtain ⟨hpolled, hisQuiet⟩ := Prod.mk.inj hend
  have hquiet := quiet_of_isQuiet hisQuiet
  have hall : s.service.allResults = s.service.polled := by
    rw [allResults, hquiet.results, hquiet.undelivered, List.append_nil, List.append_nil]
  have hsuccess : Succeeding s := by
    rw [Succeeding, hall, hpolled]
    simp
  exact ⟨s, hs, hquiet, devices_eq_database sqliteDatabase_refines holds_new hs hsuccess hquiet
    (by simp [hpolled])⟩

end Watchlist.Gui.GuiSession
