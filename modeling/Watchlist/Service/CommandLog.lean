import Watchlist.Service.BatchQueue
import Watchlist.Storage.InitialDevices

/-!
The service is a sequential log of commands. To the account of the queue the
invariant adds that of the log, whose results are those delivered, polled or not,
and the one on its way.
-/

namespace Watchlist

open Bytes Faulty Faulty.Program Storage Gui Transition

/-! ### Commands on the map -/

/-- What a command makes of the map of devices. -/
def applyCommand (m : DeviceMap) (command : DeviceCommand) : Except StorageError DeviceMap :=
  match command.kind with
  | .refresh => .ok m
  | .add =>
      match command.device with
      | none => .error (.invalidArgument (ascii "Add command is missing device data"))
      | some device => m.addItem (toDatabaseItem device)
  | .edit | .setAlive =>
      match command.device with
      | none => .error (.invalidArgument (ascii "Update command is missing device data"))
      | some device => m.upsertItem (toDatabaseItem device)
  | .delete => .ok (m.remove command.targetId)

/-- What commands in order make of it, all of them succeeding. -/
def applyAll (m : DeviceMap) (batch : Batch) : Except StorageError DeviceMap :=
  batch.foldlM applyCommand m

@[simp] theorem applyAll_nil (m : DeviceMap) : applyAll m [] = .ok m := rfl

theorem applyAll_cons (m : DeviceMap) (c : DeviceCommand) (batch : Batch) :
    applyAll m (c :: batch) = (applyCommand m c).bind fun m' => applyAll m' batch := rfl

@[simp] theorem applyAll_append (m : DeviceMap) (batch batch' : Batch) :
    applyAll m (batch ++ batch') = (applyAll m batch).bind fun m' => applyAll m' batch' := by
  simp [applyAll, List.foldlM_append]
  rfl

section Log

variable {σ : Type} {D : IDatabase σ} {R : σ → DeviceMap → Prop}

/-- Every command returned, taking the database from one state to another. -/
inductive Ran (D : IDatabase σ) : World σ → Batch → World σ → Prop
  | nil (w : World σ) : Ran D w [] w
  | cons {w w₁ w₂ : World σ} {c : DeviceCommand} {batch : Batch} {u : Unit}
      (first : executeCommand D c w = (.ok u, w₁)) (rest : Ran D w₁ batch w₂) :
      Ran D w (c :: batch) w₂

/-- How a batch that is executed on a database that holds `m` ends: every command
and the read after them returned; a command threw, and those behind it were not
run; or the read threw. The last three arguments are the result, the database and
the map it holds. -/
inductive Executes (D : IDatabase σ) (R : σ → DeviceMap → Prop) (s : σ) (m : DeviceMap)
    (batch : Batch) (faults : List Bool) : DeviceStorageResult → σ → DeviceMap → Prop
  | succeeded {w₁ w₂ : World σ} {m' : DeviceMap} (commands : Ran D ⟨s, faults⟩ batch w₁)
      (read : D.getAllSortedById w₁ = (.ok m'.getAllSortedById, w₂))
      (applied : applyAll m batch = .ok m') (holds : R w₂.state m') :
      Executes D R s m batch faults ⟨true, [], m'.getAllSortedById.map toViewModel⟩ w₂.state m'
  | commandThrew {w₁ w₂ : World σ} {m' : DeviceMap} {done rest : Batch} {c : DeviceCommand}
      {e : StorageError} (split : batch = done ++ c :: rest) (commands : Ran D ⟨s, faults⟩ done w₁)
      (threw : executeCommand D c w₁ = (.error e, w₂)) (applied : applyAll m done = .ok m')
      (holds : R w₂.state m') : Executes D R s m batch faults (failure e) w₂.state m'
  | readThrew {w₁ w₂ : World σ} {m' : DeviceMap} {e : StorageError}
      (commands : Ran D ⟨s, faults⟩ batch w₁) (threw : D.getAllSortedById w₁ = (.error e, w₂))
      (applied : applyAll m batch = .ok m') (holds : R w₂.state m') :
      Executes D R s m batch faults (failure e) w₂.state m'

/-- The results of the batches of a log, executed one after the other. -/
inductive CommandLog (D : IDatabase σ) (R : σ → DeviceMap → Prop) :
    σ → DeviceMap → List (Batch × List Bool) → List DeviceStorageResult → σ → DeviceMap → Prop
  | nil {s : σ} {m : DeviceMap} (holds : R s m) : CommandLog D R s m [] [] s m
  | snoc {s s₁ s₂ : σ} {m m₁ m₂ : DeviceMap} {log : List (Batch × List Bool)}
      {results : List DeviceStorageResult} {batch : Batch} {faults : List Bool}
      {result : DeviceStorageResult} (before : CommandLog D R s m log results s₁ m₁)
      (last : Executes D R s₁ m₁ batch faults result s₂ m₂) :
      CommandLog D R s m (log ++ [(batch, faults)]) (results ++ [result]) s₂ m₂

theorem Executes.holds {s s' : σ} {m m' : DeviceMap} {batch : Batch} {faults : List Bool}
    {result : DeviceStorageResult} (h : Executes D R s m batch faults result s' m') : R s' m' := by
  cases h with
  | succeeded _ _ _ holds => exact holds
  | commandThrew _ _ _ _ holds => exact holds
  | readThrew _ _ _ holds => exact holds

theorem CommandLog.holds {s s' : σ} {m m' : DeviceMap} {log : List (Batch × List Bool)}
    {results : List DeviceStorageResult} (h : CommandLog D R s m log results s' m') : R s' m' := by
  cases h with
  | nil holds => exact holds
  | snoc _ last => exact last.holds

/-- One result for each batch. -/
theorem CommandLog.length {s s' : σ} {m m' : DeviceMap} {log : List (Batch × List Bool)}
    {results : List DeviceStorageResult} (h : CommandLog D R s m log results s' m') :
    results.length = log.length := by
  induction h with
  | nil _ => rfl
  | snoc _ _ ih => simp [ih]

/-! ### One batch -/

theorem executeCommand_keeps (hD : D.Refines R) {w : World σ} {m : DeviceMap}
    (hm : R w.state m) (c : DeviceCommand) :
    Keeps R m (fun _ m' => applyCommand m c = .ok m') (executeCommand D c w) := by
  unfold executeCommand applyCommand
  cases c.kind with
  | refresh => exact ⟨m, rfl, hm⟩
  | add =>
      cases c.device with
      | none => exact hm
      | some device => exact hD.addItem w m (toDatabaseItem device) hm
  | edit | setAlive =>
      cases c.device with
      | none => exact hm
      | some device => exact hD.upsertItem w m (toDatabaseItem device) hm
  | delete =>
      have hremove := hD.removeItem w m c.targetId hm
      change Keeps R m (fun _ m' => Except.ok (m.remove c.targetId) = .ok m')
        ((D.removeItem c.targetId >>= fun _ => pure ()) w)
      rcases hrun : D.removeItem c.targetId w with ⟨e | found, w'⟩
      · rw [hrun] at hremove
        rw [bind_of_error hrun]
        exact hremove
      · rw [hrun] at hremove
        rw [bind_of_ok hrun]
        obtain ⟨m', rfl, hm'⟩ := hremove
        exact ⟨_, rfl, hm'⟩

theorem Ran.holds (hD : D.Refines R) {w w' : World σ} {batch : Batch} {m : DeviceMap}
    (h : Ran D w batch w') (hm : R w.state m) :
    ∃ m', applyAll m batch = .ok m' ∧ R w'.state m' := by
  induction h generalizing m with
  | nil w => exact ⟨m, rfl, hm⟩
  | @cons w _ _ c _ _ first rest ih =>
      have hkeeps := executeCommand_keeps hD hm c
      rw [first] at hkeeps
      obtain ⟨m₁, hfirst, hm₁⟩ := hkeeps
      obtain ⟨m', hrest, hm'⟩ := ih hm₁
      refine ⟨m', ?_, hm'⟩
      rw [applyAll_cons, hfirst]
      exact hrest

/-- The loop of `Execute`: all commands returned, or the first that threw ended it. -/
theorem forM_executeCommand_cases (w : World σ) (batch : Batch) :
    (∃ w', batch.forM (executeCommand D) w = (.ok ⟨⟩, w') ∧ Ran D w batch w') ∨
    ∃ done c rest w₁ e w₂, batch = done ++ c :: rest ∧ Ran D w done w₁ ∧
      executeCommand D c w₁ = (.error e, w₂) ∧
      batch.forM (executeCommand D) w = (.error e, w₂) := by
  induction batch generalizing w with
  | nil => exact Or.inl ⟨w, rfl, .nil w⟩
  | cons c batch ih =>
      have hforM : (c :: batch).forM (executeCommand D) =
          (executeCommand D c >>= fun _ => batch.forM (executeCommand D)) := rfl
      rcases hc : executeCommand D c w with ⟨e | u, w₁⟩
      · refine Or.inr ⟨[], c, batch, w, e, w₁, rfl, .nil w, hc, ?_⟩
        rw [hforM, bind_of_error hc]
      · rw [hforM, bind_of_ok hc]
        rcases ih w₁ with ⟨w', hrest, hran⟩ | ⟨done, c', rest, w₂, e, w₃, rfl, hran, hthrew, hrest⟩
        · exact Or.inl ⟨w', hrest, .cons hc hran⟩
        · exact Or.inr ⟨c :: done, c', rest, w₂, e, w₃, rfl, .cons hc hran, hthrew, hrest⟩

/-- What `Execute` does on a database that holds a map. -/
theorem execute_executes (hD : D.Refines R) {s : σ} {m : DeviceMap} (hm : R s m) (batch : Batch)
    (faults : List Bool) :
    ∃ m', Executes D R s m batch faults (execute D batch ⟨s, faults⟩).1
      (execute D batch ⟨s, faults⟩).2.state m' := by
  have hbody : executeBody D batch =
      (batch.forM (executeCommand D) >>= fun _ => D.getAllSortedById) := rfl
  unfold execute
  rcases forM_executeCommand_cases ⟨s, faults⟩ batch with
    ⟨w₁, hforM, hran⟩ | ⟨done, c, rest, w₁, e, w₂, hsplit, hran, hthrew, hforM⟩
  · obtain ⟨m', happlied, hm'⟩ := hran.holds hD hm
    have hread := hD.getAllSortedById w₁ m' hm'
    rw [hbody, bind_of_ok hforM]
    rcases hget : D.getAllSortedById w₁ with ⟨e | items, w₂⟩
    · rw [hget] at hread
      exact ⟨m', .readThrew hran hget happlied hread⟩
    · rw [hget] at hread
      obtain ⟨_, ⟨rfl, rfl⟩, hm''⟩ := hread
      exact ⟨_, .succeeded hran hget happlied hm''⟩
  · obtain ⟨m', happlied, hm'⟩ := hran.holds hD hm
    have hkeeps := executeCommand_keeps hD hm' c
    rw [hthrew] at hkeeps
    rw [hbody, bind_of_error hforM]
    exact ⟨m', .commandThrew hsplit hran hthrew happlied hkeeps⟩

/-! ### The invariant -/

namespace DeviceStorageService

/-- The result that has not been delivered yet. -/
def undelivered (s : DeviceStorageService σ) : List DeviceStorageResult :=
  match s.run with
  | .delivering result => [result]
  | _ => []

/-- The results so far, the polled ones first. -/
def allResults (s : DeviceStorageService σ) : List DeviceStorageResult :=
  s.polled ++ s.results ++ s.undelivered

/-- The service's database has been opened holding `m₀`, and this is its log. -/
def Opened (D : IDatabase σ) (R : σ → DeviceMap → Prop) (m₀ : DeviceMap)
    (s : DeviceStorageService σ) : Prop :=
  ∃ opened m, R opened m₀ ∧ CommandLog D R opened m₀ s.executed s.allResults s.database m

/-- The invariant; `s₀` is the database that the service is given. -/
structure Logged (D : IDatabase σ) (R : σ → DeviceMap → Prop) (s₀ : σ) (m₀ : DeviceMap)
    (s : DeviceStorageService σ) : Prop extends Queued s where
  unopened : s.run = .notStarted ∨ s.run = .initializing →
    s.database = s₀ ∧ s.executed = [] ∧ s.allResults = []
  opened : s.run ≠ .notStarted → s.run ≠ .initializing → Opened D R m₀ s

variable {s₀ : σ} {m₀ : DeviceMap} {s t : DeviceStorageService σ}

theorem logged_initial : Logged D R s₀ m₀ (initial s₀) where
  toQueued := queued_initial s₀
  unopened := fun _ => ⟨rfl, rfl, rfl⟩
  opened := fun h => absurd rfl h

/-- A step that leaves the thread of `Run`, its database and its log alone. -/
theorem Logged.of_client (h : Logged D R s₀ m₀ s) (hqueued : Queued t)
    (hdatabase : t.database = s.database) (hrun : t.run = s.run)
    (hexecuted : t.executed = s.executed)
    (hresults : t.polled ++ t.results = s.polled ++ s.results) : Logged D R s₀ m₀ t := by
  have hundelivered : t.undelivered = s.undelivered := by rw [undelivered, undelivered, hrun]
  have hall : t.allResults = s.allResults := by
    rw [allResults, allResults, hresults, hundelivered]
  refine ⟨hqueued, ?_, ?_⟩
  · rw [hrun, hdatabase, hexecuted, hall]
    exact h.unopened
  · rw [hrun, Opened, hdatabase, hexecuted, hall]
    exact h.opened

theorem Logged.submit (h : Logged D R s₀ m₀ s) (hconstructed : s.constructed = true)
    (batch : Batch) : Logged D R s₀ m₀ (s.submit batch) := by
  have hqueued := h.toQueued.submit hconstructed batch
  unfold DeviceStorageService.submit at hqueued ⊢
  split
  · exact h
  · rename_i hne
    rw [if_neg hne] at hqueued
    exact h.of_client hqueued rfl rfl rfl rfl

/-! ### The thread of `Run` -/

theorem Logged.enterRun (h : Logged D R s₀ m₀ s) (hfirst : s.runStarted = false) :
    Logged D R s₀ m₀ s.enterRun := by
  have hrun := h.started.mp hfirst
  have hundelivered : s.undelivered = [] := by rw [undelivered, hrun]
  obtain ⟨hdatabase, hexecuted, hall⟩ := h.unopened (Or.inl hrun)
  have hqueued := h.toQueued.enterRun hfirst
  rw [DeviceStorageService.enterRun, if_neg (by simp [hfirst])] at hqueued ⊢
  refine ⟨hqueued, fun _ => ⟨hdatabase, hexecuted, ?_⟩, fun _ hne => absurd rfl hne⟩
  rw [allResults, hundelivered] at hall
  exact hall

theorem Logged.callInitialize (h : Logged D R s₀ m₀ s) (hrun : s.run = .initializing)
    (h₀ : ∀ faults u w, D.initializeDatabase ⟨s₀, faults⟩ = (.ok u, w) → R w.state m₀)
    {faults : List Bool} {u : Unit} {w : World σ}
    (hok : D.initializeDatabase ⟨s.database, faults⟩ = (.ok u, w)) :
    Logged D R s₀ m₀ (s.callInitialize D faults) := by
  have hundelivered : s.undelivered = [] := by rw [undelivered, hrun]
  obtain ⟨hdatabase, hexecuted, hall⟩ := h.unopened (Or.inr hrun)
  have hopened : R w.state m₀ := h₀ faults u w (hdatabase ▸ hok)
  have hqueued := h.toQueued.callInitialize hrun hok
  rw [DeviceStorageService.callInitialize, hok] at hqueued ⊢
  refine ⟨hqueued, by simp, fun _ _ => ⟨w.state, m₀, hopened, ?_⟩⟩
  rw [allResults, hundelivered] at hall
  change CommandLog D R w.state m₀ s.executed (s.polled ++ s.results ++ []) w.state m₀
  rw [hexecuted, hall]
  exact .nil hopened

theorem Logged.takeBatch (h : Logged D R s₀ m₀ s) (hrun : s.run = .waiting)
    (hwake : s.commands ≠ [] ∨ s.stopRequested = true) : Logged D R s₀ m₀ s.takeBatch := by
  have hundelivered : s.undelivered = [] := by rw [undelivered, hrun]
  obtain ⟨opened, m, hm, hlog⟩ := h.opened (by simp [hrun]) (by simp [hrun])
  rw [allResults, hundelivered] at hlog
  have hqueued := h.toQueued.takeBatch hrun hwake
  unfold DeviceStorageService.takeBatch at hqueued ⊢
  split at hqueued
  · exact ⟨hqueued, by simp, fun _ _ => ⟨opened, m, hm, hlog⟩⟩
  · exact ⟨hqueued, by simp, fun _ _ => ⟨opened, m, hm, hlog⟩⟩

theorem Logged.executeBatch (h : Logged D R s₀ m₀ s) (hD : D.Refines R) {batch : Batch}
    (hrun : s.run = .executing batch) (faults : List Bool) :
    Logged D R s₀ m₀ (s.executeBatch D batch faults) := by
  have hundelivered : s.undelivered = [] := by rw [undelivered, hrun]
  obtain ⟨opened, m, hm, hlog⟩ := h.opened (by simp [hrun]) (by simp [hrun])
  rw [allResults, hundelivered, List.append_nil] at hlog
  obtain ⟨m', hexecutes⟩ := execute_executes hD hlog.holds batch faults
  exact ⟨h.toQueued.executeBatch hrun faults, by simp [DeviceStorageService.executeBatch],
    fun _ _ => ⟨opened, m', hm, hlog.snoc hexecutes⟩⟩

theorem Logged.deliver (h : Logged D R s₀ m₀ s) {result : DeviceStorageResult}
    (hrun : s.run = .delivering result) :
    Logged D R s₀ m₀ { s.addResult result with run := .waiting } := by
  have hundelivered : s.undelivered = [result] := by rw [undelivered, hrun]
  obtain ⟨opened, m, hm, hlog⟩ := h.opened (by simp [hrun]) (by simp [hrun])
  rw [allResults, hundelivered] at hlog
  refine ⟨h.toQueued.deliver hrun, by simp, fun _ _ => ⟨opened, m, hm, ?_⟩⟩
  change CommandLog D R opened m₀ s.executed (s.polled ++ (s.results ++ [result]) ++ [])
    s.database m
  rwa [List.append_nil, ← List.append_assoc]

/-- The step lemma. -/
theorem Logged.step (h : Logged D R s₀ m₀ s) (hD : D.Refines R)
    (h₀ : ∀ faults u w, D.initializeDatabase ⟨s₀, faults⟩ = (.ok u, w) → R w.state m₀)
    {l : Label} (hassumed : Assumed D s l) (hstep : s.step D l = some t) :
    Logged D R s₀ m₀ t := by
  have hqueued := h.toQueued.step hassumed hstep
  cases l with
  | construct =>
      obtain ⟨_, rfl⟩ := allow_eq_some.mp hstep
      exact h.of_client hqueued rfl rfl rfl rfl
  | submit commands =>
      obtain ⟨hconstructed, rfl⟩ := allow_eq_some.mp hstep
      exact h.submit hconstructed commands
  | pollResults =>
      obtain ⟨_, rfl⟩ := allow_eq_some.mp hstep
      exact h.of_client hqueued rfl rfl rfl (List.append_nil _)
  | requestStop =>
      obtain ⟨_, rfl⟩ := allow_eq_some.mp hstep
      exact h.of_client hqueued rfl rfl rfl rfl
  | enterRun =>
      obtain rfl := Option.some.inj hstep
      exact h.enterRun hassumed
  | callInitialize faults =>
      obtain ⟨hrun, rfl⟩ := allow_eq_some.mp hstep
      obtain ⟨u, w, hok⟩ := hassumed
      exact h.callInitialize hrun h₀ hok
  | takeBatch =>
      obtain ⟨⟨hrun, hwake⟩, rfl⟩ := allow_eq_some.mp hstep
      exact h.takeBatch hrun hwake
  | executeBatch faults =>
      obtain ⟨batch, hrun, rfl⟩ := executeBatch_eq_some hstep
      exact h.executeBatch hD hrun faults
  | deliver =>
      obtain ⟨result, hrun, rfl⟩ := deliver_eq_some hstep
      exact h.deliver hrun

/-- A result stays: polled, waiting to be polled or on its way. -/
theorem mem_allResults_step (h : Started s) {l : Label} (hstep : s.step D l = some t)
    {result : DeviceStorageResult} (hresult : result ∈ s.allResults) : result ∈ t.allResults := by
  have of_added {u : DeviceStorageService σ} (hpolled : u.polled = s.polled)
      (hresults : ∀ r ∈ s.results, r ∈ u.results)
      (hundelivered : ∀ r ∈ s.undelivered, r ∈ u.results ++ u.undelivered) :
      result ∈ u.allResults := by
    rw [allResults, hpolled, List.append_assoc]
    rw [allResults, List.append_assoc] at hresult
    rcases List.mem_append.mp hresult with hr | hr
    · exact List.mem_append_left _ hr
    · apply List.mem_append_right
      rcases List.mem_append.mp hr with hr | hr
      · exact List.mem_append_left _ (hresults _ hr)
      · exact hundelivered _ hr
  have same {u : DeviceStorageService σ} (hpolled : u.polled = s.polled)
      (hresults : u.results = s.results) (hnone : s.undelivered = []) :
      result ∈ u.allResults :=
    of_added hpolled (fun r hr => by rwa [hresults]) (fun r hr => by simp [hnone] at hr)
  cases l with
  | construct =>
      obtain ⟨_, rfl⟩ := allow_eq_some.mp hstep
      exact hresult
  | submit commands =>
      obtain ⟨_, rfl⟩ := allow_eq_some.mp hstep
      unfold DeviceStorageService.submit
      split <;> exact hresult
  | pollResults =>
      obtain ⟨_, rfl⟩ := allow_eq_some.mp hstep
      have hall : s.pollResults.allResults = s.allResults := by
        change s.polled ++ s.results ++ [] ++ s.undelivered = _
        rw [List.append_nil]
        rfl
      rwa [hall]
  | requestStop =>
      obtain ⟨_, rfl⟩ := allow_eq_some.mp hstep
      exact hresult
  | enterRun =>
      obtain rfl := Option.some.inj hstep
      unfold enterRun
      split
      · exact of_added rfl (fun r hr => List.mem_append_left _ hr)
          (fun r hr => List.mem_append_right _ hr)
      · rename_i hfirst
        exact same rfl rfl (by rw [undelivered, h.mp (by simpa using hfirst)])
  | callInitialize faults =>
      obtain ⟨hrun, rfl⟩ := allow_eq_some.mp hstep
      have hnone : s.undelivered = [] := by rw [undelivered, hrun]
      unfold callInitialize
      split
      · exact same rfl rfl hnone
      · exact of_added rfl (fun r hr => List.mem_append_left _ hr)
          (fun r hr => by simp [hnone] at hr)
  | takeBatch =>
      obtain ⟨⟨hrun, _⟩, rfl⟩ := allow_eq_some.mp hstep
      have hnone : s.undelivered = [] := by rw [undelivered, hrun]
      unfold takeBatch
      split <;> exact same rfl rfl hnone
  | executeBatch faults =>
      obtain ⟨batch, hrun, rfl⟩ := executeBatch_eq_some hstep
      exact same rfl rfl (by rw [undelivered, hrun])
  | deliver =>
      obtain ⟨r, hrun, rfl⟩ := deliver_eq_some hstep
      refine of_added rfl (fun r hr => List.mem_append_left _ hr) fun r' hr => ?_
      rw [undelivered, hrun] at hr
      exact List.mem_append_left _ (List.mem_append_right _ hr)

/-- A new result is that of the batch at hand. -/
theorem mem_allResults_of_step {l : Label} (hassumed : Assumed D s l)
    (hstep : s.step D l = some t) {r : DeviceStorageResult} (hr : r ∈ t.allResults) :
    r ∈ s.allResults ∨ ∃ batch faults, s.run = .executing batch ∧ l = .executeBatch faults ∧
      r = (execute D batch ⟨s.database, faults⟩).1 := by
  cases l with
  | construct | requestStop =>
      obtain ⟨_, rfl⟩ := allow_eq_some.mp hstep
      exact Or.inl hr
  | submit commands =>
      obtain ⟨_, rfl⟩ := allow_eq_some.mp hstep
      unfold DeviceStorageService.submit at hr
      split at hr <;> exact Or.inl hr
  | pollResults =>
      obtain ⟨_, rfl⟩ := allow_eq_some.mp hstep
      apply Or.inl
      change r ∈ s.polled ++ s.results ++ [] ++ s.undelivered at hr
      rwa [List.append_nil] at hr
  | enterRun =>
      obtain rfl := Option.some.inj hstep
      rw [enterRun, if_neg (by simp [show s.runStarted = false from hassumed])] at hr
      apply Or.inl
      change r ∈ s.polled ++ s.results ++ [] at hr
      rw [List.append_nil] at hr
      exact List.mem_append_left _ hr
  | callInitialize faults =>
      obtain ⟨hrun, rfl⟩ := allow_eq_some.mp hstep
      obtain ⟨u, w, hok⟩ := hassumed
      rw [callInitialize, hok] at hr
      apply Or.inl
      change r ∈ s.polled ++ s.results ++ [] at hr
      rw [List.append_nil] at hr
      exact List.mem_append_left _ hr
  | takeBatch =>
      obtain ⟨_, rfl⟩ := allow_eq_some.mp hstep
      apply Or.inl
      unfold takeBatch at hr
      split at hr
      · change r ∈ s.polled ++ s.results ++ [] at hr
        rw [List.append_nil] at hr
        exact List.mem_append_left _ hr
      · change r ∈ s.polled ++ s.results ++ [] at hr
        rw [List.append_nil] at hr
        exact List.mem_append_left _ hr
  | executeBatch faults =>
      obtain ⟨batch, hrun, rfl⟩ := executeBatch_eq_some hstep
      rcases List.mem_append.mp hr with hr | hr
      · exact Or.inl (List.mem_append_left _ hr)
      · exact Or.inr ⟨batch, faults, hrun, rfl, List.mem_singleton.mp hr⟩
  | deliver =>
      obtain ⟨result, hrun, rfl⟩ := deliver_eq_some hstep
      apply Or.inl
      have hundelivered : s.undelivered = [result] := by rw [undelivered, hrun]
      change r ∈ s.polled ++ (s.results ++ [result]) ++ [] at hr
      rwa [allResults, hundelivered, List.append_assoc, ← List.append_nil (s.polled ++ _)]

/-- Where no result is a failure, the assumptions were met. -/
theorem assumed_of_success {l : Label} (hstep : s.step D l = some t)
    (hsuccess : ∀ r ∈ t.allResults, r.success = true) : Assumed D s l := by
  have not_added {u : DeviceStorageService σ} (hu : t = u) {error : Bytes}
      (hadded : ⟨false, error, []⟩ ∈ u.results) : False := by
    have hfalse := hsuccess _ (List.mem_append_left _ (List.mem_append_right _ (hu ▸ hadded)))
    cases hfalse
  cases l with
  | enterRun =>
      have ht := (Option.some.inj hstep).symm
      cases hstarted : s.runStarted with
      | false => exact hstarted
      | true =>
          rw [enterRun, if_pos hstarted] at ht
          exact (not_added ht (List.mem_append_right _ List.mem_cons_self)).elim
  | callInitialize faults =>
      obtain ⟨_, ht⟩ := allow_eq_some.mp hstep
      rcases hcall : D.initializeDatabase ⟨s.database, faults⟩ with ⟨e | u, w⟩
      · rw [callInitialize, hcall] at ht
        exact (not_added ht.symm (List.mem_append_right _ List.mem_cons_self)).elim
      · exact ⟨u, w, hcall⟩
  | construct | submit _ | pollResults | requestStop | takeBatch | executeBatch _ | deliver =>
      trivial

/-! ### The log -/

/-- Once `Run` has returned, the results that have been or can be polled are those
of the executed batches, in the order of submission and each once; every batch
submitted before the stop is among them, the constructor's refresh first. -/
theorem results_are_the_command_log (hD : D.Refines R)
    (h₀ : ∀ faults u w, D.initializeDatabase ⟨s₀, faults⟩ = (.ok u, w) → R w.state m₀)
    {ls : List Label} (hrun : (machine D).exec (initial s₀) ls = some s)
    (hassumed : (machine D).Meets (Assumed D) (initial s₀) ls) (hreturned : s.run = .returned) :
    (∃ opened m, R opened m₀ ∧
      CommandLog D R opened m₀ s.executed (s.polled ++ s.results) s.database m) ∧
    s.executed.map Prod.fst <+: s.submitted ∧
    s.beforeStop <+: s.executed.map Prod.fst ∧ s.beforeStop.head? = some [.refresh] := by
  have h : Logged D R s₀ m₀ s :=
    Machine.invariant_of_meets (Logged D R s₀ m₀)
      (fun _ _ _ hs hc hstep => hs.step hD h₀ hc hstep) hassumed hrun logged_initial
  have hundelivered : s.undelivered = [] := by rw [undelivered, hreturned]
  obtain ⟨opened, m, hm, hlog⟩ := h.opened (by simp [hreturned]) (by simp [hreturned])
  rw [allResults, hundelivered, List.append_nil] at hlog
  obtain ⟨hstop, hbefore⟩ := h.returned hreturned
  refine ⟨⟨opened, m, hm, hlog⟩, ?_, hbefore, (h.stopped hstop).2⟩
  rw [h.queue, List.append_assoc]
  exact List.prefix_append _ _

/-- Two batches submitted before the stop, on a new file. -/
def stoppedRun : List Label :=
  [.enterRun, .callInitialize [], .construct,
    .submit [.add ⟨ascii "a", ascii "A", ascii "10.0.0.1", 80, true⟩, .delete (ascii "b")],
    .requestStop, .takeBatch, .executeBatch [], .deliver, .pollResults, .takeBatch,
    .executeBatch [false, true], .deliver, .takeBatch]

theorem initializeDatabase_new : sqliteDatabase.initializeDatabase ⟨⟨.empty, false⟩, []⟩ =
    (.ok (), ⟨⟨freshDatabase, true⟩, []⟩) :=
  SQLiteDatabase.initializeDatabase_of_returns returns_initializeFile_empty false

theorem holds_new (faults : List Bool) (u : Unit) (w : World SQLiteDatabase)
    (h : sqliteDatabase.initializeDatabase ⟨⟨.empty, false⟩, faults⟩ = (.ok u, w)) :
    Holds w.state .empty := holds_of_initialDevices initialDevices_empty h

theorem callInitialize_new {s : DeviceStorageService SQLiteDatabase}
    (hdatabase : s.database = ⟨.empty, false⟩) :
    s.callInitialize sqliteDatabase [] =
      { s with database := ⟨freshDatabase, true⟩, run := .waiting } := by
  rw [callInitialize, hdatabase, initializeDatabase_new]

/-- A service on a file that is not there yet. -/
def newService : DeviceStorageService SQLiteDatabase := initial ⟨.empty, false⟩

theorem exec_newService (ls : List Label) :
    (machine sqliteDatabase).exec newService (.enterRun :: .callInitialize [] :: ls) =
      (machine sqliteDatabase).exec
        { newService.enterRun with database := ⟨freshDatabase, true⟩, run := .waiting } ls := by
  have hcall : newService.enterRun.callInitialize sqliteDatabase [] = _ :=
    callInitialize_new rfl
  have hstep : (machine sqliteDatabase).step newService.enterRun (.callInitialize []) = some _ :=
    allow_eq_some.mpr ⟨(rfl : newService.enterRun.run = .initializing), hcall⟩
  exact (Machine.exec_cons_of_step rfl _).trans (Machine.exec_cons_of_step hstep ls)

theorem results_are_the_command_log_stopped :
    ∃ s, (machine sqliteDatabase).exec newService stoppedRun = some s ∧
      s.run = .returned ∧ s.polled.length + s.results.length = 2 ∧
      ∃ opened m, Holds opened .empty ∧ CommandLog sqliteDatabase Holds opened .empty s.executed
        (s.polled ++ s.results) s.database m := by
  obtain ⟨s, hs, hreturned, hcount⟩ : ∃ s, (machine sqliteDatabase).exec newService stoppedRun =
      some s ∧ s.run = .returned ∧ s.polled.length + s.results.length = 2 :=
    ⟨_, (exec_newService _).trans rfl, rfl, rfl⟩
  have hassumed : (machine sqliteDatabase).Meets (Assumed sqliteDatabase) newService
      stoppedRun := by
    refine ⟨rfl, fun t ht => ?_⟩
    obtain rfl := Option.some.inj ht
    refine ⟨⟨_, _, initializeDatabase_new⟩, fun u _ => ?_⟩
    refine Machine.meets_of_forall fun l hl v => ?_
    fin_cases hl <;> trivial
  exact ⟨s, hs, hreturned, hcount,
    (results_are_the_command_log sqliteDatabase_refines holds_new hs hassumed hreturned).1⟩

end DeviceStorageService

end Log

end Watchlist
