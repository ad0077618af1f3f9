import Watchlist.Service.DeviceStorageService

/-!
The queue of the service. What has been submitted is what has been executed, what
has been taken and what is queued, in this order; and the thread of `Run` leaves
only after a stop and with everything executed that was submitted before it. None
of this depends on the database.
-/

namespace Watchlist.DeviceStorageService

open Storage Gui Transition

variable {σ : Type} {D : IDatabase σ}

/-- The batch that has been taken and not executed yet. -/
def taken (s : DeviceStorageService σ) : List Batch :=
  match s.run with
  | .executing batch => [batch]
  | _ => []

/-- `Run` is entered once, and `Initialize` succeeds. -/
def Assumed (D : IDatabase σ) (s : DeviceStorageService σ) : Label → Prop
  | .enterRun => s.runStarted = false
  | .callInitialize faults => ∃ u w, D.initializeDatabase ⟨s.database, faults⟩ = (.ok u, w)
  | _ => True

/-- `Run` has been entered. -/
def Started (s : DeviceStorageService σ) : Prop := s.runStarted = false ↔ s.run = .notStarted

/-- The invariant. -/
structure Queued (s : DeviceStorageService σ) : Prop where
  started : Started s
  queue : s.submitted = s.executed.map Prod.fst ++ s.taken ++ s.commands
  refreshFirst : s.constructed = true → s.submitted.head? = some [.refresh]
  unconstructed : s.constructed = false → s.submitted = [] ∧ s.stopRequested = false
  stopped : s.stopRequested = true →
    s.beforeStop <+: s.submitted ∧ s.beforeStop.head? = some [.refresh]
  returned : s.run = .returned →
    s.stopRequested = true ∧ s.beforeStop <+: s.executed.map Prod.fst

variable {s t : DeviceStorageService σ}

theorem started_initial (database : σ) : Started (initial database) := by simp [initial, Started]

/-- Whatever is assumed of a step. -/
theorem Started.step (h : Started s) {l : Label} (hstep : s.step D l = some t) : Started t := by
  have running {u : DeviceStorageService σ} (hrun : s.run ≠ .notStarted)
      (hstarted : u.runStarted = s.runStarted) (hu : u.run ≠ .notStarted) : Started u := by
    rw [Started, hstarted]
    exact iff_of_false (fun hfalse => hrun (h.mp hfalse)) hu
  cases l with
  | construct | pollResults | requestStop =>
      obtain ⟨_, rfl⟩ := allow_eq_some.mp hstep
      exact h
  | submit commands =>
      obtain ⟨_, rfl⟩ := allow_eq_some.mp hstep
      unfold DeviceStorageService.submit
      split <;> exact h
  | enterRun =>
      obtain rfl := Option.some.inj hstep
      unfold enterRun
      split
      · exact h
      · exact iff_of_false (by simp) (by simp)
  | callInitialize faults =>
      obtain ⟨hrun, rfl⟩ := allow_eq_some.mp hstep
      unfold callInitialize
      split <;> exact running (by simp [hrun]) rfl (by simp)
  | takeBatch =>
      obtain ⟨⟨hrun, _⟩, rfl⟩ := allow_eq_some.mp hstep
      unfold takeBatch
      split <;> exact running (by simp [hrun]) rfl (by simp)
  | executeBatch faults =>
      obtain ⟨batch, hrun, rfl⟩ := executeBatch_eq_some hstep
      exact running (by simp [hrun]) rfl (by simp [executeBatch])
  | deliver =>
      obtain ⟨result, hrun, rfl⟩ := deliver_eq_some hstep
      exact running (by simp [hrun]) rfl (by simp)

theorem queued_initial (database : σ) : Queued (initial database) where
  started := started_initial database
  queue := rfl
  refreshFirst := by simp [initial]
  unconstructed := fun _ => ⟨rfl, rfl⟩
  stopped := by simp [initial]
  returned := by simp [initial]

theorem Queued.runStarted (h : Queued s) (hrun : s.run ≠ .notStarted) : s.runStarted ≠ false :=
  fun hfalse => hrun (h.started.mp hfalse)

/-! ### The other threads -/

/-- A step of another thread: the thread of `Run` is left alone, and batches are
queued at most. -/
theorem Queued.of_client (h : Queued s) (more : List Batch) (hrun : t.run = s.run)
    (hstarted : t.runStarted = s.runStarted) (hexecuted : t.executed = s.executed)
    (hcommands : t.commands = s.commands ++ more)
    (hsubmitted : t.submitted = s.submitted ++ more)
    (hfirst : t.constructed = true → t.submitted.head? = some [.refresh])
    (hunconstructed : t.constructed = false → t.submitted = [] ∧ t.stopRequested = false)
    (hstopped : t.stopRequested = true →
      t.beforeStop <+: t.submitted ∧ t.beforeStop.head? = some [.refresh])
    (hreturned : s.run = .returned → t.stopRequested = true ∧ t.beforeStop = s.beforeStop) :
    Queued t := by
  have htaken : t.taken = s.taken := by rw [taken, taken, hrun]
  exact {
    started := by
      rw [Started, hstarted, hrun]
      exact h.started
    queue := by
      rw [hsubmitted, h.queue, hexecuted, htaken, hcommands]
      simp only [List.append_assoc]
    refreshFirst := hfirst
    unconstructed := hunconstructed
    stopped := hstopped
    returned := by
      intro hret
      rw [hrun] at hret
      obtain ⟨hstop, hbefore⟩ := hreturned hret
      rw [hexecuted, hbefore]
      exact ⟨hstop, (h.returned hret).2⟩ }

theorem Queued.construct (h : Queued s) (hfresh : s.constructed = false) :
    Queued { s.submit [.refresh] with constructed := true } := by
  obtain ⟨hnone, hrunning⟩ := h.unconstructed hfresh
  refine h.of_client [[.refresh]] rfl rfl rfl rfl rfl ?_ ?_ ?_ ?_
  · intro _
    change (s.submitted ++ [[DeviceCommand.refresh]]).head? = _
    rw [hnone]
    rfl
  · intro hfalse
    cases hfalse
  · intro hstop
    cases hrunning.symm.trans hstop
  · intro hret
    exact ⟨(h.returned hret).1, rfl⟩

theorem Queued.submit (h : Queued s) (hconstructed : s.constructed = true) (batch : Batch) :
    Queued (s.submit batch) := by
  unfold DeviceStorageService.submit
  split
  · exact h
  · refine h.of_client [batch] rfl rfl rfl rfl rfl ?_ ?_ ?_ ?_
    · intro _
      change (s.submitted ++ [batch]).head? = _
      rw [List.head?_append, h.refreshFirst hconstructed]
      rfl
    · intro hfalse
      cases hconstructed.symm.trans hfalse
    · intro hstop
      obtain ⟨hbegins, hfirst⟩ := h.stopped hstop
      exact ⟨hbegins.trans (List.prefix_append _ _), hfirst⟩
    · intro hret
      exact ⟨(h.returned hret).1, rfl⟩

theorem Queued.pollResults (h : Queued s) : Queued s.pollResults := by
  refine h.of_client [] rfl rfl rfl (List.append_nil _).symm (List.append_nil _).symm
    h.refreshFirst h.unconstructed h.stopped ?_
  intro hret
  exact ⟨(h.returned hret).1, rfl⟩

theorem Queued.requestStop (h : Queued s) (hconstructed : s.constructed = true) :
    Queued s.requestStop := by
  refine h.of_client [] rfl rfl rfl (List.append_nil _).symm (List.append_nil _).symm
    h.refreshFirst ?_ ?_ ?_
  · intro hfalse
    cases hconstructed.symm.trans hfalse
  · intro _
    unfold DeviceStorageService.requestStop
    cases hstop : s.stopRequested with
    | true => exact h.stopped hstop
    | false => exact ⟨List.prefix_rfl, h.refreshFirst hconstructed⟩
  · intro hret
    have hstop := (h.returned hret).1
    exact ⟨rfl, by simp [DeviceStorageService.requestStop, hstop]⟩

/-! ### The thread of `Run` -/

/-- A step of the thread of `Run`: the submitted batches and the stop are left alone. -/
theorem Queued.of_run (h : Queued s) (hstarted : t.runStarted = false ↔ t.run = .notStarted)
    (hqueue : t.executed.map Prod.fst ++ t.taken ++ t.commands =
      s.executed.map Prod.fst ++ s.taken ++ s.commands)
    (hconstructed : t.constructed = s.constructed) (hsubmitted : t.submitted = s.submitted)
    (hstop : t.stopRequested = s.stopRequested) (hbefore : t.beforeStop = s.beforeStop)
    (hreturned : t.run = .returned →
      s.stopRequested = true ∧ s.beforeStop <+: t.executed.map Prod.fst) : Queued t where
  started := hstarted
  queue := by rw [hsubmitted, h.queue, hqueue]
  refreshFirst := by
    rw [hconstructed, hsubmitted]
    exact h.refreshFirst
  unconstructed := by
    rw [hconstructed, hsubmitted, hstop]
    exact h.unconstructed
  stopped := by
    rw [hstop, hbefore, hsubmitted]
    exact h.stopped
  returned := by
    rw [hstop, hbefore]
    exact hreturned

theorem Queued.enterRun (h : Queued s) (hfirst : s.runStarted = false) : Queued s.enterRun := by
  have htaken : s.taken = [] := by rw [taken, h.started.mp hfirst]
  rw [DeviceStorageService.enterRun, if_neg (by simp [hfirst])]
  refine h.of_run (by simp) ?_ rfl rfl rfl rfl (by simp)
  rw [htaken]
  rfl

theorem Queued.callInitialize (h : Queued s) (hrun : s.run = .initializing)
    {faults : List Bool} {u : Unit} {w : Faulty.World σ}
    (hok : D.initializeDatabase ⟨s.database, faults⟩ = (.ok u, w)) :
    Queued (s.callInitialize D faults) := by
  have htaken : s.taken = [] := by rw [taken, hrun]
  rw [DeviceStorageService.callInitialize, hok]
  refine h.of_run ?_ ?_ rfl rfl rfl rfl (by simp)
  · simpa [Started, hrun] using h.started
  · rw [htaken]
    rfl

theorem Queued.takeBatch (h : Queued s) (hrun : s.run = .waiting)
    (hwake : s.commands ≠ [] ∨ s.stopRequested = true) : Queued s.takeBatch := by
  have htaken : s.taken = [] := by rw [taken, hrun]
  have hstarted := h.runStarted (by simp [hrun])
  unfold DeviceStorageService.takeBatch
  split
  · -- nothing is queued, so the wait has returned for the stop
    rename_i hcommands
    have hstop : s.stopRequested = true := hwake.resolve_left fun hne => hne hcommands
    have hall : s.submitted = s.executed.map Prod.fst := by
      rw [h.queue, htaken, hcommands, List.append_nil, List.append_nil]
    refine h.of_run (by simpa using hstarted) ?_ rfl rfl rfl rfl ?_
    · rw [htaken]
      rfl
    · intro _
      exact ⟨hstop, hall ▸ (h.stopped hstop).1⟩
  · rename_i batch rest hcommands
    refine h.of_run (by simpa using hstarted) ?_ rfl rfl rfl rfl (by simp)
    rw [htaken, hcommands]
    change s.executed.map Prod.fst ++ [batch] ++ rest = _
    simp

theorem Queued.executeBatch (h : Queued s) {batch : Batch} (hrun : s.run = .executing batch)
    (faults : List Bool) : Queued (s.executeBatch D batch faults) := by
  have htaken : s.taken = [batch] := by rw [taken, hrun]
  have hstarted := h.runStarted (by simp [hrun])
  refine h.of_run (by simpa [DeviceStorageService.executeBatch] using hstarted) ?_ rfl rfl rfl rfl
    (by simp [DeviceStorageService.executeBatch])
  rw [htaken]
  change (s.executed ++ [(batch, faults)]).map Prod.fst ++ [] ++ s.commands = _
  simp

theorem Queued.deliver (h : Queued s) {result : DeviceStorageResult}
    (hrun : s.run = .delivering result) : Queued { s.addResult result with run := .waiting } := by
  have htaken : s.taken = [] := by rw [taken, hrun]
  have hstarted := h.runStarted (by simp [hrun])
  refine h.of_run (by simpa [DeviceStorageService.addResult] using hstarted) ?_ rfl rfl rfl rfl
    (by simp)
  rw [htaken]
  rfl

/-- The step lemma. -/
theorem Queued.step (h : Queued s) {l : Label} (hassumed : Assumed D s l)
    (hstep : s.step D l = some t) : Queued t := by
  cases l with
  | construct =>
      obtain ⟨hfresh, rfl⟩ := allow_eq_some.mp hstep
      exact h.construct hfresh
  | submit commands =>
      obtain ⟨hconstructed, rfl⟩ := allow_eq_some.mp hstep
      exact h.submit hconstructed commands
  | pollResults =>
      obtain ⟨_, rfl⟩ := allow_eq_some.mp hstep
      exact h.pollResults
  | requestStop =>
      obtain ⟨hconstructed, rfl⟩ := allow_eq_some.mp hstep
      exact h.requestStop hconstructed
  | enterRun =>
      obtain rfl := Option.some.inj hstep
      exact h.enterRun hassumed
  | callInitialize faults =>
      obtain ⟨hrun, rfl⟩ := allow_eq_some.mp hstep
      obtain ⟨u, w, hok⟩ := hassumed
      exact h.callInitialize hrun hok
  | takeBatch =>
      obtain ⟨⟨hrun, hwake⟩, rfl⟩ := allow_eq_some.mp hstep
      exact h.takeBatch hrun hwake
  | executeBatch faults =>
      obtain ⟨batch, hrun, rfl⟩ := executeBatch_eq_some hstep
      exact h.executeBatch hrun faults
  | deliver =>
      obtain ⟨result, hrun, rfl⟩ := deliver_eq_some hstep
      exact h.deliver hrun

end Watchlist.DeviceStorageService
