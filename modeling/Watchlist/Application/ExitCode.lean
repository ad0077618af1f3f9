import Watchlist.Application.DesktopRun

/-!
What the desktop application leaves behind when its main thread is through. The workers have
been joined, so that no job is left that could use what is destroyed next. A failure of the
storage service is polled once, by the GUI or by the main thread after the jobs, and has to be
followed through both before the exit code can be read.
-/

namespace Watchlist.Application

open Transition Concurrency

/-- The jobs whose futures the main thread has got, as long as nothing was thrown. -/
def MainPc.collected : MainPc → List Job
  | .starting | .creating | .enqueueing | .notifying | .emitting | .awaiting => []
  | .stoppingStorage | .stoppingMessaging | .stoppingLoop => [.gui]
  | .getting rest => .gui :: joinedJobs.filter (· ∉ rest)
  | .polling | .settingStop | .notifyingAll | .joining _ | .returned => .gui :: joinedJobs

/-- Whether the last results have been polled, if they are at all. -/
def MainPc.polled : MainPc → Bool
  | .settingStop | .notifyingAll | .joining _ | .returned => true
  | _ => false

namespace DesktopRun

variable {n : ℕ} {s t : DesktopRun n} {l : Label n}

/-! ### What is reported -/

theorem mem_collected_of_polled {pc : MainPc} (h : pc.polled = true) (job : Job) :
    job ∈ pc.collected := by
  have hall : job ∈ Job.gui :: joinedJobs := by cases job <;> decide
  cases pc with
  | settingStop | notifyingAll | returned => exact hall
  | joining worker => exact hall
  | _ => cases h

/-- What becomes of the failures, up to the result that is returned. -/
structure Reported (s : DesktopRun n) : Prop where
  futures : s.threw = false → ∀ job ∈ s.pc.collected, s.future job = some false
  left : s.failedResults = true → s.anyFailed = true
  shown : s.guiFailed = true → s.anyFailed = true
  unpolled : s.pc.polled = false → s.anyFailed = true →
    s.failedResults = true ∨ s.guiFailed = true
  gui : s.future .gui = some false → s.guiSuccess = true → s.guiFailed = false
  result : s.threw = false → Job.gui ∈ s.pc.collected →
    s.result = (s.guiSuccess && !(s.pc.polled && s.anyFailed))

theorem reported_initial : Reported (initial n) where
  futures := by rintro - job ⟨⟩
  left := nofun
  shown := nofun
  unpolled := by rintro - ⟨⟩
  gui := nofun
  result := by rintro - ⟨⟩

theorem future_congr (hfinished : t.pool.finished = s.pool.finished) (job : Job) :
    t.future job = s.future job := by rw [future, future, hfinished]

/-- No job ends, and the main thread learns nothing new. -/
theorem Reported.stay (h : Reported s) (hfinished : t.pool.finished = s.pool.finished)
    (hleft : t.failedResults = s.failedResults) (hshown : t.guiFailed = s.guiFailed)
    (hany : t.anyFailed = s.anyFailed) (hsuccess : t.guiSuccess = s.guiSuccess)
    (hthrew : t.threw = s.threw) (hresult : t.result = s.result)
    (hcollected : t.pc.collected = s.pc.collected) (hpolled : t.pc.polled = s.pc.polled) :
    Reported t where
  futures := by
    rw [hthrew, hcollected]
    exact fun hs job hjob => (future_congr hfinished job).trans (h.futures hs job hjob)
  left := by rw [hleft, hany]; exact h.left
  shown := by rw [hshown, hany]; exact h.shown
  unpolled := by rw [hpolled, hany, hleft, hshown]; exact h.unpolled
  gui := by rw [future_congr hfinished, hsuccess, hshown]; exact h.gui
  result := by rw [hthrew, hcollected, hresult, hsuccess, hpolled, hany]; exact h.result

/-- On the way out with an exception nothing is got and nothing returned. -/
theorem Reported.thrown (h : Reported s) (hfinished : t.pool.finished = s.pool.finished)
    (hleft : t.failedResults = s.failedResults) (hshown : t.guiFailed = s.guiFailed)
    (hany : t.anyFailed = s.anyFailed) (hsuccess : t.guiSuccess = s.guiSuccess)
    (hthrew : t.threw = true) (hpolled : t.pc.polled = false → s.pc.polled = false) :
    Reported t where
  futures hs := absurd hs (by simp [hthrew])
  left := by rw [hleft, hany]; exact h.left
  shown := by rw [hshown, hany]; exact h.shown
  unpolled := by
    rw [hany, hleft, hshown]
    exact fun ht => h.unpolled (hpolled ht)
  gui := by rw [future_congr hfinished, hsuccess, hshown]; exact h.gui
  result hs := absurd hs (by simp [hthrew])

/-- What the GUI has not shown is left for the main thread. -/
theorem Reported.poll (h : Reported s) (hpc : s.pc = .polling) : Reported { s with
    result := s.result && !s.failedResults, failedResults := false, pc := .settingStop } where
  futures hthrew job hjob := h.futures hthrew job (by rw [hpc]; exact hjob)
  left := nofun
  shown := h.shown
  unpolled := nofun
  gui := h.gui
  result hthrew _ := by
    have hgui : Job.gui ∈ s.pc.collected := by rw [hpc]; exact List.mem_cons_self
    have hpolled : s.pc.polled = false := by rw [hpc]; rfl
    have hresult : s.result = s.guiSuccess := by
      rw [h.result hthrew hgui, hpolled, Bool.false_and, Bool.not_false, Bool.and_true]
    show (s.result && !s.failedResults) = (s.guiSuccess && !(true && s.anyFailed))
    rw [hresult, Bool.true_and]
    cases hsuccess : s.guiSuccess with
    | false => rfl
    | true =>
        have hshown := h.gui (h.futures hthrew .gui hgui) hsuccess
        have hsame : s.failedResults = s.anyFailed := Bool.eq_iff_iff.mpr
          ⟨h.left, fun hany => (h.unpolled hpolled hany).resolve_right (by simp [hshown])⟩
        rw [hsame]

theorem Reported.main (h : Reported s) (hstep : MainStep s t) : Reported t := by
  cases hstep with
  | start hpc | emit hpc | stopStorage hpc | stopMessaging hpc | gotAll hpc | setStop hpc =>
      exact h.stay rfl rfl rfl rfl rfl rfl rfl (by rw [hpc]; rfl) (by rw [hpc]; rfl)
  | createdAll hpc _ | enqueuedAll hpc _ | stopLoop hpc _ | notifyAll hpc _ | joinedAll hpc _ =>
      exact h.stay rfl rfl rfl rfl rfl rfl rfl (by rw [hpc]; rfl) (by rw [hpc]; rfl)
  | join hpc _ _ =>
      exact h.stay rfl rfl rfl rfl rfl rfl rfl (by rw [hpc]; rfl) (by rw [hpc]; rfl)
  | create hpc hmore => exact h.stay rfl rfl rfl rfl rfl rfl rfl rfl rfl
  | enqueue hpc hjob =>
      have hfinished (job : Job) : (s.pool.enqueue job).finished = s.pool.finished := by
        unfold ThreadPoolManager.enqueue
        split <;> rfl
      exact h.stay (hfinished _) rfl rfl rfl rfl rfl rfl (by rw [hpc]; rfl) (by rw [hpc]; rfl)
  | startFails hpc => exact h.thrown rfl rfl rfl rfl rfl rfl nofun
  | createFails hpc _ | getThrew hpc _ => exact h.thrown rfl rfl rfl rfl rfl rfl nofun
  | stopLoopThrew hpc hthrew => exact h.thrown rfl rfl rfl rfl rfl hthrew nofun
  | enqueueFails hpc _ | guiThrew hpc _ =>
      exact h.thrown rfl rfl rfl rfl rfl rfl fun _ => by rw [hpc]; rfl
  | guiReturned hpc hget =>
      exact {
        futures := by
          intro _ job hjob
          obtain rfl := List.mem_singleton.mp hjob
          exact hget
        left := h.left
        shown := h.shown
        unpolled := fun _ => h.unpolled (by rw [hpc]; rfl)
        gui := h.gui
        result := fun _ _ => (Bool.and_true _).symm }
  | @get job rest hpc hget =>
      exact {
        futures := by
          intro hthrew job' hjob'
          have hbefore := h.futures hthrew
          rw [hpc] at hbefore
          by_cases hsame : job' = job
          · exact hsame ▸ hget
          · refine hbefore job' ((List.mem_cons.mp hjob').elim (fun hgui => ?_) fun hjoined => ?_)
            · exact hgui ▸ List.mem_cons_self
            · simp only [List.mem_filter, decide_eq_true_eq] at hjoined
              refine List.mem_cons_of_mem _ (List.mem_filter.mpr ⟨hjoined.1, ?_⟩)
              simpa [hsame] using hjoined.2
        left := h.left
        shown := h.shown
        unpolled := fun _ => h.unpolled (by rw [hpc]; rfl)
        gui := h.gui
        result := by
          intro hthrew _
          have hbefore := h.result hthrew
          rw [hpc] at hbefore
          exact hbefore List.mem_cons_self }
  | poll hpc => exact h.poll hpc

/-- A job has ended: nobody has got its future yet. -/
theorem Reported.finish (hsound : Sound s) (h : Reported s) {w : Fin n} {threw success : Bool}
    {ticket : Ticket Job} (hruns : s.pool.workers w = .running ticket)
    (hmay : s.mayEnd threw success ticket.task = true) :
    Reported { s.afterJob threw success ticket.task with
      pool := { s.pool.setWorker w .ready with
        finished := s.pool.finished ++ [(ticket, threw)] } } := by
  have hnone := hsound.future_of_running hruns
  have hfuture := future_finished (s := s) (t := { s.afterJob threw success ticket.task with
    pool := { s.pool.setWorker w .ready with
      finished := s.pool.finished ++ [(ticket, threw)] } }) rfl
  have hgot {job : Job} (hjob : s.future job = some false) :
      (s.future job).or (if ticket.task = job then some threw else none) = some false := by
    rw [hjob, Option.some_or]
  obtain ⟨number, job⟩ := ticket
  cases job with
  | sql =>
      exact {
        futures := fun hthrew job hjob => (hfuture job).trans (hgot (h.futures hthrew job hjob))
        left := by
          simp only [afterJob, Bool.or_eq_true]
          exact Or.imp_left h.left
        shown := fun hshown => by simp [afterJob, h.shown hshown]
        unpolled := by
          simp only [afterJob, Bool.or_eq_true]
          rintro hpolled (hany | hfails)
          · exact (h.unpolled hpolled hany).imp_left .inl
          · exact .inl (.inr hfails)
        gui := by
          rw [hfuture, if_neg (by simp), Option.or_none]
          exact h.gui
        result := by
          intro hthrew hgui
          cases hpolled : s.pc.polled with
          | false =>
              have hresult := h.result hthrew hgui
              rw [hpolled] at hresult
              simpa [afterJob, hpolled] using hresult
          | true =>
              have hsql := h.futures hthrew .sql (mem_collected_of_polled hpolled _)
              rw [hnone] at hsql
              cases hsql }
  | messaging | asyncIo =>
      exact { h with
        futures := fun hthrew job hjob => (hfuture job).trans (hgot (h.futures hthrew job hjob))
        gui := by
          rw [hfuture, if_neg (by simp), Option.or_none]
          exact h.gui }
  | gui =>
      exact { h with
        futures := fun hthrew job hjob => (hfuture job).trans (hgot (h.futures hthrew job hjob))
        gui := by
          rw [hfuture, hnone, if_pos rfl, Option.none_or]
          rintro ⟨⟩ hsuccess
          replace hsuccess : success = true := hsuccess
          have hshown : s.guiFailed = false := by simpa [mayEnd, hsuccess] using hmay
          exact hshown
        result := by
          intro hthrew hgui
          have hget := h.futures hthrew .gui hgui
          rw [hnone] at hget
          cases hget }

theorem Reported.does (hsound : Sound s) (h : Reported s) (hdoes : Does s l t) : Reported t := by
  cases hdoes with
  | main hstep => exact h.main hstep
  | notifyOne hpc _ _ | notifyNobody hpc _ _ =>
      exact h.stay rfl rfl rfl rfl rfl rfl rfl (by rw [hpc]; rfl) (by rw [hpc]; rfl)
  | lock hcreated hready =>
      exact h.stay (lock_frame _ _).2.2.2.2.1 rfl rfl rfl rfl rfl rfl rfl rfl
  | wakeSpuriously hasleep => exact h.stay rfl rfl rfl rfl rfl rfl rfl rfl rfl
  | finish hruns hmay => exact h.finish hsound hruns hmay
  | storageError hruns =>
      exact { h with
        left := fun _ => rfl
        shown := fun _ => rfl
        unpolled := fun _ _ => .inl rfl
        result := by
          intro hthrew hgui
          cases hpolled : s.pc.polled with
          | false =>
              have hresult := h.result hthrew hgui
              rw [hpolled] at hresult
              exact hresult
          | true =>
              have hsql := h.futures hthrew .sql (mem_collected_of_polled hpolled _)
              rw [hsound.future_of_runs hruns] at hsql
              cases hsql }
  | guiPoll hruns hfailed =>
      have hnone := hsound.future_of_runs hruns
      exact { h with
        left := nofun
        shown := fun _ => h.left hfailed
        unpolled := fun _ _ => .inr rfl
        gui := by
          intro hget
          replace hget : s.future .gui = some false := hget
          rw [hnone] at hget
          cases hget }
  | guiStops hruns hfirst => exact h.stay rfl rfl rfl rfl rfl rfl rfl rfl rfl

theorem reported_of_exec {ls : List (Label n)} (hrun : (machine n).exec (initial n) ls = some s) :
    Reported s :=
  (Machine.invariant (fun s => Sound s ∧ Reported s)
    (fun _ _ _ hs hstep => ⟨hs.1.does (does_of_step hstep), hs.2.does hs.1 (does_of_step hstep)⟩)
    ⟨ls, hrun⟩ ⟨sound_initial, reported_initial⟩).2

/-! ### When the main thread has left -/

theorem Sound.exited_or_unstarted (h : Sound s) (hpc : s.pc = .returned) (w : Fin n) :
    s.pool.workers w = .exited ∨ s.created ≤ w.val ∧ s.pool.workers w = .ready := by
  have hplace : s.At .returned := hpc ▸ h.place
  rcases lt_or_ge w.val s.created with hcreated | hlate
  · exact .inl (isExited_iff.mp (hplace w hcreated))
  · exact .inr ⟨hlate, h.unstarted w hlate⟩

theorem Sound.not_running (h : Sound s) (hpc : s.pc = .returned) (w : Fin n)
    (ticket : Ticket Job) : s.pool.workers w ≠ .running ticket := by
  intro hruns
  rcases h.exited_or_unstarted hpc w with hexited | ⟨-, hready⟩
  · rw [hexited] at hruns
    cases hruns
  · rw [hready] at hruns
    cases hruns

/-- No thread is left that could take a step. -/
theorem Sound.no_step (h : Sound s) (hpc : s.pc = .returned) (l : Label n) :
    (machine n).step s l = none := by
  have hruns (w : Fin n) (job : Job) : s.runs w job ≠ true := fun hruns => by
    obtain ⟨ticket, hworker, -⟩ := runs_iff.mp hruns
    exact h.not_running hpc w ticket hworker
  refine Option.eq_none_iff_forall_ne_some.mpr fun t hstep => ?_
  cases does_of_step hstep with
  | main hmain =>
      cases hmain <;> simp_all
  | notifyOne hnotifying _ _ | notifyNobody hnotifying _ _ =>
      rw [hpc] at hnotifying
      cases hnotifying
  | @lock w hcreated hready =>
      rcases h.exited_or_unstarted hpc w with hexited | ⟨hlate, -⟩
      · rw [hexited] at hready
        cases hready
      · exact absurd hcreated (not_lt.mpr hlate)
  | @wakeSpuriously w hasleep =>
      rcases h.exited_or_unstarted hpc w with hexited | ⟨-, hready⟩
      · rw [hexited] at hasleep
        cases hasleep
      · rw [hready] at hasleep
        cases hasleep
  | finish hworker _ => exact h.not_running hpc _ _ hworker
  | storageError hworker => exact hruns _ _ hworker
  | guiPoll hworker _ => exact hruns _ _ hworker
  | guiStops hworker _ => exact hruns _ _ hworker

/-- Every job that was given to the pool has run to its end, once. -/
theorem Sound.finished_perm (hn : 0 < n) (h : Sound s) (hpc : s.pc = .returned) :
    (s.pool.finished.map fun f => f.1.task).Perm (jobs.take s.enqueued) := by
  have hperm : (s.pool.finished.map Prod.fst).Perm s.pool.accepted := by
    rcases h.full with hnothing | hcreated
    · have hempty : s.pool.accepted = [] := by
        have haccepted := h.accepted
        rw [hnothing] at haccepted
        exact List.map_eq_nil_iff.mp haccepted
      have hfinished : s.pool.finished.map Prod.fst = [] :=
        List.eq_nil_iff_forall_not_mem.mpr fun ticket hticket => by
          have hmem := h.started_accepted (h.accounted.finished_started ticket hticket)
          rw [hempty] at hmem
          cases hmem
      rw [hempty, hfinished]
    · refine (h.accounted.drained hn fun w => ?_).2
      rcases h.exited_or_unstarted hpc w with hexited | ⟨hlate, -⟩
      · exact hexited
      · exact absurd w.isLt (not_lt.mpr (hcreated.ge.trans hlate))
  show (s.pool.finished.map (Ticket.task ∘ Prod.fst)).Perm _
  rw [← h.accepted, ← List.map_map]
  exact hperm.map Ticket.task

theorem Reported.exitCode_eq_zero_iff (h : Reported s) (hpc : s.pc = .returned) :
    s.exitCode = 0 ↔ s.threw = false ∧ s.guiSuccess = true ∧ s.anyFailed = false := by
  cases hthrew : s.threw with
  | true => simp [exitCode, hthrew]
  | false =>
      have hresult := h.result hthrew (mem_collected_of_polled (by rw [hpc]; rfl) _)
      rw [hpc, show MainPc.returned.polled = true from rfl, Bool.true_and] at hresult
      simp [exitCode, hthrew, hresult]

/-- On every way out of `RunApplication` the jobs are over before what they use is destroyed:
each that was accepted has run to its end once, and no thread of the pool takes a step any more.
The exit code is that of success exactly if nothing was thrown, the GUI succeeded and no result
of the storage service was a failure, whoever got it. -/
theorem jobs_end_before_their_components (hn : 0 < n) {ls : List (Label n)}
    (hrun : (machine n).exec (initial n) ls = some s) (hpc : s.pc = .returned) :
    (∀ l, (machine n).step s l = none) ∧
      (s.pool.finished.map fun f => f.1.task).Perm (jobs.take s.enqueued) ∧
      (s.threw = false → ∀ job, s.future job = some false) ∧
      (s.exitCode = 0 ↔ s.threw = false ∧ s.guiSuccess = true ∧ s.anyFailed = false) := by
  have hsound := sound_of_exec hrun
  have hreported := reported_of_exec hrun
  refine ⟨hsound.no_step hpc, hsound.finished_perm hn hpc, fun hthrew job => ?_,
    hreported.exitCode_eq_zero_iff hpc⟩
  exact hreported.futures hthrew job (mem_collected_of_polled (by rw [hpc]; rfl) job)

/-- The window is closed, and only then a command that was still queued fails. -/
def lateFailureRun : List (Label 4) :=
  heldRun 4 ++ ([.finish 3 false true, .storageError 0] : List (Label 4)) ++
    List.replicate 4 (.main false) ++
    ([.finish 0 false true, .finish 1 false true, .finish 2 false true] : List (Label 4)) ++
    List.replicate 7 (.main false) ++
    ([.lock 0, .lock 1, .lock 2, .lock 3] : List (Label 4)) ++ List.replicate 5 (.main false)

theorem jobs_end_before_their_components_lateFailure :
    ∃ s, (machine 4).exec (initial 4) lateFailureRun = some s ∧ s.pc = .returned ∧
      (∀ l, (machine 4).step s l = none) ∧ s.guiSuccess = true ∧ s.exitCode ≠ 0 := by
  have hend : ((machine 4).exec (initial 4) lateFailureRun).map
      (fun s => (s.pc, s.guiSuccess, s.anyFailed)) = some (.returned, true, true) := by
    decide +kernel
  obtain ⟨s, hrun, hfacts⟩ := Option.map_eq_some_iff.mp hend
  simp only [Prod.mk.injEq] at hfacts
  obtain ⟨hpc, hsuccess, hany⟩ := hfacts
  obtain ⟨hrest, -, -, hexit⟩ := jobs_end_before_their_components (by decide) hrun hpc
  refine ⟨s, hrun, hpc, hrest, hsuccess, fun hzero => ?_⟩
  rw [(hexit.mp hzero).2.2] at hany
  cases hany

end DesktopRun

end Watchlist.Application
