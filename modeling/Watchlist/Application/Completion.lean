import Watchlist.Application.DesktopRun
import Watchlist.Concurrency.WorkConservation

/-!
The desktop application comes to its end. Three of its jobs run until they are asked to stop, by
a main thread that waits for the fourth: with a worker for each of the four somebody can always
go on, with fewer the GUI may wait in the queue for ever. That it does not go on for ever either
is shown by a weight of what is left, which every step of a thread makes smaller.
-/

namespace Watchlist.Application

open Transition Concurrency

/-- No fewer than the steps that the main thread has still to take. -/
def MainPc.rank (n created enqueued : ℕ) : MainPc → ℕ
  | .starting => 2 * n + 24
  | .creating => n + 23 + (n - created)
  | .notifying => n + 15 + 2 * (4 - enqueued)
  | .enqueueing => n + 14 + 2 * (4 - enqueued)
  | .emitting => n + 13
  | .awaiting => n + 12
  | .stoppingStorage => n + 11
  | .stoppingMessaging => n + 10
  | .stoppingLoop => n + 9
  | .getting rest => n + 5 + rest.length
  | .polling => n + 4
  | .settingStop => n + 3
  | .notifyingAll => n + 2
  | .joining worker => n - worker + 1
  | .returned => 0

namespace DesktopRun

variable {n : ℕ} {s t : DesktopRun n} {l : Label n}

/-! ### Somebody can go on -/

/-- Whether the job has been asked to end; the window may be closed at any time. -/
def asked (s : DesktopRun n) : Job → Bool
  | .sql => s.storageStop
  | .messaging => s.messagingStop
  | .asyncIo => s.loopStop
  | .gui => true

/-- Nothing fails, nobody wakes up by itself, and no job ends before it is asked to. -/
def orderly (s : DesktopRun n) : Label n → Bool
  | .main fails => !fails
  | .notifyOne _ | .notifyNobody | .lock _ => true
  | .finish w threw _ =>
      match s.pool.workers w with | .running t => !threw && s.asked t.task | _ => false
  | .wakeSpuriously _ | .storageError _ | .guiPoll _ | .guiStops _ => false

def GoesOn (s : DesktopRun n) : Prop :=
  ∃ l t, s.orderly l = true ∧ (machine n).step s l = some t

theorem goesOn_of_isSome {l : Label n} (horderly : s.orderly l = true)
    (h : (s.step l).isSome = true) : s.GoesOn := by
  obtain ⟨t, ht⟩ := Option.isSome_iff_exists.mp h
  exact ⟨l, t, horderly, ht⟩

theorem goesOn_main (h : (s.advance false).isSome = true) : s.GoesOn :=
  goesOn_of_isSome (l := .main false) rfl h

theorem goesOn_lock {w : Fin n} (hcreated : w.val < s.created)
    (hready : s.pool.workers w = .ready) : s.GoesOn := by
  have hisReady : s.pool.isReady w = true := by rw [ThreadPoolManager.isReady, hready]
  exact goesOn_of_isSome (l := .lock w) rfl
    (by simp [step, hcreated, ThreadPoolManager.step, allow, hisReady])

/-- A job that is asked to end can do so. -/
theorem goesOn_finish {w : Fin n} {ticket : Ticket Job}
    (hruns : s.pool.workers w = .running ticket) (hasked : s.asked ticket.task = true) :
    s.GoesOn := by
  have hmay : s.mayEnd false (!s.guiFailed) ticket.task = true := by
    cases hjob : ticket.task <;> simp_all [mayEnd, asked]
  exact goesOn_of_isSome (l := .finish w false (!s.guiFailed)) (by simp [orderly, hruns, hasked])
    (by simp [step, hruns, hmay, ThreadPoolManager.step])

theorem AllStopped.asked (h : s.AllStopped) (job : Job) : s.asked job = true := by
  cases job with
  | sql => exact h.storage
  | messaging => exact h.messaging
  | asyncIo => exact h.loop
  | gui => rfl

/-- A job that the main thread waits for runs, or a worker is on its way to the queue. -/
theorem Sound.goesOn_of_awaited (hn : 4 ≤ n) (h : Sound s) {pc : MainPc} (hpc : s.pc = pc)
    (hones : pc.notifyOnes = 0) (hcreated : s.created = n) (henqueued : s.enqueued = 4) {job : Job}
    (hasked : s.asked job = true) (hnone : s.future job = none) : s.GoesOn := by
  have haccepted : s.pool.accepted.map Ticket.task = jobs := by rw [h.accepted, henqueued]; rfl
  obtain ⟨ticket, hticket, rfl⟩ : ∃ ticket ∈ s.pool.accepted, ticket.task = job := by
    refine List.mem_map.mp (haccepted ▸ ?_)
    cases job <;> decide
  rw [h.accounted.queue] at hticket
  rcases List.mem_append.mp hticket with hstarted | hqueued
  · rcases h.accounted.started ticket hstarted with hfinished | ⟨w, hruns⟩
    · exact absurd rfl (future_eq_none_iff.mp hnone ticket hfinished)
    · exact goesOn_finish hruns hasked
  · have hlength : s.pool.accepted.length = 4 := by
      simpa [jobs] using congrArg List.length haccepted
    obtain ⟨w, hready⟩ := ThreadPoolManager.exists_ready_of_queued h.reaches (by omega)
      ((h.owes hpc).1.trans hones) hqueued
    exact goesOn_lock (w.isLt.trans_le hcreated.ge) hready

theorem Sound.goesOn_notifying (h : Sound s) (hpc : s.pc = .notifying) : s.GoesOn := by
  have hone : 0 < s.pool.notifyOnes := by
    rw [(h.owes hpc).1]
    exact Nat.one_pos
  by_cases hasleep : ∃ w, s.pool.isAsleep w = true
  · obtain ⟨w, hw⟩ := hasleep
    exact goesOn_of_isSome (l := .notifyOne w) rfl
      (by simp [step, hpc, ThreadPoolManager.step, allow, hone, hw])
  · have hnobody : ∀ w, s.pool.isAsleep w = false := by simpa using hasleep
    exact goesOn_of_isSome (l := .notifyNobody) rfl
      (by simp [step, hpc, ThreadPoolManager.step, allow, hone, hnobody])

/-- The worker that is joined has left, or is awake and has nothing to wait for. -/
theorem Sound.goesOn_joining (h : Sound s) {worker : ℕ} (hpc : s.pc = .joining worker) :
    s.GoesOn := by
  obtain ⟨hstopped, -⟩ : s.At (.joining worker) := hpc ▸ h.place
  by_cases hmore : worker < s.created
  · have hworker : worker < n := hmore.trans_le h.created
    have hstop : s.pool.stop = true := h.stop true (by rw [hpc]; rfl)
    cases hw : s.pool.workers ⟨worker, hworker⟩ with
    | ready => exact goesOn_lock hmore hw
    | asleep =>
        have hwakeable := ThreadPoolManager.wakeable_of_reaches (Nat.zero_lt_of_lt hworker)
          h.reaches
        rcases hwakeable.stop hstop with halls | hnobody
        · rw [(h.owes hpc).2] at halls
          exact absurd halls (lt_irrefl 0)
        · exact absurd hw (hnobody _)
    | running ticket =>
        rcases hstopped with hnothing | hall
        · have hmem := h.started_accepted (h.accounted.running _ ticket hw).1
          have haccepted := h.accepted
          rw [hnothing] at haccepted
          rw [List.map_eq_nil_iff.mp haccepted] at hmem
          cases hmem
        · exact goesOn_finish hw (hall.asked _)
    | exited =>
        have hexited : ∀ w : Fin n, w.val = worker → s.isExited w = true := by
          rintro w rfl
          exact isExited_iff.mpr hw
        exact goesOn_main (by simpa [advance, hpc, hmore, allow] using hexited)
  · exact goesOn_main (by simp [advance, hpc, hmore])

/-- Four workers are enough: as long as the main thread has not left, some thread can go on
without a failure, a spurious wake-up, or a job that ends before it is asked to. -/
theorem somebody_goes_on (hn : 4 ≤ n) {ls : List (Label n)}
    (hrun : (machine n).exec (initial n) ls = some s) (hpc : s.pc ≠ .returned) : s.GoesOn := by
  have h := sound_of_exec hrun
  have hplace := h.place
  cases hat : s.pc with
  | starting | emitting | stoppingStorage | stoppingMessaging | stoppingLoop | polling
  | settingStop =>
      exact goesOn_main (by simp [advance, hat, ThreadPoolManager.step])
  | creating => exact goesOn_main (by by_cases hmore : s.created < n <;> simp [advance, hat, hmore])
  | enqueueing =>
      cases hjob : jobs[s.enqueued]? with
      | none => exact goesOn_main (by simp [advance, hat, hjob])
      | some job => exact goesOn_main (by simp [advance, hat, hjob, ThreadPoolManager.step])
  | notifying => exact h.goesOn_notifying hat
  | awaiting =>
      obtain ⟨hcreated, henqueued, -⟩ : s.At .awaiting := hat ▸ hplace
      cases hget : s.future .gui with
      | none => exact h.goesOn_of_awaited hn hat rfl hcreated henqueued rfl hget
      | some threw => exact goesOn_main (by simp [advance, hat, hget])
  | getting rest =>
      obtain ⟨hcreated, henqueued, -, hall⟩ : s.At (.getting rest) := hat ▸ hplace
      cases rest with
      | nil => exact goesOn_main (by simp [advance, hat])
      | cons job rest =>
          cases hget : s.future job with
          | none => exact h.goesOn_of_awaited hn hat rfl hcreated henqueued (hall.asked job) hget
          | some threw => exact goesOn_main (by simp [advance, hat, hget])
  | notifyingAll =>
      have hone : 0 < s.pool.notifyAlls := by
        rw [(h.owes hat).2]
        exact Nat.one_pos
      exact goesOn_main (by simp [advance, hat, ThreadPoolManager.step, allow, hone])
  | joining worker => exact h.goesOn_joining hat
  | returned => exact absurd hat hpc

/-- While jobs that nobody has asked to end hold all the workers, the GUI is not run. -/
theorem not_goesOn_of_held (hpc : s.pc = .awaiting) (hnone : s.future .gui = none)
    (hheld : ∀ w, ∃ job, s.runs w job = true ∧ s.asked job = false) : ¬s.GoesOn := by
  rintro ⟨l, t, horderly, hstep⟩
  cases does_of_step hstep with
  | main hmain =>
      cases hmain <;> simp_all
  | notifyOne hnotifying _ _ | notifyNobody hnotifying _ _ =>
      rw [hpc] at hnotifying
      cases hnotifying
  | @lock w _ hready =>
      obtain ⟨job, hruns, -⟩ := hheld w
      obtain ⟨ticket, hworker, -⟩ := runs_iff.mp hruns
      rw [hready] at hworker
      cases hworker
  | @finish w threw success ticket hworker _ =>
      obtain ⟨job, hruns, hunasked⟩ := hheld w
      obtain ⟨ticket', hworker', rfl⟩ := runs_iff.mp hruns
      simp [orderly, hworker', hunasked] at horderly
  | wakeSpuriously _ | storageError _ => cases horderly
  | guiPoll _ _ | guiStops _ _ => cases horderly

theorem heldRun_blocks (hn : 0 < n) (hfew : n < 4) :
    ∃ s, (machine n).exec (initial n) (heldRun n) = some s ∧ s.pc = .awaiting ∧ ¬s.GoesOn := by
  have hend : ((machine n).exec (initial n) (heldRun n)).map (fun s => (s.pc, s.future .gui,
      (List.finRange n).all fun w => jobs.any fun job => s.runs w job && !s.asked job)) =
        some (.awaiting, none, true) := by
    interval_cases n <;> decide +kernel
  obtain ⟨s, hrun, hfacts⟩ := Option.map_eq_some_iff.mp hend
  simp only [Prod.mk.injEq, List.all_eq_true, List.any_eq_true, Bool.and_eq_true,
    Bool.not_eq_true'] at hfacts
  obtain ⟨hpc, hnone, hheld⟩ := hfacts
  refine ⟨s, hrun, hpc, not_goesOn_of_held hpc hnone fun w => ?_⟩
  obtain ⟨job, -, hjob⟩ := hheld w (List.mem_finRange w)
  exact ⟨job, hjob⟩

/-- That in every state some thread can go on, until the main thread has left, takes exactly as
many workers as there are jobs. -/
theorem goes_on_iff_four_workers (hn : 0 < n) :
    (∀ (ls : List (Label n)) (s : DesktopRun n), (machine n).exec (initial n) ls = some s →
      s.pc ≠ .returned → s.GoesOn) ↔ 4 ≤ n := by
  constructor
  · intro hgoes
    by_contra hfew
    obtain ⟨s, hrun, hpc, hblocked⟩ := heldRun_blocks hn (not_le.mp hfew)
    exact hblocked (hgoes (heldRun n) s hrun (by rw [hpc]; rintro ⟨⟩))
  · exact fun hfour _ _ hrun hpc => somebody_goes_on hfour hrun hpc

theorem goes_on_iff_four_workers_held :
    ∃ s, (machine 4).exec (initial 4) (heldRun 4) = some s ∧ s.pc = .awaiting ∧ s.GoesOn := by
  have hend : ((machine 4).exec (initial 4) (heldRun 4)).map (fun s => s.pc) = some .awaiting := by
    decide +kernel
  obtain ⟨s, hrun, hpc⟩ := Option.map_eq_some_iff.mp hend
  have hgoes := (goes_on_iff_four_workers (n := 4) (by decide)).mpr le_rfl
  exact ⟨s, hrun, hpc, hgoes (heldRun 4) s hrun (by rw [hpc]; rintro ⟨⟩)⟩

/-! ### The run comes to its end -/

/-- What a worker has still to do with what it has. -/
def toDo : WorkerPc Job → ℕ
  | .running _ => 2
  | .ready => 1
  | .asleep | .exited => 0

/-- What all workers have still to do. A notification may send one of them back to the queue. -/
def load (p : ThreadPoolManager n Job) : ℕ :=
  p.weigh toDo + 2 * p.tasks.length + 2 * p.notifyOnes

theorem load_enqueue (p : ThreadPoolManager n Job) (job : Job) :
    load (p.enqueue job) ≤ load p + 4 := by
  unfold ThreadPoolManager.enqueue
  split
  · exact Nat.le_add_right _ _
  · show p.weigh toDo + 2 * (p.tasks ++ [_]).length + 2 * (p.notifyOnes + 1) ≤ _
    rw [List.length_append, List.length_singleton, load]
    omega

theorem load_wakeAll (p : ThreadPoolManager n Job) (m : ℕ) :
    load { p.wakeAll with notifyAlls := m } ≤ load p + n := by
  have hworkers : p.wakeAll.weigh toDo ≤ p.weigh toDo + n := by
    have hsum : ∑ w, toDo (p.wakeAll.workers w) ≤ ∑ w, (toDo (p.workers w) + 1) := by
      refine Finset.sum_le_sum fun w _ => ?_
      simp only [ThreadPoolManager.wakeAll]
      cases p.workers w <;> simp [toDo]
    rwa [Finset.sum_add_distrib, Finset.sum_const, Finset.card_univ, Fintype.card_fin,
      smul_eq_mul, mul_one] at hsum
  show p.wakeAll.weigh toDo + 2 * p.tasks.length + 2 * p.notifyOnes ≤ _
  rw [load]
  omega

/-- A worker that looks at the queue falls asleep, leaves or takes a job. -/
theorem load_lock {p : ThreadPoolManager n Job} {w : Fin n} (hready : p.workers w = .ready) :
    load (p.lock w) < load p := by
  have hworker (pc : WorkerPc Job) :
      (p.setWorker w pc).weigh toDo + 1 = p.weigh toDo + toDo pc := by
    have hsum := p.weigh_setWorker toDo w pc
    rwa [hready] at hsum
  unfold ThreadPoolManager.lock
  split
  · split
    · have hexited : (p.setWorker w .exited).weigh toDo + 1 = p.weigh toDo := hworker .exited
      show (p.setWorker w .exited).weigh toDo + 2 * p.tasks.length + 2 * p.notifyOnes < _
      rw [load]
      omega
    · have hasleep : (p.setWorker w .asleep).weigh toDo + 1 = p.weigh toDo := hworker .asleep
      show (p.setWorker w .asleep).weigh toDo + 2 * p.tasks.length + 2 * p.notifyOnes < _
      rw [load]
      omega
  · rename_i ticket rest htasks
    have hruns : (p.setWorker w (.running ticket)).weigh toDo + 1 = p.weigh toDo + 2 :=
      hworker (.running ticket)
    show (p.setWorker w (.running ticket)).weigh toDo + 2 * rest.length + 2 * p.notifyOnes < _
    rw [load, htasks, List.length_cons]
    omega

theorem load_finish {p : ThreadPoolManager n Job} {w : Fin n} {ticket : Ticket Job}
    (hruns : p.workers w = .running ticket) (finished : List (Ticket Job × Bool)) :
    load { p.setWorker w .ready with finished := finished } < load p := by
  have hworker : (p.setWorker w .ready).weigh toDo + 2 = p.weigh toDo + 1 := by
    have hsum := p.weigh_setWorker toDo w .ready
    rwa [hruns] at hsum
  show (p.setWorker w .ready).weigh toDo + 2 * p.tasks.length + 2 * p.notifyOnes < _
  rw [load]
  omega

theorem load_notifyOne {p : ThreadPoolManager n Job} {w : Fin n} (hasleep : p.workers w = .asleep) :
    load { p.setWorker w .ready with notifyOnes := p.notifyOnes - 1 } ≤ load p + 1 := by
  have hworker : (p.setWorker w .ready).weigh toDo = p.weigh toDo + 1 := by
    have hsum := p.weigh_setWorker toDo w .ready
    rwa [hasleep] at hsum
  show (p.setWorker w .ready).weigh toDo + 2 * p.tasks.length + 2 * (p.notifyOnes - 1) ≤ _
  rw [load]
  omega

def rank (s : DesktopRun n) : ℕ := s.pc.rank n s.created s.enqueued

/-- No fewer than the steps that all threads have still to take. -/
def left (s : DesktopRun n) : ℕ := s.rank * (n + 5) + load s.pool

/-- What a step of the main thread gives the workers to do is less than what it is worth. -/
theorem left_lt_of_rank (hrank : t.rank < s.rank) (hload : load t.pool ≤ load s.pool + n + 4) :
    t.left < s.left := by
  have hworth := Nat.mul_le_mul_right (n + 5) (Nat.succ_le_of_lt hrank)
  rw [Nat.succ_mul] at hworth
  show t.rank * (n + 5) + load t.pool < s.rank * (n + 5) + load s.pool
  omega

theorem rank_lt_of_main (h : Sound s) (hstep : MainStep s t) : t.rank < s.rank := by
  have hcreated := h.created
  cases hstep with
  | enqueue hpc hjob =>
      have hfew : s.enqueued < 4 := (List.getElem?_eq_some_iff.mp hjob).1
      simp only [rank, hpc, MainPc.rank]
      omega
  | create hpc hmore =>
      simp only [rank, hpc, MainPc.rank]
      omega
  | stopLoop hpc hthrew =>
      simp only [rank, hpc, MainPc.rank, joinedJobs, List.length_cons, List.length_nil]
      omega
  | get hpc hget =>
      simp only [rank, goTo, hpc, MainPc.rank, List.length_cons]
      omega
  | join hpc hmore hexited =>
      simp only [rank, goTo, hpc, MainPc.rank]
      omega
  | start hpc | startFails hpc | emit hpc | stopStorage hpc | stopMessaging hpc | gotAll hpc
  | poll hpc | setStop hpc =>
      simp only [rank, goTo, throwTo, hpc, MainPc.rank]
      omega
  | createFails hpc _ | createdAll hpc _ | enqueueFails hpc _ | enqueuedAll hpc _
  | guiReturned hpc _ | guiThrew hpc _ | stopLoopThrew hpc _ | getThrew hpc _ | notifyAll hpc _
  | joinedAll hpc _ =>
      simp only [rank, goTo, throwTo, hpc, MainPc.rank]
      omega

theorem left_lt_of_main (h : Sound s) (hstep : MainStep s t) : t.left < s.left := by
  refine left_lt_of_rank (rank_lt_of_main h hstep) ?_
  cases hstep with
  | enqueue hpc hjob => exact (load_enqueue _ _).trans (by omega)
  | notifyAll hpc hall => exact (load_wakeAll _ _).trans (by omega)
  | _ => exact Nat.le_add_right_of_le (Nat.le_add_right _ _)

/-- A thread goes on with what it has to do, however that comes out. -/
def Label.advances : Label n → Bool
  | .main _ | .notifyOne _ | .notifyNobody | .lock _ | .finish _ _ _ => true
  | .wakeSpuriously _ | .storageError _ | .guiPoll _ | .guiStops _ => false

theorem left_lt_of_does (h : Sound s) (hl : l.advances = true) (hdoes : Does s l t) :
    t.left < s.left := by
  cases hdoes with
  | main hstep => exact left_lt_of_main h hstep
  | notifyOne hpc hone hasleep =>
      refine left_lt_of_rank ?_ ((load_notifyOne hasleep).trans (by omega))
      simp only [rank, hpc, MainPc.rank]
      omega
  | notifyNobody hpc hone hnobody =>
      refine left_lt_of_rank ?_ ?_
      · simp only [rank, hpc, MainPc.rank]
        omega
      · show s.pool.weigh toDo + 2 * s.pool.tasks.length + 2 * (s.pool.notifyOnes - 1) ≤ _
        rw [load]
        omega
  | lock hcreated hready => exact Nat.add_lt_add_left (load_lock hready) _
  | @finish w threw success ticket hruns hmay =>
      have hrank : (s.afterJob threw success ticket.task).rank = s.rank := by
        cases ticket.task <;> rfl
      show (s.afterJob threw success ticket.task).rank * (n + 5) + _ < s.rank * (n + 5) + _
      rw [hrank]
      exact Nat.add_lt_add_left (load_finish hruns _) _
  | wakeSpuriously _ | storageError _ => cases hl
  | guiPoll _ _ | guiStops _ _ => cases hl

/-- `RunApplication` comes to its end: as long as no worker wakes up by itself and what the jobs
do in between is not counted, every run has a bounded length, and until the main thread has left
some thread can go on, without a failure and with no job that ends before it is asked to. -/
theorem run_application_ends (hn : 4 ≤ n) {ls : List (Label n)}
    (hrun : (machine n).exec (initial n) ls = some s) :
    ∃ bound, ∀ (ls' : List (Label n)) (t : DesktopRun n), (machine n).exec s ls' = some t →
      (∀ l ∈ ls', l.advances = true) → ls'.length ≤ bound ∧ (t.pc = .returned ∨ t.GoesOn) := by
  refine ⟨s.left, fun ls' t hrest hadvances => ⟨?_, ?_⟩⟩
  · have hlength := Machine.length_add_le_of_lt left Label.advances Sound
      (fun _ _ _ hs hstep => hs.does (does_of_step hstep))
      (fun _ _ _ hs hl hstep => left_lt_of_does hs hl (does_of_step hstep)) (sound_of_exec hrun)
      hadvances hrest
    exact (Nat.le_add_right _ _).trans hlength
  · refine or_iff_not_imp_left.mpr fun hpc => ?_
    have hwhole : (machine n).exec (initial n) (ls ++ ls') = some t := by
      rw [Machine.exec_append, hrun, Option.bind_some, hrest]
    exact somebody_goes_on hn hwhole hpc

theorem run_application_ends_held :
    ∃ s bound, (machine 4).exec (initial 4) (heldRun 4) = some s ∧ s.pc = .awaiting ∧
      ∀ ls' t, (machine 4).exec s ls' = some t → (∀ l ∈ ls', l.advances = true) →
        ls'.length ≤ bound ∧ (t.pc = .returned ∨ t.GoesOn) := by
  have hend : ((machine 4).exec (initial 4) (heldRun 4)).map (fun s => s.pc) = some .awaiting := by
    decide +kernel
  obtain ⟨s, hrun, hpc⟩ := Option.map_eq_some_iff.mp hend
  obtain ⟨bound, hbound⟩ := run_application_ends (by decide) hrun
  exact ⟨s, bound, hrun, hpc, hbound⟩

end DesktopRun

end Watchlist.Application
