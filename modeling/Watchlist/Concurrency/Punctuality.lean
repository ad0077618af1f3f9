import Watchlist.Concurrency.DelayOrder

/-!
Whether a delayed callback can run early. The worker resumes what it has taken from
`delayed_tasks_` once the deadline is reached, stopped or not; what is left is the
deadline itself, which `enqueue_after` computes in 64 bits. A delay so long that the sum
leaves them has its deadline in the past, and the callback runs at once.
-/

namespace Watchlist.Concurrency

open Transition Threads

/-! ### What is stated of a loop -/

/-- A task that was delayed at the clock reading is resumed at the earliest time or later. -/
def ResumedFrom {σ ℓ : Type} (M : Machine σ ℓ) (view : σ → DelayView) (start : σ)
    (now delay earliest : ℤ) : Prop :=
  ∀ ls u l v d observed, M.exec start ls = some u → M.step u l = some v →
    .delayed d now delay ∈ (view u).history →
      (view v).history = (view u).history ++ [.resumed d.frame observed] →
        earliest ≤ (view u).now

/-- The deadline is not too early, and no loop resumes the task too early. -/
structure NotEarly (now delay : ℤ) : Prop where
  deadline : min (exactDeadline now delay) latestTime ≤ steadyDeadline now delay
  async : ∀ mode t, ResumedFrom (AsyncEventLoop.machine steadyDeadline) AsyncEventLoop.delayView
    (AsyncEventLoop.start mode t) now delay (min (exactDeadline now delay) latestTime)
  coroutine : ∀ t, ResumedFrom (EventLoopCoroutine.machine steadyDeadline)
    EventLoopCoroutine.delayView (EventLoopCoroutine.start t) now delay
      (min (exactDeadline now delay) latestTime)

namespace AsyncEventLoop

variable {deadlineOf : ℤ → ℤ → ℤ} {i k m : ℕ} {s s' : AsyncEventLoop} {a b : AsyncSection}
  {as : List AsyncSection} {choice : AsyncChoice} {u v : Threads AsyncEventLoop AsyncSection}
  {l : Threads.Label AsyncCall AsyncChoice} {d d' : DelayedTask}

/-! ### Where the tasks come from -/

/-- The task has come to be ready without a delay. -/
def Undelayed (s : AsyncEventLoop) (i : ℕ) : Prop := i ∈ s.queued ∨ i ∈ s.registered

/-- The task can be resumed: if it has been delayed, its deadline is reached. -/
def Ripe (s : AsyncEventLoop) (i : ℕ) : Prop :=
  Undelayed s i ∨ ∃ d ∈ s.delays, d.frame = i ∧ d.time ≤ s.now

theorem Undelayed.mono (h : Undelayed s i) (hgrows : Grows s s') : Undelayed s' i :=
  h.imp hgrows.mem hgrows.mem

theorem Ripe.mono (h : Ripe s i) (hgrows : Grows s s') : Ripe s' i := by
  rcases h with h | ⟨d, hd, hframe, hdue⟩
  · exact Or.inl (h.mono hgrows)
  · exact Or.inr ⟨d, hgrows.mem hd, hframe, hdue.trans hgrows.now⟩

/-- How the tasks have come into the lists of the loop. -/
structure Origins (s : AsyncEventLoop) : Prop where
  ready : ∀ i ∈ s.ready, Undelayed s i
  waiting : ∀ w ∈ s.waiters, Undelayed s w.frame
  delayed : ∀ d ∈ s.delayed.toList, d ∈ s.delays

theorem Origins.initial (mode : ExecutionMode) (now : ℤ) : Origins (initial mode now) :=
  ⟨fun _ h => absurd h List.not_mem_nil, fun _ h => absurd h List.not_mem_nil,
    fun _ h => absurd h List.not_mem_nil⟩

/-- What is in the lists after a step has been there before it, or has its origin in it. -/
theorem Origins.grow (h : Origins s) (hgrows : Grows s s')
    (hready : ∀ i ∈ s'.ready, i ∈ s.ready ∨ Undelayed s' i)
    (hwaiting : ∀ w ∈ s'.waiters, w ∈ s.waiters ∨ Undelayed s' w.frame)
    (hdelayed : ∀ d ∈ s'.delayed.toList, d ∈ s.delayed.toList ∨ d ∈ s'.delays) : Origins s' := by
  refine ⟨fun i hi => ?_, fun w hw => ?_, fun d hd => ?_⟩
  · exact (hready i hi).elim (fun hold => (h.ready i hold).mono hgrows) id
  · exact (hwaiting w hw).elim (fun hold => (h.waiting w hold).mono hgrows) id
  · exact (hdelayed d hd).elim (fun hold => hgrows.mem (h.delayed d hold)) id

theorem origins_enter (h : Origins s) (call : AsyncCall) : Origins (s.enter call).1 := by
  apply h.grow (grows_enter s call) <;>
    (cases call <;> exact fun _ hmem => Or.inl hmem)

theorem origins_run (hdoes : Does deadlineOf k s choice a s' as) (h : Origins s) : Origins s' := by
  have hgrows := grows_run hdoes
  cases hdoes with
  | @queue task hopen =>
      refine h.grow hgrows (fun i hi => ?_) (fun _ => Or.inl) (fun _ => Or.inl)
      refine (List.mem_append.mp hi).imp_right fun hi => Or.inl ?_
      rw [queued, flatMap_snoc (x := .queued task) rfl]
      exact List.mem_append_right _ hi
  | @delay task delay d hopen hd =>
      refine h.grow hgrows (fun _ => Or.inl) (fun _ => Or.inl) (fun d' hd' => ?_)
      refine (PriorityQueue.mem_push.mp hd').symm.imp_right ?_
      rintro rfl
      rw [delays, flatMap_snoc (x := .delayed d' s.now delay) rfl]
      exact List.mem_append_right _ List.mem_cons_self
  | @register task name hopen =>
      refine h.grow hgrows (fun _ => Or.inl) (fun w hw => ?_) (fun _ => Or.inl)
      refine (List.mem_append.mp hw).imp_right fun hw => Or.inr ?_
      rw [List.mem_singleton.mp hw, registered, flatMap_snoc (x := .registered task name) rfl]
      exact List.mem_append_right _ List.mem_cons_self
  | @emit event hopen =>
      refine h.grow hgrows (fun i hi => ?_) (fun w hw => Or.inl (List.mem_of_mem_filter hw))
        (fun _ => Or.inl)
      refine (List.mem_append.mp hi).imp_right fun hi => ?_
      -- who is released has waited
      obtain ⟨w, hw, rfl⟩ := List.mem_map.mp hi
      exact (h.waiting w (List.mem_of_mem_filter hw)).mono hgrows
  | close => exact h.grow hgrows (by rintro _ ⟨⟩) (by rintro _ ⟨⟩) (by rintro _ ⟨⟩)
  | takeReady hrunning htask =>
      exact h.grow hgrows (fun _ hi => Or.inl (List.mem_of_mem_dropLast hi)) (fun _ => Or.inl)
        (fun _ => Or.inl)
  | takeDelayed hrunning hready hd hdue =>
      exact h.grow hgrows (fun _ => Or.inl) (fun _ => Or.inl)
        (fun _ hd => Or.inl (List.mem_of_mem_tail hd))
  | calls call => exact origins_enter h call
  | _ => exact h.grow hgrows (fun _ => Or.inl) (fun _ => Or.inl) (fun _ => Or.inl)

/-! ### What the worker resumes -/

/-- What the worker has in hand can be resumed. -/
def RipeInHand (s : AsyncEventLoop) (a : AsyncSection) : Prop := ∀ i, 0 < carrying i a → Ripe s i

theorem ripe_enter (s : AsyncEventLoop) (call : AsyncCall) :
    ∀ b ∈ (s.enter call).2, RipeInHand s' b := by
  intro b hb i hi
  have hnone := (carrying_enter (i := i) s call).2.1
  have hle := List.le_sum_of_mem (List.mem_map_of_mem (f := carrying i) hb)
  omega

theorem ripe_run (hdoes : Does deadlineOf k s choice a s' as) (h : Origins s)
    (ha : RipeInHand s a) : ∀ b ∈ as, RipeInHand s b := by
  have hone {c : AsyncSection} (hc : ∀ i, carrying i c ≤ carrying i a) :
      ∀ b ∈ [c], RipeInHand s b := by
    intro b hb i hi
    rw [List.mem_singleton.mp hb] at hi
    exact ha i (hi.trans_le (hc i))
  have htake {task : ℕ} (htask : Ripe s task) : ∀ b ∈ [AsyncSection.lockBoundary task],
      RipeInHand s b := by
    intro b hb i hi
    rw [List.mem_singleton.mp hb] at hi
    simp only [carrying] at hi
    split at hi
    · rename_i heq
      exact heq ▸ htask
    · exact absurd hi (lt_irrefl 0)
  cases hdoes with
  | takeReady hrunning htask =>
      exact htake (Or.inl (h.ready _ (List.mem_of_getLast? htask)))
  | takeDelayed hrunning hready hd hdue =>
      exact htake (Or.inr ⟨_, h.delayed _ (PriorityQueue.mem_of_top hd), rfl, hdue⟩)
  | calls call hcall =>
      intro b hb
      rcases List.mem_append.mp hb with hb | hb
      · exact ripe_enter s call b hb
      · exact hone (fun _ => le_rfl) b hb
  | _ => first
    | exact fun b hb => absurd hb List.not_mem_nil
    | exact hone fun _ => le_rfl
    | exact hone fun _ => Nat.zero_le _

/-- All that is needed of a state, stopped or not. -/
structure OnTime (deadlineOf : ℤ → ℤ → ℤ) (u : Threads AsyncEventLoop AsyncSection) : Prop where
  admitted : ∀ i, Admitted i u
  timed : Timed deadlineOf u.shared
  origins : Origins u.shared
  ripe : ∀ a, u.Pending a → RipeInHand u.shared a

theorem OnTime.start (mode : ExecutionMode) (now : ℤ) : OnTime deadlineOf (start mode now) := by
  refine ⟨fun i => .start i mode now, .initial mode now, .initial mode now, ?_⟩
  rintro a ⟨k, hk⟩ i hi
  simp only [AsyncEventLoop.start] at hk
  split at hk
  · rw [List.mem_singleton.mp hk] at hi
    exact absurd hi (lt_irrefl 0)
  · cases hk

theorem OnTime.step (h : OnTime deadlineOf u) (hstep : (machine deadlineOf).step u l = some v) :
    OnTime deadlineOf v := by
  have hgrows := grows_step hstep
  have hold : ∀ a, u.Pending a → RipeInHand v.shared a :=
    fun a ha i hi => (h.ripe a ha i hi).mono hgrows
  refine ⟨fun i => (h.admitted i).step hstep, h.timed.step hstep, ?_, ?_⟩
  · cases Program.moves_of_step hstep with
    | enter hidle hcall =>
        obtain ⟨rfl, rfl⟩ := enter_eq hcall
        exact origins_enter h.origins _
    | advance hat hrun => exact origins_run (does_of_run hrun) h.origins
  · cases Program.moves_of_step hstep with
    | enter hidle hcall =>
        obtain ⟨rfl, rfl⟩ := enter_eq hcall
        exact forall_pending_enter (ripe_enter _ _) hold
    | advance hat hrun =>
        have hnew := ripe_run (does_of_run hrun) h.origins (h.ripe _ (pending_head hat))
        apply forall_pending_become hat (fun b hb i hi => (hnew b hb i hi).mono hgrows) hold

/-- A delayed task that can be resumed has reached its deadline. -/
theorem OnTime.due (h : OnTime deadlineOf u) (hd : d ∈ u.shared.delays)
    (hripe : Ripe u.shared d.frame) : d.time ≤ u.shared.now := by
  rcases hripe with hundelayed | ⟨d', hd', hframe, hdue⟩
  · -- a task that has been delayed is not admitted once more
    obtain ⟨m, _, hadmitted⟩ := h.admitted d.frame
    have hcreated := created_le d.frame u.shared
    have hdelayed : 0 < (u.shared.delays.map DelayedTask.frame).count d.frame :=
      List.count_pos_iff.mpr (List.mem_map_of_mem hd)
    have hother : 0 < u.shared.queued.count d.frame + u.shared.registered.count d.frame := by
      rcases hundelayed with hmem | hmem
      · exact Nat.add_pos_left (List.count_pos_iff.mpr hmem) _
      · exact Nat.add_pos_right _ (List.count_pos_iff.mpr hmem)
    rw [count_admitted] at hadmitted
    omega
  · rwa [← eq_of_frame h.admitted hd' hd hframe]

theorem OnTime.resumed {observed : Option Event} (h : OnTime deadlineOf u)
    (hstep : (machine deadlineOf).step u l = some v) (hd : d ∈ u.shared.delays)
    (hhistory : v.shared.history = u.shared.history ++ [.resumed d.frame observed]) :
    d.time ≤ u.shared.now := by
  obtain ⟨_, ha, rfl, _⟩ := recordedBy_step hstep hhistory
  exact h.due hd (h.ripe _ ha d.frame (by simp [carrying]))

/-- In every run, a delayed task is resumed at its deadline or later. -/
theorem resumedFrom_deadline (deadlineOf : ℤ → ℤ → ℤ) (mode : ExecutionMode) (t now delay : ℤ) :
    ResumedFrom (machine deadlineOf) delayView (start mode t) now delay (deadlineOf now delay) := by
  intro ls u l v d observed hrun hstep hmem hhistory
  have hontime : OnTime deadlineOf u := Machine.invariant (OnTime deadlineOf)
    (fun _ _ _ hu hv => hu.step hv) ⟨ls, hrun⟩ (.start mode t)
  rw [← (hontime.timed.clocks d now delay hmem).2]
  exact hontime.resumed hstep (mem_delays_iff.mpr ⟨now, delay, hmem⟩) hhistory

end AsyncEventLoop

theorem EventLoopCoroutine.resumedFrom_deadline (deadlineOf : ℤ → ℤ → ℤ) (t now delay : ℤ) :
    ResumedFrom (machine deadlineOf) delayView (start t) now delay (deadlineOf now delay) := by
  intro ls u l v d observed hrun hstep hmem hhistory
  exact AsyncEventLoop.resumedFrom_deadline deadlineOf .ownedThread t now delay _ _ _ _ d observed
    (exec_toAsync hrun) (Program.Embeds.step (f := embedding deadlineOf) hstep) hmem hhistory

/-! ### The deadline in 64 bits -/

/-- The sum of the clock reading and the delay keeps the callback from running early exactly
when it fits, or wraps round to the latest time itself. -/
theorem delayed_callback_not_early {now delay : ℤ} (hnow : 0 ≤ now) :
    NotEarly now delay ↔
      exactDeadline now delay ≤ latestTime ∨ exactDeadline now delay % 2 ^ 64 = latestTime := by
  rw [← le_steadyDeadline_iff hnow]
  constructor
  · exact NotEarly.deadline
  · intro hdeadline
    refine ⟨hdeadline, ?_, ?_⟩
    · intro mode t ls u l v d observed hrun hstep hmem hhistory
      exact hdeadline.trans (AsyncEventLoop.resumedFrom_deadline steadyDeadline mode t now delay
        ls u l v d observed hrun hstep hmem hhistory)
    · intro t ls u l v d observed hrun hstep hmem hhistory
      exact hdeadline.trans (EventLoopCoroutine.resumedFrom_deadline steadyDeadline t now delay
        ls u l v d observed hrun hstep hmem hhistory)

/-- A day is a delay that fits. -/
theorem delayed_callback_not_early_oneDay : NotEarly 0 86400000 :=
  (delayed_callback_not_early le_rfl).mpr (Or.inl (by decide))

/-- The longest delay there is, and a worker that has nothing else to do. -/
def longestDelay : List (Threads.Label CoroutineCall CoroutineChoice) :=
  [.enter 1 (.scheduleAfter (2 ^ 63 - 1)), .advance 1 .proceed, .advance 0 .proceed,
    .advance 0 .timesOut] ++ List.replicate 3 (.advance 0 .proceed)

/-- Its deadline is a millisecond before the clock reading, and the callback runs at once. -/
theorem delayed_callback_early :
    ¬∀ now delay, 0 ≤ now → now ≤ latestTime → -2 ^ 63 ≤ delay → delay < 2 ^ 63 →
      NotEarly now delay := by
  intro hall
  obtain ⟨u, v, hrun, hstep, hmem, hnow, hhistory⟩ :
      ∃ u v, (EventLoopCoroutine.machine steadyDeadline).exec (EventLoopCoroutine.start 0)
          longestDelay = some u ∧
        (EventLoopCoroutine.machine steadyDeadline).step u (.advance 0 .proceed) = some v ∧
        .delayed ⟨-1000000, 0, 0⟩ 0 (2 ^ 63 - 1) ∈ u.shared.history ∧ u.shared.now = 0 ∧
        v.shared.history = u.shared.history ++ [.resumed 0 none] :=
    ⟨_, _, rfl, rfl, by decide +kernel, rfl, by decide +kernel⟩
  have hearly := (hall 0 (2 ^ 63 - 1) (by decide) (by decide) (by decide) (by decide)).coroutine 0
    longestDelay u _ v ⟨-1000000, 0, 0⟩ none hrun hstep hmem hhistory
  change min (exactDeadline 0 (2 ^ 63 - 1)) latestTime ≤ u.shared.now at hearly
  rw [hnow] at hearly
  exact absurd hearly (by decide)

end Watchlist.Concurrency
