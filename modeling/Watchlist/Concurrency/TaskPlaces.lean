import Watchlist.Library.Weights
import Watchlist.Concurrency.AsyncSteps

/-!
Where the tasks of `AsyncEventLoop` are. A task that is pending is in exactly one place:
in one of the three lists of the loop, or in a section that some thread has still to run.
A settled task is nowhere, so nothing can settle or resume it again. Both are a balance
between the weight of the pending sections and what the loop holds, which each section
keeps.
-/

namespace Watchlist.Concurrency

namespace AsyncEventLoop

open Transition Threads

/-- How often a section has the task in hand. -/
def carries (i : ℕ) : AsyncSection → ℕ
  | .enqueueReady task | .enqueueAfter task _ | .enqueueEventWait task _ | .reject task
  | .lockBoundary task | .readStopping task | .cancelTaken task | .checkStatus task
  | .resume task | .inTask task => if task = i then 1 else 0
  | .cancelAll tasks => tasks.count i
  | _ => 0

/-- How often the task is in the lists of the loop. -/
def holds (i : ℕ) (s : AsyncEventLoop) : ℕ :=
  s.ready.count i + (s.delayed.toList.map DelayedTask.frame).count i +
    (s.waiters.map EventWaiter.frame).count i

/-- A task that has been created and is pending has to be in one place. -/
def owed (i : ℕ) (s : AsyncEventLoop) : ℕ :=
  if i < s.nextTask ∧ (s.states i).status = .pending then 1 else 0

def created (i : ℕ) (s : AsyncEventLoop) : ℕ := if i < s.nextTask then 1 else 0

def Happening.resumes (i : ℕ) : Happening → Bool
  | .resumed task _ => decide (task = i)
  | _ => false

/-- How often the task has been resumed, and so how often its callback has been entered. -/
def resumptions (i : ℕ) (s : AsyncEventLoop) : ℕ := s.history.countP (Happening.resumes i)

/-! ### Counting what the lists hold -/

theorem count_delayed_push (q : DelayedTasks) (d : DelayedTask) (i : ℕ) :
    ((q.push d).toList.map DelayedTask.frame).count i =
      (q.toList.map DelayedTask.frame).count i + if d.frame = i then 1 else 0 := by
  have hperm := (PriorityQueue.perm_push q d).map DelayedTask.frame
  rw [hperm.count_eq, List.map_cons, List.count_cons]
  simp

theorem count_delayed_pop {q : DelayedTasks} {d : DelayedTask} (h : q.top = some d) (i : ℕ) :
    (q.toList.map DelayedTask.frame).count i =
      (q.pop.toList.map DelayedTask.frame).count i + if d.frame = i then 1 else 0 := by
  rw [PriorityQueue.toList_of_top h, List.map_cons, List.count_cons]
  simp

theorem count_dropLast {l : List ℕ} {task : ℕ} (h : l.getLast? = some task) (i : ℕ) :
    l.count i = l.dropLast.count i + if task = i then 1 else 0 := by
  conv_lhs => rw [← List.dropLast_append_getLast? task h]
  rw [List.count_append, List.count_singleton]
  simp

theorem count_waiting (s : AsyncEventLoop) (name : Bytes) (i : ℕ) :
    (s.waiters.map EventWaiter.frame).count i =
      (s.waitingFor name).count i +
        ((s.waiters.filter (·.name ≠ name)).map EventWaiter.frame).count i := by
  have hperm := (List.filter_append_perm (·.name = name) s.waiters).map EventWaiter.frame
  rw [← hperm.count_eq, List.map_append, List.count_append]
  simp [waitingFor]

/-- Stopping takes up everything that the lists hold. -/
theorem count_cancelled (s : AsyncEventLoop) (i : ℕ) : s.cancelled.count i = s.holds i := by
  have hsorted := (List.perm_insertionSort (fun w w' => w.name ≤ w'.name) s.waiters).map
    EventWaiter.frame
  rw [cancelled, holds, List.count_append, List.count_append, hsorted.count_eq]
  omega

/-! ### What the pieces of a step do to the counts -/

@[simp] theorem holds_settle (i : ℕ) (s : AsyncEventLoop) (task : ℕ) (f : TaskState → TaskState) :
    holds i (s.settle task f) = holds i s := rfl

@[simp] theorem holds_create (i : ℕ) (s : AsyncEventLoop) (awaited : Option Event) :
    holds i (s.create awaited) = holds i s := rfl

theorem owed_le (i : ℕ) (s : AsyncEventLoop) : owed i s ≤ 1 := by
  unfold owed
  split <;> omega

theorem owed_settle {f : TaskState → TaskState} (hf : TaskState.Settles f) (i : ℕ)
    (s : AsyncEventLoop) (task : ℕ) :
    owed i (s.settle task f) = if task = i then 0 else owed i s := by
  by_cases hi : task = i
  · subst hi
    have hsettled := hf.ne_pending (s.states task)
    simp [owed, settle, hsettled]
  · simp only [owed, settle, Function.update_of_ne (Ne.symm hi), if_neg hi]

theorem owed_create (i : ℕ) (s : AsyncEventLoop) (awaited : Option Event) :
    owed i (s.create awaited) = owed i s + if s.nextTask = i then 1 else 0 := by
  by_cases hi : s.nextTask = i
  · subst hi
    simp [owed, create, TaskState.new]
  · have hlt : i < s.nextTask + 1 ↔ i < s.nextTask := by omega
    simp only [owed, create, Function.update_of_ne (Ne.symm hi), hlt, if_neg hi, Nat.add_zero]

theorem pending_of_owed {i : ℕ} {s : AsyncEventLoop} (h : 0 < owed i s) :
    i < s.nextTask ∧ (s.states i).status = .pending := by
  unfold owed at h
  split at h
  · assumption
  · exact absurd h (lt_irrefl 0)

/-- Whoever settles the task has it in hand and lets go of it. -/
theorem owed_settle_of_carried {f : TaskState → TaskState} (hf : TaskState.Settles f) {i n : ℕ}
    {s : AsyncEventLoop} {task : ℕ} (h : (if task = i then 1 else 0) + n = owed i s) :
    n = owed i (s.settle task f) := by
  have hle := owed_le i s
  rw [owed_settle hf]
  split at h
  · rename_i htask
    rw [if_pos htask]
    omega
  · rename_i htask
    rw [if_neg htask]
    omega

variable {deadlineOf : ℤ → ℤ → ℤ} {i k m : ℕ} {s s' : AsyncEventLoop} {a : AsyncSection}
  {as : List AsyncSection} {choice : AsyncChoice}

/-- A call puts a new task where it is owed. -/
theorem carries_enter (h : m + holds i s = owed i s) (call : AsyncCall) :
    ((s.enter call).2.map (carries i)).sum + m + holds i (s.enter call).1 =
      owed i (s.enter call).1 := by
  cases call with
  | schedule => simp [enter, carries, owed_create]; omega
  | scheduleAfter delay => simp [enter, carries, owed_create]; omega
  | waitForEvent name => simp [enter, carries, owed_create]; omega
  | emitEvent event => simpa [enter, carries] using h
  | stop => simpa [enter, carries] using h
  | runOnCallingThread =>
      simp only [enter]
      split
      · simpa [carries] using h
      · simpa using h
  | advanceClock nanoseconds =>
      simp only [enter, List.map_nil, List.sum_nil, Nat.zero_add]
      exact h

/-- A section hands its task on, puts it into a list or settles it. -/
theorem carries_run (hdoes : Does deadlineOf k s choice a s' as)
    (h : carries i a + m + holds i s = owed i s) :
    (as.map (carries i)).sum + m + holds i s' = owed i s' := by
  cases hdoes with
  | @queue task hopen =>
      have hready : (s.ready ++ [task]).count i = s.ready.count i + if task = i then 1 else 0 := by
        simp [List.count_singleton]
      change _ = owed i s
      simp only [carries, holds, hready, List.map_nil, List.sum_nil] at h ⊢
      omega
  | @delay task delay d hopen hd =>
      have hpush := count_delayed_push s.delayed d i
      have hframe : d.frame = task := by rw [hd]
      rw [hframe] at hpush
      change _ = owed i s
      simp only [carries, holds, hpush, List.map_nil, List.sum_nil] at h ⊢
      omega
  | @register task name hopen =>
      have hwaiters : ((s.waiters ++ [EventWaiter.mk name task]).map EventWaiter.frame).count i =
          (s.waiters.map EventWaiter.frame).count i + if task = i then 1 else 0 := by
        simp [List.count_singleton]
      change _ = owed i s
      simp only [carries, holds, hwaiters, List.map_nil, List.sum_nil] at h ⊢
      omega
  | refuse hclosed ha =>
      rcases ha with rfl | ⟨_, rfl⟩ | ⟨_, rfl⟩ <;> simpa [carries] using h
  | @emit event hopen =>
      have hsplit := count_waiting s event.name i
      change _ = owed i s
      simp only [carries, holds, List.map_nil, List.sum_nil, List.count_append] at h ⊢
      omega
  | close =>
      have htaken := count_cancelled s i
      change _ = owed i s
      simp only [carries, List.map_cons, List.map_nil, List.sum_cons, List.sum_nil, htaken] at h ⊢
      simpa [holds, Nat.add_comm] using h
  | @takeReady task hrunning htask =>
      have hlast := count_dropLast htask i
      change _ = owed i s
      simp only [carries, holds, List.map_cons, List.map_nil, List.sum_cons, List.sum_nil] at h ⊢
      omega
  | @takeDelayed deadline d hrunning hready hd hdue =>
      have hpop := count_delayed_pop hd i
      change _ = owed i s
      simp only [carries, holds, List.map_cons, List.map_nil, List.sum_cons, List.sum_nil] at h ⊢
      omega
  | @cancel task tasks =>
      simp only [carries, List.map_cons, List.map_nil, List.sum_cons, List.sum_nil,
        List.count_cons, beq_iff_eq, holds_settle] at h ⊢
      apply owed_settle_of_carried .cancel
      omega
  | reject =>
      simp only [carries, List.map_nil, List.sum_nil, holds_settle] at h ⊢
      apply owed_settle_of_carried .cancel
      omega
  | cancelTaken =>
      simp only [carries, List.map_cons, List.map_nil, List.sum_cons, List.sum_nil,
        holds_settle] at h ⊢
      apply owed_settle_of_carried .cancel
      omega
  | returns =>
      simp only [carries, List.map_cons, List.map_nil, List.sum_cons, List.sum_nil,
        holds_settle] at h ⊢
      apply owed_settle_of_carried .succeed
      omega
  | throws what =>
      simp only [carries, List.map_cons, List.map_nil, List.sum_cons, List.sum_nil,
        holds_settle] at h ⊢
      apply owed_settle_of_carried (.fail what)
      omega
  | @checkSettled task hsettled =>
      -- the worker has the task in hand, so that it is pending
      have hother : task ≠ i := by
        rintro rfl
        simp only [carries, if_true] at h
        exact hsettled (pending_of_owed (by omega)).2
      simp only [carries, if_neg hother, List.map_cons, List.map_nil, List.sum_cons,
        List.sum_nil] at h ⊢
      exact h
  | @calls task call =>
      have hcall := carries_enter h call
      rw [List.map_append, List.sum_append]
      simp only [List.map_cons, List.map_nil, List.sum_cons, List.sum_nil]
      omega
  | _ =>
      simp only [carries, List.map_cons, List.map_nil, List.sum_cons, List.sum_nil] at h ⊢
      exact h

/-! ### The balance in every state -/

/-- The task is where it is owed. -/
def Placed (i : ℕ) (u : Threads AsyncEventLoop AsyncSection) : Prop :=
  u.Balanced (carries i) fun s m => m + holds i s = owed i s

theorem placed_start (i : ℕ) (mode : ExecutionMode) (now : ℤ) : Placed i (start mode now) := by
  refine ⟨_, weighs_of_first fun k hk => if_neg fun h => hk h.1, ?_⟩
  simp only [start]
  split <;> simp [carries, initial, holds, owed]

variable {u v : Threads AsyncEventLoop AsyncSection} {l : Threads.Label AsyncCall AsyncChoice}

theorem placed_step (h : Placed i u) (hstep : (machine deadlineOf).step u l = some v) :
    Placed i v := by
  apply Program.balanced_step h hstep
  · intro k call s' as m hcall hm
    obtain ⟨rfl, rfl⟩ := enter_eq hcall
    exact carries_enter hm call
  · intro k a choice s' as m _ hrun hm
    exact carries_run (does_of_run hrun) hm

/-- A task that a section has in hand is pending, and in no list. -/
theorem Placed.of_carried (h : Placed i u) (ha : u.Pending a) (hcarries : 0 < carries i a) :
    i < u.shared.nextTask ∧ (u.shared.states i).status = .pending ∧ holds i u.shared = 0 := by
  obtain ⟨m, hm, hbalance⟩ := h
  have hle := hm.le ha
  have howed := owed_le i u.shared
  obtain ⟨hborn, hpending⟩ := pending_of_owed (i := i) (s := u.shared) (by omega)
  exact ⟨hborn, hpending, by omega⟩

/-- A pending task is in a list or in the hands of a section. -/
theorem Placed.of_pending (h : Placed i u) (hborn : i < u.shared.nextTask)
    (hpending : (u.shared.states i).status = .pending) :
    0 < holds i u.shared ∨ ∃ a, u.Pending a ∧ 0 < carries i a := by
  obtain ⟨m, hm, hbalance⟩ := h
  have howed : owed i u.shared = 1 := if_pos ⟨hborn, hpending⟩
  rcases Nat.eq_zero_or_pos m with rfl | hpos
  · exact Or.inl (by omega)
  · exact Or.inr (hm.exists_pending hpos)

end AsyncEventLoop

end Watchlist.Concurrency
