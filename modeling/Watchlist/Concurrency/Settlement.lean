import Watchlist.Concurrency.TaskPlaces

/-!
Every task of `AsyncEventLoop` settles once, and cancelled work never runs. A step
touches a task only through the section that has it in hand, and such a task is pending;
so whatever has settled stays as it is. A stop that has returned has emptied the lists
and cancelled what it took from them while it held the gate, so what is pending after it
is in the hands of the worker or of a call that is about to be refused.
-/

namespace Watchlist.Concurrency

namespace AsyncEventLoop

open Transition Threads

variable {deadlineOf : ℤ → ℤ → ℤ} {i k m : ℕ} {s s' : AsyncEventLoop} {a b : AsyncSection}
  {as : List AsyncSection} {choice : AsyncChoice} {u v : Threads AsyncEventLoop AsyncSection}
  {l : Threads.Label AsyncCall AsyncChoice}

/-! ### Settled tasks -/

theorem settle_of_ne {task : ℕ} (h : task ≠ i) (f : TaskState → TaskState) :
    (s.settle task f).states i = s.states i := Function.update_of_ne (Ne.symm h) _ _

theorem states_create (h : i ≠ s.nextTask) (awaited : Option Event) :
    (s.create awaited).states i = s.states i := Function.update_of_ne h _ _

theorem untouched_enter (hborn : i < s.nextTask) (call : AsyncCall) :
    (s.enter call).1.states i = s.states i ∧
      resumptions i (s.enter call).1 = resumptions i s ∧ s.nextTask ≤ (s.enter call).1.nextTask := by
  have hcreate (awaited : Option Event) : (s.create awaited).states i = s.states i ∧
      resumptions i (s.create awaited) = resumptions i s ∧
      s.nextTask ≤ (s.create awaited).nextTask :=
    ⟨states_create (Nat.ne_of_lt hborn) awaited, rfl, Nat.le_succ _⟩
  cases call with
  | schedule => exact hcreate none
  | scheduleAfter delay => exact hcreate none
  | waitForEvent name => exact hcreate (some .none)
  | emitEvent event => exact ⟨rfl, rfl, le_rfl⟩
  | stop => exact ⟨rfl, rfl, le_rfl⟩
  | runOnCallingThread => exact ⟨rfl, rfl, le_rfl⟩
  | advanceClock nanoseconds => exact ⟨rfl, rfl, le_rfl⟩

theorem resumptions_snoc {x : Happening} (h : s'.history = s.history ++ [x]) :
    resumptions i s' = resumptions i s + if x.resumes i then 1 else 0 := by
  rw [resumptions, h, List.countP_append, List.countP_singleton, resumptions]

theorem resumptions_of_not {x : Happening} (h : s'.history = s.history ++ [x])
    (hx : x.resumes i = false) : resumptions i s' = resumptions i s := by
  rw [resumptions_snoc h, hx]
  rfl

/-- A section leaves the tasks alone that it does not have in hand. -/
theorem untouched_run (hdoes : Does deadlineOf k s choice a s' as) (hborn : i < s.nextTask)
    (hfree : carries i a = 0) :
    s'.states i = s.states i ∧ resumptions i s' = resumptions i s ∧ s.nextTask ≤ s'.nextTask := by
  have hne {task : ℕ} (h : (if task = i then 1 else 0) = 0) : task ≠ i := by
    rintro rfl
    simp at h
  cases hdoes with
  | queue => exact ⟨rfl, resumptions_of_not rfl rfl, le_rfl⟩
  | delay => exact ⟨rfl, resumptions_of_not rfl rfl, le_rfl⟩
  | register => exact ⟨rfl, resumptions_of_not rfl rfl, le_rfl⟩
  | emit => exact ⟨rfl, resumptions_of_not rfl rfl, le_rfl⟩
  | takeReady => exact ⟨rfl, resumptions_of_not rfl rfl, le_rfl⟩
  | takeDelayed => exact ⟨rfl, resumptions_of_not rfl rfl, le_rfl⟩
  | @resume task =>
      exact ⟨rfl, resumptions_of_not rfl (decide_eq_false (hne hfree)), le_rfl⟩
  | reject => exact ⟨settle_of_ne (hne hfree) _, rfl, le_rfl⟩
  | cancelTaken => exact ⟨settle_of_ne (hne hfree) _, rfl, le_rfl⟩
  | returns => exact ⟨settle_of_ne (hne hfree) _, rfl, le_rfl⟩
  | throws => exact ⟨settle_of_ne (hne hfree) _, rfl, le_rfl⟩
  | @cancel task tasks =>
      have htask : task ≠ i := by
        rintro rfl
        simp [carries] at hfree
      exact ⟨settle_of_ne htask _, rfl, le_rfl⟩
  | calls call => exact untouched_enter hborn call
  | _ => exact ⟨rfl, rfl, le_rfl⟩

/-- What the tasks have to do with the places they are in. -/
structure Sound (u : Threads AsyncEventLoop AsyncSection) : Prop where
  placed : ∀ i, Placed i u
  /-- a task that has not been created is pending -/
  unborn : ∀ i, u.shared.nextTask ≤ i → (u.shared.states i).status = .pending

theorem Sound.start (mode : ExecutionMode) (now : ℤ) : Sound (start mode now) :=
  ⟨fun i => placed_start i mode now, fun _ _ => rfl⟩

theorem unborn_enter (h : ∀ i, s.nextTask ≤ i → (s.states i).status = .pending)
    (call : AsyncCall) :
    ∀ i, (s.enter call).1.nextTask ≤ i → ((s.enter call).1.states i).status = .pending := by
  have hcreate (awaited : Option Event) :
      ∀ i, (s.create awaited).nextTask ≤ i → ((s.create awaited).states i).status = .pending := by
    intro i hi
    have hne : i ≠ s.nextTask := by
      have hlt : s.nextTask + 1 ≤ i := hi
      omega
    rw [states_create hne]
    exact h i (Nat.le_of_succ_le hi)
  cases call with
  | schedule => exact hcreate none
  | scheduleAfter delay => exact hcreate none
  | waitForEvent name => exact hcreate (some .none)
  | emitEvent event => exact h
  | stop => exact h
  | runOnCallingThread => exact h
  | advanceClock nanoseconds => exact h

theorem unborn_run (hdoes : Does deadlineOf k s choice a s' as)
    (hcarried : ∀ i, 0 < carries i a → i < s.nextTask)
    (h : ∀ i, s.nextTask ≤ i → (s.states i).status = .pending) :
    ∀ i, s'.nextTask ≤ i → (s'.states i).status = .pending := by
  have hsettle {task : ℕ} (f : TaskState → TaskState) (htask : 0 < carries task a) :
      ∀ i, s.nextTask ≤ i → ((s.settle task f).states i).status = .pending := by
    intro i hi
    have hlt := hcarried task htask
    rw [settle_of_ne (Nat.ne_of_lt (hlt.trans_le hi))]
    exact h i hi
  cases hdoes with
  | reject => exact hsettle _ (by simp [carries])
  | cancel => exact hsettle _ (by simp [carries])
  | cancelTaken => exact hsettle _ (by simp [carries])
  | returns => exact hsettle _ (by simp [carries])
  | throws => exact hsettle _ (by simp [carries])
  | calls call => exact unborn_enter h call
  | _ => exact h

theorem Sound.step (h : Sound u) (hstep : (machine deadlineOf).step u l = some v) : Sound v := by
  refine ⟨fun i => placed_step (h.placed i) hstep, ?_⟩
  cases Program.moves_of_step hstep with
  | enter hidle hcall =>
      obtain ⟨rfl, rfl⟩ := enter_eq hcall
      exact unborn_enter h.unborn _
  | advance hat hrun =>
      apply unborn_run (does_of_run hrun) _ h.unborn
      intro i hi
      exact ((h.placed i).of_carried (pending_head hat) hi).1

/-- A task that has settled keeps its status, and is not resumed. -/
theorem Sound.settled_step (h : Sound u) (hstep : (machine deadlineOf).step u l = some v)
    (hsettled : (u.shared.states i).status ≠ .pending) :
    v.shared.states i = u.shared.states i ∧
      resumptions i v.shared = resumptions i u.shared := by
  have hborn : i < u.shared.nextTask := by
    by_contra hnot
    exact hsettled (h.unborn i (not_lt.mp hnot))
  cases Program.moves_of_step hstep with
  | enter hidle hcall =>
      obtain ⟨rfl, rfl⟩ := enter_eq hcall
      obtain ⟨hstates, hresumed, _⟩ := untouched_enter hborn _
      exact ⟨hstates, hresumed⟩
  | @advance k choice a rest s' as hat hrun =>
      have hfree : carries i a = 0 := by
        by_contra hcarries
        have hin := (h.placed i).of_carried (pending_head hat) (Nat.pos_of_ne_zero hcarries)
        exact hsettled hin.2.1
      obtain ⟨hstates, hresumed, _⟩ := untouched_run (does_of_run hrun) hborn hfree
      exact ⟨hstates, hresumed⟩

/-! ### Callbacks are entered once -/

/-- Whether a section is inside the task. -/
def running (i : ℕ) : AsyncSection → ℕ
  | .inTask task => if task = i then 1 else 0
  | _ => 0

/-- A task that has been resumed is not owed any more, except while it runs. -/
def Entered (i : ℕ) (u : Threads AsyncEventLoop AsyncSection) : Prop :=
  u.Balanced (running i) fun s m => resumptions i s + owed i s ≤ created i s + m

theorem Entered.start (i : ℕ) (mode : ExecutionMode) (now : ℤ) : Entered i (start mode now) := by
  refine ⟨_, weighs_of_first fun k hk => if_neg fun h => hk h.1, ?_⟩
  simp [AsyncEventLoop.start, initial, resumptions, owed]

theorem created_create (i : ℕ) (s : AsyncEventLoop) (awaited : Option Event) :
    created i (s.create awaited) = created i s + if s.nextTask = i then 1 else 0 := by
  simp only [created, create]
  by_cases hi : s.nextTask = i
  · subst hi
    simp
  · have hlt : i < s.nextTask + 1 ↔ i < s.nextTask := by omega
    simp only [hlt, if_neg hi, Nat.add_zero]

theorem entered_enter (h : resumptions i s + owed i s ≤ created i s + m) (call : AsyncCall) :
    resumptions i (s.enter call).1 + owed i (s.enter call).1 ≤
      created i (s.enter call).1 + (((s.enter call).2.map (running i)).sum + m) := by
  have hcreate (awaited : Option Event) :
      resumptions i (s.create awaited) + owed i (s.create awaited) ≤
        created i (s.create awaited) + m := by
    have hresumed : resumptions i (s.create awaited) = resumptions i s := rfl
    rw [hresumed, owed_create, created_create]
    omega
  cases call with
  | schedule => simpa [enter, running] using hcreate none
  | scheduleAfter delay => simpa [enter, running] using hcreate none
  | waitForEvent name => simpa [enter, running] using hcreate (some .none)
  | emitEvent event => simpa [enter, running] using h
  | stop => simpa [enter, running] using h
  | runOnCallingThread =>
      simp only [enter]
      split
      · simpa [running] using h
      · simpa using h
  | advanceClock nanoseconds =>
      simp only [enter, List.map_nil, List.sum_nil, Nat.zero_add]
      exact h

theorem owed_settle_le {f : TaskState → TaskState} (hf : TaskState.Settles f) (i : ℕ)
    (s : AsyncEventLoop) (task : ℕ) : owed i (s.settle task f) ≤ owed i s := by
  rw [owed_settle hf]
  split
  · exact Nat.zero_le _
  · exact le_rfl

/-- What neither resumes a task nor settles one leaves the count. -/
theorem entered_keep (h : resumptions i s + owed i s ≤ created i s + (running i a + m))
    (hresumed : resumptions i s' = resumptions i s) (howed : owed i s' ≤ owed i s)
    (hcreated : created i s' = created i s) (hm : (as.map (running i)).sum = running i a) :
    resumptions i s' + owed i s' ≤ created i s' + ((as.map (running i)).sum + m) := by
  rw [hresumed, hcreated, hm]
  exact (Nat.add_le_add_left howed _).trans h

/-- A task that ends is owed until then. -/
theorem entered_end {task : ℕ} {f : TaskState → TaskState} (hf : TaskState.Settles f)
    (hcarried : 0 < carries i (.inTask task) → owed i s = 1)
    (h : resumptions i s + owed i s ≤ created i s + (running i (.inTask task) + m)) :
    resumptions i (s.settle task f) + owed i (s.settle task f) ≤
      created i (s.settle task f) + (([.unlockBoundary].map (running i)).sum + m) := by
  change resumptions i s + _ ≤ created i s + _
  rw [owed_settle hf]
  simp only [running, carries, List.map_cons, List.map_nil, List.sum_cons,
    List.sum_nil] at h hcarried ⊢
  split <;> rename_i htask <;> simp only [htask, if_true, if_false] at h hcarried <;> omega

theorem entered_run (hdoes : Does deadlineOf k s choice a s' as)
    (hcarried : 0 < carries i a → owed i s = 1)
    (h : resumptions i s + owed i s ≤ created i s + (running i a + m)) :
    resumptions i s' + owed i s' ≤ created i s' + ((as.map (running i)).sum + m) := by
  cases hdoes with
  | queue => exact entered_keep h (resumptions_of_not rfl rfl) le_rfl rfl rfl
  | delay => exact entered_keep h (resumptions_of_not rfl rfl) le_rfl rfl rfl
  | register => exact entered_keep h (resumptions_of_not rfl rfl) le_rfl rfl rfl
  | emit => exact entered_keep h (resumptions_of_not rfl rfl) le_rfl rfl rfl
  | takeReady => exact entered_keep h (resumptions_of_not rfl rfl) le_rfl rfl rfl
  | takeDelayed => exact entered_keep h (resumptions_of_not rfl rfl) le_rfl rfl rfl
  | reject => exact entered_keep h rfl (owed_settle_le .cancel i s _) rfl rfl
  | cancel => exact entered_keep h rfl (owed_settle_le .cancel i s _) rfl rfl
  | cancelTaken => exact entered_keep h rfl (owed_settle_le .cancel i s _) rfl rfl
  | refuse hclosed ha =>
      apply entered_keep h rfl le_rfl rfl
      rcases ha with rfl | ⟨_, rfl⟩ | ⟨_, rfl⟩ <;> rfl
  | @resume task =>
      have hcount : resumptions i
          { s with history := s.history ++ [.resumed task (s.awaited task)] } =
            resumptions i s + if task = i then 1 else 0 := by
        rw [resumptions_snoc rfl]
        simp [Happening.resumes]
      change resumptions i _ + owed i s ≤ created i s + _
      simp only [hcount, running, List.map_cons, List.map_nil, List.sum_cons,
        List.sum_nil] at h ⊢
      omega
  | returns => exact entered_end .succeed hcarried h
  | throws what => exact entered_end (.fail what) hcarried h
  | @calls task call =>
      have hcall := entered_enter h call
      rw [List.map_append, List.sum_append]
      simp only [List.map_cons, List.map_nil, List.sum_cons, List.sum_nil]
      omega
  | _ => exact entered_keep h rfl le_rfl rfl rfl

theorem Entered.step (h : Entered i u) (hsound : Sound u)
    (hstep : (machine deadlineOf).step u l = some v) : Entered i v := by
  apply Program.balanced_step h hstep
  · intro k call s' as m hcall hm
    obtain ⟨rfl, rfl⟩ := enter_eq hcall
    exact entered_enter hm call
  · intro k a choice s' as m ha hrun hm
    apply entered_run (does_of_run hrun) _ hm
    intro hcarries
    obtain ⟨hborn, hpending, _⟩ := (hsound.placed i).of_carried ha hcarries
    exact if_pos ⟨hborn, hpending⟩

theorem Entered.le_one (h : Entered i u) (hsound : Sound u) : resumptions i u.shared ≤ 1 := by
  obtain ⟨m, hm, hentered⟩ := h
  obtain ⟨m', hm', hplaced⟩ := hsound.placed i
  have hle : m ≤ m' := by
    apply hm.mono hm'
    intro a
    cases a <;> simp [running, carries]
  have hcreated : created i u.shared ≤ 1 := by
    unfold created
    split <;> omega
  omega

/-! ### What is cancelled has not run -/

theorem status_settle_cancel {task : ℕ} (h : ((s.settle task .cancel).states i).status = .cancelled)
    (hpending : (s.states i).status = .pending) : task = i := by
  by_contra hne
  rw [settle_of_ne hne, hpending] at h
  cases h

theorem pending_create {awaited : Option Event} (h : (s.states i).status = .pending) :
    ((s.create awaited).states i).status = .pending := by
  by_cases hi : i = s.nextTask
  · subst hi
    simp [create, TaskState.new]
  · rwa [states_create hi]

theorem pending_enter (h : (s.states i).status = .pending) (call : AsyncCall) :
    ((s.enter call).1.states i).status = .pending := by
  cases call with
  | schedule => exact pending_create h
  | scheduleAfter delay => exact pending_create h
  | waitForEvent name => exact pending_create h
  | emitEvent event => exact h
  | stop => exact h
  | runOnCallingThread => exact h
  | advanceClock nanoseconds => exact h

/-- A task is cancelled by a section that has it in hand and is not inside it. -/
theorem cancels_run (hdoes : Does deadlineOf k s choice a s' as)
    (hpending : (s.states i).status = .pending) (hcancelled : (s'.states i).status = .cancelled) :
    running i a + 1 ≤ carries i a ∧ resumptions i s' = resumptions i s := by
  have hsame {x : TaskStatus} (h : (s.states i).status = x) (hx : x = .cancelled) : False := by
    rw [← h, hpending] at hx
    cases hx
  cases hdoes with
  | reject =>
      obtain rfl := status_settle_cancel hcancelled hpending
      exact ⟨by simp [running, carries], rfl⟩
  | cancel =>
      obtain rfl := status_settle_cancel hcancelled hpending
      exact ⟨by simp [running, carries], rfl⟩
  | cancelTaken =>
      obtain rfl := status_settle_cancel hcancelled hpending
      exact ⟨by simp [running, carries], rfl⟩
  | @returns task =>
      by_cases htask : task = i
      · subst htask
        simp [settle, TaskState.succeed, TaskState.finish_of_pending hpending] at hcancelled
      · rw [settle_of_ne htask] at hcancelled
        exact (hsame rfl hcancelled).elim
  | @throws task what =>
      by_cases htask : task = i
      · subst htask
        simp [settle, TaskState.fail, TaskState.finish_of_pending hpending] at hcancelled
      · rw [settle_of_ne htask] at hcancelled
        exact (hsame rfl hcancelled).elim
  | calls call => exact (hsame hpending ((pending_enter hpending call).symm.trans hcancelled)).elim
  | _ => exact (hsame rfl hcancelled).elim

/-- No cancelled task has been resumed. -/
def NeverRan (i : ℕ) (u : Threads AsyncEventLoop AsyncSection) : Prop :=
  (u.shared.states i).status = .cancelled → resumptions i u.shared = 0

theorem NeverRan.step (h : NeverRan i u) (hsound : Sound u) (hentered : Entered i u)
    (hstep : (machine deadlineOf).step u l = some v) : NeverRan i v := by
  intro hcancelled
  by_cases hpending : (u.shared.states i).status = .pending
  · cases Program.moves_of_step hstep with
    | enter hidle hcall =>
        obtain ⟨rfl, rfl⟩ := enter_eq hcall
        rw [shared_become, pending_enter hpending] at hcancelled
        cases hcancelled
    | @advance k choice a rest s' as hat hrun =>
        obtain ⟨hcarries, hresumed⟩ := cancels_run (does_of_run hrun) hpending hcancelled
        obtain ⟨hborn, _, _⟩ := (hsound.placed i).of_carried (pending_head hat) (by omega)
        obtain ⟨m, hm, hcount⟩ := hentered
        obtain ⟨m', hm', hplace⟩ := hsound.placed i
        -- the task is in the hands of the section, so that nobody is inside it
        have hle := hm.add_le hm' (fun a => by cases a <;> simp [running, carries]) hat
        have howed : owed i u.shared = 1 := if_pos ⟨hborn, hpending⟩
        have hcreated : created i u.shared = 1 := if_pos hborn
        rw [shared_become, hresumed]
        omega
  · obtain ⟨hstates, hresumed⟩ := hsound.settled_step hstep hpending
    rw [hresumed]
    rw [hstates] at hcancelled
    exact h hcancelled

/-! ### The gate and the end of a stop -/

/-- The sections that run while `execution_gate_` is locked. -/
def holdsGate : AsyncSection → Bool
  | .close | .cancelAll _ | .readStopping _ | .cancelTaken _ | .checkStatus _ | .resume _
  | .inTask _ | .unlockBoundary => true
  | _ => false

theorem gate_enter (s : AsyncEventLoop) (call : AsyncCall) :
    (s.enter call).1.gate = s.gate ∧ (s.enter call).2.countP holdsGate = 0 := by
  cases call with
  | runOnCallingThread =>
      refine ⟨rfl, ?_⟩
      simp only [enter]
      split <;> rfl
  | _ => exact ⟨rfl, rfl⟩

/-- What is to be done is done once more, or once less, as the gate is locked. -/
theorem gate_run (hdoes : Does deadlineOf k s choice a s' as)
    (hheld : holdsGate a = true → 0 < s.gate.times k) :
    s'.gate.times k + (if holdsGate a then 1 else 0) = s.gate.times k + as.countP holdsGate ∧
      ∀ j, j ≠ k → s'.gate.times j = s.gate.times j := by
  cases hdoes with
  | lockGate hlock =>
      obtain ⟨hself, hothers⟩ := RecursiveMutex.times_lock hlock
      exact ⟨hself, hothers⟩
  | lockBoundary hlock =>
      obtain ⟨hself, hothers⟩ := RecursiveMutex.times_lock hlock
      exact ⟨hself, hothers⟩
  | stopReturns => exact RecursiveMutex.times_unlock (hheld rfl)
  | unlockBoundary => exact RecursiveMutex.times_unlock (hheld rfl)
  | refuse hclosed ha =>
      rcases ha with rfl | ⟨_, rfl⟩ | ⟨_, rfl⟩ <;> exact ⟨rfl, fun _ _ => rfl⟩
  | calls call =>
      obtain ⟨hgate, hnone⟩ := gate_enter s call
      rw [hgate, List.countP_append, hnone]
      exact ⟨rfl, fun _ _ => rfl⟩
  | _ => exact ⟨rfl, fun _ _ => rfl⟩

/-- Below the section that a thread is at, it can only be inside tasks. -/
def insideTask (b : AsyncSection) : Prop := ∃ i, b = .inTask i

theorem tail_enter (s : AsyncEventLoop) (call : AsyncCall) : (s.enter call).2.tail = [] := by
  cases call with
  | runOnCallingThread =>
      simp only [enter]
      split <;> rfl
  | _ => rfl

theorem tail_run (hdoes : Does deadlineOf k s choice a s' as) : ∀ b ∈ as.tail, insideTask b := by
  cases hdoes with
  | @calls task call =>
      intro b hb
      have htail := tail_enter s call
      cases hnew : (s.enter call).2 with
      | nil =>
          rw [hnew] at hb
          cases hb
      | cons c cs =>
          rw [hnew, List.tail_cons] at htail
          rw [hnew, htail] at hb
          exact ⟨task, List.mem_singleton.mp hb⟩
  | _ => exact fun b hb => absurd hb List.not_mem_nil

/-- What a stop leaves behind, while it goes on and when it has returned. -/
structure Stopping (u : Threads AsyncEventLoop AsyncSection) : Prop where
  locked : u.Locked holdsGate u.shared.gate
  inside : ∀ j, ∀ b ∈ (u.pending j).tail, insideTask b
  /-- the lists of a closed loop are empty -/
  emptied : u.shared.accepting = false → ∀ i, holds i u.shared = 0
  closed : ∀ tasks, u.Pending (.cancelAll tasks) → u.shared.accepting = false
  returned : u.shared.stopReturned = true →
    u.shared.accepting = false ∧ ∀ tasks, u.Pending (.cancelAll tasks) → tasks = []

theorem Stopping.start (mode : ExecutionMode) (now : ℤ) : Stopping (start mode now) := by
  have hpending {a : AsyncSection} (h : (AsyncEventLoop.start mode now).Pending a) :
      a = .startRun := by
    obtain ⟨k, hk⟩ := h
    simp only [AsyncEventLoop.start] at hk
    split at hk
    · exact List.mem_singleton.mp hk
    · cases hk
  refine ⟨?_, ?_, by rintro ⟨⟩, ?_, by rintro ⟨⟩⟩
  · intro k
    simp only [AsyncEventLoop.start]
    split <;> rfl
  · intro j b hb
    simp only [AsyncEventLoop.start] at hb
    split at hb <;> cases hb
  · intro tasks h
    cases hpending h

theorem closed_enter (s : AsyncEventLoop) (call : AsyncCall) :
    (s.enter call).1.accepting = s.accepting ∧
      (s.enter call).1.stopReturned = s.stopReturned ∧
      (∀ i, holds i (s.enter call).1 = holds i s) ∧
      ∀ tasks, AsyncSection.cancelAll tasks ∉ (s.enter call).2 := by
  cases call with
  | runOnCallingThread =>
      refine ⟨rfl, rfl, fun _ => rfl, fun tasks h => ?_⟩
      simp only [enter] at h
      split at h <;> simp at h
  | _ => exact ⟨rfl, rfl, fun _ => rfl, fun tasks h => by simp [enter] at h⟩

/-- A closed loop stays closed, and nothing comes into its lists. -/
theorem emptied_run (hdoes : Does deadlineOf k s choice a s' as)
    (h : s.accepting = false → ∀ i, holds i s = 0) :
    (s.accepting = false → s'.accepting = false) ∧
      (s'.accepting = false → ∀ i, holds i s' = 0) := by
  have hopen (h' : s.accepting = true) {p : Prop} (hclosed : s.accepting = false) : p := by
    rw [h'] at hclosed
    cases hclosed
  cases hdoes with
  | queue h' => exact ⟨hopen h', hopen h'⟩
  | delay h' => exact ⟨hopen h', hopen h'⟩
  | register h' => exact ⟨hopen h', hopen h'⟩
  | emit h' => exact ⟨hopen h', hopen h'⟩
  | close h' => exact ⟨fun _ => rfl, fun _ i => by simp [holds]⟩
  | @takeReady task hrunning htask =>
      refine ⟨id, fun hclosed i => ?_⟩
      have hlast := count_dropLast htask i
      have hzero := h hclosed i
      simp only [holds] at hzero ⊢
      omega
  | @takeDelayed deadline d hrunning hready hd hdue =>
      refine ⟨id, fun hclosed i => ?_⟩
      have hpop := count_delayed_pop hd i
      have hzero := h hclosed i
      simp only [holds] at hzero ⊢
      omega
  | calls call =>
      obtain ⟨haccepting, _, hholds, _⟩ := closed_enter s call
      rw [haccepting]
      exact ⟨id, fun hclosed i => (hholds i).trans (h hclosed i)⟩
  | _ => exact ⟨id, h⟩

/-- A stop begins to cancel on a closed loop, and returns with nothing left to cancel. -/
theorem cancelAll_run (hdoes : Does deadlineOf k s choice a s' as) {tasks : List ℕ}
    (h : AsyncSection.cancelAll tasks ∈ as) :
    (s'.accepting = false ∨ ∃ task, a = .cancelAll (task :: tasks)) ∧
      (s.accepting = true ∨ tasks = [] ∨ ∃ task, a = .cancelAll (task :: tasks)) := by
  cases hdoes with
  | close hopen => exact ⟨Or.inl rfl, Or.inl hopen⟩
  | closeAgain hclosed =>
      obtain rfl : tasks = [] := by simpa using h
      exact ⟨Or.inl hclosed, Or.inr (Or.inl rfl)⟩
  | @cancel task rest =>
      obtain rfl : tasks = rest := by simpa using h
      exact ⟨Or.inr ⟨task, rfl⟩, Or.inr (Or.inr ⟨task, rfl⟩)⟩
  | calls call =>
      rcases List.mem_append.mp h with h | h
      · exact absurd h ((closed_enter s call).2.2.2 tasks)
      · simp at h
  | _ => simp at h

theorem stopReturned_run (hdoes : Does deadlineOf k s choice a s' as) :
    s'.stopReturned = s.stopReturned ∨ a = .cancelAll [] ∧ s'.accepting = s.accepting := by
  cases hdoes with
  | stopReturns => exact Or.inr ⟨rfl, rfl⟩
  | calls call => exact Or.inl (closed_enter s call).2.1
  | _ => exact Or.inl rfl

theorem Stopping.step (h : Stopping u) (hstep : (machine deadlineOf).step u l = some v) :
    Stopping v := by
  cases Program.moves_of_step hstep with
  | enter hidle hcall =>
      rename_i k call s' as
      obtain ⟨rfl, rfl⟩ := enter_eq hcall
      obtain ⟨hgate, hnone⟩ := gate_enter u.shared call
      obtain ⟨haccepting, hreturned, hholds, hnew⟩ := closed_enter u.shared call
      have hold {tasks : List ℕ}
          (hp : (u.become k (u.shared.enter call).1 (u.shared.enter call).2).Pending
            (.cancelAll tasks)) : u.Pending (.cancelAll tasks) :=
        (pending_of_enter hp).resolve_left (hnew tasks)
      refine ⟨?_, ?_, ?_, ?_, ?_⟩
      · rw [shared_become, hgate]
        exact h.locked.enter hidle hnone
      · apply forall_tail_enter _ h.inside
        rw [tail_enter]
        exact fun b hb => absurd hb List.not_mem_nil
      · rw [shared_become, haccepting]
        exact fun hclosed i => (hholds i).trans (h.emptied hclosed i)
      · rw [shared_become, haccepting]
        exact fun tasks hp => h.closed tasks (hold hp)
      · rw [shared_become, haccepting, hreturned]
        intro hret
        obtain ⟨hclosed, hempty⟩ := h.returned hret
        exact ⟨hclosed, fun tasks hp => hempty tasks (hold hp)⟩
  | advance hat hrun =>
      rename_i k choice a rest s' as
      have hdoes := does_of_run hrun
      have hmem : a ∈ u.pending k := by rw [hat]; exact List.mem_cons_self
      obtain ⟨hself, hothers⟩ := gate_run hdoes fun ha => h.locked.times_pos hmem ha
      obtain ⟨hkeep, hempty⟩ := emptied_run hdoes h.emptied
      have ha : u.Pending a := pending_head hat
      refine ⟨h.locked.become hat hself hothers, forall_tail_become hat (tail_run hdoes) h.inside,
        hempty, ?_, ?_⟩
      · intro tasks hp
        rcases pending_of_become hat hp with hnew | hold
        · rcases (cancelAll_run hdoes hnew).1 with hclosed | ⟨task, rfl⟩
          · exact hclosed
          · exact hkeep (h.closed _ ha)
        · exact hkeep (h.closed tasks hold)
      · intro hret
        rw [shared_become] at hret ⊢
        rcases stopReturned_run hdoes with heq | ⟨rfl, -⟩
        · obtain ⟨hclosed, hnone⟩ := h.returned (heq.symm.trans hret)
          refine ⟨hkeep hclosed, fun tasks hp => ?_⟩
          rcases pending_of_become hat hp with hnew | hold
          · rcases (cancelAll_run hdoes hnew).2 with hopen | hnil | ⟨task, rfl⟩
            · rw [hclosed] at hopen
              cases hopen
            · exact hnil
            · cases hnone _ ha
          · exact hnone tasks hold
        · refine ⟨hkeep (h.closed _ ha), fun tasks hp => ?_⟩
          -- this thread has nothing to cancel below, and no other has the gate
          have hclosed := h.closed _ ha
          obtain ⟨j, hj⟩ := hp
          by_cases hjk : j = k
          · rw [hjk, pending_become_self] at hj
            rcases List.mem_append.mp hj with hnew | hrest
            · rcases (cancelAll_run hdoes hnew).2 with hopen | hnil | ⟨task, heq⟩
              · rw [hclosed] at hopen
                cases hopen
              · exact hnil
              · cases heq
            · have hinside := h.inside k (.cancelAll tasks)
              rw [hat, List.tail_cons] at hinside
              obtain ⟨i, heq⟩ := hinside hrest
              cases heq
          · rw [pending_become_of_ne hjk] at hj
            exact absurd (h.locked.alone hj hmem rfl rfl) hjk

/-! ### Every run -/

/-- The sections of a worker. -/
def inRun : AsyncSection → Bool
  | .startRun | .awaitWork | .asleepUntil _ | .lockBoundary _ | .readStopping _ | .cancelTaken _
  | .checkStatus _ | .resume _ | .inTask _ | .unlockBoundary => true
  | _ => false

/-- The sections of `schedule`, `schedule_after` and `wait_for_event`. -/
def schedules : AsyncSection → Bool
  | .enqueueReady _ | .enqueueAfter .. | .enqueueEventWait .. | .reject _ => true
  | _ => false

/-- The loop accepts work: a task to be run, or an event. -/
def Happening.accepts : Happening → Bool
  | .queued _ | .delayed .. | .registered .. | .emitted .. => true
  | _ => false

def accepted (s : AsyncEventLoop) : List Happening := s.history.filter Happening.accepts

/-- All that is known of the tasks in a reachable state. -/
structure Settling (u : Threads AsyncEventLoop AsyncSection) : Prop where
  sound : Sound u
  entered : ∀ i, Entered i u
  neverRan : ∀ i, NeverRan i u
  stopping : Stopping u

theorem Settling.start (mode : ExecutionMode) (now : ℤ) : Settling (start mode now) :=
  ⟨.start mode now, fun i => .start i mode now, fun _ h => (by cases h), .start mode now⟩

theorem Settling.step (h : Settling u) (hstep : (machine deadlineOf).step u l = some v) :
    Settling v :=
  ⟨h.sound.step hstep, fun i => (h.entered i).step h.sound hstep,
    fun i => (h.neverRan i).step h.sound (h.entered i) hstep, h.stopping.step hstep⟩

theorem Settling.of_exec {ls : List (Threads.Label AsyncCall AsyncChoice)} (h : Settling u)
    (hrun : (machine deadlineOf).exec u ls = some v) : Settling v :=
  Machine.invariant Settling (fun _ _ _ => Settling.step) ⟨ls, hrun⟩ h

theorem cancelAll_of_carries (hrun : inRun a = false) (hschedules : schedules a = false)
    (hcarries : 0 < carries i a) : ∃ tasks, a = .cancelAll tasks := by
  cases a with
  | cancelAll tasks => exact ⟨tasks, rfl⟩
  | _ => simp [inRun, schedules, carries] at hrun hschedules hcarries

/-- A stop that has returned leaves nothing pending but what the worker or a call has in hand. -/
theorem Settling.settled (h : Settling u) (hreturned : u.shared.stopReturned = true)
    (hidle : ∀ a, u.Pending a → inRun a = false ∧ schedules a = false)
    (hborn : i < u.shared.nextTask) : (u.shared.states i).status ≠ .pending := by
  intro hpending
  obtain ⟨hclosed, hnone⟩ := h.stopping.returned hreturned
  rcases (h.sound.placed i).of_pending hborn hpending with hholds | ⟨a, ha, hcarries⟩
  · have hempty := h.stopping.emptied hclosed i
    omega
  · obtain ⟨hrun, hschedules⟩ := hidle a ha
    obtain ⟨tasks, rfl⟩ := cancelAll_of_carries hrun hschedules hcarries
    obtain rfl := hnone tasks ha
    exact absurd hcarries (lt_irrefl 0)

@[simp] theorem accepted_enter (s : AsyncEventLoop) (call : AsyncCall) :
    accepted (s.enter call).1 = accepted s := by
  cases call <;> rfl

theorem accepted_run (hdoes : Does deadlineOf k s choice a s' as) (hclosed : s.accepting = false) :
    accepted s' = accepted s := by
  have hopen (h' : s.accepting = true) {p : Prop} : p := by
    rw [h'] at hclosed
    cases hclosed
  have hsnoc {x : Happening} (hx : x.accepts = false) {t : AsyncEventLoop}
      (ht : t.history = s.history ++ [x]) : accepted t = accepted s := by
    rw [accepted, ht, List.filter_append, List.filter_singleton, hx]
    exact List.append_nil _
  cases hdoes with
  | queue h' => exact hopen h'
  | delay h' => exact hopen h'
  | register h' => exact hopen h'
  | emit h' => exact hopen h'
  | takeReady => exact hsnoc rfl rfl
  | takeDelayed => exact hsnoc rfl rfl
  | resume => exact hsnoc rfl rfl
  | calls call => exact accepted_enter s call
  | _ => rfl

/-- A closed loop accepts nothing any more. -/
theorem Settling.accepted_exec {ls : List (Threads.Label AsyncCall AsyncChoice)} (h : Settling u)
    (hrun : (machine deadlineOf).exec u ls = some v) (hclosed : u.shared.accepting = false) :
    v.shared.accepting = false ∧ accepted v.shared = accepted u.shared := by
  suffices hall : Settling v ∧ v.shared.accepting = false ∧ accepted v.shared = accepted u.shared by
    exact hall.2
  refine Machine.invariant (M := machine deadlineOf)
    (fun w => Settling w ∧ w.shared.accepting = false ∧ accepted w.shared = accepted u.shared) ?_
    ⟨ls, hrun⟩ ⟨h, hclosed, rfl⟩
  intro w l x ⟨hw, hclosed, heq⟩ hstep
  refine ⟨hw.step hstep, ?_⟩
  cases Program.moves_of_step hstep with
  | enter hidle hcall =>
      obtain ⟨rfl, rfl⟩ := enter_eq hcall
      rw [shared_become, (closed_enter _ _).1, accepted_enter]
      exact ⟨hclosed, heq⟩
  | advance hat hact =>
      have hdoes := does_of_run hact
      exact ⟨(emptied_run hdoes hw.stopping.emptied).1 hclosed,
        (accepted_run hdoes hclosed).trans heq⟩

theorem Settling.settled_exec {ls : List (Threads.Label AsyncCall AsyncChoice)} (h : Settling u)
    (hrun : (machine deadlineOf).exec u ls = some v)
    (hsettled : (u.shared.states i).status ≠ .pending) :
    v.shared.states i = u.shared.states i ∧
      resumptions i v.shared = resumptions i u.shared := by
  suffices hall : Settling v ∧ v.shared.states i = u.shared.states i ∧
      resumptions i v.shared = resumptions i u.shared by
    exact hall.2
  refine Machine.invariant (M := machine deadlineOf)
    (fun w => Settling w ∧ w.shared.states i = u.shared.states i ∧
      resumptions i w.shared = resumptions i u.shared) ?_ ⟨ls, hrun⟩ ⟨h, rfl, rfl⟩
  intro w l x ⟨hw, hstates, hresumed⟩ hstep
  obtain ⟨hstates', hresumed'⟩ := hw.sound.settled_step hstep (by rwa [hstates])
  exact ⟨hw.step hstep, hstates'.trans hstates, hresumed'.trans hresumed⟩

/-- In every run each task settles at most once, only a pending task settles, and its
callback is entered at most once, never when it is cancelled and never after it has
settled. Once a stop has returned the loop accepts nothing any more; and when besides no
thread is in `run` and no call is scheduling, every task has settled. -/
theorem tasks_settle_once {mode : ExecutionMode} {now : ℤ}
    {ls : List (Threads.Label AsyncCall AsyncChoice)}
    (h : (machine deadlineOf).exec (start mode now) ls = some u) :
    (∀ i, resumptions i u.shared ≤ 1 ∧
      ((u.shared.states i).status = .cancelled → resumptions i u.shared = 0)) ∧
      (∀ ls' v i, (machine deadlineOf).exec u ls' = some v →
        (u.shared.states i).status ≠ .pending →
          v.shared.states i = u.shared.states i ∧
            resumptions i v.shared = resumptions i u.shared) ∧
      (u.shared.stopReturned = true → u.shared.accepting = false) ∧
      (∀ ls' v, (machine deadlineOf).exec u ls' = some v → u.shared.accepting = false →
        v.shared.accepting = false ∧ accepted v.shared = accepted u.shared) ∧
      (u.shared.stopReturned = true →
        (∀ a, u.Pending a → inRun a = false ∧ schedules a = false) →
          ∀ i < u.shared.nextTask, (u.shared.states i).status ≠ .pending) := by
  have hall : Settling u := (Settling.start mode now).of_exec h
  refine ⟨fun i => ⟨(hall.entered i).le_one hall.sound, hall.neverRan i⟩, ?_, ?_, ?_, ?_⟩
  · intro ls' v i hrun hsettled
    exact hall.settled_exec hrun hsettled
  · intro hreturned
    exact (hall.stopping.returned hreturned).1
  · intro ls' v hrun hclosed
    exact hall.accepted_exec hrun hclosed
  · intro hreturned hidle i hborn
    exact hall.settled hreturned hidle hborn

/-- A callback stops the loop while a delayed task is queued. -/
def stopInCallback : List (Threads.Label AsyncCall AsyncChoice) :=
  ([.enter 1 .schedule, .advance 1 .proceed, .enter 1 (.scheduleAfter 5), .advance 1 .proceed] :
      List (Threads.Label AsyncCall AsyncChoice)) ++
    List.replicate 6 (.advance 0 .proceed) ++
    ([.advance 0 (.calls .stop)] : List (Threads.Label AsyncCall AsyncChoice)) ++
    List.replicate 7 (.advance 0 .proceed)

theorem tasks_settle_once_stopInCallback :
    ∃ u, (machine exactDeadline).exec (start .ownedThread 0) stopInCallback = some u ∧
      resumptions 0 u.shared ≤ 1 ∧ resumptions 1 u.shared = 0 ∧
      (u.shared.states 0).status = .succeeded ∧ (u.shared.states 1).status = .cancelled ∧
      ∀ i < 2, (u.shared.states i).status ≠ .pending := by
  obtain ⟨u, hrun, hfirst, hsecond, hreturned, hcreated, hidle⟩ :
      ∃ u, (machine exactDeadline).exec (start .ownedThread 0) stopInCallback = some u ∧
        (u.shared.states 0).status = .succeeded ∧ (u.shared.states 1).status = .cancelled ∧
        u.shared.stopReturned = true ∧ u.shared.nextTask = 2 ∧ u.idleBelow 2 = true :=
    ⟨_, rfl, by decide +kernel, by decide +kernel, by decide +kernel, by decide +kernel,
      by decide +kernel⟩
  have hbelow : (start .ownedThread 0).Below 2 := fun k hk => if_neg (by omega)
  have hnone := (Program.below_exec hbelow (by decide) hrun).idle_of_idleBelow hidle
  obtain ⟨honce, _, _, _, hsettled⟩ := tasks_settle_once hrun
  refine ⟨u, hrun, (honce 0).1, (honce 1).2 hsecond, hfirst, hsecond, ?_⟩
  rw [← hcreated]
  exact hsettled hreturned fun a ha => absurd ha (hnone.not_pending a)

end AsyncEventLoop

end Watchlist.Concurrency
