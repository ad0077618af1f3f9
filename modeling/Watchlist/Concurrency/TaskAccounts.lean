import Watchlist.Library.History
import Watchlist.Concurrency.Settlement

/-!
Runs of `AsyncEventLoop` without a stop. The loop then accepts all that it is given, and
its history accounts for every task: what has come into a list of the loop and has not
left it is in that list, and what the worker has taken and not resumed it has in hand. As
a task is accepted once, each of these counts is at most one.
-/

namespace Watchlist.Concurrency

namespace AsyncEventLoop

open Transition Threads History

variable {deadlineOf : ℤ → ℤ → ℤ} {i k m : ℕ} {s s' : AsyncEventLoop} {a b : AsyncSection}
  {as : List AsyncSection} {choice : AsyncChoice} {u v : Threads AsyncEventLoop AsyncSection}
  {l : Threads.Label AsyncCall AsyncChoice}

/-! ### What a history says of the tasks -/

/-- The tasks that `schedule` puts into `ready_tasks_`. -/
def Happening.queues : Happening → List ℕ
  | .queued task => [task]
  | _ => []

/-- The tasks that come into `ready_tasks_`. -/
def Happening.readies : Happening → List ℕ
  | .queued task => [task]
  | .emitted _ released => released
  | _ => []

/-- The tasks that come into `event_waiters_`. -/
def Happening.registers : Happening → List ℕ
  | .registered task _ => [task]
  | _ => []

/-- The tasks that come from there into `ready_tasks_`. -/
def Happening.releases : Happening → List ℕ
  | .emitted _ released => released
  | _ => []

/-- The tasks that come into `delayed_tasks_`. -/
def Happening.delays : Happening → List DelayedTask
  | .delayed d _ _ => [d]
  | _ => []

def Happening.readyTakes : Happening → List ℕ
  | .takenReady task => [task]
  | _ => []

def Happening.delayTakes : Happening → List DelayedTask
  | .takenDelayed d _ => [d]
  | _ => []

/-- The tasks that the worker takes, from wherever. -/
def Happening.takes : Happening → List ℕ
  | .takenReady task => [task]
  | .takenDelayed d _ => [d.frame]
  | _ => []

def Happening.resumesTasks : Happening → List ℕ
  | .resumed task _ => [task]
  | _ => []

/-- The tasks that an enqueue accepts. -/
def Happening.admits : Happening → List ℕ
  | .queued task => [task]
  | .delayed d _ _ => [d.frame]
  | .registered task _ => [task]
  | _ => []

def queued (s : AsyncEventLoop) : List ℕ := s.history.flatMap Happening.queues
def readied (s : AsyncEventLoop) : List ℕ := s.history.flatMap Happening.readies
def registered (s : AsyncEventLoop) : List ℕ := s.history.flatMap Happening.registers
def released (s : AsyncEventLoop) : List ℕ := s.history.flatMap Happening.releases
def delays (s : AsyncEventLoop) : List DelayedTask := s.history.flatMap Happening.delays
def readyTaken (s : AsyncEventLoop) : List ℕ := s.history.flatMap Happening.readyTakes
def delayTaken (s : AsyncEventLoop) : List DelayedTask := s.history.flatMap Happening.delayTakes
def taken (s : AsyncEventLoop) : List ℕ := s.history.flatMap Happening.takes
def resumed (s : AsyncEventLoop) : List ℕ := s.history.flatMap Happening.resumesTasks
def admitted (s : AsyncEventLoop) : List ℕ := s.history.flatMap Happening.admits

/-- What a longer history has of something is that of the shorter one and of the new entry. -/
theorem flatMap_snoc {β : Type} {f : Happening → List β} {h h' : List Happening} {x : Happening}
    (heq : h' = h ++ [x]) : h'.flatMap f = h.flatMap f ++ f x := by
  rw [heq, List.flatMap_append, List.flatMap_singleton]

theorem count_taken (s : AsyncEventLoop) (i : ℕ) :
    s.taken.count i = s.readyTaken.count i + (s.delayTaken.map DelayedTask.frame).count i := by
  unfold taken readyTaken delayTaken
  induction s.history with
  | nil => rfl
  | cons x h ih =>
      simp only [List.flatMap_cons, List.count_append, List.map_append, ih]
      cases x <;> simp [Happening.takes, Happening.readyTakes, Happening.delayTakes] <;> omega

theorem count_readied (s : AsyncEventLoop) (i : ℕ) :
    s.readied.count i = s.queued.count i + s.released.count i := by
  unfold readied queued released
  induction s.history with
  | nil => rfl
  | cons x h ih =>
      simp only [List.flatMap_cons, List.count_append, ih]
      cases x <;> simp [Happening.readies, Happening.queues, Happening.releases] <;> omega

theorem count_admitted (s : AsyncEventLoop) (i : ℕ) :
    s.admitted.count i =
      s.queued.count i + (s.delays.map DelayedTask.frame).count i + s.registered.count i := by
  unfold admitted queued delays registered
  induction s.history with
  | nil => rfl
  | cons x h ih =>
      simp only [List.flatMap_cons, List.count_append, List.map_append, ih]
      cases x <;> simp [Happening.admits, Happening.queues, Happening.delays,
        Happening.registers] <;> omega

/-! ### Runs without a stop -/

/-- A thread or a callback calls `stop`. -/
def stops : Threads.Label AsyncCall AsyncChoice → Bool
  | .enter _ call => decide (call = .stop)
  | .advance _ choice => decide (choice = .calls .stop)

/-- The sections that a loop runs which has not been stopped. -/
def calm : AsyncSection → Bool
  | .reject _ | .lockGate | .close | .cancelAll _ | .cancelTaken _ => false
  | _ => true

structure Undisturbed (u : Threads AsyncEventLoop AsyncSection) : Prop where
  accepting : u.shared.accepting = true
  running : u.shared.stopping = false
  calm : ∀ a, u.Pending a → calm a = true

theorem Undisturbed.start (mode : ExecutionMode) (now : ℤ) : Undisturbed (start mode now) := by
  refine ⟨rfl, rfl, ?_⟩
  rintro a ⟨k, hk⟩
  simp only [AsyncEventLoop.start] at hk
  split at hk
  · obtain rfl := List.mem_singleton.mp hk
    rfl
  · cases hk

theorem calm_enter {call : AsyncCall} (hcall : call ≠ .stop) :
    (s.enter call).1.accepting = s.accepting ∧ (s.enter call).1.stopping = s.stopping ∧
      ∀ b ∈ (s.enter call).2, calm b = true := by
  cases call with
  | stop => exact absurd rfl hcall
  | runOnCallingThread =>
      refine ⟨rfl, rfl, fun b hb => ?_⟩
      simp only [enter] at hb
      split at hb
      · obtain rfl := List.mem_singleton.mp hb
        rfl
      · cases hb
  | advanceClock nanoseconds => exact ⟨rfl, rfl, fun b hb => absurd hb List.not_mem_nil⟩
  | _ => exact ⟨rfl, rfl, fun b hb => by obtain rfl := List.mem_singleton.mp hb; rfl⟩

theorem calm_run (hdoes : Does deadlineOf k s choice a s' as) (hcalm : calm a = true)
    (haccepting : s.accepting = true) (hrunning : s.stopping = false)
    (hchoice : choice ≠ .calls .stop) :
    s'.accepting = true ∧ s'.stopping = false ∧ ∀ b ∈ as, calm b = true := by
  have hone {c : AsyncSection} (hc : calm c = true) : ∀ b ∈ [c], calm b = true := by
    intro b hb
    rwa [List.mem_singleton.mp hb]
  have hnone : ∀ b ∈ ([] : List AsyncSection), calm b = true :=
    fun b hb => absurd hb List.not_mem_nil
  cases hdoes with
  | refuse hclosed => rw [haccepting] at hclosed; cases hclosed
  | drop hstopping => rw [hrunning] at hstopping; cases hstopping
  | reject => cases hcalm
  | lockGate => cases hcalm
  | close => cases hcalm
  | closeAgain => cases hcalm
  | stopReturns => cases hcalm
  | cancel => cases hcalm
  | cancelTaken => cases hcalm
  | calls call hcall =>
      have hne : call ≠ .stop := by
        rintro rfl
        exact hchoice hcall
      obtain ⟨h₁, h₂, hnew⟩ := calm_enter (s := s) hne
      refine ⟨h₁.trans haccepting, h₂.trans hrunning, fun b hb => ?_⟩
      rcases List.mem_append.mp hb with hb | hb
      · exact hnew b hb
      · exact hone rfl b hb
  | _ => first
    | exact ⟨haccepting, hrunning, hnone⟩
    | exact ⟨haccepting, hrunning, hone rfl⟩

theorem Undisturbed.step (h : Undisturbed u) (hl : stops l = false)
    (hstep : (machine deadlineOf).step u l = some v) : Undisturbed v := by
  cases Program.moves_of_step hstep with
  | enter hidle hcall =>
      obtain ⟨rfl, rfl⟩ := enter_eq hcall
      obtain ⟨h₁, h₂, hnew⟩ := calm_enter (s := u.shared) (of_decide_eq_false hl)
      exact ⟨h₁.trans h.accepting, h₂.trans h.running, forall_pending_enter hnew h.calm⟩
  | advance hat hrun =>
      obtain ⟨h₁, h₂, hnew⟩ := calm_run (does_of_run hrun) (h.calm _ (pending_head hat))
        h.accepting h.running (of_decide_eq_false hl)
      exact ⟨h₁, h₂, forall_pending_become hat hnew h.calm⟩

/-! ### One worker -/

def working : AsyncSection → ℕ
  | .awaitWork | .asleepUntil _ | .lockBoundary _ | .readStopping _ | .cancelTaken _
  | .checkStatus _ | .resume _ | .inTask _ | .unlockBoundary => 1
  | _ => 0

/-- Only one thread works, and only once `run` has started. -/
def OneWorker (u : Threads AsyncEventLoop AsyncSection) : Prop :=
  u.Balanced working fun s m => m ≤ if s.runStarted then 1 else 0

theorem OneWorker.start (mode : ExecutionMode) (now : ℤ) : OneWorker (start mode now) := by
  refine ⟨_, weighs_of_first fun k hk => if_neg fun h => hk h.1, ?_⟩
  simp only [AsyncEventLoop.start]
  split <;> exact Nat.zero_le _

theorem working_enter (s : AsyncEventLoop) (call : AsyncCall) :
    (s.enter call).1.runStarted = s.runStarted ∧ ((s.enter call).2.map working).sum = 0 := by
  cases call with
  | runOnCallingThread =>
      refine ⟨rfl, ?_⟩
      simp only [enter]
      split <;> rfl
  | _ => exact ⟨rfl, rfl⟩

theorem working_run (hdoes : Does deadlineOf k s choice a s' as)
    (h : working a + m ≤ if s.runStarted then 1 else 0) :
    (as.map working).sum + m ≤ if s'.runStarted then 1 else 0 := by
  cases hdoes with
  | refuse hclosed ha =>
      rcases ha with rfl | ⟨_, rfl⟩ | ⟨_, rfl⟩ <;> exact h
  | startRun hfirst =>
      rw [hfirst] at h
      simp [working] at h ⊢
      omega
  | runEnds =>
      simp only [working, List.map_nil, List.sum_nil] at h ⊢
      omega
  | calls call =>
      obtain ⟨hstarted, hnone⟩ := working_enter s call
      rw [hstarted, List.map_append, List.sum_append, hnone, Nat.zero_add]
      exact h
  | _ => exact h

theorem OneWorker.step (h : OneWorker u) (hstep : (machine deadlineOf).step u l = some v) :
    OneWorker v := by
  apply Program.balanced_step h hstep
  · intro k call s' as m hcall hm
    obtain ⟨rfl, rfl⟩ := enter_eq hcall
    obtain ⟨hstarted, hnone⟩ := working_enter u.shared call
    rwa [hstarted, hnone, Nat.zero_add]
  · intro k a choice s' as m _ hrun hm
    exact working_run (does_of_run hrun) hm

/-! ### Accounts -/

/-- What has come into a list is in it or has left it. -/
structure Accounts (s : AsyncEventLoop) : Prop where
  waiting : (s.waiters.map EventWaiter.frame ++ s.released).Perm s.registered
  ready : (s.ready ++ s.readyTaken).Perm s.readied
  delayed : (s.delayed.toList ++ s.delayTaken).Perm s.delays

theorem Accounts.initial (mode : ExecutionMode) (now : ℤ) : Accounts (initial mode now) :=
  ⟨.rfl, .rfl, .rfl⟩

/-- What is added and what leaves on both sides of an account. -/
theorem perm_move {α : Type} [DecidableEq α] {l l' gone came x y : List α}
    (h : (l ++ gone).Perm came) (hmove : (l' ++ x).Perm (l ++ y)) :
    (l' ++ (gone ++ x)).Perm (came ++ y) := by
  rw [List.perm_iff_count] at h hmove ⊢
  intro c
  have hc := h c
  have hmovec := hmove c
  simp only [List.count_append] at hc hmovec ⊢
  omega

/-- The accounts after one more entry of the history. -/
theorem Accounts.snoc {x : Happening} (h : Accounts s) (hhistory : s'.history = s.history ++ [x])
    (hwaiting : (s'.waiters.map EventWaiter.frame ++ x.releases).Perm
      (s.waiters.map EventWaiter.frame ++ x.registers))
    (hready : (s'.ready ++ x.readyTakes).Perm (s.ready ++ x.readies))
    (hdelayed : (s'.delayed.toList ++ x.delayTakes).Perm (s.delayed.toList ++ x.delays)) :
    Accounts s' := by
  constructor
  · rw [released, registered, flatMap_snoc hhistory, flatMap_snoc hhistory]
    exact perm_move h.waiting hwaiting
  · rw [readyTaken, readied, flatMap_snoc hhistory, flatMap_snoc hhistory]
    exact perm_move h.ready hready
  · rw [delayTaken, delays, flatMap_snoc hhistory, flatMap_snoc hhistory]
    exact perm_move h.delayed hdelayed

theorem accounts_enter (h : Accounts s) (call : AsyncCall) : Accounts (s.enter call).1 := by
  cases call <;> exact ⟨h.waiting, h.ready, h.delayed⟩

theorem accounts_run (hdoes : Does deadlineOf k s choice a s' as) (hcalm : calm a = true)
    (h : Accounts s) : Accounts s' := by
  cases hdoes with
  | queue =>
      refine h.snoc rfl (.refl _) ?_ (.refl _)
      exact .of_eq (List.append_nil _)
  | @delay task delay d hopen hd =>
      refine h.snoc rfl (.refl _) (.refl _) ?_
      change ((s.delayed.push d).toList ++ []).Perm (s.delayed.toList ++ [d])
      rw [List.append_nil]
      exact (PriorityQueue.perm_push s.delayed d).trans (List.perm_append_singleton d _).symm
  | register =>
      refine h.snoc rfl ?_ (.refl _) (.refl _)
      simp [Happening.releases, Happening.registers]
  | @emit event hopen =>
      refine h.snoc rfl ?_ (.of_eq (List.append_nil _)) (.refl _)
      have hsplit := List.filter_append_perm (·.name ≠ event.name) s.waiters
      have hmap := hsplit.map EventWaiter.frame
      rw [List.map_append] at hmap
      simpa [Happening.releases, Happening.registers, waitingFor] using hmap
  | takeReady hrunning htask =>
      refine h.snoc rfl (.refl _) ?_ (.refl _)
      exact .of_eq ((List.dropLast_append_getLast? _ htask).trans (List.append_nil _).symm)
  | @takeDelayed deadline d hrunning hready hd hdue =>
      refine h.snoc rfl (.refl _) (.refl _) ?_
      change (s.delayed.pop.toList ++ [d]).Perm (s.delayed.toList ++ [])
      rw [List.append_nil, PriorityQueue.toList_of_top hd]
      exact List.perm_append_singleton d _
  | resume => exact h.snoc rfl (.refl _) (.refl _) (.refl _)
  | close => cases hcalm
  | calls call => exact accounts_enter h call
  | _ => exact ⟨h.waiting, h.ready, h.delayed⟩

/-! ### One admission, one resumption -/

/-- The sections that are about to put the task into a list. -/
def entering (i : ℕ) : AsyncSection → ℕ
  | .enqueueReady task | .enqueueAfter task _ | .enqueueEventWait task _ =>
      if task = i then 1 else 0
  | _ => 0

/-- A task is admitted once at most, and only when it has been created. -/
def Admitted (i : ℕ) (u : Threads AsyncEventLoop AsyncSection) : Prop :=
  u.Balanced (entering i) fun s m => s.admitted.count i + m ≤ created i s

theorem Admitted.start (i : ℕ) (mode : ExecutionMode) (now : ℤ) : Admitted i (start mode now) := by
  refine ⟨_, weighs_of_first fun k hk => if_neg fun h => hk h.1, ?_⟩
  simp only [AsyncEventLoop.start]
  split <;> exact Nat.zero_le _

theorem admitted_enter (h : s.admitted.count i + m ≤ created i s) (call : AsyncCall) :
    (s.enter call).1.admitted.count i + (((s.enter call).2.map (entering i)).sum + m) ≤
      created i (s.enter call).1 := by
  have hcreate (awaited : Option Event) :
      (s.create awaited).admitted.count i + ((if s.nextTask = i then 1 else 0) + m) ≤
        created i (s.create awaited) := by
    have hsame : (s.create awaited).admitted = s.admitted := rfl
    rw [created_create, hsame]
    omega
  cases call with
  | schedule => exact hcreate none
  | scheduleAfter delay => exact hcreate none
  | waitForEvent name => exact hcreate (some .none)
  | emitEvent event => simpa [enter, entering] using h
  | stop => simpa [enter, entering] using h
  | runOnCallingThread =>
      simp only [enter]
      split
      · simpa [entering] using h
      · simpa using h
  | advanceClock nanoseconds =>
      simp only [enter, List.map_nil, List.sum_nil, Nat.zero_add]
      exact h

theorem count_admitted_snoc {x : Happening} (h : s'.history = s.history ++ [x]) (i : ℕ) :
    s'.admitted.count i = s.admitted.count i + x.admits.count i := by
  rw [admitted, flatMap_snoc h, List.count_append, admitted]

theorem admitted_run (hdoes : Does deadlineOf k s choice a s' as)
    (h : s.admitted.count i + (entering i a + m) ≤ created i s) :
    s'.admitted.count i + ((as.map (entering i)).sum + m) ≤ created i s' := by
  have hadmits {t : AsyncEventLoop} {x : Happening} (ht : t.history = s.history ++ [x])
      (hcreated : created i t = created i s) (hx : x.admits.count i = entering i a) :
      t.admitted.count i + (0 + m) ≤ created i t := by
    rw [count_admitted_snoc ht, hcreated]
    omega
  cases hdoes with
  | queue => exact hadmits rfl rfl (by simp [Happening.admits, entering, List.count_singleton])
  | delay hopen hd =>
      subst hd
      exact hadmits rfl rfl (by simp [Happening.admits, entering, List.count_singleton])
  | register => exact hadmits rfl rfl (by simp [Happening.admits, entering, List.count_singleton])
  | emit => exact hadmits rfl rfl rfl
  | takeReady => exact hadmits rfl rfl rfl
  | takeDelayed => exact hadmits rfl rfl rfl
  | resume => exact hadmits rfl rfl rfl
  | refuse hclosed ha =>
      simp only [entering, List.map_cons, List.map_nil, List.sum_cons, List.sum_nil]
      omega
  | @calls task call =>
      have hcall := admitted_enter (m := m) (by simpa [entering] using h) call
      rw [List.map_append, List.sum_append]
      simpa [entering] using hcall
  | _ => exact h

theorem Admitted.step (h : Admitted i u) (hstep : (machine deadlineOf).step u l = some v) :
    Admitted i v := by
  apply Program.balanced_step h hstep
  · intro k call s' as m hcall hm
    obtain ⟨rfl, rfl⟩ := enter_eq hcall
    exact admitted_enter hm call
  · intro k a choice s' as m _ hrun hm
    exact admitted_run (does_of_run hrun) hm

/-- The sections that the worker runs between taking the task and resuming it. -/
def carrying (i : ℕ) : AsyncSection → ℕ
  | .lockBoundary task | .readStopping task | .checkStatus task | .resume task =>
      if task = i then 1 else 0
  | _ => 0

/-- The same for whatever task it is. -/
def carryingAny : AsyncSection → ℕ
  | .lockBoundary _ | .readStopping _ | .checkStatus _ | .resume _ => 1
  | _ => 0

theorem carrying_enter (s : AsyncEventLoop) (call : AsyncCall) :
    (s.enter call).1.history = s.history ∧ ((s.enter call).2.map (carrying i)).sum = 0 ∧
      ((s.enter call).2.map carryingAny).sum = 0 := by
  cases call with
  | runOnCallingThread =>
      refine ⟨rfl, ?_⟩
      simp only [enter]
      split <;> exact ⟨rfl, rfl⟩
  | _ => exact ⟨rfl, rfl, rfl⟩

/-- What the worker has taken it has resumed or has in hand. -/
structure Carried (u : Threads AsyncEventLoop AsyncSection) : Prop where
  count : ∀ i, u.Balanced (carrying i) fun s m => s.resumed.count i + m = s.taken.count i
  length : u.Balanced carryingAny fun s m => s.resumed.length + m = s.taken.length
  /-- what has been resumed has been taken in the same order -/
  ordered : u.shared.resumed <+: u.shared.taken

theorem resumed_snoc {x : Happening} (h : s'.history = s.history ++ [x]) :
    s'.resumed = s.resumed ++ x.resumesTasks := flatMap_snoc h

theorem taken_snoc {x : Happening} (h : s'.history = s.history ++ [x]) :
    s'.taken = s.taken ++ x.takes := flatMap_snoc h

/-- The ways a section can treat the tasks that are in hand. -/
inductive Hands (s : AsyncEventLoop) (a : AsyncSection) (s' : AsyncEventLoop)
    (as : List AsyncSection) : Prop
  | keep (hresumed : s'.resumed = s.resumed) (htaken : s'.taken = s.taken)
      (hsum : ∀ i, (as.map (carrying i)).sum = carrying i a)
      (hany : (as.map carryingAny).sum = carryingAny a)
  | take {task : ℕ} (hresumed : s'.resumed = s.resumed) (htaken : s'.taken = s.taken ++ [task])
      (hany : carryingAny a = 0) (hsum : ∀ i, carrying i a = 0) (has : as = [.lockBoundary task])
  | resume {task : ℕ} (ha : a = .resume task) (hresumed : s'.resumed = s.resumed ++ [task])
      (htaken : s'.taken = s.taken) (has : as = [.inTask task])

/-- A section that records something which is neither a take nor a resumption. -/
theorem Hands.record {x : Happening} (h : s'.history = s.history ++ [x])
    (hx : x.resumesTasks = []) (hx' : x.takes = [])
    (hsum : ∀ i, (as.map (carrying i)).sum = carrying i a)
    (hany : (as.map carryingAny).sum = carryingAny a) : Hands s a s' as := by
  apply Hands.keep _ _ hsum hany
  · rw [resumed_snoc h, hx, List.append_nil]
  · rw [taken_snoc h, hx', List.append_nil]

theorem Hands.of_take {x : Happening} {task : ℕ} (h : s'.history = s.history ++ [x])
    (hx : x.resumesTasks = []) (hx' : x.takes = [task]) (hany : carryingAny a = 0)
    (hsum : ∀ i, carrying i a = 0) : Hands s a s' [.lockBoundary task] := by
  apply Hands.take _ _ hany hsum rfl
  · rw [resumed_snoc h, hx, List.append_nil]
  · rw [taken_snoc h, hx']

theorem Hands.of_resume {x : Happening} {task : ℕ} (h : s'.history = s.history ++ [x])
    (hx : x.resumesTasks = [task]) (hx' : x.takes = []) :
    Hands s (.resume task) s' [.inTask task] := by
  apply Hands.resume rfl _ _ rfl
  · rw [resumed_snoc h, hx]
  · rw [taken_snoc h, hx', List.append_nil]

theorem hands_run (hdoes : Does deadlineOf k s choice a s' as) (hrunning : s.stopping = false)
    (hpending : ∀ i, 0 < carries i a → (s.states i).status = .pending) : Hands s a s' as := by
  cases hdoes with
  | queue => exact .record rfl rfl rfl (fun _ => rfl) rfl
  | delay => exact .record rfl rfl rfl (fun _ => rfl) rfl
  | register => exact .record rfl rfl rfl (fun _ => rfl) rfl
  | emit => exact .record rfl rfl rfl (fun _ => rfl) rfl
  | takeReady => exact .of_take rfl rfl rfl rfl fun _ => rfl
  | takeDelayed => exact .of_take rfl rfl rfl rfl fun _ => rfl
  | resume => exact .of_resume rfl rfl rfl
  | refuse hclosed ha =>
      rcases ha with rfl | ⟨_, rfl⟩ | ⟨_, rfl⟩ <;> exact .keep rfl rfl (fun _ => rfl) rfl
  | drop hstopping =>
      rw [hrunning] at hstopping
      cases hstopping
  | @checkSettled task hsettled =>
      -- a task in hand is pending
      exact absurd (hpending task (by simp [carries])) hsettled
  | @calls task call =>
      have hhistory : (s.enter call).1.history = s.history := (carrying_enter (i := 0) s call).1
      refine .keep (congrArg (List.flatMap _) hhistory) (congrArg (List.flatMap _) hhistory)
        (fun i => ?_) ?_
      · rw [List.map_append, List.sum_append, (carrying_enter s call).2.1]
        rfl
      · rw [List.map_append, List.sum_append, (carrying_enter (i := 0) s call).2.2]
        rfl
  | _ => exact .keep rfl rfl (fun _ => rfl) rfl

theorem Carried.start (mode : ExecutionMode) (now : ℤ) : Carried (start mode now) := by
  have hpending : ∀ k, k ≠ 0 → (AsyncEventLoop.start mode now).pending k = [] :=
    fun k hk => if_neg fun h => hk h.1
  refine ⟨fun i => ⟨_, weighs_of_first hpending, ?_⟩, ⟨_, weighs_of_first hpending, ?_⟩,
    List.prefix_rfl⟩
  · simp only [AsyncEventLoop.start]
    split <;> rfl
  · simp only [AsyncEventLoop.start]
    split <;> rfl

/-- All that is known of a reachable state when nothing has been stopped. -/
structure Going (u : Threads AsyncEventLoop AsyncSection) : Prop where
  settling : Settling u
  undisturbed : Undisturbed u
  worker : OneWorker u
  accounts : Accounts u.shared
  admitted : ∀ i, Admitted i u
  carried : Carried u

theorem Going.start (mode : ExecutionMode) (now : ℤ) : Going (start mode now) :=
  ⟨.start mode now, .start mode now, .start mode now, .initial mode now,
    fun i => .start i mode now, .start mode now⟩

/-- A task that is in hand is the only one. -/
theorem Going.carrying_le (h : Going u) {m : ℕ} (hm : u.Weighs carryingAny m) : m ≤ 1 := by
  obtain ⟨m', hm', hle⟩ := h.worker
  have hmono : m ≤ m' := hm.mono hm' fun a => by cases a <;> simp [carryingAny, working]
  split at hle <;> omega

theorem Going.carried_step (h : Going u) (hstep : (machine deadlineOf).step u l = some v) :
    Carried v := by
  have hhands {k : ℕ} {a : AsyncSection} {choice : AsyncChoice} {s' : AsyncEventLoop}
      {as : List AsyncSection} (ha : u.Pending a)
      (hrun : (program deadlineOf).run k u.shared a choice = some (s', as)) :
      Hands u.shared a s' as :=
    hands_run (does_of_run hrun) h.undisturbed.running
      fun i hi => ((h.settling.sound.placed i).of_carried ha hi).2.1
  refine ⟨fun i => ?_, ?_, ?_⟩
  · apply Program.balanced_step (h.carried.count i) hstep
    · intro k call s' as m hcall hm
      obtain ⟨rfl, rfl⟩ := enter_eq hcall
      obtain ⟨hhistory, hnone, _⟩ := carrying_enter (i := i) u.shared call
      rw [hnone, resumed, taken, hhistory, Nat.zero_add]
      exact hm
    · intro k a choice s' as m ha hrun hm
      cases hhands ha hrun with
      | keep hresumed htaken hsum hany => rw [hresumed, htaken, hsum i]; exact hm
      | @take task hresumed htaken hany hsum has =>
          rw [hsum i] at hm
          rw [hresumed, htaken, has, List.count_append, ← hm]
          simp [carrying, List.count_singleton]
          omega
      | @resume task hat hresumed htaken has =>
          rw [hresumed, htaken, has, List.count_append, ← hm, hat]
          simp [carrying, List.count_singleton]
          omega
  · apply Program.balanced_step h.carried.length hstep
    · intro k call s' as m hcall hm
      obtain ⟨rfl, rfl⟩ := enter_eq hcall
      obtain ⟨hhistory, _, hnone⟩ := carrying_enter (i := 0) u.shared call
      rw [hnone, resumed, taken, hhistory, Nat.zero_add]
      exact hm
    · intro k a choice s' as m ha hrun hm
      cases hhands ha hrun with
      | keep hresumed htaken hsum hany => rw [hresumed, htaken, hany]; exact hm
      | @take task hresumed htaken hany hsum has =>
          rw [hany] at hm
          rw [hresumed, htaken, has, List.length_append, ← hm]
          simp [carryingAny]
          omega
      | @resume task hat hresumed htaken has =>
          rw [hresumed, htaken, has, List.length_append, ← hm, hat]
          simp [carryingAny]
          omega
  · cases Program.moves_of_step hstep with
    | @enter k call s' as hidle hcall =>
        obtain ⟨rfl, rfl⟩ := enter_eq hcall
        rw [shared_become, resumed, taken, (carrying_enter (i := 0) u.shared call).1]
        exact h.carried.ordered
    | advance hat hrun =>
        cases hhands (pending_head hat) hrun with
        | keep hresumed htaken => rw [shared_become, hresumed, htaken]; exact h.carried.ordered
        | take hresumed htaken =>
            rw [shared_become, hresumed, htaken]
            exact h.carried.ordered.trans (List.prefix_append _ _)
        | @resume task ha hresumed htaken has =>
            -- the one task in hand is the last that has been taken
            rw [shared_become, hresumed, htaken]
            obtain ⟨rest, hrest⟩ := h.carried.ordered
            obtain ⟨m, hm, hcount⟩ := h.carried.count task
            obtain ⟨n, hn, hlength⟩ := h.carried.length
            have hone := h.carrying_le hn
            have hin := hm.le (pending_head hat)
            rw [← hrest, List.count_append] at hcount
            rw [← hrest, List.length_append] at hlength
            simp only [ha, carrying, if_true] at hin
            have hmem : 0 < rest.count task := by omega
            obtain ⟨x, rfl⟩ : ∃ x, rest = [x] := by
              apply List.length_eq_one_iff.mp
              have hpos := List.length_pos_of_mem (List.count_pos_iff.mp hmem)
              omega
            obtain rfl : task = x := List.mem_singleton.mp (List.count_pos_iff.mp hmem)
            exact ⟨[], by rw [List.append_nil, hrest]⟩

theorem Going.step (h : Going u) (hl : stops l = false)
    (hstep : (machine deadlineOf).step u l = some v) : Going v := by
  refine ⟨h.settling.step hstep, h.undisturbed.step hl hstep, h.worker.step hstep, ?_,
    fun i => (h.admitted i).step hstep, h.carried_step hstep⟩
  cases Program.moves_of_step hstep with
  | enter hidle hcall =>
      obtain ⟨rfl, rfl⟩ := enter_eq hcall
      exact accounts_enter h.accounts _
  | advance hat hrun =>
      exact accounts_run (does_of_run hrun) (h.undisturbed.calm _ (pending_head hat)) h.accounts

theorem Going.of_exec {ls : List (Threads.Label AsyncCall AsyncChoice)} (h : Going u)
    (hls : ∀ l ∈ ls, stops l = false) (hrun : (machine deadlineOf).exec u ls = some v) :
    Going v :=
  Machine.invariant_of_meets (C := fun _ l => stops l = false) Going
    (fun _ _ _ hu hl hv => hu.step hl hv)
    (Machine.meets_of_forall fun l hl _ => hls l hl) hrun h

/-! ### What the accounts say of one task -/

/-- How often a task is somewhere and has been somewhere. -/
structure Counts (i : ℕ) (u : Threads AsyncEventLoop AsyncSection) (inHand : ℕ) : Prop where
  waiting : (u.shared.waiters.map EventWaiter.frame).count i + u.shared.released.count i =
    u.shared.registered.count i
  ready : u.shared.ready.count i + u.shared.readyTaken.count i =
    u.shared.queued.count i + u.shared.released.count i
  delayed : (u.shared.delayed.toList.map DelayedTask.frame).count i +
    (u.shared.delayTaken.map DelayedTask.frame).count i =
      (u.shared.delays.map DelayedTask.frame).count i
  carried : u.shared.resumed.count i + inHand =
    u.shared.readyTaken.count i + (u.shared.delayTaken.map DelayedTask.frame).count i
  admitted : u.shared.queued.count i + (u.shared.delays.map DelayedTask.frame).count i +
    u.shared.registered.count i ≤ created i u.shared

theorem Going.counts (h : Going u) (i : ℕ) :
    ∃ inHand, u.Weighs (carrying i) inHand ∧ Counts i u inHand := by
  obtain ⟨n, hn, hcarried⟩ := h.carried.count i
  obtain ⟨m, _, hadmitted⟩ := h.admitted i
  refine ⟨n, hn, ?_, ?_, ?_, ?_, ?_⟩
  · rw [← List.count_append]
    exact h.accounts.waiting.count_eq i
  · rw [← List.count_append, ← count_readied]
    exact h.accounts.ready.count_eq i
  · rw [← List.count_append, ← List.map_append]
    exact (h.accounts.delayed.map _).count_eq i
  · rw [← count_taken]
    exact hcarried
  · rw [← count_admitted]
    omega

theorem created_le (i : ℕ) (s : AsyncEventLoop) : created i s ≤ 1 := by
  unfold created
  split <;> omega

theorem lt_of_created {i : ℕ} {s : AsyncEventLoop} (h : 0 < created i s) : i < s.nextTask := by
  unfold created at h
  split at h
  · assumption
  · exact absurd h (lt_irrefl 0)

end AsyncEventLoop

end Watchlist.Concurrency
