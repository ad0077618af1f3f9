import Watchlist.Concurrency.TaskAccounts

/-!
An event emitted to `AsyncEventLoop` goes to exactly the tasks that wait for it. Which
tasks wait for a name is replayed from the history, apart from the loop: a registration
adds a task at the end, an event of the name takes them all. An event is written into the
frame of each task it releases, and nothing else is written there until the task is
resumed, since a task waits once.
-/

namespace Watchlist.Concurrency

namespace AsyncEventLoop

open Transition Threads History

variable {deadlineOf : ℤ → ℤ → ℤ} {i k m : ℕ} {s s' : AsyncEventLoop} {a b : AsyncSection}
  {as : List AsyncSection} {choice : AsyncChoice} {u v : Threads AsyncEventLoop AsyncSection}
  {l : Threads.Label AsyncCall AsyncChoice}

/-- The tasks that wait for a name, after one more thing has happened. -/
def waitNext (name : Bytes) (waiting : List ℕ) : Happening → List ℕ
  | .registered task other => if other = name then waiting ++ [task] else waiting
  | .emitted event _ => if event.name = name then [] else waiting
  | _ => waiting

/-- The tasks that are registered under the name, in the order of registration. -/
def waitingIn (name : Bytes) (h : List Happening) : List ℕ := h.foldl (waitNext name) []

theorem waitingIn_snoc (name : Bytes) (h : List Happening) (x : Happening) :
    waitingIn name (h ++ [x]) = waitNext name (waitingIn name h) x := by
  rw [waitingIn, List.foldl_append, List.foldl_cons, List.foldl_nil, waitingIn]

/-- Who waits has been registered. -/
theorem registered_of_waitingIn {name : Bytes} {h : List Happening} (hi : i ∈ waitingIn name h) :
    .registered i name ∈ h := by
  induction h using List.reverseRecOn with
  | nil => cases hi
  | append_singleton h x ih =>
      rw [waitingIn_snoc] at hi
      have hold (hi : i ∈ waitingIn name h) : .registered i name ∈ h ++ [x] :=
        List.mem_append_left _ (ih hi)
      cases x with
      | registered task other =>
          simp only [waitNext] at hi
          split at hi
          · rename_i hname
            rcases List.mem_append.mp hi with hi | hi
            · exact hold hi
            · rw [List.mem_singleton.mp hi, hname]
              exact List.mem_append_right _ List.mem_cons_self
          · exact hold hi
      | emitted event released =>
          simp only [waitNext] at hi
          split at hi
          · cases hi
          · exact hold hi
      | _ => exact hold hi

/-- A task that waits for an event of a name is one of the waiters. -/
theorem count_waiters_pos {name : Bytes} (h : i ∈ s.waitingFor name) :
    0 < (s.waiters.map EventWaiter.frame).count i := by
  rw [count_waiting s name i]
  exact Nat.add_pos_left (List.count_pos_iff.mpr h) _

/-! ### Whose frame holds an event -/

/-- Nothing but an event that releases the task changes what its frame holds. -/
theorem awaited_step (hstep : (machine deadlineOf).step u l = some v)
    (hborn : i < u.shared.nextTask)
    (hwait : (u.shared.waiters.map EventWaiter.frame).count i = 0) :
    v.shared.awaited i = u.shared.awaited i := by
  have hcreate (s : AsyncEventLoop) (hborn : i < s.nextTask) (call : AsyncCall) :
      (s.enter call).1.awaited i = s.awaited i := by
    cases call with
    | schedule => exact Function.update_of_ne (Nat.ne_of_lt hborn) _ _
    | scheduleAfter delay => exact Function.update_of_ne (Nat.ne_of_lt hborn) _ _
    | waitForEvent name => exact Function.update_of_ne (Nat.ne_of_lt hborn) _ _
    | _ => rfl
  cases Program.moves_of_step hstep with
  | enter hidle hcall =>
      obtain ⟨rfl, rfl⟩ := enter_eq hcall
      exact hcreate _ hborn _
  | advance hat hrun =>
      cases does_of_run hrun with
      | @emit event hopen =>
          refine if_neg fun hi => ?_
          have hpos := count_waiters_pos hi
          omega
      | calls call => exact hcreate _ hborn call
      | _ => rfl

/-- Whatever has left the waiters, or never was one, keeps what its frame holds. -/
theorem Going.awaited_of_gone (h : Going u) (hstep : (machine deadlineOf).step u l = some v)
    (hgone : 0 < u.shared.released.count i ∨ 0 < u.shared.resumed.count i ∨
      0 < u.shared.queued.count i ∨ 0 < (u.shared.delays.map DelayedTask.frame).count i) :
    v.shared.awaited i = u.shared.awaited i := by
  obtain ⟨n, _, hcounts⟩ := h.counts i
  obtain ⟨hwaiting, hready, hdelayed, hcarried, hadmitted⟩ := hcounts
  have hcreated := created_le i u.shared
  exact awaited_step hstep (lt_of_created (by omega)) (by omega)

/-- The sections of a call that is about to admit a task with a callback. -/
def admitsCallback (i : ℕ) : AsyncSection → Prop
  | .enqueueReady task | .enqueueAfter task _ => task = i
  | _ => False

/-- What the frames of the tasks hold, and why. -/
structure Routed (u : Threads AsyncEventLoop AsyncSection) : Prop where
  waiting : ∀ name, u.shared.waitingFor name = waitingIn name u.shared.history
  /-- an event releases who waits for its name -/
  emitted : Explained (fun pre x => ∀ e rel, x = .emitted e rel → rel = waitingIn e.name pre)
    u.shared.history
  /-- a task observes an event that has released it -/
  resumed : Explained (fun pre x => ∀ i e, x = .resumed i (some e) →
    ∃ rel, .emitted e rel ∈ pre ∧ i ∈ rel) u.shared.history
  delivered : ∀ e rel, .emitted e rel ∈ u.shared.history → ∀ i ∈ rel,
    u.shared.awaited i = some e
  observed : ∀ i o, .resumed i o ∈ u.shared.history → u.shared.awaited i = o
  callbacks : ∀ i, 0 < u.shared.queued.count i ∨
    0 < (u.shared.delays.map DelayedTask.frame).count i → u.shared.awaited i = none
  called : ∀ a i, u.Pending a → admitsCallback i a → u.shared.awaited i = none

theorem Routed.start (mode : ExecutionMode) (now : ℤ) : Routed (start mode now) := by
  refine ⟨fun _ => rfl, explained_nil, explained_nil, ?_, ?_, ?_, ?_⟩
  · exact fun e rel h => absurd h List.not_mem_nil
  · exact fun i o h => absurd h List.not_mem_nil
  · rintro i (h | h) <;> cases h
  · rintro a i - -
    rfl

/-! ### One step -/

/-- What a step adds to the history. -/
inductive Adds (s s' : AsyncEventLoop) (a : AsyncSection) : Prop
  | nothing (hhistory : s'.history = s.history) (hwaiters : s'.waiters = s.waiters)
  | queued (task : ℕ) (ha : a = .enqueueReady task)
      (hhistory : s'.history = s.history ++ [.queued task]) (hwaiters : s'.waiters = s.waiters)
  | delayed (d : DelayedTask) (now delay : ℤ) (ha : a = .enqueueAfter d.frame delay)
      (hhistory : s'.history = s.history ++ [.delayed d now delay])
      (hwaiters : s'.waiters = s.waiters)
  | registered (task : ℕ) (name : Bytes)
      (hhistory : s'.history = s.history ++ [.registered task name])
      (hwaiters : s'.waiters = s.waiters ++ [⟨name, task⟩])
  | emitted (event : Event)
      (hhistory : s'.history = s.history ++ [.emitted event (s.waitingFor event.name)])
      (hwaiters : s'.waiters = s.waiters.filter (·.name ≠ event.name))
      (hawaited : ∀ i ∈ s.waitingFor event.name, s'.awaited i = some event)
  | taken (x : Happening) (hx : x.takes ≠ [])
      (hhistory : s'.history = s.history ++ [x]) (hwaiters : s'.waiters = s.waiters)
  | resumed (task : ℕ) (ha : a = .resume task)
      (hhistory : s'.history = s.history ++ [.resumed task (s.awaited task)])
      (hwaiters : s'.waiters = s.waiters) (hawaited : s'.awaited = s.awaited)

theorem adds_run (hdoes : Does deadlineOf k s choice a s' as) (hcalm : calm a = true) :
    Adds s s' a := by
  cases hdoes with
  | queue => exact .queued _ rfl rfl rfl
  | delay hopen hd =>
      subst hd
      exact .delayed ⟨_, s.nextSequence, _⟩ _ _ rfl rfl rfl
  | register => exact .registered _ _ rfl rfl
  | emit => exact .emitted _ rfl rfl fun i hi => if_pos hi
  | takeReady => exact .taken _ (by simp [Happening.takes]) rfl rfl
  | takeDelayed => exact .taken _ (by simp [Happening.takes]) rfl rfl
  | resume => exact .resumed _ rfl rfl rfl rfl
  | close => cases hcalm
  | @calls task call =>
      have henter : (s.enter call).1.history = s.history ∧
          (s.enter call).1.waiters = s.waiters := by cases call <;> exact ⟨rfl, rfl⟩
      exact .nothing henter.1 henter.2
  | _ => exact .nothing rfl rfl

theorem waiting_adds (hadds : Adds s s' a)
    (h : ∀ name, s.waitingFor name = waitingIn name s.history) (name : Bytes) :
    s'.waitingFor name = waitingIn name s'.history := by
  have hkeep (hwaiters : s'.waiters = s.waiters) : s'.waitingFor name = s.waitingFor name := by
    rw [waitingFor, hwaiters, waitingFor]
  cases hadds with
  | nothing hhistory hwaiters => rw [hkeep hwaiters, h, hhistory]
  | queued task ha hhistory hwaiters => rw [hkeep hwaiters, h, hhistory, waitingIn_snoc]; rfl
  | delayed d now delay ha hhistory hwaiters =>
      rw [hkeep hwaiters, h, hhistory, waitingIn_snoc]
      rfl
  | resumed task ha hhistory hwaiters => rw [hkeep hwaiters, h, hhistory, waitingIn_snoc]; rfl
  | taken x hx hhistory hwaiters =>
      rw [hkeep hwaiters, h, hhistory, waitingIn_snoc]
      cases x <;> first | rfl | exact absurd rfl hx
  | registered task other hhistory hwaiters =>
      rw [hhistory, waitingIn_snoc, ← h, waitingFor, hwaiters, List.filter_append, List.map_append]
      by_cases hname : other = name
      · simp [waitNext, hname, waitingFor]
      · simp [waitNext, hname, waitingFor]
  | emitted event hhistory hwaiters =>
      rw [hhistory, waitingIn_snoc, ← h, waitingFor, hwaiters, List.filter_filter]
      by_cases hname : event.name = name
      · have hnone : s.waiters.filter (fun w => decide (w.name = name) &&
            decide (w.name ≠ event.name)) = [] := by
          apply List.filter_eq_nil_iff.mpr
          intro w _
          simp [hname]
        rw [hnone, waitNext, if_pos hname, List.map_nil]
      · have hsame : s.waiters.filter (fun w => decide (w.name = name) &&
            decide (w.name ≠ event.name)) = s.waiters.filter (·.name = name) := by
          apply List.filter_congr
          intro w _
          by_cases hw : w.name = name
          · simp [hw, Ne.symm hname]
          · simp [hw]
        rw [hsame, waitNext, if_neg hname, waitingFor]

theorem released_pos : 0 < s.released.count i ↔
    ∃ e rel, Happening.emitted e rel ∈ s.history ∧ i ∈ rel := by
  rw [List.count_pos_iff, released, List.mem_flatMap]
  constructor
  · rintro ⟨x, hx, hi⟩
    cases x with
    | emitted e rel => exact ⟨e, rel, hx, hi⟩
    | _ => cases hi
  · rintro ⟨e, rel, hx, hi⟩
    exact ⟨_, hx, hi⟩

theorem resumed_pos {o : Option Event} (h : Happening.resumed i o ∈ s.history) :
    0 < s.resumed.count i := by
  rw [List.count_pos_iff, resumed, List.mem_flatMap]
  exact ⟨_, h, List.mem_cons_self⟩

/-- A task in hand has been released by the event that its frame holds, if it holds one. -/
theorem Routed.released_of_carried (h : Routed u) (hgoing : Going u) (ha : u.Pending a)
    (hcarrying : 0 < carrying i a) {e : Event} (he : u.shared.awaited i = some e) :
    ∃ rel, .emitted e rel ∈ u.shared.history ∧ i ∈ rel := by
  obtain ⟨n, hn, hcounts⟩ := hgoing.counts i
  have hle := hn.le ha
  have hcallback : ¬(0 < u.shared.queued.count i ∨
      0 < (u.shared.delays.map DelayedTask.frame).count i) := by
    intro hcalls
    rw [h.callbacks i hcalls] at he
    cases he
  have hpos : 0 < u.shared.released.count i := by
    obtain ⟨hwaiting, hready, hdelayed, hcarried, hadmitted⟩ := hcounts
    omega
  obtain ⟨e', rel, hmem, hi⟩ := released_pos.mp hpos
  have heq := h.delivered e' rel hmem i hi
  rw [he] at heq
  cases heq
  exact ⟨rel, hmem, hi⟩

/-- The task that a call has in hand keeps what its frame holds. -/
theorem Going.awaited_of_carried (h : Going u) (hstep : (machine deadlineOf).step u l = some v)
    (ha : u.Pending a) (hcarries : 0 < carries i a) :
    v.shared.awaited i = u.shared.awaited i := by
  obtain ⟨hborn, _, hholds⟩ := (h.settling.sound.placed i).of_carried ha hcarries
  apply awaited_step hstep hborn
  unfold holds at hholds
  omega

theorem carries_of_admitsCallback (h : admitsCallback i a) : 0 < carries i a := by
  cases a <;> simp_all [admitsCallback, carries]

theorem admitsCallback_enter (call : AsyncCall) (hb : b ∈ (s.enter call).2)
    (hadmits : admitsCallback i b) : (s.enter call).1.awaited i = none := by
  cases call with
  | schedule =>
      obtain rfl := List.mem_singleton.mp hb
      obtain rfl : s.nextTask = i := hadmits
      exact Function.update_self ..
  | scheduleAfter delay =>
      obtain rfl := List.mem_singleton.mp hb
      obtain rfl : s.nextTask = i := hadmits
      exact Function.update_self ..
  | runOnCallingThread =>
      simp only [enter] at hb
      split at hb
      · obtain rfl := List.mem_singleton.mp hb
        cases hadmits
      · cases hb
  | advanceClock nanoseconds => cases hb
  | _ =>
      obtain rfl := List.mem_singleton.mp hb
      cases hadmits

theorem admitsCallback_run (hdoes : Does deadlineOf k s choice a s' as) (hb : b ∈ as)
    (hadmits : admitsCallback i b) : s'.awaited i = none := by
  cases hdoes with
  | calls call =>
      rcases List.mem_append.mp hb with hb | hb
      · exact admitsCallback_enter call hb hadmits
      · obtain rfl := List.mem_singleton.mp hb
        cases hadmits
  | _ =>
      -- nothing else begins to admit a task
      first
      | (obtain rfl := List.mem_singleton.mp hb; cases hadmits)
      | exact absurd hb List.not_mem_nil

theorem Routed.called_step (h : Routed u) (hgoing : Going u)
    (hstep : (machine deadlineOf).step u l = some v) :
    ∀ b i, v.Pending b → admitsCallback i b → v.shared.awaited i = none := by
  intro b i hb hadmits
  have hold (hb : u.Pending b) : v.shared.awaited i = none := by
    rw [hgoing.awaited_of_carried hstep hb (carries_of_admitsCallback hadmits)]
    exact h.called b i hb hadmits
  cases Program.moves_of_step hstep with
  | enter hidle hcall =>
      obtain ⟨rfl, rfl⟩ := enter_eq hcall
      rcases pending_of_enter hb with hnew | hb
      · exact admitsCallback_enter _ hnew hadmits
      · exact hold hb
  | advance hat hrun =>
      rcases pending_of_become hat hb with hnew | hb
      · exact admitsCallback_run (does_of_run hrun) hnew hadmits
      · exact hold hb

/-- What a new entry of the history has to agree with. -/
structure Fits (s s' : AsyncEventLoop) (x : Happening) : Prop where
  emitted : ∀ e rel, x = .emitted e rel →
    rel = waitingIn e.name s.history ∧ ∀ i ∈ rel, s'.awaited i = some e
  resumed : ∀ i o, x = .resumed i o →
    s'.awaited i = o ∧ ∀ e, o = some e → ∃ rel, .emitted e rel ∈ s.history ∧ i ∈ rel
  callbacks : ∀ i, i ∈ x.queues ∨ i ∈ x.delays.map DelayedTask.frame → s'.awaited i = none

/-- A step that adds an entry which fits, and leaves the frames of earlier ones. -/
theorem Routed.snoc {x : Happening} (h : Routed u) (hgoing : Going u)
    (hstep : (machine deadlineOf).step u l = some v)
    (hhistory : v.shared.history = u.shared.history ++ [x]) (hx : Fits u.shared v.shared x)
    (hwaiting : ∀ name, v.shared.waitingFor name = waitingIn name v.shared.history) :
    Routed v := by
  have hgone {i : ℕ} := hgoing.awaited_of_gone (i := i) hstep
  refine ⟨hwaiting, ?_, ?_, ?_, ?_, ?_, h.called_step hgoing hstep⟩
  · rw [hhistory]
    exact explained_snoc.mpr ⟨h.emitted, fun e rel he => (hx.emitted e rel he).1⟩
  · rw [hhistory]
    exact explained_snoc.mpr ⟨h.resumed, fun i e he => (hx.resumed i _ he).2 e rfl⟩
  · intro e rel hmem i hi
    rw [hhistory] at hmem
    rcases List.mem_append.mp hmem with hmem | hmem
    · rw [hgone (Or.inl (released_pos.mpr ⟨e, rel, hmem, hi⟩))]
      exact h.delivered e rel hmem i hi
    · exact (hx.emitted e rel (List.mem_singleton.mp hmem).symm).2 i hi
  · intro i o hmem
    rw [hhistory] at hmem
    rcases List.mem_append.mp hmem with hmem | hmem
    · rw [hgone (Or.inr (Or.inl (resumed_pos hmem)))]
      exact h.observed i o hmem
    · exact (hx.resumed i o (List.mem_singleton.mp hmem).symm).1
  · intro i hi
    rw [queued, delays, flatMap_snoc hhistory, flatMap_snoc hhistory, List.count_append,
      List.map_append, List.count_append] at hi
    by_cases hold : 0 < u.shared.queued.count i ∨
        0 < (u.shared.delays.map DelayedTask.frame).count i
    · rw [hgone (Or.inr (Or.inr hold))]
      exact h.callbacks i hold
    · apply hx.callbacks i
      rw [← List.count_pos_iff, ← List.count_pos_iff]
      unfold queued delays at hold
      omega

/-- A step that adds nothing leaves the frames of those in the history. -/
theorem Routed.same (h : Routed u) (hgoing : Going u)
    (hstep : (machine deadlineOf).step u l = some v)
    (hhistory : v.shared.history = u.shared.history)
    (hwaiters : v.shared.waiters = u.shared.waiters) : Routed v := by
  have hgone {i : ℕ} := hgoing.awaited_of_gone (i := i) hstep
  refine ⟨?_, ?_, ?_, ?_, ?_, ?_, h.called_step hgoing hstep⟩
  · intro name
    rw [hhistory, ← h.waiting name, waitingFor, hwaiters, waitingFor]
  · rw [hhistory]
    exact h.emitted
  · rw [hhistory]
    exact h.resumed
  · intro e rel hmem i hi
    rw [hhistory] at hmem
    rw [hgone (Or.inl (released_pos.mpr ⟨e, rel, hmem, hi⟩))]
    exact h.delivered e rel hmem i hi
  · intro i o hmem
    rw [hhistory] at hmem
    rw [hgone (Or.inr (Or.inl (resumed_pos hmem)))]
    exact h.observed i o hmem
  · intro i hi
    rw [queued, delays, hhistory] at hi
    rw [hgone (Or.inr (Or.inr hi))]
    exact h.callbacks i hi

theorem Routed.step (h : Routed u) (hgoing : Going u)
    (hstep : (machine deadlineOf).step u l = some v) : Routed v := by
  cases Program.moves_of_step hstep with
  | @enter k call s' as hidle hcall =>
      obtain ⟨rfl, rfl⟩ := enter_eq hcall
      have hsame : (u.shared.enter call).1.history = u.shared.history ∧
          (u.shared.enter call).1.waiters = u.shared.waiters := by cases call <;> exact ⟨rfl, rfl⟩
      exact h.same hgoing hstep hsame.1 hsame.2
  | @advance k choice a rest s' as hat hrun =>
      have ha : u.Pending a := pending_head hat
      have hadds := adds_run (does_of_run hrun) (hgoing.undisturbed.calm a ha)
      have hwaiting := waiting_adds hadds h.waiting
      cases hadds with
      | nothing hhistory hwaiters => exact h.same hgoing hstep hhistory hwaiters
      | queued task hsection hhistory =>
          refine h.snoc hgoing hstep hhistory ⟨by rintro _ _ ⟨⟩, by rintro _ _ ⟨⟩, fun i hi => ?_⟩ hwaiting
          obtain rfl : i = task := by simpa [Happening.queues, Happening.delays] using hi
          have hadmits : admitsCallback i a := by rw [hsection]; rfl
          rw [hgoing.awaited_of_carried hstep ha (carries_of_admitsCallback hadmits)]
          exact h.called a i ha hadmits
      | delayed d now delay hsection hhistory =>
          refine h.snoc hgoing hstep hhistory ⟨by rintro _ _ ⟨⟩, by rintro _ _ ⟨⟩, fun i hi => ?_⟩ hwaiting
          obtain rfl : i = d.frame := by simpa [Happening.queues, Happening.delays] using hi
          have hadmits : admitsCallback d.frame a := by rw [hsection]; rfl
          rw [hgoing.awaited_of_carried hstep ha (carries_of_admitsCallback hadmits)]
          exact h.called a d.frame ha hadmits
      | registered task name hhistory =>
          refine h.snoc hgoing hstep hhistory ⟨by rintro _ _ ⟨⟩, by rintro _ _ ⟨⟩, fun i hi => ?_⟩ hwaiting
          simp [Happening.queues, Happening.delays] at hi
      | emitted event hhistory hwaiters hawaited =>
          refine h.snoc hgoing hstep hhistory ⟨?_, by rintro _ _ ⟨⟩, fun i hi => ?_⟩ hwaiting
          · intro e rel heq
            cases heq
            exact ⟨h.waiting _, hawaited⟩
          · simp [Happening.queues, Happening.delays] at hi
      | taken x hx hhistory =>
          refine h.snoc hgoing hstep hhistory ⟨?_, ?_, fun i hi => ?_⟩ hwaiting
          · rintro e rel rfl
            exact absurd rfl hx
          · rintro i o rfl
            exact absurd rfl hx
          · cases x <;> simp [Happening.queues, Happening.delays, Happening.takes] at hi hx
      | resumed task hsection hhistory hwaiters hawaited =>
          refine h.snoc hgoing hstep hhistory ⟨by rintro _ _ ⟨⟩, ?_, fun i hi => ?_⟩ hwaiting
          · intro i o heq
            cases heq
            refine ⟨congrFun hawaited task, fun e he => ?_⟩
            apply h.released_of_carried hgoing ha _ he
            rw [hsection]
            simp [carrying]
          · simp [Happening.queues, Happening.delays] at hi

/-! ### Every run without a stop -/

theorem Routed.of_exec {ls : List (Threads.Label AsyncCall AsyncChoice)} (hgoing : Going u)
    (h : Routed u) (hls : ∀ l ∈ ls, stops l = false)
    (hrun : (machine deadlineOf).exec u ls = some v) : Going v ∧ Routed v :=
  Machine.invariant_of_meets (C := fun _ l => stops l = false) (fun w => Going w ∧ Routed w)
    (fun _ _ _ hw hl hv => ⟨hw.1.step hl hv, hw.2.step hw.1 hv⟩)
    (Machine.meets_of_forall fun l hl _ => hls l hl) hrun ⟨hgoing, h⟩

/-- How often an event of a longer history has released the task. -/
theorem count_released_split {pre post : List Happening} {e : Event} {rel : List ℕ}
    (heq : s.history = pre ++ .emitted e rel :: post) (i : ℕ) :
    s.released.count i = (pre.flatMap Happening.releases).count i + rel.count i +
      (post.flatMap Happening.releases).count i := by
  rw [released, heq, List.flatMap_append, List.flatMap_cons, List.count_append, List.count_append]
  exact (Nat.add_assoc _ _ _).symm

/-- A released task is on its way, or has been resumed once. -/
theorem Going.of_released (h : Going u) (hreleased : 0 < u.shared.released.count i) :
    u.shared.released.count i = 1 ∧
      ((i ∈ u.shared.ready ∨ ∃ a, u.Pending a ∧ 0 < carrying i a) ∧
        u.shared.resumed.count i = 0 ∨ u.shared.resumed.count i = 1) := by
  obtain ⟨n, hn, hwaiting, hready, hdelayed, hcarried, hadmitted⟩ := h.counts i
  have hcreated := created_le i u.shared
  refine ⟨by omega, ?_⟩
  by_cases hresumed : u.shared.resumed.count i = 0
  · refine Or.inl ⟨?_, hresumed⟩
    by_cases hmem : i ∈ u.shared.ready
    · exact Or.inl hmem
    · have hzero := List.count_eq_zero.mpr hmem
      exact Or.inr (hn.exists_pending (by omega))
  · exact Or.inr (by omega)

theorem exists_of_resumed (h : 0 < s.resumed.count i) :
    ∃ o, Happening.resumed i o ∈ s.history := by
  rw [List.count_pos_iff, resumed, List.mem_flatMap] at h
  obtain ⟨x, hx, hi⟩ := h
  cases x with
  | resumed task o =>
      obtain rfl := List.mem_singleton.mp hi
      exact ⟨o, hx⟩
  | _ => cases hi

/-- What becomes of a task that an event has released. -/
theorem Routed.of_emitted (h : Routed u) (hgoing : Going u) {pre post : List Happening}
    {e : Event} {rel : List ℕ} (heq : u.shared.history = pre ++ .emitted e rel :: post)
    (hi : i ∈ rel) :
    u.shared.awaited i = some e ∧
      ((i ∈ u.shared.ready ∨ ∃ a, u.Pending a ∧ 0 < carrying i a) ∧
        u.shared.resumed.count i = 0 ∨
        .resumed i (some e) ∈ post ∧ u.shared.resumed.count i = 1) := by
  have hmem : .emitted e rel ∈ u.shared.history := by rw [heq]; simp
  have hawaited := h.delivered e rel hmem i hi
  obtain ⟨honce, hplace⟩ := hgoing.of_released (released_pos.mpr ⟨e, rel, hmem, hi⟩)
  refine ⟨hawaited, hplace.imp_right fun hresumed => ⟨?_, hresumed⟩⟩
  obtain ⟨o, ho⟩ := exists_of_resumed (i := i) (s := u.shared) (by omega)
  obtain rfl : o = some e := (h.observed i o ho).symm.trans hawaited
  rw [heq] at ho
  rcases List.mem_append.mp ho with hbefore | hafter
  · -- a task that has been resumed earlier was released earlier, but it is released once
    obtain ⟨p, q, hpre⟩ := List.append_of_mem hbefore
    have hsplit : u.shared.history = p ++ .resumed i (some e) :: (q ++ .emitted e rel :: post) := by
      rw [heq, hpre, List.append_assoc, List.cons_append]
    obtain ⟨rel', hmem', hi'⟩ := h.resumed p _ _ hsplit i e rfl
    have hcount := count_released_split heq i
    have hpos : 0 < (pre.flatMap Happening.releases).count i := by
      rw [List.count_pos_iff, List.mem_flatMap]
      exact ⟨.emitted e rel', by rw [hpre]; exact List.mem_append_left _ hmem', hi'⟩
    have hpos' := List.count_pos_iff.mpr hi
    omega
  · exact (List.mem_cons.mp hafter).resolve_left nofun

/-- In every run without a stop: an event goes to the tasks registered under its name at
that moment, in the order of their registration and each once; such a task is on its way
with the event in its frame, or has been resumed once since then and has observed that
event. What a task observes is an event that was emitted after its registration under the
name of the event. Emitting makes these tasks ready and leaves the other waiters. -/
theorem event_goes_to_its_waiters {mode : ExecutionMode} {now : ℤ}
    {ls : List (Threads.Label AsyncCall AsyncChoice)} (hls : ∀ l ∈ ls, stops l = false)
    (h : (machine deadlineOf).exec (start mode now) ls = some u) :
    (∀ pre e rel post, u.shared.history = pre ++ .emitted e rel :: post →
      rel = waitingIn e.name pre ∧ rel.Nodup ∧ ∀ i ∈ rel,
        u.shared.awaited i = some e ∧
          ((i ∈ u.shared.ready ∨ ∃ a, u.Pending a ∧ 0 < carrying i a) ∧
            u.shared.resumed.count i = 0 ∨
            .resumed i (some e) ∈ post ∧ u.shared.resumed.count i = 1)) ∧
      (∀ pre i e post, u.shared.history = pre ++ .resumed i (some e) :: post →
        ∃ p rel q, pre = p ++ .emitted e rel :: q ∧ i ∈ rel ∧ .registered i e.name ∈ p) ∧
      ∀ k e rest choice v, u.pending k = .emit e :: rest →
        (machine deadlineOf).step u (.advance k choice) = some v →
          v.shared.history =
              u.shared.history ++ [.emitted e (waitingIn e.name u.shared.history)] ∧
            v.shared.ready = u.shared.ready ++ waitingIn e.name u.shared.history ∧
            v.shared.waitingFor e.name = [] ∧
            ∀ name, name ≠ e.name → v.shared.waitingFor name = u.shared.waitingFor name := by
  obtain ⟨hgoing, hrouted⟩ := Routed.of_exec (.start mode now) (.start mode now) hls h
  refine ⟨?_, ?_, ?_⟩
  · intro pre e rel post heq
    refine ⟨hrouted.emitted pre _ post heq e rel rfl, ?_,
      fun i hi => hrouted.of_emitted hgoing heq hi⟩
    apply List.nodup_iff_count_le_one.mpr
    intro i
    by_cases hi : i ∈ rel
    · have hmem : .emitted e rel ∈ u.shared.history := by rw [heq]; simp
      have honce := (hgoing.of_released (released_pos.mpr ⟨e, rel, hmem, hi⟩)).1
      have hcount := count_released_split heq i
      omega
    · rw [List.count_eq_zero.mpr hi]
      exact Nat.zero_le 1
  · intro pre i e post heq
    obtain ⟨rel, hmem, hi⟩ := hrouted.resumed pre _ post heq i e rfl
    obtain ⟨p, q, hpre⟩ := List.append_of_mem hmem
    refine ⟨p, rel, q, hpre, hi, ?_⟩
    have hsplit : u.shared.history = p ++ .emitted e rel :: (q ++ .resumed i (some e) :: post) := by
      rw [heq, hpre, List.append_assoc, List.cons_append]
    rw [hrouted.emitted p _ _ hsplit e rel rfl] at hi
    exact registered_of_waitingIn hi
  · intro k e rest choice v hat hstep
    have hwaiting := (hrouted.step hgoing hstep).waiting
    have hmoves : (program deadlineOf).Moves u (.advance k choice) v :=
      Program.moves_of_step hstep
    cases hmoves with
    | @advance _ _ a rest' s' as hat' hrun =>
        obtain ⟨rfl, rfl⟩ := List.cons.inj (hat.symm.trans hat')
        have hdoes : Does deadlineOf k u.shared choice (.emit e) s' as := does_of_run hrun
        cases hdoes with
        | emitLate hclosed =>
            rw [hgoing.undisturbed.accepting] at hclosed
            cases hclosed
        | refuse hclosed =>
            rw [hgoing.undisturbed.accepting] at hclosed
            cases hclosed
        | emit hopen =>
            simp only [shared_become] at hwaiting ⊢
            rw [← hrouted.waiting]
            refine ⟨rfl, rfl, ?_, fun name hname => ?_⟩
            · rw [hwaiting, waitingIn_snoc, waitNext, if_pos rfl]
            · rw [hwaiting, waitingIn_snoc, waitNext, if_neg (Ne.symm hname), hrouted.waiting]

/-- Two tasks wait for the same name, one before and one after the first of two events. -/
def twoEvents (first second : Event) : List (Threads.Label AsyncCall AsyncChoice) :=
  ([.enter 1 (.waitForEvent [97]), .advance 1 .proceed, .enter 2 (.emitEvent first),
    .advance 2 .proceed, .enter 1 (.waitForEvent [97]), .advance 1 .proceed,
    .enter 2 (.emitEvent second), .advance 2 .proceed] :
      List (Threads.Label AsyncCall AsyncChoice)) ++ List.replicate 15 (.advance 0 .proceed)

/-- What happens in that run, after the first event. -/
def afterFirst (first second : Event) : List Happening :=
  [.registered 1 [97], .emitted second [1], .takenReady 1, .resumed 1 (some second),
    .takenReady 0, .resumed 0 (some first)]

theorem event_goes_to_its_waiters_twoEvents :
    ∃ u, (machine exactDeadline).exec (start .ownedThread 0)
        (twoEvents ⟨[97], .int 1⟩ ⟨[97], .int 2⟩) = some u ∧
      u.shared.awaited 0 = some ⟨[97], .int 1⟩ ∧
      .resumed 0 (some ⟨[97], .int 1⟩) ∈ afterFirst ⟨[97], .int 1⟩ ⟨[97], .int 2⟩ ∧
      u.shared.resumed.count 0 = 1 := by
  obtain ⟨u, hrun, hhistory⟩ :
      ∃ u, (machine exactDeadline).exec (start .ownedThread 0)
          (twoEvents ⟨[97], .int 1⟩ ⟨[97], .int 2⟩) = some u ∧
        u.shared.history = [.registered 0 [97]] ++
          .emitted ⟨[97], .int 1⟩ [0] :: afterFirst ⟨[97], .int 1⟩ ⟨[97], .int 2⟩ :=
    ⟨_, rfl, by decide +kernel⟩
  obtain ⟨hemitted, _, _⟩ := event_goes_to_its_waiters (by decide) hrun
  obtain ⟨_, _, htasks⟩ := hemitted _ _ _ _ hhistory
  obtain ⟨hawaited, ⟨_, hnever⟩ | ⟨hafter, honce⟩⟩ := htasks 0 List.mem_cons_self
  · rw [resumed, hhistory] at hnever
    exact absurd hnever (by decide)
  · exact ⟨u, hrun, hawaited, hafter, honce⟩

end AsyncEventLoop

end Watchlist.Concurrency
