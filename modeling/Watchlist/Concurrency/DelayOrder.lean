import Watchlist.Concurrency.EventLoopCoroutine
import Watchlist.Concurrency.ReadyOrder

/-!
Delayed tasks are resumed in the order of their deadlines, on both loops that have them.
The order is stated of any loop that shows its delayed tasks, its clock and its history;
it is proved of `AsyncEventLoop`, and read off for `EventLoopCoroutine`, whose runs are
among those of the other.
-/

namespace Watchlist.Concurrency

open Transition Threads History

/-! ### What is stated of a loop -/

/-- What a loop shows of its delayed tasks. -/
structure DelayView where
  delayed : DelayedTasks
  now : ℤ
  history : List AsyncEventLoop.Happening

/-- The delayed tasks of a state are served in the order of deadline and enqueue. -/
structure DeadlineOrder {σ ℓ : Type} (M : Machine σ ℓ) (stops : ℓ → Bool) (view : σ → DelayView)
    (deadlineOf : ℤ → ℤ → ℤ) (u : σ) : Prop where
  /-- the worker takes a task that is due, and before which none is queued -/
  due : ∀ l v d clock, M.step u l = some v →
    (view v).history = (view u).history ++ [.takenDelayed d clock] →
      clock = (view u).now ∧ d ∈ (view u).delayed.toList ∧ d.time ≤ clock ∧
        ∀ d' ∈ (view u).delayed.toList, ¬d'.Earlier d
  /-- a deadline is computed from the clock at the enqueue -/
  deadline : ∀ d ∈ (view u).delayed.toList, ∃ clock delay,
    .delayed d clock delay ∈ (view u).history ∧ clock ≤ (view u).now ∧
      d.time = deadlineOf clock delay
  /-- tasks are numbered in the order of their enqueues -/
  numbered : ((view u).history.flatMap AsyncEventLoop.Happening.delays).Pairwise
    (fun d d' => d.sequence < d'.sequence)
  /-- of two tasks that are queued together the earlier one is resumed first -/
  resumed : ∀ ls v d d', (∀ l ∈ ls, stops l = false) → M.exec u ls = some v →
    d ∈ (view u).delayed.toList → d' ∈ (view u).delayed.toList → d.Earlier d' →
      ∀ pre post, (view v).history.flatMap AsyncEventLoop.Happening.resumesTasks =
        pre ++ d'.frame :: post → d.frame ∈ pre

/-- The order is seen in a program that is found in another with the same view. -/
theorem DeadlineOrder.of_embeds {σ α κ ε σ' α' κ' ε' : Type} {P : Program σ α κ ε}
    {P' : Program σ' α' κ' ε'} (f : P.Embeds P') {stops : Threads.Label κ ε → Bool}
    {stops' : Threads.Label κ' ε' → Bool} {view : Threads σ α → DelayView}
    {view' : Threads σ' α' → DelayView} {deadlineOf : ℤ → ℤ → ℤ} {u : Threads σ α}
    (hview : ∀ w, view' (f.threads w) = view w)
    (hstops : ∀ l, stops l = false → stops' (f.label l) = false)
    (h : DeadlineOrder P'.machine stops' view' deadlineOf (f.threads u)) :
    DeadlineOrder P.machine stops view deadlineOf u := by
  obtain ⟨hdue, hdeadline, hnumbered, hresumed⟩ := h
  simp only [hview] at hdue hdeadline hnumbered hresumed
  refine ⟨?_, hdeadline, hnumbered, ?_⟩
  · intro l v d clock hstep hhistory
    apply hdue (f.label l) (f.threads v) d clock (Program.Embeds.step hstep)
    rw [hview]
    exact hhistory
  · intro ls v d d' hls hrun hd hd' hearlier pre post heq
    apply hresumed (ls.map f.label) (f.threads v) d d' _ (Program.Embeds.exec hrun) hd hd'
      hearlier pre post
    · rw [hview]
      exact heq
    · intro l hl
      obtain ⟨l₀, hl₀, rfl⟩ := List.mem_map.mp hl
      exact hstops l₀ (hls l₀ hl₀)

namespace AsyncEventLoop

variable {deadlineOf : ℤ → ℤ → ℤ} {i k m : ℕ} {s s' : AsyncEventLoop} {a b : AsyncSection}
  {as : List AsyncSection} {choice : AsyncChoice} {u v : Threads AsyncEventLoop AsyncSection}
  {l : Threads.Label AsyncCall AsyncChoice} {d d' : DelayedTask}

def delayView (u : Threads AsyncEventLoop AsyncSection) : DelayView :=
  ⟨u.shared.delayed, u.shared.now, u.shared.history⟩

/-! ### Deadlines and numbers -/

/-- Nothing that has happened is undone, and the clock does not go back. -/
structure Grows (s s' : AsyncEventLoop) : Prop where
  history : s.history <+: s'.history
  now : s.now ≤ s'.now

theorem grows_enter (s : AsyncEventLoop) (call : AsyncCall) : Grows s (s.enter call).1 := by
  cases call with
  | advanceClock nanoseconds =>
      exact ⟨List.prefix_rfl, Int.le_add_of_nonneg_right (Int.natCast_nonneg nanoseconds)⟩
  | _ => exact ⟨List.prefix_rfl, le_rfl⟩

theorem grows_run (hdoes : Does deadlineOf k s choice a s' as) : Grows s s' := by
  cases hdoes with
  | calls call => exact grows_enter s call
  | _ => first
    | exact ⟨List.prefix_append _ _, le_rfl⟩
    | exact ⟨List.prefix_rfl, le_rfl⟩

theorem grows_step (hstep : (machine deadlineOf).step u l = some v) : Grows u.shared v.shared := by
  cases Program.moves_of_step hstep with
  | enter hidle hcall =>
      obtain ⟨rfl, rfl⟩ := enter_eq hcall
      exact grows_enter _ _
  | advance hat hrun => exact grows_run (does_of_run hrun)

theorem Grows.mem {β : Type} {f : Happening → List β} {x : β} (h : Grows s s')
    (hx : x ∈ s.history.flatMap f) : x ∈ s'.history.flatMap f := by
  obtain ⟨rest, hrest⟩ := h.history
  rw [← hrest, List.flatMap_append]
  exact List.mem_append_left _ hx

/-- Where the deadlines and the numbers of the delayed tasks come from. -/
structure Timed (deadlineOf : ℤ → ℤ → ℤ) (s : AsyncEventLoop) : Prop where
  numbers : s.delays.map DelayedTask.sequence = List.range s.nextSequence
  clocks : ∀ d clock delay, .delayed d clock delay ∈ s.history →
    clock ≤ s.now ∧ d.time = deadlineOf clock delay

theorem Timed.initial (mode : ExecutionMode) (now : ℤ) : Timed deadlineOf (initial mode now) :=
  ⟨rfl, fun _ _ _ h => absurd h List.not_mem_nil⟩

/-- A step that adds something else to the history. -/
theorem Timed.snoc {x : Happening} (h : Timed deadlineOf s)
    (hhistory : s'.history = s.history ++ [x]) (hx : x.delays = [])
    (hsequence : s'.nextSequence = s.nextSequence) (hnow : s'.now = s.now) :
    Timed deadlineOf s' := by
  constructor
  · rw [delays, flatMap_snoc hhistory, hx, List.append_nil, hsequence]
    exact h.numbers
  · intro d clock delay hmem
    rw [hhistory] at hmem
    rw [hnow]
    rcases List.mem_append.mp hmem with hmem | hmem
    · exact h.clocks d clock delay hmem
    · rw [← List.mem_singleton.mp hmem] at hx
      cases hx

theorem timed_enter (h : Timed deadlineOf s) (call : AsyncCall) :
    Timed deadlineOf (s.enter call).1 := by
  cases call with
  | advanceClock nanoseconds =>
      refine ⟨h.numbers, fun d clock delay hmem => ?_⟩
      obtain ⟨hclock, hdeadline⟩ := h.clocks d clock delay hmem
      exact ⟨hclock.trans (grows_enter s _).now, hdeadline⟩
  | _ => exact ⟨h.numbers, h.clocks⟩

theorem timed_run (hdoes : Does deadlineOf k s choice a s' as) (h : Timed deadlineOf s) :
    Timed deadlineOf s' := by
  cases hdoes with
  | queue => exact h.snoc rfl rfl rfl rfl
  | register => exact h.snoc rfl rfl rfl rfl
  | emit => exact h.snoc rfl rfl rfl rfl
  | takeReady => exact h.snoc rfl rfl rfl rfl
  | takeDelayed => exact h.snoc rfl rfl rfl rfl
  | resume => exact h.snoc rfl rfl rfl rfl
  | @delay task delay d hopen hd =>
      constructor
      · have hdelays := flatMap_snoc (f := Happening.delays) (h := s.history)
          (x := .delayed d s.now delay) rfl
        change (List.flatMap Happening.delays (s.history ++ [.delayed d s.now delay])).map
          DelayedTask.sequence = List.range (s.nextSequence + 1)
        rw [hdelays, List.map_append, List.range_succ, ← h.numbers, hd]
        rfl
      · intro d' clock delay' hmem
        rcases List.mem_append.mp hmem with hmem | hmem
        · exact h.clocks d' clock delay' hmem
        · cases List.mem_singleton.mp hmem
          rw [hd]
          exact ⟨le_rfl, rfl⟩
  | calls call => exact timed_enter h call
  | _ => exact ⟨h.numbers, h.clocks⟩

theorem Timed.step (h : Timed deadlineOf u.shared)
    (hstep : (machine deadlineOf).step u l = some v) : Timed deadlineOf v.shared := by
  cases Program.moves_of_step hstep with
  | enter hidle hcall =>
      obtain ⟨rfl, rfl⟩ := enter_eq hcall
      exact timed_enter h _
  | advance hat hrun => exact timed_run (does_of_run hrun) h

/-! ### The worker takes the first task that is due -/

/-- The section that records something, and what is the case when it does. -/
def RecordedBy (s : AsyncEventLoop) (a : AsyncSection) : Happening → Prop
  | .queued task => a = .enqueueReady task
  | .delayed d _ delay => a = .enqueueAfter d.frame delay
  | .registered task name => a = .enqueueEventWait task name
  | .emitted event released => a = .emit event ∧ released = s.waitingFor event.name
  | .takenReady task => a = .awaitWork ∧ s.ready.getLast? = some task
  | .takenDelayed d clock => clock = s.now ∧ d.time ≤ clock ∧ s.delayed.top = some d
  | .resumed task observed => a = .resume task ∧ observed = s.awaited task

theorem recordedBy_run {x : Happening} (hdoes : Does deadlineOf k s choice a s' as)
    (hhistory : s'.history = s.history ++ [x]) : RecordedBy s a x := by
  have hlast {y : Happening} (h : s.history ++ [y] = s.history ++ [x]) : y = x :=
    List.singleton_inj.mp (List.append_cancel_left h)
  have hsame {p : Prop} (h : s.history = s.history ++ [x]) : p := by
    have hlength := congrArg List.length h
    simp at hlength
  cases hdoes with
  | queue | register =>
      obtain rfl := hlast hhistory
      exact rfl
  | delay hopen hd =>
      obtain rfl := hlast hhistory
      rw [hd]
      exact rfl
  | emit | resume =>
      obtain rfl := hlast hhistory
      exact ⟨rfl, rfl⟩
  | takeReady hrunning htask =>
      obtain rfl := hlast hhistory
      exact ⟨rfl, htask⟩
  | takeDelayed hrunning hready hd hdue =>
      obtain rfl := hlast hhistory
      exact ⟨rfl, hdue, hd⟩
  | calls call =>
      rw [(carrying_enter (i := 0) s call).1] at hhistory
      exact hsame hhistory
  | _ => exact hsame hhistory

/-- What a step records is recorded by the section that it executes. -/
theorem recordedBy_step {x : Happening} (hstep : (machine deadlineOf).step u l = some v)
    (hhistory : v.shared.history = u.shared.history ++ [x]) :
    ∃ a, u.Pending a ∧ RecordedBy u.shared a x := by
  cases Program.moves_of_step hstep with
  | @enter k call s' as hidle hcall =>
      obtain ⟨rfl, rfl⟩ := enter_eq hcall
      rw [shared_become, (carrying_enter (i := 0) u.shared call).1] at hhistory
      have hlength := congrArg List.length hhistory
      simp at hlength
  | advance hat hrun => exact ⟨_, pending_head hat, recordedBy_run (does_of_run hrun) hhistory⟩

theorem not_earlier_of_top (htop : s.delayed.top = some d) (hd' : d' ∈ s.delayed.toList) :
    ¬d'.Earlier d :=
  DelayedTask.not_earlier_iff.mpr (PriorityQueue.le_of_top htop hd')

/-! ### Two tasks that are queued together -/

theorem nodup_delays (h : ∀ i, Admitted i u) :
    (u.shared.delays.map DelayedTask.frame).Nodup := by
  apply List.nodup_iff_count_le_one.mpr
  intro i
  obtain ⟨m, _, hadmitted⟩ := h i
  have hcreated := created_le i u.shared
  rw [count_admitted] at hadmitted
  omega

/-- Two delayed tasks with one frame are the same. -/
theorem eq_of_frame (h : ∀ i, Admitted i u) (hd : d ∈ u.shared.delays)
    (hd' : d' ∈ u.shared.delays) (hframe : d.frame = d'.frame) : d = d' :=
  List.inj_on_of_nodup_map (nodup_delays h) hd hd' hframe

theorem Accounts.mem_delays (h : Accounts s) (hd : d ∈ s.delayed.toList) : d ∈ s.delays :=
  h.delayed.mem_iff.mp (List.mem_append_left _ hd)

/-- A task that has been delayed never is among the ready ones, nor has been. -/
theorem Going.not_ready_of_delayed (h : Going u) (hd : d ∈ u.shared.delays) :
    d.frame ∉ u.shared.ready ∧ d.frame ∉ u.shared.readyTaken := by
  obtain ⟨n, _, hwaiting, hready, hdelayed, hcarried, hadmitted⟩ := h.counts d.frame
  have hcreated := created_le d.frame u.shared
  have hpos : 0 < (u.shared.delays.map DelayedTask.frame).count d.frame :=
    List.count_pos_iff.mpr (List.mem_map_of_mem hd)
  rw [← List.count_eq_zero, ← List.count_eq_zero]
  omega

/-- While `d` is queued before `d'`, it is `d` that is taken. -/
structure TakenFirst (d d' : DelayedTask) (u : Threads AsyncEventLoop AsyncSection) : Prop where
  admitted : d ∈ u.shared.delays ∧ d' ∈ u.shared.delays
  first : d ∈ u.shared.delayed.toList ∨ d.frame ∈ u.shared.taken
  before : Explained (fun pre i => i = d'.frame → d.frame ∈ pre) u.shared.taken

theorem TakenFirst.of_queued (h : Going u) (hd : d ∈ u.shared.delayed.toList)
    (hd' : d' ∈ u.shared.delayed.toList) : TakenFirst d d' u := by
  have hadmitted' := h.accounts.mem_delays hd'
  refine ⟨⟨h.accounts.mem_delays hd, hadmitted'⟩, Or.inl hd, ?_⟩
  rintro pre i post heq rfl
  -- a task that is queued has not been taken
  obtain ⟨n, _, hwaiting, hready, hdelayed, hcarried, hadmitted⟩ := h.counts d'.frame
  have hcreated := created_le d'.frame u.shared
  have hqueued : 0 < (u.shared.delayed.toList.map DelayedTask.frame).count d'.frame :=
    List.count_pos_iff.mpr (List.mem_map_of_mem hd')
  have htaken : 0 < u.shared.taken.count d'.frame := by
    rw [heq]
    exact List.count_pos_iff.mpr (List.mem_append_right _ List.mem_cons_self)
  rw [count_taken] at htaken
  omega

/-- What a step does to the delayed tasks and to what has been taken. -/
inductive Takes (s s' : AsyncEventLoop) : Prop
  | nothing (hdelayed : ∀ d ∈ s.delayed.toList, d ∈ s'.delayed.toList) (htaken : s'.taken = s.taken)
  | ready (task : ℕ) (htask : task ∈ s.ready) (hdelayed : s'.delayed = s.delayed)
      (htaken : s'.taken = s.taken ++ [task])
  | delayed (x : DelayedTask) (hx : s.delayed.top = some x) (hdelayed : s'.delayed = s.delayed.pop)
      (htaken : s'.taken = s.taken ++ [x.frame])

theorem takes_run (hdoes : Does deadlineOf k s choice a s' as) (hcalm : calm a = true) :
    Takes s s' := by
  have hkeep {x : Happening} {t : AsyncEventLoop} (ht : t.history = s.history ++ [x])
      (hx : x.takes = []) : t.taken = s.taken := by rw [taken_snoc ht, hx, List.append_nil]
  cases hdoes with
  | queue => exact .nothing (fun _ h => h) (hkeep rfl rfl)
  | delay => exact .nothing (fun _ h => PriorityQueue.mem_push.mpr (Or.inr h)) (hkeep rfl rfl)
  | register => exact .nothing (fun _ h => h) (hkeep rfl rfl)
  | emit => exact .nothing (fun _ h => h) (hkeep rfl rfl)
  | resume => exact .nothing (fun _ h => h) (hkeep rfl rfl)
  | @takeReady task hrunning htask =>
      refine .ready task ?_ rfl (taken_snoc (x := .takenReady task) rfl)
      exact List.mem_of_getLast? htask
  | @takeDelayed deadline d hrunning hready hd hdue =>
      exact .delayed d hd rfl (taken_snoc (x := .takenDelayed d s.now) rfl)
  | close => cases hcalm
  | calls call =>
      cases call <;> exact .nothing (fun _ h => h) rfl
  | _ => exact .nothing (fun _ h => h) rfl

theorem takes_enter (s : AsyncEventLoop) (call : AsyncCall) : Takes s (s.enter call).1 := by
  cases call <;> exact .nothing (fun _ h => h) rfl

theorem takes_step (hundisturbed : Undisturbed u)
    (hstep : (machine deadlineOf).step u l = some v) : Takes u.shared v.shared := by
  cases Program.moves_of_step hstep with
  | enter hidle hcall =>
      obtain ⟨rfl, rfl⟩ := enter_eq hcall
      exact takes_enter _ _
  | advance hat hrun =>
      exact takes_run (does_of_run hrun) (hundisturbed.calm _ (pending_head hat))

theorem TakenFirst.step (h : TakenFirst d d' u) (hearlier : d.Earlier d') (hgoing : Going u)
    (hstep : (machine deadlineOf).step u l = some v) : TakenFirst d d' v := by
  have htakes := takes_step hgoing.undisturbed hstep
  have hgrows := grows_step hstep
  obtain ⟨hd, hd'⟩ := h.admitted
  refine ⟨⟨hgrows.mem hd, hgrows.mem hd'⟩, ?_, ?_⟩
  · cases htakes with
    | nothing hdelayed htaken =>
        rw [htaken]
        exact h.first.imp_left (hdelayed d)
    | ready task htask hdelayed htaken =>
        rw [hdelayed, htaken]
        exact h.first.imp_right (List.mem_append_left _)
    | delayed x hx hdelayed htaken =>
        rw [hdelayed, htaken]
        rcases h.first with hqueued | hbefore
        · rw [PriorityQueue.toList_of_top hx] at hqueued
          rcases List.mem_cons.mp hqueued with rfl | hrest
          · exact Or.inr (List.mem_append_right _ List.mem_cons_self)
          · exact Or.inl hrest
        · exact Or.inr (List.mem_append_left _ hbefore)
  · cases htakes with
    | nothing hdelayed htaken =>
        rw [htaken]
        exact h.before
    | ready task htask hdelayed htaken =>
        rw [htaken]
        apply explained_snoc.mpr ⟨h.before, _⟩
        rintro rfl
        exact absurd htask (hgoing.not_ready_of_delayed hd').1
    | delayed x hx hdelayed htaken =>
        rw [htaken]
        apply explained_snoc.mpr ⟨h.before, _⟩
        intro hframe
        have hqueued := PriorityQueue.mem_of_top hx
        obtain rfl := eq_of_frame hgoing.admitted (hgoing.accounts.mem_delays hqueued) hd' hframe
        -- the later task is not on top while the earlier one is queued
        exact h.first.resolve_left fun hfirst => not_earlier_of_top hx hfirst hearlier

theorem TakenFirst.of_exec {ls : List (Threads.Label AsyncCall AsyncChoice)}
    (h : TakenFirst d d' u) (hearlier : d.Earlier d') (hgoing : Going u)
    (hls : ∀ l ∈ ls, stops l = false) (hrun : (machine deadlineOf).exec u ls = some v) :
    TakenFirst d d' v := by
  have hboth : Going v ∧ TakenFirst d d' v :=
    Machine.invariant_of_meets (C := fun _ l => stops l = false)
      (fun w => Going w ∧ TakenFirst d d' w)
      (fun _ _ _ hu hl hv => ⟨hu.1.step hl hv, hu.2.step hearlier hu.1 hv⟩)
      (Machine.meets_of_forall fun l hl _ => hls l hl) hrun ⟨hgoing, h⟩
  exact hboth.2

/-- What is taken first is resumed first. -/
theorem TakenFirst.resumed (h : TakenFirst d d' u) (hgoing : Going u) {pre post : List ℕ}
    (heq : u.shared.resumed = pre ++ d'.frame :: post) : d.frame ∈ pre := by
  obtain ⟨rest, hrest⟩ := hgoing.carried.ordered
  apply h.before pre d'.frame (post ++ rest) _ rfl
  rw [← hrest, heq, List.append_assoc, List.cons_append]

/-! ### Every reachable state -/

theorem takenDelayed_step {clock : ℤ} (hstep : (machine deadlineOf).step u l = some v)
    (hhistory : v.shared.history = u.shared.history ++ [.takenDelayed d clock]) :
    clock = u.shared.now ∧ d.time ≤ clock ∧ u.shared.delayed.top = some d := by
  obtain ⟨_, _, htaken⟩ := recordedBy_step hstep hhistory
  exact htaken

theorem mem_delays_iff : d ∈ s.delays ↔ ∃ clock delay, .delayed d clock delay ∈ s.history := by
  simp only [delays, List.mem_flatMap]
  constructor
  · rintro ⟨x, hx, hd⟩
    cases x with
    | delayed d₀ clock delay =>
        obtain rfl := List.mem_singleton.mp hd
        exact ⟨clock, delay, hx⟩
    | _ => cases hd
  · rintro ⟨clock, delay, hx⟩
    exact ⟨_, hx, List.mem_cons_self⟩

theorem Going.deadlineOrder (h : Going u) (htimed : Timed deadlineOf u.shared) :
    DeadlineOrder (machine deadlineOf) stops delayView deadlineOf u := by
  constructor
  · intro l v d clock hstep hhistory
    obtain ⟨rfl, hdue, htop⟩ := takenDelayed_step hstep hhistory
    exact ⟨rfl, PriorityQueue.mem_of_top htop, hdue, fun d' hd' => not_earlier_of_top htop hd'⟩
  · intro d hd
    obtain ⟨clock, delay, hmem⟩ := mem_delays_iff.mp (h.accounts.mem_delays hd)
    exact ⟨clock, delay, hmem, htimed.clocks d clock delay hmem⟩
  · have hsorted := List.pairwise_lt_range (n := u.shared.nextSequence)
    rw [← htimed.numbers, List.pairwise_map] at hsorted
    exact hsorted
  · intro ls v d d' hls hrun hd hd' hearlier pre post heq
    exact ((TakenFirst.of_queued h hd hd').of_exec hearlier h hls hrun).resumed
      (h.of_exec hls hrun) heq

theorem deadlineOrder_of_exec {mode : ExecutionMode} {now : ℤ}
    {ls : List (Threads.Label AsyncCall AsyncChoice)} (hls : ∀ l ∈ ls, stops l = false)
    (hrun : (machine deadlineOf).exec (start mode now) ls = some u) :
    DeadlineOrder (machine deadlineOf) stops delayView deadlineOf u := by
  apply ((Going.start mode now).of_exec hls hrun).deadlineOrder
  exact Machine.invariant (fun w => Timed deadlineOf w.shared)
    (fun _ _ _ hu hv => hu.step hv) ⟨ls, hrun⟩ (Timed.initial mode now)

/-- Two tasks, of which the second has the earlier deadline. -/
def twoDelays : List (Threads.Label AsyncCall AsyncChoice) :=
  [.enter 1 (.scheduleAfter 2), .advance 1 .proceed, .enter 2 (.scheduleAfter 1),
    .advance 2 .proceed, .advance 0 .proceed]

/-- The worker sleeps until the first deadline and serves the task, twice. -/
def serveBoth : List (Threads.Label AsyncCall AsyncChoice) :=
  let serve := [.advance 0 .proceed, .advance 0 .timesOut] ++ List.replicate 6 (.advance 0 .proceed)
  .enter 1 (.advanceClock 2000000) :: serve ++ serve

end AsyncEventLoop

/-! ### The loop that has delayed tasks only -/

namespace EventLoopCoroutine

/-- A thread or a callback calls `stop`. -/
def stops : Threads.Label CoroutineCall CoroutineChoice → Bool
  | .enter _ call => decide (call = .stop)
  | .advance _ choice => decide (choice = .calls .stop)

def delayView (u : Threads EventLoopCoroutine CoroutineSection) : DelayView :=
  ⟨u.shared.delayed, u.shared.now, u.shared.history⟩

theorem stops_toAsync {deadlineOf : ℤ → ℤ → ℤ} {l : Threads.Label CoroutineCall CoroutineChoice}
    (h : stops l = false) : AsyncEventLoop.stops ((embedding deadlineOf).label l) = false := by
  cases l with
  | enter k call =>
      cases call with
      | stop => cases h
      | _ => rfl
  | advance k choice =>
      cases choice with
      | calls call =>
          cases call with
          | stop => cases h
          | _ => rfl
      | _ => rfl

/-- A run without a stop is one of the other loop. -/
theorem stops_run {deadlineOf : ℤ → ℤ → ℤ} {ls : List (Threads.Label CoroutineCall CoroutineChoice)}
    (h : ∀ l ∈ ls, stops l = false) :
    ∀ l ∈ .advance 0 .proceed :: ls.map (embedding deadlineOf).label,
      AsyncEventLoop.stops l = false := by
  intro l hl
  rcases List.mem_cons.mp hl with rfl | hl
  · rfl
  · obtain ⟨l₀, hl₀, rfl⟩ := List.mem_map.mp hl
    exact stops_toAsync (h l₀ hl₀)

theorem deadlineOrder_of_exec {deadlineOf : ℤ → ℤ → ℤ} {now : ℤ}
    {ls : List (Threads.Label CoroutineCall CoroutineChoice)}
    {u : Threads EventLoopCoroutine CoroutineSection} (hls : ∀ l ∈ ls, stops l = false)
    (hrun : (machine deadlineOf).exec (start now) ls = some u) :
    DeadlineOrder (machine deadlineOf) stops delayView deadlineOf u := by
  have hview (w : Threads EventLoopCoroutine CoroutineSection) :
      AsyncEventLoop.delayView ((embedding deadlineOf).threads w) = delayView w := rfl
  apply DeadlineOrder.of_embeds (embedding deadlineOf) hview (fun _ => stops_toAsync)
  exact AsyncEventLoop.deadlineOrder_of_exec (stops_run hls) (exec_toAsync hrun)

/-- Two tasks, of which the second has the earlier deadline. -/
def twoDelays : List (Threads.Label CoroutineCall CoroutineChoice) :=
  [.enter 1 (.scheduleAfter 2), .advance 1 .proceed, .enter 2 (.scheduleAfter 1),
    .advance 2 .proceed]

/-- The worker sleeps until the first deadline and serves the task, twice. -/
def serveBoth : List (Threads.Label CoroutineCall CoroutineChoice) :=
  let serve := [.advance 0 .proceed, .advance 0 .timesOut] ++ List.replicate 6 (.advance 0 .proceed)
  .enter 1 (.advanceClock 2000000) :: serve ++ serve

end EventLoopCoroutine

/-! ### Both loops -/

/-- In every state that a run without a stop reaches, delayed tasks are served in the order
of their exact deadlines, those with one deadline in the order of their enqueues. -/
theorem delayed_tasks_in_order :
    (∀ mode now ls u, (∀ l ∈ ls, AsyncEventLoop.stops l = false) →
      (AsyncEventLoop.machine exactDeadline).exec (AsyncEventLoop.start mode now) ls = some u →
        DeadlineOrder (AsyncEventLoop.machine exactDeadline) AsyncEventLoop.stops
          AsyncEventLoop.delayView exactDeadline u) ∧
    (∀ now ls u, (∀ l ∈ ls, EventLoopCoroutine.stops l = false) →
      (EventLoopCoroutine.machine exactDeadline).exec (EventLoopCoroutine.start now) ls = some u →
        DeadlineOrder (EventLoopCoroutine.machine exactDeadline) EventLoopCoroutine.stops
          EventLoopCoroutine.delayView exactDeadline u) :=
  ⟨fun _ _ _ _ hls hrun => AsyncEventLoop.deadlineOrder_of_exec hls hrun,
    fun _ _ _ hls hrun => EventLoopCoroutine.deadlineOrder_of_exec hls hrun⟩

theorem delayed_tasks_in_order_twoDelays :
    (∃ u v, (AsyncEventLoop.machine exactDeadline).exec (AsyncEventLoop.start .ownedThread 0)
        AsyncEventLoop.twoDelays = some u ∧
      (AsyncEventLoop.machine exactDeadline).exec u AsyncEventLoop.serveBoth = some v ∧
      u.shared.delayed.toList.map DelayedTask.frame = [1, 0] ∧ v.shared.resumed = [1, 0] ∧
      DeadlineOrder (AsyncEventLoop.machine exactDeadline) AsyncEventLoop.stops
        AsyncEventLoop.delayView exactDeadline u) ∧
    ∃ u v, (EventLoopCoroutine.machine exactDeadline).exec (EventLoopCoroutine.start 0)
        EventLoopCoroutine.twoDelays = some u ∧
      (EventLoopCoroutine.machine exactDeadline).exec u EventLoopCoroutine.serveBoth = some v ∧
      u.shared.delayed.toList.map DelayedTask.frame = [1, 0] ∧
      v.shared.history.flatMap AsyncEventLoop.Happening.resumesTasks = [1, 0] ∧
      DeadlineOrder (EventLoopCoroutine.machine exactDeadline) EventLoopCoroutine.stops
        EventLoopCoroutine.delayView exactDeadline u := by
  obtain ⟨hasync, hcoroutine⟩ := delayed_tasks_in_order
  constructor
  · refine ⟨_, _, rfl, rfl, by decide +kernel, by decide +kernel, ?_⟩
    exact hasync .ownedThread 0 AsyncEventLoop.twoDelays _ (by decide) rfl
  · refine ⟨_, _, rfl, rfl, by decide +kernel, by decide +kernel, ?_⟩
    exact hcoroutine 0 EventLoopCoroutine.twoDelays _ (by decide) rfl

end Watchlist.Concurrency
