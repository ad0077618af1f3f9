import Watchlist.Concurrency.DelayOrder

/-!
How an `EventLoopCoroutine` is constructed. The initialiser of `worker_thread_` starts the
worker while the members declared after it are still to be initialised, and `stopping_`,
which the worker reads first, is one of them. What is followed here are the steps from
there on: the rest of the construction, the worker, and the calls once the loop is there.
-/

namespace Watchlist.Concurrency

open Transition Threads

/-- The members that are declared after `worker_thread_`. -/
inductive LateMember
  | nextSequence
  | accepting
  | stopping
  deriving DecidableEq

/-- What the storage of these members holds before they are initialised. -/
structure LateStorage where
  nextSequence : ℕ
  accepting : Bool
  stopping : Bool

structure Construction where
  loop : EventLoopCoroutine
  /-- the constructor has returned -/
  constructed : Bool
  /-- the worker holds `mutex_` between two readings of `stopping_` -/
  locked : Bool

inductive ConstructionSection
  -- the constructor
  | initialise (member : LateMember)
  -- `run`, in a loop that is under construction
  | readStopping
  | emptyTop
  /-- a section of the loop itself -/
  | loop (a : CoroutineSection)

namespace EventLoopCoroutine

/-- The sections that lock `mutex_`. -/
def locksMutex : CoroutineSection → Bool
  | .enqueueAfter .. | .close | .awaitWork | .asleepUntil _ | .readStopping _ => true
  | _ => false

/-- A call of `schedule_after` or of `stop` has the task in hand. -/
def InHand (task : ℕ) : CoroutineSection → Prop
  | .enqueueAfter i _ | .reject i => i = task
  | .cancelAll tasks => task ∈ tasks
  | _ => False

end EventLoopCoroutine

namespace Construction

/-- The initialisers of the members, in the order of declaration. -/
def lateMembers : List LateMember := [.nextSequence, .accepting, .stopping]

/-- What follows from a section of the loop. -/
def lift (s : Construction) (r : EventLoopCoroutine × List CoroutineSection) :
    Construction × List ConstructionSection :=
  ({ s with loop := r.1 }, r.2.map .loop)

/-- The object can be called once it is constructed; time passes always. -/
def enter (s : Construction) : CoroutineCall → Option (Construction × List ConstructionSection)
  | .advanceClock nanoseconds => some (s.lift (s.loop.enter (.advanceClock nanoseconds)))
  | call => if s.constructed then some (s.lift (s.loop.enter call)) else none

def runSection (deadlineOf : ℤ → ℤ → ℤ) (k : ℕ) (s : Construction) :
    ConstructionSection → CoroutineChoice → Option (Construction × List ConstructionSection)
  | .initialise .nextSequence, _ => some ({ s with loop := { s.loop with nextSequence := 0 } }, [])
  | .initialise .accepting, _ => some ({ s with loop := { s.loop with accepting := true } }, [])
  -- the last one, and the constructor has no body
  | .initialise .stopping, _ =>
      some ({ s with loop := { s.loop with stopping := false }, constructed := true }, [])
  -- the constructor does not lock `mutex_`: it can come between the predicate and the `if`
  | .loop .awaitWork, choice =>
      if s.constructed then
        (EventLoopCoroutine.runSection deadlineOf k s.loop .awaitWork choice).map s.lift
      else if s.loop.stopping || s.loop.delayed.top.isSome then
        some ({ s with locked := true }, [.readStopping])
      else none
  | .readStopping, _ =>
      if s.loop.stopping then some ({ s with locked := false }, [])
      else
        match s.loop.delayed.top with
        | some d => some ({ s with locked := false }, [.loop (.asleepUntil d.time)])
        | none => some (s, [.emptyTop])
  -- `top` of an empty queue, which is undefined
  | .emptyTop, _ => none
  | .loop a, choice =>
      if s.locked && EventLoopCoroutine.locksMutex a then none
      else (EventLoopCoroutine.runSection deadlineOf k s.loop a choice).map s.lift

def program (deadlineOf : ℤ → ℤ → ℤ) :
    Program Construction ConstructionSection CoroutineCall CoroutineChoice :=
  ⟨fun k s call => if k = 0 then none else s.enter call, runSection deadlineOf⟩

def machine (deadlineOf : ℤ → ℤ → ℤ) : Machine (Threads Construction ConstructionSection)
    (Threads.Label CoroutineCall CoroutineChoice) :=
  (program deadlineOf).machine

/-- The members while some of the late ones are still to be initialised. -/
def members (storage : LateStorage) (now : ℤ) (left : List LateMember) : EventLoopCoroutine :=
  { EventLoopCoroutine.initial now with
    nextSequence := if .nextSequence ∈ left then storage.nextSequence else 0
    accepting := if .accepting ∈ left then storage.accepting else true
    stopping := if .stopping ∈ left then storage.stopping else false }

/-- The worker has been started and waits; thread 1 constructs the loop. -/
def building (storage : LateStorage) (now : ℤ) (left : List LateMember) :
    Threads Construction ConstructionSection where
  shared := ⟨members storage now left, left.isEmpty, false⟩
  pending k :=
    if k = 0 then [.loop .awaitWork] else if k = 1 then left.map .initialise else []

/-- The worker has just been started. -/
def start (storage : LateStorage) (now : ℤ) : Threads Construction ConstructionSection :=
  building storage now lateMembers

/-- The worker takes no step while `stopping_` is not initialised and happens to be true. -/
def ReadsRunning (u : Threads Construction ConstructionSection)
    (l : Threads.Label CoroutineCall CoroutineChoice) : Prop :=
  l.thread = 0 → u.shared.constructed = false → u.shared.loop.stopping = false

instance (u : Threads Construction ConstructionSection)
    (l : Threads.Label CoroutineCall CoroutineChoice) : Decidable (ReadsRunning u l) :=
  inferInstanceAs (Decidable (_ → _ → _))

/-- The worker has left `run`, or is where nothing can be said of it. -/
def Gone (u : Threads Construction ConstructionSection) : Prop :=
  u.pending 0 = [] ∨ .emptyTop ∈ u.pending 0

/-- What a run leaves of the worker, and of the tasks it is there for. -/
structure WorkerKept (ls : List (Threads.Label CoroutineCall CoroutineChoice))
    (u : Threads Construction ConstructionSection) : Prop where
  /-- the worker leaves `run` only after `stop` has been called -/
  stopped : Gone u → ∃ l ∈ ls, EventLoopCoroutine.stops l = true
  /-- no accepted task is queued without a worker -/
  queued : Gone u → u.shared.loop.delayed.toList = []
  /-- a task that is pending without a worker is about to be accepted, rejected or cancelled -/
  pending : Gone u → ∀ task < u.shared.loop.nextTask,
    (u.shared.loop.states task).status = .pending → ∃ a, u.Pending (.loop a) ∧ EventLoopCoroutine.InHand task a

end Construction

/-! ### The worker goes on until it is stopped -/

namespace AsyncEventLoop

variable {deadlineOf : ℤ → ℤ → ℤ} {k : ℕ} {s s' : AsyncEventLoop} {a : AsyncSection}
  {as : List AsyncSection} {choice : AsyncChoice}

/-- Nothing but a worker's section is followed by one. -/
theorem outside_run (hdoes : Does deadlineOf k s choice a s' as) (ha : inRun a = false) :
    ∀ b ∈ as, inRun b = false := by
  have hone {b : AsyncSection} (hb : inRun b = false) : ∀ b' ∈ [b], inRun b' = false := by
    intro b' hb'
    rwa [List.mem_singleton.mp hb']
  cases hdoes with
  | refuse => exact hone rfl
  | lockGate => exact hone rfl
  | close => exact hone rfl
  | closeAgain => exact hone rfl
  | cancel => exact hone rfl
  | _ => first
    | exact fun b hb => absurd hb List.not_mem_nil
    | cases ha

/-- A worker's section is followed by one, unless it has found `stopping_` set. -/
theorem worker_run (hdoes : Does deadlineOf k s choice a s' as) (ha : inRun a = true)
    (hstarted : a ≠ .startRun) : s.stopping = true ∨ ∃ b ∈ as, inRun b = true := by
  have hone {b : AsyncSection} (hb : inRun b = true) :
      s.stopping = true ∨ ∃ b' ∈ [b], inRun b' = true :=
    Or.inr ⟨b, List.mem_singleton_self b, hb⟩
  cases hdoes with
  | startRun => exact absurd rfl hstarted
  | runAgain => exact absurd rfl hstarted
  | runEnds hstopping => exact Or.inl hstopping
  | @calls task call =>
      exact Or.inr ⟨.inTask task, List.mem_append_right _ List.mem_cons_self, rfl⟩
  | refuse hclosed hrefused => rcases hrefused with rfl | ⟨_, rfl⟩ | ⟨_, rfl⟩ <;> cases ha
  | _ => first
    | exact hone rfl
    | cases ha

/-- `accepting_` and `stopping_` change together, and once. -/
theorem flags_run (hdoes : Does deadlineOf k s choice a s' as) (h : s.stopping = !s.accepting) :
    s'.stopping = (!s'.accepting) ∧ (s.stopping = true → s'.stopping = true) := by
  cases hdoes with
  | close => exact ⟨rfl, fun _ => rfl⟩
  | calls call => cases call <;> exact ⟨h, id⟩
  | _ => exact ⟨h, id⟩

end AsyncEventLoop

namespace EventLoopCoroutine

variable {deadlineOf : ℤ → ℤ → ℤ} {now : ℤ} {u v : Threads EventLoopCoroutine CoroutineSection}
  {l : Threads.Label CoroutineCall CoroutineChoice}
  {ls : List (Threads.Label CoroutineCall CoroutineChoice)}

/-- The sections of the worker. -/
def inRun (a : CoroutineSection) : Bool := AsyncEventLoop.inRun (sectionToAsync a)

/-- Thread 0 is the worker, and works until the loop is stopped. -/
structure Attended (u : Threads EventLoopCoroutine CoroutineSection) : Prop where
  flags : u.shared.stopping = !u.shared.accepting
  alone : ∀ k ≠ 0, ∀ b ∈ u.pending k, inRun b = false
  worker : u.shared.stopping = true ∨ ∃ b ∈ u.pending 0, inRun b = true

theorem Attended.start (now : ℤ) : Attended (start now) where
  flags := rfl
  alone k hk b hb := by
    simp only [EventLoopCoroutine.start, if_neg hk] at hb
    cases hb
  worker := Or.inr ⟨.awaitWork, List.mem_singleton_self _, rfl⟩

theorem outside_enter {s s' : EventLoopCoroutine} {call : CoroutineCall}
    {as : List CoroutineSection} (h : s.enter call = (s', as)) :
    s'.accepting = s.accepting ∧ s'.stopping = s.stopping ∧ ∀ b ∈ as, inRun b = false := by
  cases call with
  | advanceClock nanoseconds =>
      obtain ⟨rfl, rfl⟩ := h
      exact ⟨rfl, rfl, fun b hb => absurd hb List.not_mem_nil⟩
  | _ =>
      obtain ⟨rfl, rfl⟩ := h
      refine ⟨rfl, rfl, fun b hb => ?_⟩
      obtain rfl := List.mem_singleton.mp hb
      rfl

theorem Attended.step (h : Attended u) (hstep : (machine deadlineOf).step u l = some v) :
    Attended v := by
  cases Program.moves_of_step hstep with
  | @enter k call s' as hidle hcall =>
      simp only [program] at hcall
      split at hcall
      · cases hcall
      · rename_i hk
        obtain ⟨haccepting, hstopping, hnew⟩ := outside_enter (Option.some.inj hcall)
        refine ⟨?_, ?_, ?_⟩
        · rw [shared_become, haccepting, hstopping]
          exact h.flags
        · intro j hj b hb
          rw [pending_become] at hb
          split at hb
          · exact hnew b hb
          · exact h.alone j hj b hb
        · rw [shared_become, hstopping, pending_become_of_ne (Ne.symm hk)]
          exact h.worker
  | @advance k choice a rest s' as hat hrun =>
      have hdoes := AsyncEventLoop.does_of_run (run_toAsync hrun)
      have hstarted : sectionToAsync a ≠ .startRun := by
        cases a <;> exact AsyncSection.noConfusion
      obtain ⟨hflags, hmono⟩ := AsyncEventLoop.flags_run hdoes h.flags
      refine ⟨hflags, ?_, ?_⟩
      · intro j hj b hb
        have hpending := h.alone j hj
        rw [pending_become] at hb
        split at hb
        · rename_i hjk
          subst hjk
          rw [hat] at hpending
          rcases List.mem_append.mp hb with hb | hb
          · exact AsyncEventLoop.outside_run hdoes (hpending a List.mem_cons_self) _
              (List.mem_map_of_mem hb)
          · exact hpending b (List.mem_cons_of_mem a hb)
        · exact hpending b hb
      · rcases h.worker with hstopping | ⟨b, hb, hin⟩
        · exact Or.inl (hmono hstopping)
        · by_cases hk : 0 = k
          · subst hk
            rw [hat] at hb
            rw [pending_become_self]
            rcases List.mem_cons.mp hb with rfl | hb
            · rcases AsyncEventLoop.worker_run hdoes hin hstarted with hstopping | ⟨c, hc, hinc⟩
              · exact Or.inl (hmono hstopping)
              · obtain ⟨b', hb', rfl⟩ := List.mem_map.mp hc
                exact Or.inr ⟨b', List.mem_append_left rest hb', hinc⟩
            · exact Or.inr ⟨b, List.mem_append_right as hb, hin⟩
          · rw [pending_become_of_ne hk]
            exact Or.inr ⟨b, hb, hin⟩

theorem attended_of_exec (hrun : (machine deadlineOf).exec (start now) ls = some u) :
    Attended u :=
  Machine.invariant Attended (fun _ _ _ => Attended.step) ⟨ls, hrun⟩ (.start now)

/-- Outside the worker only a call has a task in hand. -/
theorem inHand_of_carries {task : ℕ} {a : CoroutineSection} (ha : inRun a = false)
    (hcarries : 0 < AsyncEventLoop.carries task (sectionToAsync a)) : InHand task a := by
  have hone {i : ℕ} (h : 0 < if i = task then 1 else 0) : i = task := by
    by_contra hne
    rw [if_neg hne] at h
    exact lt_irrefl 0 h
  cases a with
  | enqueueAfter i delay => exact hone hcarries
  | reject i => exact hone hcarries
  | cancelAll tasks => exact List.count_pos_iff.mp hcarries
  | lockGate => exact absurd hcarries (lt_irrefl 0)
  | close => exact absurd hcarries (lt_irrefl 0)
  | _ => cases ha

/-- Nothing is left to a worker that is gone but what a call has in hand. -/
theorem kept_of_exec (hrun : (machine deadlineOf).exec (start now) ls = some u)
    (hgone : u.pending 0 = []) :
    (∃ l ∈ ls, stops l = true) ∧ u.shared.delayed.toList = [] ∧
      ∀ task < u.shared.nextTask, (u.shared.states task).status = .pending →
        ∃ a, u.Pending a ∧ InHand task a := by
  have hattended := attended_of_exec hrun
  have hsettling := (AsyncEventLoop.Settling.start .ownedThread now).of_exec (exec_toAsync hrun)
  have hstopping : u.shared.stopping = true := by
    refine hattended.worker.resolve_right ?_
    rintro ⟨b, hb, _⟩
    rw [hgone] at hb
    cases hb
  have hclosed : u.shared.accepting = false := by
    have hflags := hattended.flags
    rw [hstopping] at hflags
    exact (Bool.not_eq_true' _).mp hflags.symm
  have hheld := hsettling.stopping.emptied hclosed
  refine ⟨?_, ?_, ?_⟩
  · by_contra hnone
    have hcalm : ∀ l ∈ ls, stops l = false := fun l hl =>
      Bool.eq_false_of_not_eq_true fun hl' => hnone ⟨l, hl, hl'⟩
    have hgoing := (AsyncEventLoop.Going.start .ownedThread now).of_exec (stops_run hcalm)
      (exec_toAsync hrun)
    have hrunning : u.shared.stopping = false := hgoing.undisturbed.running
    rw [hstopping] at hrunning
    cases hrunning
  · apply List.eq_nil_iff_forall_not_mem.mpr
    intro d hd
    have hcount := List.count_pos_iff.mpr (List.mem_map_of_mem (f := DelayedTask.frame) hd)
    have hzero := hheld d.frame
    simp only [AsyncEventLoop.holds] at hzero
    change (u.shared.delayed.toList.map DelayedTask.frame).count d.frame > 0 at hcount
    change _ + (u.shared.delayed.toList.map DelayedTask.frame).count d.frame + _ = 0 at hzero
    omega
  · intro task hborn hpending
    rcases (hsettling.sound.placed task).of_pending hborn hpending with hholds | ⟨a, ⟨k, ha⟩, hin⟩
    · rw [hheld task] at hholds
      exact absurd hholds (lt_irrefl 0)
    · obtain ⟨b, hb, rfl⟩ := List.mem_map.mp ha
      have hk : k ≠ 0 := by
        rintro rfl
        rw [hgone] at hb
        cases hb
      exact ⟨b, ⟨k, hb⟩, inHand_of_carries (hattended.alone k hk b hb) hin⟩

end EventLoopCoroutine

namespace Construction

variable {deadlineOf : ℤ → ℤ → ℤ} {storage : LateStorage} {now : ℤ} {left : List LateMember}
  {u v : Threads Construction ConstructionSection}
  {l : Threads.Label CoroutineCall CoroutineChoice}
  {ls : List (Threads.Label CoroutineCall CoroutineChoice)}

/-! ### The loop once it is constructed -/

theorem enter_built (s : EventLoopCoroutine) (call : CoroutineCall) :
    enter ⟨s, true, false⟩ call = some (lift ⟨s, true, false⟩ (s.enter call)) := by
  cases call <;> rfl

theorem run_built (deadlineOf : ℤ → ℤ → ℤ) (k : ℕ) (s : EventLoopCoroutine) (a : CoroutineSection)
    (choice : CoroutineChoice) :
    runSection deadlineOf k ⟨s, true, false⟩ (.loop a) choice =
      (EventLoopCoroutine.runSection deadlineOf k s a choice).map (lift ⟨s, true, false⟩) := by
  cases a <;> rfl

/-- A loop that is constructed is one that can be called. -/
def built (deadlineOf : ℤ → ℤ → ℤ) :
    (EventLoopCoroutine.program deadlineOf).Embeds (program deadlineOf) where
  state s := ⟨s, true, false⟩
  toDo := .loop
  call := id
  choice := id
  enter k s c t as h := by
    simp only [EventLoopCoroutine.program] at h
    split at h
    · cases h
    · rename_i hk
      refine (if_neg hk).trans ((enter_built s c).trans ?_)
      rw [Option.some.inj h]
      rfl
  run k s a e t as h := by
    have hlift := congrArg (Option.map (lift ⟨s, true, false⟩)) h
    exact (run_built deadlineOf k s a e).trans hlift

theorem built_exact (deadlineOf : ℤ → ℤ → ℤ) : (built deadlineOf).Exact where
  enter k s c r h := by
    simp only [program] at h
    split at h
    · cases h
    · rename_i hk
      have henter := (enter_built s c).symm.trans h
      exact ⟨_, _, if_neg hk, (Option.some.inj henter).symm⟩
  run k s a e r h := by
    obtain ⟨⟨t, as⟩, hrun, heq⟩ := Option.map_eq_some_iff.mp ((run_built deadlineOf k s a e).symm.trans h)
    exact ⟨t, as, hrun, heq.symm⟩

@[simp] theorem label_built (l : Threads.Label CoroutineCall CoroutineChoice) :
    (built deadlineOf).label l = l := by
  cases l <;> rfl

theorem building_done (storage : LateStorage) (now : ℤ) :
    building storage now [] = (built deadlineOf).threads (EventLoopCoroutine.start now) := by
  simp only [building, Program.Embeds.threads, Threads.mk.injEq]
  refine ⟨rfl, ?_⟩
  funext k
  simp only [EventLoopCoroutine.start]
  split
  · rfl
  · split <;> rfl

/-! ### While the loop is under construction -/

theorem lateMembers_suffix (hleft : left ≠ []) (hsuffix : left <:+ lateMembers) :
    left = [.nextSequence, .accepting, .stopping] ∨ left = [.accepting, .stopping] ∨
      left = [.stopping] := by
  simp only [lateMembers, List.suffix_cons_iff, List.suffix_nil] at hsuffix
  rcases hsuffix with h | h | h | h
  · exact Or.inl h
  · exact Or.inr (Or.inl h)
  · exact Or.inr (Or.inr h)
  · exact absurd h hleft

/-- The constructor initialises the next member. -/
theorem initialise_run {member : LateMember} {left : List LateMember}
    (hsuffix : member :: left <:+ lateMembers) {k : ℕ} {choice : CoroutineChoice} {s : Construction}
    {as : List ConstructionSection}
    (h : runSection deadlineOf k ⟨members storage now (member :: left), false, false⟩
      (.initialise member) choice = some (s, as)) :
    s = ⟨members storage now left, left.isEmpty, false⟩ ∧ as = [] := by
  rcases lateMembers_suffix (List.cons_ne_nil member left) hsuffix with h' | h' | h' <;>
    (cases h'; obtain ⟨rfl, rfl⟩ := Prod.mk.inj (Option.some.inj h); exact ⟨rfl, rfl⟩)

theorem building_step (hleft : left ≠ []) (hsuffix : left <:+ lateMembers)
    (hreads : ReadsRunning (building storage now left) l)
    (hstep : (machine deadlineOf).step (building storage now left) l = some v) :
    ∃ now' left', left' <:+ left ∧ v = building storage now' left' := by
  have hconstructed : left.isEmpty = false := List.isEmpty_eq_false_iff.mpr hleft
  cases Program.moves_of_step hstep with
  | @enter k call s' as hidle hcall =>
      simp only [program, building] at hcall
      split at hcall
      · cases hcall
      · cases call with
        | advanceClock nanoseconds =>
            obtain ⟨rfl, rfl⟩ := Prod.mk.inj (Option.some.inj hcall)
            refine ⟨now + nanoseconds, left, List.suffix_rfl, ?_⟩
            simp only [become, building, Threads.mk.injEq]
            refine ⟨rfl, ?_⟩
            exact (congrArg _ hidle.symm).trans (Function.update_eq_self k _)
        | _ =>
            simp only [enter, hconstructed] at hcall
            cases hcall
  | @advance k choice a rest s' as hat hrun =>
      simp only [building] at hat
      split at hat
      · -- the worker waits, as `stopping_` is false and nothing is queued
        rename_i hk
        obtain ⟨rfl, rfl⟩ := List.cons.inj hat
        have hrunning : (members storage now left).stopping = false := hreads hk hconstructed
        have hwaits : runSection deadlineOf k ⟨members storage now left, left.isEmpty, false⟩
            (.loop .awaitWork) choice = none := by
          simp only [runSection, hconstructed, hrunning]
          rfl
        cases hwaits.symm.trans hrun
      · split at hat
        · rename_i hk
          obtain ⟨member, left, rfl, rfl, rfl⟩ := List.map_eq_cons_iff.mp hat
          obtain ⟨rfl, rfl⟩ := initialise_run hsuffix hrun
          refine ⟨now, left, List.suffix_cons member left, ?_⟩
          simp only [become, building, Threads.mk.injEq, true_and]
          funext j
          by_cases hjk : j = k
          · subst hjk
            rw [Function.update_self, if_neg ‹_›, if_pos hk]
            rfl
          · have hj : j ≠ 1 := fun hj => hjk (hj.trans hk.symm)
            rw [Function.update_of_ne hjk, if_neg hj, if_neg hj]
        · cases hat

/-! ### Every run -/

/-- A run is at the construction, or it is a run of the loop that has been constructed. -/
theorem building_or_built (hmeets : (machine deadlineOf).Meets ReadsRunning (start storage now) ls)
    (hrun : (machine deadlineOf).exec (start storage now) ls = some u) :
    (∃ now' left, left ≠ [] ∧ left <:+ lateMembers ∧ u = building storage now' left) ∨
      ∃ now' ls' w, ls' ⊆ ls ∧
        (EventLoopCoroutine.machine deadlineOf).exec (EventLoopCoroutine.start now') ls' = some w ∧
        u = (built deadlineOf).threads w := by
  revert hmeets
  refine Machine.invariant_of_run (M := machine deadlineOf) (fun ls u =>
    (machine deadlineOf).Meets ReadsRunning (start storage now) ls →
      (∃ now' left, left ≠ [] ∧ left <:+ lateMembers ∧ u = building storage now' left) ∨
        ∃ now' ls' w, ls' ⊆ ls ∧
          (EventLoopCoroutine.machine deadlineOf).exec (EventLoopCoroutine.start now') ls' = some w ∧
          u = (built deadlineOf).threads w) ?_ ?_ hrun
  · intro _
    exact Or.inl ⟨now, lateMembers, List.cons_ne_nil _ _, List.suffix_rfl, rfl⟩
  · intro ls u l v hrun ih hstep hmeets
    rcases ih hmeets.left with ⟨now', left, hleft, hsuffix, rfl⟩ | ⟨now', ls', w, hls', hrun', rfl⟩
    · obtain ⟨now'', left', hsuffix', rfl⟩ := building_step hleft hsuffix (hmeets.last hrun) hstep
      by_cases hleft' : left' = []
      · subst hleft'
        exact Or.inr ⟨now'', [], _, List.nil_subset _, rfl, building_done storage now''⟩
      · exact Or.inl ⟨now'', left', hleft', hsuffix'.trans hsuffix, rfl⟩
    · rw [← label_built l] at hstep
      obtain ⟨t, ht, rfl⟩ := (built_exact deadlineOf).step_of hstep
      refine Or.inr ⟨now', ls' ++ [l], t, ?_, ?_, rfl⟩
      · exact List.append_subset.mpr
          ⟨List.Subset.trans hls' (List.subset_append_left ls [l]),
            List.subset_append_right ls [l]⟩
      · rw [Machine.exec_append, hrun']
        exact Machine.exec_cons_of_step ht []

theorem kept_of_meets (hmeets : (machine deadlineOf).Meets ReadsRunning (start storage now) ls)
    (hrun : (machine deadlineOf).exec (start storage now) ls = some u) : WorkerKept ls u := by
  rcases building_or_built hmeets hrun with ⟨now', left, _, _, rfl⟩ | ⟨now', ls', w, hls', hw, rfl⟩
  · have hworks : ¬Gone (building storage now' left) := by
      rintro (h | h)
      · cases h
      · cases List.mem_singleton.mp h
    exact ⟨(absurd · hworks), (absurd · hworks), (absurd · hworks)⟩
  · have hkept (h : Gone ((built deadlineOf).threads w)) := by
      refine EventLoopCoroutine.kept_of_exec hw ?_
      rcases h with h | h
      · exact List.map_eq_nil_iff.mp h
      · obtain ⟨a, _, ha⟩ := List.mem_map.mp h
        cases ha
    refine ⟨fun h => ?_, fun h => (hkept h).2.1, fun h task hborn hpending => ?_⟩
    · obtain ⟨l, hl, hstops⟩ := (hkept h).1
      exact ⟨l, hls' hl, hstops⟩
    · obtain ⟨a, ⟨k, ha⟩, hhand⟩ := (hkept h).2.2 task hborn hpending
      exact ⟨a, ⟨k, List.mem_map_of_mem ha⟩, hhand⟩

/-- The worker reads `stopping_` at once, for the predicate and after it. -/
def readTwice : List (Threads.Label CoroutineCall CoroutineChoice) :=
  [.advance 0 .proceed, .advance 0 .proceed]

theorem WorkerKept.not_gone (h : WorkerKept ls u)
    (hls : ∀ l ∈ ls, EventLoopCoroutine.stops l = false) : ¬Gone u := by
  intro hgone
  obtain ⟨l, hl, hstops⟩ := h.stopped hgone
  rw [hls l hl] at hstops
  cases hstops

/-- The worker of a loop whose storage holds true for `stopping_` can be gone at once. -/
theorem lost_of_true (deadlineOf : ℤ → ℤ → ℤ) (now : ℤ) (h : storage.stopping = true) :
    ∃ u, (machine deadlineOf).exec (start storage now) readTwice = some u ∧
      ¬WorkerKept readTwice u := by
  obtain ⟨nextSequence, accepting, stopping⟩ := storage
  obtain rfl : stopping = true := h
  refine ⟨_, rfl, fun hkept => ?_⟩
  exact hkept.not_gone (by decide) (Or.inl rfl)

/-- However the rest of the construction and the steps of the worker come in turn, as long as
the worker does not read a `stopping_` that is true before it is initialised, it leaves `run`
only after `stop` has been called, and no accepted task is left without it. Nothing but what
the storage holds keeps the worker from reading it so. -/
theorem worker_kept (deadlineOf : ℤ → ℤ → ℤ) (storage : LateStorage) (now : ℤ) :
    (∀ ls u, (machine deadlineOf).Meets ReadsRunning (start storage now) ls →
      (machine deadlineOf).exec (start storage now) ls = some u → WorkerKept ls u) ∧
    (storage.stopping = true → ∃ ls u,
      (machine deadlineOf).exec (start storage now) ls = some u ∧ ¬WorkerKept ls u) :=
  ⟨fun _ _ => kept_of_meets, fun h => ⟨readTwice, lost_of_true deadlineOf now h⟩⟩

/-- The constructor runs to its end. -/
def construct : List (Threads.Label CoroutineCall CoroutineChoice) :=
  List.replicate 3 (.advance 1 .proceed)

/-- The worker reads `stopping_` once it is initialised, and leaves when it is stopped. -/
def readLate : List (Threads.Label CoroutineCall CoroutineChoice) :=
  construct ++ [.enter 1 (.scheduleAfter 1), .advance 1 .proceed, .advance 0 .proceed,
    .enter 2 .stop, .advance 2 .proceed, .advance 2 .proceed, .advance 0 .proceed,
    .advance 0 .proceed]

theorem worker_kept_readLate :
    (∃ u, (machine exactDeadline).exec (start ⟨7, false, true⟩ 0) readLate = some u ∧
      u.pending 0 = [] ∧ WorkerKept readLate u) ∧
    ∃ ls u, (machine exactDeadline).exec (start ⟨7, false, true⟩ 0) ls = some u ∧
      ¬WorkerKept ls u := by
  obtain ⟨hkept, hlost⟩ := worker_kept exactDeadline ⟨7, false, true⟩ 0
  exact ⟨⟨_, rfl, rfl, hkept readLate _ (by decide +kernel) rfl⟩, hlost rfl⟩

/-- A task is accepted after the worker has read `stopping_` too early. -/
def readEarly : List (Threads.Label CoroutineCall CoroutineChoice) :=
  readTwice ++ construct ++ [.enter 1 (.scheduleAfter 1), .advance 1 .proceed]

/-- The worker is gone before the loop is constructed, and an accepted task is left pending. -/
theorem worker_lost :
    ∃ u, (machine exactDeadline).exec (start ⟨0, false, true⟩ 0) readEarly = some u ∧
      (∀ l ∈ readEarly, EventLoopCoroutine.stops l = false) ∧ u.pending 0 = [] ∧
      u.shared.loop.delayed.toList.map DelayedTask.frame = [0] ∧
      (u.shared.loop.states 0).status = .pending ∧ ¬WorkerKept readEarly u := by
  refine ⟨_, rfl, by decide, rfl, by decide +kernel, rfl, fun hkept => ?_⟩
  exact hkept.not_gone (by decide) (Or.inl rfl)

end Construction

end Watchlist.Concurrency
