import Watchlist.Library.Embedding
import Watchlist.Concurrency.AsyncEventLoop

/-!
`EventLoopCoroutine.hpp`: a loop with a thread of its own that resumes delayed tasks. It
is written apart from `AsyncEventLoop`, and its sections are those of its own functions;
that it does what the other loop does with delayed tasks alone is shown below by finding
every step of it among those of the other.
-/

namespace Watchlist.Concurrency

open Transition

structure EventLoopCoroutine where
  accepting : Bool
  stopping : Bool
  delayed : DelayedTasks
  nextSequence : ℕ
  /-- `execution_gate_` -/
  gate : RecursiveMutex
  /-- the steady clock -/
  now : ℤ
  states : ℕ → TaskState
  nextTask : ℕ
  /-- some call of `stop` has returned -/
  stopReturned : Bool
  history : List AsyncEventLoop.Happening

inductive CoroutineSection
  -- `schedule_after`
  | enqueueAfter (task : ℕ) (delay : ℤ)
  | reject (task : ℕ)
  -- `stop`
  | lockGate
  | close
  | cancelAll (tasks : List ℕ)
  -- `run`
  | awaitWork
  | asleepUntil (deadline : ℤ)
  | lockBoundary (task : ℕ)
  | readStopping (task : ℕ)
  | cancelTaken (task : ℕ)
  | checkStatus (task : ℕ)
  | resume (task : ℕ)
  | inTask (task : ℕ)
  | unlockBoundary

inductive CoroutineCall
  | scheduleAfter (delay : ℤ)
  | stop
  /-- time passes -/
  | advanceClock (nanoseconds : ℕ)
  deriving DecidableEq

/-- How a section that depends on its surroundings comes out. -/
inductive CoroutineChoice
  | proceed
  /-- the callback throws -/
  | throws (what : Bytes)
  /-- the callback calls the loop -/
  | calls (call : CoroutineCall)
  /-- the wait of the worker times out -/
  | timesOut
  deriving DecidableEq

namespace EventLoopCoroutine

/-- The loop that the constructor makes. -/
def initial (now : ℤ) : EventLoopCoroutine where
  accepting := true
  stopping := false
  delayed := .empty
  nextSequence := 0
  gate := .free
  now := now
  states := fun _ => .new
  nextTask := 0
  stopReturned := false
  history := []

def settle (s : EventLoopCoroutine) (task : ℕ) (f : TaskState → TaskState) : EventLoopCoroutine :=
  { s with states := Function.update s.states task (f (s.states task)) }

def enter (s : EventLoopCoroutine) : CoroutineCall → EventLoopCoroutine × List CoroutineSection
  | .scheduleAfter delay =>
      ({ s with
        states := Function.update s.states s.nextTask .new
        nextTask := s.nextTask + 1 }, [.enqueueAfter s.nextTask delay])
  | .stop => (s, [.lockGate])
  | .advanceClock nanoseconds => ({ s with now := s.now + nanoseconds }, [])

/-- The predicate of `wait_until`. -/
def wakes (s : EventLoopCoroutine) (deadline : ℤ) : Bool :=
  s.stopping ||
    match s.delayed.top with
    | none => true
    | some d => decide (d.time < deadline)

def runSection (deadlineOf : ℤ → ℤ → ℤ) (k : ℕ) (s : EventLoopCoroutine) :
    CoroutineSection → CoroutineChoice → Option (EventLoopCoroutine × List CoroutineSection)
  -- `schedule_after`
  | .enqueueAfter task delay, _ =>
      if s.accepting then
        let d : DelayedTask := ⟨deadlineOf s.now delay, s.nextSequence, task⟩
        some ({ s with
          delayed := s.delayed.push d
          nextSequence := s.nextSequence + 1
          history := s.history ++ [.delayed d s.now delay] }, [])
      else some (s, [.reject task])
  | .reject task, _ => some (s.settle task .cancel, [])
  -- `stop`
  | .lockGate, _ => (s.gate.lock k).map fun gate => ({ s with gate := gate }, [.close])
  | .close, _ =>
      if s.accepting then
        some ({ s with accepting := false, stopping := true, delayed := .empty },
          [.cancelAll (s.delayed.toList.map DelayedTask.frame)])
      else some (s, [.cancelAll []])
  | .cancelAll [], _ => some ({ s with gate := s.gate.unlock, stopReturned := true }, [])
  | .cancelAll (task :: tasks), _ => some (s.settle task .cancel, [.cancelAll tasks])
  -- `run`
  | .awaitWork, _ =>
      if s.stopping then some (s, [])
      else
        match s.delayed.top with
        | some d => some (s, [.asleepUntil d.time])
        | none => none
  | .asleepUntil deadline, choice =>
      if s.wakes deadline then some (s, [.awaitWork])
      else
        match choice, s.delayed.top with
        | .timesOut, some d =>
            if d.time ≤ s.now then
              some ({ s with
                delayed := s.delayed.pop
                history := s.history ++ [.takenDelayed d s.now] }, [.lockBoundary d.frame])
            else some (s, [.awaitWork])
        | _, _ => none
  | .lockBoundary task, _ =>
      (s.gate.lock k).map fun gate => ({ s with gate := gate }, [.readStopping task])
  | .readStopping task, _ =>
      some (s, [if s.stopping then .cancelTaken task else .checkStatus task])
  | .cancelTaken task, _ => some (s.settle task .cancel, [.unlockBoundary])
  | .checkStatus task, _ =>
      some (s, [if (s.states task).status = .pending then .resume task else .unlockBoundary])
  | .resume task, _ =>
      some ({ s with history := s.history ++ [.resumed task none] }, [.inTask task])
  | .inTask task, choice =>
      match choice with
      | .throws what => some (s.settle task (.fail what), [.unlockBoundary])
      | .calls call => some ((s.enter call).1, (s.enter call).2 ++ [.inTask task])
      | _ => some (s.settle task .succeed, [.unlockBoundary])
  | .unlockBoundary, _ => some ({ s with gate := s.gate.unlock }, [.awaitWork])

/-- A loop whose deadlines are computed by `deadlineOf`. Its own thread, 0, runs the worker
only. -/
def program (deadlineOf : ℤ → ℤ → ℤ) :
    Program EventLoopCoroutine CoroutineSection CoroutineCall CoroutineChoice :=
  ⟨fun k s call => if k = 0 then none else some (s.enter call), runSection deadlineOf⟩

def machine (deadlineOf : ℤ → ℤ → ℤ) : Machine (Threads EventLoopCoroutine CoroutineSection)
    (Threads.Label CoroutineCall CoroutineChoice) :=
  (program deadlineOf).machine

/-- The loop with its thread started. -/
def start (now : ℤ) : Threads EventLoopCoroutine CoroutineSection :=
  ⟨initial now, fun k => if k = 0 then [.awaitWork] else []⟩

/-! ### The same loop without events -/

/-- The other loop, running with a thread of its own, when it has only delayed tasks. -/
def toAsync (s : EventLoopCoroutine) : AsyncEventLoop where
  executionMode := .ownedThread
  accepting := s.accepting
  stopping := s.stopping
  runStarted := true
  ready := []
  delayed := s.delayed
  waiters := []
  nextSequence := s.nextSequence
  gate := s.gate
  now := s.now
  states := s.states
  awaited := fun _ => none
  nextTask := s.nextTask
  stopReturned := s.stopReturned
  history := s.history

def sectionToAsync : CoroutineSection → AsyncSection
  | .enqueueAfter task delay => .enqueueAfter task delay
  | .reject task => .reject task
  | .lockGate => .lockGate
  | .close => .close
  | .cancelAll tasks => .cancelAll tasks
  | .awaitWork => .awaitWork
  | .asleepUntil deadline => .asleepUntil deadline
  | .lockBoundary task => .lockBoundary task
  | .readStopping task => .readStopping task
  | .cancelTaken task => .cancelTaken task
  | .checkStatus task => .checkStatus task
  | .resume task => .resume task
  | .inTask task => .inTask task
  | .unlockBoundary => .unlockBoundary

def callToAsync : CoroutineCall → AsyncCall
  | .scheduleAfter delay => .scheduleAfter delay
  | .stop => .stop
  | .advanceClock nanoseconds => .advanceClock nanoseconds

def choiceToAsync : CoroutineChoice → AsyncChoice
  | .proceed => .proceed
  | .throws what => .throws what
  | .calls call => .calls (callToAsync call)
  | .timesOut => .timesOut

theorem enter_toAsync (s : EventLoopCoroutine) (call : CoroutineCall) :
    s.toAsync.enter (callToAsync call) =
      ((s.enter call).1.toAsync, (s.enter call).2.map sectionToAsync) := by
  cases call with
  | scheduleAfter delay =>
      have hawaited : Function.update (fun _ => none : ℕ → Option AsyncEventLoop.Event) s.nextTask
          none = fun _ => none := Function.update_eq_self ..
      simp only [callToAsync, AsyncEventLoop.enter, AsyncEventLoop.create, toAsync, enter, hawaited]
      rfl
  | stop => rfl
  | advanceClock nanoseconds => rfl

theorem wakes_toAsync (s : EventLoopCoroutine) (deadline : ℤ) :
    s.toAsync.wakes deadline = s.wakes deadline := by
  simp only [AsyncEventLoop.wakes, toAsync, List.isEmpty_nil, Bool.not_true, Bool.or_false]
  rfl

theorem run_toAsync {deadlineOf : ℤ → ℤ → ℤ} {k : ℕ} {s t : EventLoopCoroutine}
    {a : CoroutineSection} {choice : CoroutineChoice} {as : List CoroutineSection}
    (h : runSection deadlineOf k s a choice = some (t, as)) :
    AsyncEventLoop.runSection deadlineOf k s.toAsync (sectionToAsync a) (choiceToAsync choice) =
      some (t.toAsync, as.map sectionToAsync) := by
  cases a with
  | enqueueAfter task delay =>
      simp only [runSection] at h
      split at h
      · rename_i hopen
        cases h
        exact if_pos hopen
      · rename_i hclosed
        cases h
        exact if_neg hclosed
  | reject task =>
      cases h
      rfl
  | lockGate =>
      obtain ⟨gate, hlock, heq⟩ := Option.map_eq_some_iff.mp h
      cases heq
      exact Option.map_eq_some_iff.mpr ⟨gate, hlock, rfl⟩
  | close =>
      simp only [runSection] at h
      split at h
      · rename_i hopen
        cases h
        have hcancelled : s.toAsync.cancelled = s.delayed.toList.map DelayedTask.frame := by
          simp [AsyncEventLoop.cancelled, toAsync]
        refine (if_pos hopen).trans ?_
        rw [hcancelled]
        rfl
      · rename_i hclosed
        cases h
        exact if_neg hclosed
  | cancelAll tasks =>
      cases tasks <;> (cases h; rfl)
  | awaitWork =>
      simp only [runSection] at h
      split at h
      · rename_i hstopping
        cases h
        exact if_pos hstopping
      · rename_i hrunning
        split at h
        · rename_i d hd
          cases h
          have htop : s.toAsync.delayed.top = some d := hd
          refine (if_neg hrunning).trans ?_
          simp only [htop]
          rfl
        · cases h
  | asleepUntil deadline =>
      simp only [runSection] at h
      split at h
      · rename_i hwakes
        cases h
        exact if_pos ((wakes_toAsync s deadline).trans hwakes)
      · rename_i hasleep
        rw [← wakes_toAsync] at hasleep
        split at h
        · rename_i d hd
          have htop : s.toAsync.delayed.top = some d := hd
          refine (if_neg hasleep).trans ?_
          simp only [choiceToAsync, htop]
          split at h
          · rename_i hdue
            cases h
            exact if_pos hdue
          · rename_i hearly
            cases h
            exact if_neg hearly
        · cases h
  | lockBoundary task =>
      obtain ⟨gate, hlock, heq⟩ := Option.map_eq_some_iff.mp h
      cases heq
      exact Option.map_eq_some_iff.mpr ⟨gate, hlock, rfl⟩
  | readStopping task =>
      cases h
      rw [List.map_singleton, apply_ite sectionToAsync]
      rfl
  | cancelTaken task =>
      cases h
      rfl
  | checkStatus task =>
      cases h
      rw [List.map_singleton, apply_ite sectionToAsync]
      rfl
  | resume task =>
      cases h
      rfl
  | inTask task =>
      cases choice with
      | calls call =>
          cases h
          have henter := enter_toAsync s call
          simp only [sectionToAsync, choiceToAsync, AsyncEventLoop.runSection, henter,
            List.map_append]
          rfl
      | proceed =>
          cases h
          rfl
      | throws what =>
          cases h
          rfl
      | timesOut =>
          cases h
          rfl
  | unlockBoundary =>
      cases h
      rfl

/-- Each step of this loop is a step of the other. -/
def embedding (deadlineOf : ℤ → ℤ → ℤ) :
    (program deadlineOf).Embeds (AsyncEventLoop.program deadlineOf) where
  state := toAsync
  toDo := sectionToAsync
  call := callToAsync
  choice := choiceToAsync
  enter k s c t as h := by
    simp only [program] at h
    split at h
    · cases h
    · rename_i hk
      have henter := Option.some.inj h
      refine (if_neg fun hworker => hk hworker.1).trans ?_
      rw [enter_toAsync, henter]
  run _ _ _ _ _ _ h := run_toAsync h

/-- The other loop starts its worker before it waits for work. -/
theorem start_toAsync (deadlineOf : ℤ → ℤ → ℤ) (now : ℤ) :
    (AsyncEventLoop.machine deadlineOf).step (AsyncEventLoop.start .ownedThread now)
      (.advance 0 .proceed) = some ((embedding deadlineOf).threads (start now)) := by
  have hstate : (AsyncEventLoop.start .ownedThread now).become 0 (initial now).toAsync
      ([.awaitWork] ++ []) = (embedding deadlineOf).threads (start now) := by
    simp only [Threads.become, Program.Embeds.threads, Threads.mk.injEq]
    refine ⟨rfl, ?_⟩
    funext k
    by_cases hk : k = 0
    · subst hk
      rfl
    · rw [Function.update_of_ne hk]
      simp [AsyncEventLoop.start, start, hk]
  rw [← hstate]
  rfl

/-- A run of this loop is a run of the other. -/
theorem exec_toAsync {deadlineOf : ℤ → ℤ → ℤ} {now : ℤ}
    {ls : List (Threads.Label CoroutineCall CoroutineChoice)}
    {u : Threads EventLoopCoroutine CoroutineSection}
    (h : (machine deadlineOf).exec (start now) ls = some u) :
    (AsyncEventLoop.machine deadlineOf).exec (AsyncEventLoop.start .ownedThread now)
      (.advance 0 .proceed :: ls.map (embedding deadlineOf).label) =
        some ((embedding deadlineOf).threads u) := by
  rw [Machine.exec_cons_of_step (start_toAsync deadlineOf now)]
  exact Program.Embeds.exec h

end EventLoopCoroutine

end Watchlist.Concurrency
