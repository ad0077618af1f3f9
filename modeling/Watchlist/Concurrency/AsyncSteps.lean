import Watchlist.Concurrency.AsyncEventLoop

/-!
What a section of `AsyncEventLoop` can do, once and for all: every fact about the loop is
a case analysis over the ways below, and looks at the definition of a section no more.
-/

namespace Watchlist.Concurrency

namespace AsyncEventLoop

open Transition Threads

/-- The ways a section can come out. -/
inductive Does (deadlineOf : ℤ → ℤ → ℤ) (k : ℕ) (s : AsyncEventLoop) (choice : AsyncChoice) :
    AsyncSection → AsyncEventLoop → List AsyncSection → Prop
  | queue {task : ℕ} (hopen : s.accepting = true) :
      Does deadlineOf k s choice (.enqueueReady task)
        { s with ready := s.ready ++ [task], history := s.history ++ [.queued task] } []
  | delay {task : ℕ} {delay : ℤ} {d : DelayedTask} (hopen : s.accepting = true)
      (hd : d = ⟨deadlineOf s.now delay, s.nextSequence, task⟩) :
      Does deadlineOf k s choice (.enqueueAfter task delay)
        { s with
          delayed := s.delayed.push d
          nextSequence := s.nextSequence + 1
          history := s.history ++ [.delayed d s.now delay] } []
  | register {task : ℕ} {name : Bytes} (hopen : s.accepting = true) :
      Does deadlineOf k s choice (.enqueueEventWait task name)
        { s with
          waiters := s.waiters ++ [⟨name, task⟩]
          history := s.history ++ [.registered task name] } []
  | refuse {a : AsyncSection} {task : ℕ} (hclosed : s.accepting = false)
      (ha : a = .enqueueReady task ∨ (∃ delay, a = .enqueueAfter task delay) ∨
        ∃ name, a = .enqueueEventWait task name) :
      Does deadlineOf k s choice a s [.reject task]
  | reject {task : ℕ} : Does deadlineOf k s choice (.reject task) (s.settle task .cancel) []
  | emit {event : Event} (hopen : s.accepting = true) :
      Does deadlineOf k s choice (.emit event)
        { s with
          waiters := s.waiters.filter (·.name ≠ event.name)
          awaited := fun i =>
            if i ∈ s.waitingFor event.name then some event else s.awaited i
          ready := s.ready ++ s.waitingFor event.name
          history := s.history ++ [.emitted event (s.waitingFor event.name)] } []
  | emitLate {event : Event} (hclosed : s.accepting = false) :
      Does deadlineOf k s choice (.emit event) s []
  | lockGate {gate : RecursiveMutex} (hlock : s.gate.lock k = some gate) :
      Does deadlineOf k s choice .lockGate { s with gate := gate } [.close]
  | close (hopen : s.accepting = true) :
      Does deadlineOf k s choice .close
        { s with accepting := false, stopping := true, ready := [], delayed := .empty, waiters := [] }
        [.cancelAll s.cancelled]
  | closeAgain (hclosed : s.accepting = false) : Does deadlineOf k s choice .close s [.cancelAll []]
  | stopReturns :
      Does deadlineOf k s choice (.cancelAll []) { s with gate := s.gate.unlock, stopReturned := true } []
  | cancel {task : ℕ} {tasks : List ℕ} :
      Does deadlineOf k s choice (.cancelAll (task :: tasks)) (s.settle task .cancel) [.cancelAll tasks]
  | startRun (hfirst : s.runStarted = false) :
      Does deadlineOf k s choice .startRun { s with runStarted := true } [.awaitWork]
  | runAgain (hstarted : s.runStarted = true) : Does deadlineOf k s choice .startRun s []
  | runEnds (hstopping : s.stopping = true) : Does deadlineOf k s choice .awaitWork s []
  | takeReady {task : ℕ} (hrunning : s.stopping = false) (htask : s.ready.getLast? = some task) :
      Does deadlineOf k s choice .awaitWork
        { s with ready := s.ready.dropLast, history := s.history ++ [.takenReady task] }
        [.lockBoundary task]
  | sleep {d : DelayedTask} (hrunning : s.stopping = false) (hready : s.ready = [])
      (hd : s.delayed.top = some d) :
      Does deadlineOf k s choice .awaitWork s [.asleepUntil d.time]
  | wake {deadline : ℤ} : Does deadlineOf k s choice (.asleepUntil deadline) s [.awaitWork]
  | takeDelayed {deadline : ℤ} {d : DelayedTask} (hrunning : s.stopping = false)
      (hready : s.ready = []) (hd : s.delayed.top = some d) (hdue : d.time ≤ s.now) :
      Does deadlineOf k s choice (.asleepUntil deadline)
        { s with delayed := s.delayed.pop, history := s.history ++ [.takenDelayed d s.now] }
        [.lockBoundary d.frame]
  | lockBoundary {task : ℕ} {gate : RecursiveMutex} (hlock : s.gate.lock k = some gate) :
      Does deadlineOf k s choice (.lockBoundary task) { s with gate := gate } [.readStopping task]
  | drop {task : ℕ} (hstopping : s.stopping = true) :
      Does deadlineOf k s choice (.readStopping task) s [.cancelTaken task]
  | keep {task : ℕ} (hrunning : s.stopping = false) :
      Does deadlineOf k s choice (.readStopping task) s [.checkStatus task]
  | cancelTaken {task : ℕ} :
      Does deadlineOf k s choice (.cancelTaken task) (s.settle task .cancel) [.unlockBoundary]
  | checkPending {task : ℕ} (hpending : (s.states task).status = .pending) :
      Does deadlineOf k s choice (.checkStatus task) s [.resume task]
  | checkSettled {task : ℕ} (hsettled : (s.states task).status ≠ .pending) :
      Does deadlineOf k s choice (.checkStatus task) s [.unlockBoundary]
  | resume {task : ℕ} :
      Does deadlineOf k s choice (.resume task)
        { s with history := s.history ++ [.resumed task (s.awaited task)] } [.inTask task]
  | returns {task : ℕ} :
      Does deadlineOf k s choice (.inTask task) (s.settle task .succeed) [.unlockBoundary]
  | throws {task : ℕ} (what : Bytes) :
      Does deadlineOf k s choice (.inTask task) (s.settle task (.fail what)) [.unlockBoundary]
  | calls {task : ℕ} (call : AsyncCall) (hcall : choice = .calls call) :
      Does deadlineOf k s choice (.inTask task) (s.enter call).1 ((s.enter call).2 ++ [.inTask task])
  | unlockBoundary :
      Does deadlineOf k s choice .unlockBoundary { s with gate := s.gate.unlock } [.awaitWork]

theorem wakes_eq_false {s : AsyncEventLoop} {deadline : ℤ} (h : s.wakes deadline = false) :
    s.stopping = false ∧ s.ready = [] := by
  simp only [wakes, Bool.or_eq_false_iff, Bool.not_eq_false', List.isEmpty_iff] at h
  exact h.1

theorem does_of_run {deadlineOf : ℤ → ℤ → ℤ} {k : ℕ} {s s' : AsyncEventLoop} {a : AsyncSection}
    {choice : AsyncChoice} {as : List AsyncSection}
    (h : runSection deadlineOf k s a choice = some (s', as)) : Does deadlineOf k s choice a s' as := by
  cases a with
  | enqueueReady task =>
      simp only [runSection] at h
      split at h
      · rename_i hopen
        cases h
        exact .queue hopen
      · rename_i hclosed
        cases h
        exact .refuse (Bool.eq_false_of_not_eq_true hclosed) (Or.inl rfl)
  | enqueueAfter task delay =>
      simp only [runSection] at h
      split at h
      · rename_i hopen
        cases h
        exact .delay hopen rfl
      · rename_i hclosed
        cases h
        exact .refuse (Bool.eq_false_of_not_eq_true hclosed) (Or.inr (Or.inl ⟨delay, rfl⟩))
  | enqueueEventWait task name =>
      simp only [runSection] at h
      split at h
      · rename_i hopen
        cases h
        exact .register hopen
      · rename_i hclosed
        cases h
        exact .refuse (Bool.eq_false_of_not_eq_true hclosed) (Or.inr (Or.inr ⟨name, rfl⟩))
  | reject task =>
      cases h
      exact .reject
  | emit event =>
      simp only [runSection] at h
      split at h
      · rename_i hopen
        cases h
        exact .emit hopen
      · rename_i hclosed
        cases h
        exact .emitLate (Bool.eq_false_of_not_eq_true hclosed)
  | lockGate =>
      obtain ⟨gate, hlock, heq⟩ := Option.map_eq_some_iff.mp h
      cases heq
      exact .lockGate hlock
  | close =>
      simp only [runSection] at h
      split at h
      · rename_i hopen
        cases h
        exact .close hopen
      · rename_i hclosed
        cases h
        exact .closeAgain (Bool.eq_false_of_not_eq_true hclosed)
  | cancelAll tasks =>
      cases tasks with
      | nil =>
          cases h
          exact .stopReturns
      | cons task tasks =>
          cases h
          exact .cancel
  | startRun =>
      simp only [runSection] at h
      split at h
      · rename_i hstarted
        cases h
        exact .runAgain hstarted
      · rename_i hfirst
        cases h
        exact .startRun (Bool.eq_false_of_not_eq_true hfirst)
  | awaitWork =>
      simp only [runSection] at h
      split at h
      · rename_i hstopping
        cases h
        exact .runEnds hstopping
      · rename_i hrunning
        have hrunning' := Bool.eq_false_of_not_eq_true hrunning
        split at h
        · rename_i task htask
          cases h
          exact .takeReady hrunning' htask
        · rename_i hnone
          split at h
          · rename_i d hd
            cases h
            exact .sleep hrunning' (List.getLast?_eq_none_iff.mp hnone) hd
          · cases h
  | asleepUntil deadline =>
      simp only [runSection] at h
      split at h
      · cases h
        exact .wake
      · rename_i hasleep
        obtain ⟨hrunning, hready⟩ := wakes_eq_false (Bool.eq_false_of_not_eq_true hasleep)
        split at h
        · rename_i d hd
          split at h
          · rename_i hdue
            cases h
            exact .takeDelayed hrunning hready hd hdue
          · cases h
            exact .wake
        · cases h
  | lockBoundary task =>
      obtain ⟨gate, hlock, heq⟩ := Option.map_eq_some_iff.mp h
      cases heq
      exact .lockBoundary hlock
  | readStopping task =>
      simp only [runSection] at h
      cases h
      split
      · rename_i hstopping
        exact .drop hstopping
      · rename_i hrunning
        exact .keep (Bool.eq_false_of_not_eq_true hrunning)
  | cancelTaken task =>
      cases h
      exact .cancelTaken
  | checkStatus task =>
      simp only [runSection] at h
      cases h
      split
      · rename_i hpending
        exact .checkPending hpending
      · rename_i hsettled
        exact .checkSettled hsettled
  | resume task =>
      cases h
      exact .resume
  | inTask task =>
      cases choice with
      | throws what =>
          cases h
          exact .throws what
      | calls call =>
          simp only [runSection] at h
          split at h
          · cases h
            exact .calls call rfl
          · cases h
      | proceed =>
          cases h
          exact .returns
      | timesOut =>
          cases h
          exact .returns
  | unlockBoundary =>
      cases h
      exact .unlockBoundary

/-- Entering a call always succeeds where it is allowed. -/
theorem enter_eq {deadlineOf : ℤ → ℤ → ℤ} {k : ℕ} {s s' : AsyncEventLoop} {call : AsyncCall}
    {as : List AsyncSection} (h : (program deadlineOf).enter k s call = some (s', as)) :
    s' = (s.enter call).1 ∧ as = (s.enter call).2 := by
  simp only [program] at h
  split at h
  · cases h
  · have heq := Option.some.inj h
    exact ⟨(congrArg Prod.fst heq).symm, (congrArg Prod.snd heq).symm⟩

end AsyncEventLoop

end Watchlist.Concurrency
