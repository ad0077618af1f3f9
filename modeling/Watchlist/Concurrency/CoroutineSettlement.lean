import Watchlist.Concurrency.EventLoopCoroutine
import Watchlist.Concurrency.Settlement

/-!
Every task of `EventLoopCoroutine` settles once, and cancelled work never runs. A run of it
is one of `AsyncEventLoop`, so that what is known of the tasks there is known of them here.
The loop has been constructed when the run begins.
-/

namespace Watchlist.Concurrency

namespace EventLoopCoroutine

open Transition Threads AsyncEventLoop

variable {deadlineOf : ℤ → ℤ → ℤ} {now : ℤ} {u v : Threads EventLoopCoroutine CoroutineSection}
  {ls : List (Threads.Label CoroutineCall CoroutineChoice)}

/-- How often the task has been resumed. -/
def resumptions (i : ℕ) (s : EventLoopCoroutine) : ℕ := s.history.countP (·.resumes i)

/-- The delays that `enqueue_after` has accepted. -/
def accepted (s : EventLoopCoroutine) : List Happening := s.history.filter Happening.accepts

/-- The sections of `schedule_after`. -/
def schedules : CoroutineSection → Bool
  | .enqueueAfter .. | .reject _ => true
  | _ => false

/-- The sections of the worker. -/
def ofWorker : CoroutineSection → Bool
  | .awaitWork | .asleepUntil _ | .lockBoundary _ | .readStopping _ | .cancelTaken _
  | .checkStatus _ | .resume _ | .inTask _ | .unlockBoundary => true
  | _ => false

theorem schedules_toAsync (a : CoroutineSection) :
    AsyncEventLoop.schedules (sectionToAsync a) = schedules a ∧
      inRun (sectionToAsync a) = ofWorker a := by
  cases a <;> exact ⟨rfl, rfl⟩

theorem settling_of_exec (h : (machine deadlineOf).exec (start now) ls = some u) :
    Settling ((embedding deadlineOf).threads u) :=
  (Settling.start .ownedThread now).of_exec (exec_toAsync h)

theorem pending_toAsync {a : AsyncSection} (h : ((embedding deadlineOf).threads u).Pending a) :
    ∃ b, u.Pending b ∧ sectionToAsync b = a := by
  obtain ⟨k, hk⟩ := h
  obtain ⟨b, hb, rfl⟩ := List.mem_map.mp hk
  exact ⟨b, ⟨k, hb⟩, rfl⟩

/-- In every run each task settles at most once, only a pending task settles, and its callback
is entered at most once, never when it is cancelled and never after it has settled. Once a
stop has returned no delay is accepted any more; and when besides the worker has left `run`
and no call is scheduling, every task has settled. -/
theorem delayed_tasks_settle (h : (machine deadlineOf).exec (start now) ls = some u) :
    (∀ i, resumptions i u.shared ≤ 1 ∧
      ((u.shared.states i).status = .cancelled → resumptions i u.shared = 0)) ∧
      (∀ ls' v i, (machine deadlineOf).exec u ls' = some v →
        (u.shared.states i).status ≠ .pending →
          v.shared.states i = u.shared.states i ∧
            resumptions i v.shared = resumptions i u.shared) ∧
      (u.shared.stopReturned = true → u.shared.accepting = false) ∧
      (∀ ls' v, (machine deadlineOf).exec u ls' = some v → u.shared.accepting = false →
        v.shared.accepting = false ∧ accepted v.shared = accepted u.shared) ∧
      (u.shared.stopReturned = true →
        (∀ a, u.Pending a → ofWorker a = false ∧ schedules a = false) →
          ∀ i < u.shared.nextTask, (u.shared.states i).status ≠ .pending) := by
  have hall : Settling ((embedding deadlineOf).threads u) := settling_of_exec h
  have hcarried {ls' : List (Threads.Label CoroutineCall CoroutineChoice)}
      {v : Threads EventLoopCoroutine CoroutineSection}
      (hrun : (machine deadlineOf).exec u ls' = some v) :
      (AsyncEventLoop.machine deadlineOf).exec ((embedding deadlineOf).threads u)
        (ls'.map (embedding deadlineOf).label) = some ((embedding deadlineOf).threads v) :=
    Program.Embeds.exec hrun
  refine ⟨fun i => ⟨(hall.entered i).le_one hall.sound, hall.neverRan i⟩, ?_, ?_, ?_, ?_⟩
  · intro ls' v i hrun hsettled
    exact hall.settled_exec (hcarried hrun) hsettled
  · intro hreturned
    exact (hall.stopping.returned hreturned).1
  · intro ls' v hrun hclosed
    exact hall.accepted_exec (hcarried hrun) hclosed
  · intro hreturned hidle i hborn
    refine hall.settled hreturned (fun a ha => ?_) hborn
    obtain ⟨b, hb, rfl⟩ := pending_toAsync ha
    obtain ⟨hworker, hschedules⟩ := hidle b hb
    obtain ⟨hschedules', hworker'⟩ := schedules_toAsync b
    exact ⟨hworker'.trans hworker, hschedules'.trans hschedules⟩

/-- The callback of a due task schedules another and stops the loop. -/
def stopInCallback : List (Threads.Label CoroutineCall CoroutineChoice) :=
  [.enter 1 (.scheduleAfter 0), .advance 1 .proceed, .advance 0 .proceed, .advance 0 .timesOut,
    .advance 0 .proceed, .advance 0 .proceed, .advance 0 .proceed, .advance 0 .proceed,
    .advance 0 (.calls (.scheduleAfter 5)), .advance 0 .proceed, .advance 0 (.calls .stop),
    .advance 0 .proceed, .advance 0 .proceed, .advance 0 .proceed, .advance 0 .proceed,
    .advance 0 .proceed, .advance 0 .proceed, .advance 0 .proceed]

theorem delayed_tasks_settle_stopInCallback :
    ∃ u, (machine exactDeadline).exec (start 0) stopInCallback = some u ∧
      resumptions 0 u.shared = 1 ∧ resumptions 1 u.shared = 0 ∧
      (u.shared.states 0).status = .succeeded ∧ (u.shared.states 1).status = .cancelled ∧
      ∀ i < 2, (u.shared.states i).status ≠ .pending := by
  obtain ⟨u, hrun, hfirst, hsecond, hresumed, hreturned, hcreated, hidle⟩ :
      ∃ u, (machine exactDeadline).exec (start 0) stopInCallback = some u ∧
        (u.shared.states 0).status = .succeeded ∧ (u.shared.states 1).status = .cancelled ∧
        resumptions 0 u.shared = 1 ∧
        u.shared.stopReturned = true ∧ u.shared.nextTask = 2 ∧ u.idleBelow 2 = true :=
    ⟨_, rfl, by decide +kernel, by decide +kernel, by decide +kernel, by decide +kernel,
      by decide +kernel, by decide +kernel⟩
  have hbelow : (start 0).Below 2 := fun k hk => if_neg (by omega)
  have hnone := (Program.below_exec hbelow (by decide) hrun).idle_of_idleBelow hidle
  obtain ⟨honce, _, _, _, hsettled⟩ := delayed_tasks_settle hrun
  refine ⟨u, hrun, hresumed, (honce 1).2 hsecond, hfirst, hsecond, ?_⟩
  rw [← hcreated]
  exact hsettled hreturned fun a ha => absurd ha (hnone.not_pending a)

end EventLoopCoroutine

end Watchlist.Concurrency
