import Watchlist.Library.RecursiveMutex
import Watchlist.Concurrency.CoroutineTask

/-!
`AsyncEventLoop.hpp`: threads that schedule, wait for events, emit them and stop the
loop, and the worker that resumes tasks. A section is what a function does under one
lock of `mutex_`, one lock or unlock of `execution_gate_`, one settling of a task, or one
piece of a callback; `execution_gate_` is held over several sections.

With an owned thread the worker is thread 0, which the constructor starts; otherwise it
is the first thread to call `run_on_calling_thread`. Callbacks belong to the application:
they return or throw, and may call the loop. A task is known by the order of its creation
and stands for its coroutine frame as well. Logging, allocating and copying do not throw.

The worker may wake at any time, so that notifications add nothing to what can happen,
and the clock is moved by steps of its own. The deadline of a delay is a parameter of the
program. `process_events` and the generators it is given are left out.
-/

namespace Watchlist.Concurrency

open Transition

namespace AsyncEventLoop

inductive ExecutionMode
  | ownedThread
  | callingThread
  deriving DecidableEq

/-- `std::variant<int, double, std::string>`; a double is given by its bits. -/
inductive EventData
  | int (value : Int32)
  | double (bits : UInt64)
  | string (text : Bytes)
  deriving DecidableEq

structure Event where
  name : Bytes
  data : EventData
  deriving DecidableEq

/-- What `event_` of an `EventAwaiter` is before an event is written to it. -/
def Event.none : Event := ⟨[], .int 0⟩

structure EventWaiter where
  name : Bytes
  frame : ℕ
  deriving DecidableEq

/-- What happens to tasks, in the order in which it happens. -/
inductive Happening
  /-- `enqueue_ready` has accepted the task -/
  | queued (task : ℕ)
  /-- `enqueue_after` has accepted the task, with the clock it has read and the delay -/
  | delayed (task : DelayedTask) (now delay : ℤ)
  /-- `enqueue_event_wait` has accepted the task -/
  | registered (task : ℕ) (name : Bytes)
  /-- `emit_event` has made the tasks ready -/
  | emitted (event : Event) (released : List ℕ)
  /-- the worker has taken the task from `ready_tasks_` -/
  | takenReady (task : ℕ)
  /-- the worker has taken the task from `delayed_tasks_`, with the clock it has read -/
  | takenDelayed (task : DelayedTask) (now : ℤ)
  /-- the worker has resumed the task, which goes on with its callback or with an event -/
  | resumed (task : ℕ) (observed : Option Event)
  deriving DecidableEq

end AsyncEventLoop

structure AsyncEventLoop where
  executionMode : AsyncEventLoop.ExecutionMode
  accepting : Bool
  stopping : Bool
  runStarted : Bool
  ready : List ℕ
  delayed : DelayedTasks
  /-- `event_waiters_`, in the order of registration -/
  waiters : List AsyncEventLoop.EventWaiter
  nextSequence : ℕ
  /-- `execution_gate_` -/
  gate : RecursiveMutex
  /-- the steady clock -/
  now : ℤ
  states : ℕ → TaskState
  /-- `event_` in the frame of a task that waits for an event; other tasks run a callback -/
  awaited : ℕ → Option AsyncEventLoop.Event
  nextTask : ℕ
  /-- some call of `stop` has returned -/
  stopReturned : Bool
  history : List AsyncEventLoop.Happening

inductive AsyncSection
  -- `schedule`, `schedule_after` and `wait_for_event`
  | enqueueReady (task : ℕ)
  | enqueueAfter (task : ℕ) (delay : ℤ)
  | enqueueEventWait (task : ℕ) (name : Bytes)
  | reject (task : ℕ)
  -- `emit_event`
  | emit (event : AsyncEventLoop.Event)
  -- `stop`
  | lockGate
  | close
  | cancelAll (tasks : List ℕ)
  -- `run`
  | startRun
  | awaitWork
  | asleepUntil (deadline : ℤ)
  | lockBoundary (task : ℕ)
  | readStopping (task : ℕ)
  | cancelTaken (task : ℕ)
  | checkStatus (task : ℕ)
  | resume (task : ℕ)
  | inTask (task : ℕ)
  | unlockBoundary
  deriving DecidableEq

inductive AsyncCall
  | schedule
  | scheduleAfter (delay : ℤ)
  | waitForEvent (name : Bytes)
  | emitEvent (event : AsyncEventLoop.Event)
  | stop
  | runOnCallingThread
  /-- time passes -/
  | advanceClock (nanoseconds : ℕ)
  deriving DecidableEq

/-- How a section that depends on its surroundings comes out. -/
inductive AsyncChoice
  | proceed
  /-- the callback throws -/
  | throws (what : Bytes)
  /-- the callback calls the loop -/
  | calls (call : AsyncCall)
  /-- the wait of the worker times out -/
  | timesOut
  deriving DecidableEq

namespace AsyncEventLoop

/-- The loop that the constructor makes. -/
def initial (mode : ExecutionMode) (now : ℤ) : AsyncEventLoop where
  executionMode := mode
  accepting := true
  stopping := false
  runStarted := false
  ready := []
  delayed := .empty
  waiters := []
  nextSequence := 0
  gate := .free
  now := now
  states := fun _ => .new
  awaited := fun _ => none
  nextTask := 0
  stopReturned := false
  history := []

/-- A coroutine runs to its first suspension; `awaited` is what its frame holds. -/
def create (s : AsyncEventLoop) (awaited : Option Event) : AsyncEventLoop :=
  { s with
    states := Function.update s.states s.nextTask .new
    awaited := Function.update s.awaited s.nextTask awaited
    nextTask := s.nextTask + 1 }

def settle (s : AsyncEventLoop) (task : ℕ) (f : TaskState → TaskState) : AsyncEventLoop :=
  { s with states := Function.update s.states task (f (s.states task)) }

/-- The tasks that wait for events of the name. -/
def waitingFor (s : AsyncEventLoop) (name : Bytes) : List ℕ :=
  (s.waiters.filter (·.name = name)).map EventWaiter.frame

/-- What `stop` cancels: the delayed tasks as they are popped, the ready ones, and the
waiting ones by the names they wait for. -/
def cancelled (s : AsyncEventLoop) : List ℕ :=
  s.delayed.toList.map DelayedTask.frame ++ s.ready ++
    (s.waiters.insertionSort (fun w w' => w.name ≤ w'.name)).map EventWaiter.frame

def enter (s : AsyncEventLoop) : AsyncCall → AsyncEventLoop × List AsyncSection
  | .schedule => (s.create none, [.enqueueReady s.nextTask])
  | .scheduleAfter delay => (s.create none, [.enqueueAfter s.nextTask delay])
  | .waitForEvent name => (s.create (some .none), [.enqueueEventWait s.nextTask name])
  | .emitEvent event => (s, [.emit event])
  | .stop => (s, [.lockGate])
  | .runOnCallingThread => (s, if s.executionMode = .callingThread then [.startRun] else [])
  | .advanceClock nanoseconds => ({ s with now := s.now + nanoseconds }, [])

/-- The predicate of `wait_until`. -/
def wakes (s : AsyncEventLoop) (deadline : ℤ) : Bool :=
  s.stopping || !s.ready.isEmpty ||
    match s.delayed.top with
    | none => true
    | some d => decide (d.time < deadline)

def runSection (deadlineOf : ℤ → ℤ → ℤ) (k : ℕ) (s : AsyncEventLoop) :
    AsyncSection → AsyncChoice → Option (AsyncEventLoop × List AsyncSection)
  -- `schedule`, `schedule_after` and `wait_for_event`
  | .enqueueReady task, _ =>
      if s.accepting then
        some ({ s with ready := s.ready ++ [task], history := s.history ++ [.queued task] }, [])
      else some (s, [.reject task])
  | .enqueueAfter task delay, _ =>
      if s.accepting then
        let d : DelayedTask := ⟨deadlineOf s.now delay, s.nextSequence, task⟩
        some ({ s with
          delayed := s.delayed.push d
          nextSequence := s.nextSequence + 1
          history := s.history ++ [.delayed d s.now delay] }, [])
      else some (s, [.reject task])
  | .enqueueEventWait task name, _ =>
      if s.accepting then
        some ({ s with
          waiters := s.waiters ++ [⟨name, task⟩]
          history := s.history ++ [.registered task name] }, [])
      else some (s, [.reject task])
  | .reject task, _ => some (s.settle task .cancel, [])
  -- `emit_event`
  | .emit event, _ =>
      if s.accepting then
        some ({ s with
          waiters := s.waiters.filter (·.name ≠ event.name)
          awaited := fun i =>
            if i ∈ s.waitingFor event.name then some event else s.awaited i
          ready := s.ready ++ s.waitingFor event.name
          history := s.history ++ [.emitted event (s.waitingFor event.name)] }, [])
      else some (s, [])
  -- `stop`
  | .lockGate, _ => (s.gate.lock k).map fun gate => ({ s with gate := gate }, [.close])
  | .close, _ =>
      if s.accepting then
        some ({ s with
          accepting := false
          stopping := true
          ready := []
          delayed := .empty
          waiters := [] }, [.cancelAll s.cancelled])
      else some (s, [.cancelAll []])
  | .cancelAll [], _ => some ({ s with gate := s.gate.unlock, stopReturned := true }, [])
  | .cancelAll (task :: tasks), _ => some (s.settle task .cancel, [.cancelAll tasks])
  -- `run`
  | .startRun, _ =>
      if s.runStarted then some (s, []) else some ({ s with runStarted := true }, [.awaitWork])
  | .awaitWork, _ =>
      if s.stopping then some (s, [])
      else
        match s.ready.getLast? with
        | some task =>
            some ({ s with
              ready := s.ready.dropLast
              history := s.history ++ [.takenReady task] }, [.lockBoundary task])
        | none =>
            -- with nothing to do the worker waits
            match s.delayed.top with
            | some d => some (s, [.asleepUntil d.time])
            | none => none
  | .asleepUntil deadline, choice =>
      if s.wakes deadline then some (s, [.awaitWork])
      else
        match choice, s.delayed.top with
        | .timesOut, some d =>
            if d.time ≤ s.now then
              some ({ s with
                delayed := s.delayed.pop
                history := s.history ++ [.takenDelayed d s.now] }, [.lockBoundary d.frame])
            else some (s, [.awaitWork])
        | _, _ => none
  | .lockBoundary task, _ =>
      (s.gate.lock k).map fun gate => ({ s with gate := gate }, [.readStopping task])
  | .readStopping task, _ =>
      some (s, [if s.stopping then .cancelTaken task else .checkStatus task])
  | .cancelTaken task, _ => some (s.settle task .cancel, [.unlockBoundary])
  | .checkStatus task, _ =>
      some (s, [if (s.states task).status = .pending then .resume task else .unlockBoundary])
  | .resume task, _ =>
      some ({ s with history := s.history ++ [.resumed task (s.awaited task)] }, [.inTask task])
  | .inTask task, choice =>
      match choice with
      | .throws what => some (s.settle task (.fail what), [.unlockBoundary])
      | .calls call =>
          -- only a callback calls anything
          if s.awaited task = none then some ((s.enter call).1, (s.enter call).2 ++ [.inTask task])
          else none
      | _ => some (s.settle task .succeed, [.unlockBoundary])
  | .unlockBoundary, _ => some ({ s with gate := s.gate.unlock }, [.awaitWork])

/-- A loop whose deadlines are computed by `deadlineOf`. Its own thread runs the worker only. -/
def program (deadlineOf : ℤ → ℤ → ℤ) : Program AsyncEventLoop AsyncSection AsyncCall AsyncChoice :=
  ⟨fun k s call => if k = 0 ∧ s.executionMode = .ownedThread then none else some (s.enter call),
    runSection deadlineOf⟩

def machine (deadlineOf : ℤ → ℤ → ℤ) :
    Machine (Threads AsyncEventLoop AsyncSection) (Threads.Label AsyncCall AsyncChoice) :=
  (program deadlineOf).machine

/-- The loop with its own thread, if it has one, about to start. -/
def start (mode : ExecutionMode) (now : ℤ) : Threads AsyncEventLoop AsyncSection :=
  ⟨initial mode now, fun k => if k = 0 ∧ mode = .ownedThread then [.startRun] else []⟩

end AsyncEventLoop

end Watchlist.Concurrency
