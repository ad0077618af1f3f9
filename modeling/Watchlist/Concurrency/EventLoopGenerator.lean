import Watchlist.Library.Threads
import Watchlist.Concurrency.EventQueue

/-!
`EventLoopGenerator.hpp`: submitters, producers, the worker and shutdown over one
queue. A section is what a function does under one lock of `queue_mutex_`, one
notification, one call into an action or a generator, or one join;
`producers_mutex_` and `shutdown_mutex_` are held over several sections and are
fields of the state.

Thread 0 is the worker, which the constructor starts. A producer is started by
`process_event_sequence` and runs on some thread that was idle until then.
Actions and generators belong to the application: they return or throw, and may
submit events and sequences. Logging, allocating and moving do not throw.
-/

namespace Watchlist.Concurrency

open Transition

inductive SequenceStatus
  | completed
  | cancelled
  | failed
  deriving DecidableEq

structure SequenceResult where
  status : SequenceStatus
  events : List EventResult
  /-- what the generator has thrown -/
  producerException : Option Bytes

/-- A sequence handed to `process_event_sequence`, and its producer thread. -/
structure Sequence where
  started : Bool
  stopRequested : Bool
  /-- the thread function has returned -/
  finished : Bool
  /-- `event_completions` of `consume_sequence` -/
  completions : List ℕ
  /-- `result` of `consume_sequence` -/
  result : SequenceResult
  /-- the values that the promise of the sequence has been set to -/
  promise : List SequenceResult

def Sequence.new : Sequence := ⟨false, false, false, [], ⟨.completed, [], none⟩, []⟩

/-- Whether the worker sleeps on `queue_condition_`. -/
inductive WorkerSleep
  | awake
  | asleep
  | notified
  deriving DecidableEq

structure EventLoopGenerator where
  queue : EventQueue
  sleep : WorkerSleep
  /-- the worker has returned from `run` -/
  exited : Bool
  /-- `producers_mutex_` is locked -/
  producersLocked : Bool
  /-- `producers_`, by the numbers of their sequences -/
  producers : List ℕ
  sequences : ℕ → Sequence
  nextSequence : ℕ
  /-- `shutdown_mutex_` is locked -/
  shutdownLocked : Bool
  shutdownComplete : Bool

/-- A loop as its constructor leaves it, with the worker not yet running. -/
def EventLoopGenerator.initial (lastIssued : EventId) : EventLoopGenerator where
  queue := .initial lastIssued
  sleep := .awake
  exited := false
  producersLocked := false
  producers := []
  sequences := fun _ => .new
  nextSequence := 0
  shutdownLocked := false
  shutdownComplete := false

inductive LoopSection
  -- `schedule_event`
  | schedule (name : Bytes) (action : ℕ)
  | notifyOne
  -- `process_event_sequence`
  | lockProducers
  | admitSequence (sequence : ℕ)
  | startProducer (sequence : ℕ)
  | unlockProducers
  -- `consume_sequence`
  | nextEvent (sequence : ℕ)
  | checkStop (sequence : ℕ) (name : Bytes) (action : ℕ)
  | scheduleNext (sequence : ℕ) (name : Bytes) (action : ℕ)
  | collect (sequence completion : ℕ)
  | settleSequence (sequence : ℕ)
  -- `shutdown`
  | lockShutdown
  | closeAdmission
  | notifyAll
  | requestStops
  | requestStop (sequence : ℕ)
  | joinProducers
  | joinProducer (sequence : ℕ)
  | clearProducers
  | joinWorker
  | finishShutdown
  -- `run`
  | awaitEvents
  | asleep
  | execute (event : QueuedEvent)
  | inAction (event : QueuedEvent)
  | complete (event : QueuedEvent) (result : EventResult)
  deriving DecidableEq

inductive LoopCall
  | scheduleEvent (name : Bytes) (action : ℕ)
  | processEventSequence
  | shutdown
  /-- a thread that has been idle becomes the producer of a sequence -/
  | produce (sequence : ℕ)

/-- The functions that actions and generators may call on their own loop. -/
def LoopCall.isSubmission : LoopCall → Bool
  | .scheduleEvent .. | .processEventSequence => true
  | _ => false

/-- How a section that depends on its surroundings comes out. -/
inductive LoopChoice
  | proceed
  /-- the application or the system throws -/
  | throws (what : Bytes)
  /-- the generator yields another event -/
  | yields (name : Bytes) (action : ℕ)
  /-- the application calls the loop -/
  | calls (call : LoopCall)
  /-- the worker wakes without a notification -/
  | spurious

/-- The first part of `consume_sequence` is over: wait for the completions. -/
def collecting (sequence : ℕ) (completions : List ℕ) : List LoopSection :=
  completions.map (.collect sequence) ++ [.settleSequence sequence]

/-- `shutdown`, once it holds its mutex. -/
def shutdownStages : List LoopSection :=
  [.lockProducers, .closeAdmission, .notifyAll, .requestStops, .joinProducers, .clearProducers,
    .notifyAll, .joinWorker, .finishShutdown]

/-- The result of a sequence after one more of its events has settled. -/
def SequenceResult.add (result : SequenceResult) (event : EventResult) : SequenceResult :=
  { result with
    status :=
      if event.status = .failed then .failed
      else if event.status ≠ .executed ∧ result.status ≠ .failed then .cancelled
      else result.status
    events := result.events ++ [event] }

namespace EventLoopGenerator

def setSequence (s : EventLoopGenerator) (sequence : ℕ) (value : Sequence) : EventLoopGenerator :=
  { s with sequences := Function.update s.sequences sequence value }

/-- `queue_condition_.notify_one()` and `notify_all()`: only the worker waits on it. -/
def notify (s : EventLoopGenerator) : EventLoopGenerator :=
  if s.sleep = .asleep then { s with sleep := .notified } else s

/-- Entering a call; the worker enters none. -/
def enter (k : ℕ) (s : EventLoopGenerator) :
    LoopCall → Option (EventLoopGenerator × List LoopSection)
  | .scheduleEvent name action => some (s, [.schedule name action])
  | .processEventSequence =>
      some ({ s with nextSequence := s.nextSequence + 1 },
        [.lockProducers, .admitSequence s.nextSequence])
  | .shutdown => if k = 0 then none else some (s, [.lockShutdown])
  | .produce sequence =>
      if k ≠ 0 ∧ sequence ∈ s.producers ∧ (s.sequences sequence).started = false then
        some (s.setSequence sequence { s.sequences sequence with started := true },
          [.nextEvent sequence])
      else none

def runSection (k : ℕ) (s : EventLoopGenerator) :
    LoopSection → LoopChoice → Option (EventLoopGenerator × List LoopSection)
  -- `schedule_event`
  | .schedule name action, _ =>
      let answer := s.queue.schedule name action
      some ({ s with queue := answer.1 },
        if answer.2.status = .accepted then [.notifyOne] else [])
  | .notifyOne, _ => some (s.notify, [])
  -- `process_event_sequence`
  | .lockProducers, _ =>
      if s.producersLocked then none else some ({ s with producersLocked := true }, [])
  | .admitSequence sequence, _ =>
      if s.queue.accepting then some (s, [.startProducer sequence, .unlockProducers])
      else
        some (s.setSequence sequence { s.sequences sequence with
          promise := (s.sequences sequence).promise ++ [⟨.cancelled, [], none⟩] },
          [.unlockProducers])
  | .startProducer sequence, choice =>
      match choice with
      | .throws what =>
          some (s.setSequence sequence { s.sequences sequence with
            promise := (s.sequences sequence).promise ++ [⟨.failed, [], some what⟩] }, [])
      | _ => some ({ s with producers := s.producers ++ [sequence] }, [])
  | .unlockProducers, _ => some ({ s with producersLocked := false }, [])
  -- `consume_sequence`
  | .nextEvent sequence, choice =>
      let current := s.sequences sequence
      match choice with
      | .yields name action => some (s, [.checkStop sequence name action])
      | .throws what =>
          some (s.setSequence sequence { current with
            result := { current.result with status := .failed, producerException := some what } },
            collecting sequence current.completions)
      | .calls call =>
          if call.isSubmission then
            (s.enter k call).map fun r => (r.1, r.2 ++ [.nextEvent sequence])
          else none
      | _ => some (s, collecting sequence current.completions)
  | .checkStop sequence name action, _ =>
      let current := s.sequences sequence
      if current.stopRequested then
        some (s.setSequence sequence { current with
          result := { current.result with status := .cancelled } },
          collecting sequence current.completions)
      else some (s, [.scheduleNext sequence name action])
  | .scheduleNext sequence name action, _ =>
      let answer := s.queue.schedule name action
      let current := s.sequences sequence
      let completions := current.completions ++ [answer.2.completion]
      if answer.2.status = .accepted then
        some ({ s with queue := answer.1 }.setSequence sequence
          { current with completions := completions }, [.notifyOne, .nextEvent sequence])
      else
        some ({ s with queue := answer.1 }.setSequence sequence { current with
          completions := completions
          result := { current.result with status := .cancelled } },
          collecting sequence completions)
  | .collect sequence completion, _ =>
      let current := s.sequences sequence
      -- `get` waits until the promise is set
      match s.queue.promises completion with
      | [] => none
      | event :: _ =>
          some (s.setSequence sequence { current with result := current.result.add event }, [])
  | .settleSequence sequence, _ =>
      let current := s.sequences sequence
      some (s.setSequence sequence { current with
        promise := current.promise ++ [current.result]
        finished := true }, [])
  -- `shutdown`
  | .lockShutdown, _ =>
      if s.shutdownLocked then none
      else if s.shutdownComplete then some (s, [])
      else some ({ s with shutdownLocked := true }, shutdownStages)
  | .closeAdmission, _ => some ({ s with queue := s.queue.close }, [])
  | .notifyAll, _ => some (s.notify, [])
  | .requestStops, _ => some (s, s.producers.map .requestStop)
  | .requestStop sequence, _ =>
      some (s.setSequence sequence { s.sequences sequence with stopRequested := true }, [])
  | .joinProducers, _ => some (s, s.producers.map .joinProducer)
  | .joinProducer sequence, _ =>
      if (s.sequences sequence).finished then some (s, []) else none
  | .clearProducers, _ => some ({ s with producers := [], producersLocked := false }, [])
  | .joinWorker, _ => if s.exited then some (s, []) else none
  | .finishShutdown, _ => some ({ s with shutdownComplete := true, shutdownLocked := false }, [])
  -- `run`
  | .awaitEvents, _ =>
      match s.queue.events with
      | [] =>
          if s.queue.accepting then some ({ s with sleep := .asleep }, [.asleep])
          else some ({ s with exited := true }, [])
      | e :: rest => some ({ s with queue := { s.queue with events := rest } }, [.execute e])
  | .asleep, choice =>
      match choice with
      | .spurious => some ({ s with sleep := .awake }, [.awaitEvents])
      | _ => if s.sleep = .notified then some ({ s with sleep := .awake }, [.awaitEvents]) else none
  | .execute e, _ => some ({ s with queue := s.queue.call e }, [.inAction e])
  | .inAction e, choice =>
      match choice with
      | .throws what => some (s, [.complete e ⟨e.event.id, .failed, some what⟩])
      | .calls call =>
          if call.isSubmission then (s.enter k call).map fun r => (r.1, r.2 ++ [.inAction e])
          else none
      | _ => some (s, [.complete e ⟨e.event.id, .executed, none⟩])
  | .complete e result, _ =>
      some ({ s with queue := s.queue.setValue e.completion result }, [.awaitEvents])

/-- Thread 0 runs the worker only. -/
def program : Program EventLoopGenerator LoopSection LoopCall LoopChoice :=
  ⟨fun k s call => if k = 0 then none else s.enter k call, runSection⟩

def machine : Machine (Threads EventLoopGenerator LoopSection) (Threads.Label LoopCall LoopChoice) :=
  program.machine

/-- The loop with its worker started. -/
def start (lastIssued : EventId) : Threads EventLoopGenerator LoopSection :=
  ⟨initial lastIssued, fun k => if k = 0 then [.awaitEvents] else []⟩

end EventLoopGenerator

end Watchlist.Concurrency
