import Watchlist.Concurrency.EventLoopGenerator

/-!
What a section of `EventLoopGenerator` can do, once and for all: the facts about the loop
are case analyses over the ways below.
-/

namespace Watchlist.Concurrency

namespace EventLoopGenerator

open Transition

/-- The ways a section can come out. -/
inductive Does (k : ℕ) (s : EventLoopGenerator) (choice : LoopChoice) :
    LoopSection → EventLoopGenerator → List LoopSection → Prop
  | schedule {name : Bytes} {action : ℕ} :
      Does k s choice (.schedule name action) { s with queue := (s.queue.schedule name action).1 }
        (if (s.queue.schedule name action).2.status = .accepted then [.notifyOne] else [])
  | notifyOne : Does k s choice .notifyOne s.notify []
  | lockProducers (hfree : s.producersLocked = false) :
      Does k s choice .lockProducers { s with producersLocked := true } []
  | accept {p : ℕ} (hopen : s.queue.accepting = true) :
      Does k s choice (.admitSequence p) s [.startProducer p, .unlockProducers]
  | refuse {p : ℕ} (hclosed : s.queue.accepting = false) :
      Does k s choice (.admitSequence p)
        (s.setSequence p { s.sequences p with
          promise := (s.sequences p).promise ++ [⟨.cancelled, [], none⟩] })
        [.unlockProducers]
  | startProducer {p : ℕ} (hchoice : ∀ what, choice ≠ .throws what) :
      Does k s choice (.startProducer p) { s with producers := s.producers ++ [p] } []
  | startFails {p : ℕ} {what : Bytes} (hchoice : choice = .throws what) :
      Does k s choice (.startProducer p)
        (s.setSequence p { s.sequences p with
          promise := (s.sequences p).promise ++ [⟨.failed, [], some what⟩] })
        []
  | unlockProducers : Does k s choice .unlockProducers { s with producersLocked := false } []
  | generatorEnds {p : ℕ} (hchoice : choice = .proceed ∨ choice = .spurious) :
      Does k s choice (.nextEvent p) s (collecting p (s.sequences p).completions)
  | generatorThrows {p : ℕ} {what : Bytes} (hchoice : choice = .throws what) :
      Does k s choice (.nextEvent p)
        (s.setSequence p { s.sequences p with
          result := { (s.sequences p).result with
            status := .failed, producerException := some what } })
        (collecting p (s.sequences p).completions)
  | generatorYields {p : ℕ} {name : Bytes} {action : ℕ} (hchoice : choice = .yields name action) :
      Does k s choice (.nextEvent p) s [.checkStop p name action]
  | generatorCalls {p : ℕ} {call : LoopCall} {s' : EventLoopGenerator} {bs : List LoopSection}
      (hchoice : choice = .calls call) (hcall : call.isSubmission = true)
      (henter : s.enter k call = some (s', bs)) :
      Does k s choice (.nextEvent p) s' (bs ++ [.nextEvent p])
  | stopRequested {p : ℕ} {name : Bytes} {action : ℕ}
      (hstop : (s.sequences p).stopRequested = true) :
      Does k s choice (.checkStop p name action)
        (s.setSequence p { s.sequences p with
          result := { (s.sequences p).result with status := .cancelled } })
        (collecting p (s.sequences p).completions)
  | goesOn {p : ℕ} {name : Bytes} {action : ℕ}
      (hstop : (s.sequences p).stopRequested = false) :
      Does k s choice (.checkStop p name action) s [.scheduleNext p name action]
  | nextAccepted {p : ℕ} {name : Bytes} {action : ℕ}
      (haccepted : (s.queue.schedule name action).2.status = .accepted) :
      Does k s choice (.scheduleNext p name action)
        ({ s with queue := (s.queue.schedule name action).1 }.setSequence p
          { s.sequences p with
            completions := (s.sequences p).completions ++
              [(s.queue.schedule name action).2.completion] })
        [.notifyOne, .nextEvent p]
  | nextRefused {p : ℕ} {name : Bytes} {action : ℕ}
      (hrefused : (s.queue.schedule name action).2.status ≠ .accepted) :
      Does k s choice (.scheduleNext p name action)
        ({ s with queue := (s.queue.schedule name action).1 }.setSequence p
          { s.sequences p with
            completions := (s.sequences p).completions ++
              [(s.queue.schedule name action).2.completion]
            result := { (s.sequences p).result with status := .cancelled } })
        (collecting p ((s.sequences p).completions ++
          [(s.queue.schedule name action).2.completion]))
  | collect {p n : ℕ} {event : EventResult} {events : List EventResult}
      (hsettled : s.queue.promises n = event :: events) :
      Does k s choice (.collect p n)
        (s.setSequence p { s.sequences p with result := (s.sequences p).result.add event }) []
  | settleSequence {p : ℕ} :
      Does k s choice (.settleSequence p)
        (s.setSequence p { s.sequences p with
          promise := (s.sequences p).promise ++ [(s.sequences p).result]
          finished := true })
        []
  | lockShutdown (hfree : s.shutdownLocked = false) (hfirst : s.shutdownComplete = false) :
      Does k s choice .lockShutdown { s with shutdownLocked := true } shutdownStages
  | shutdownAgain (hfree : s.shutdownLocked = false) (hcomplete : s.shutdownComplete = true) :
      Does k s choice .lockShutdown s []
  | closeAdmission : Does k s choice .closeAdmission { s with queue := s.queue.close } []
  | notifyAll : Does k s choice .notifyAll s.notify []
  | requestStops : Does k s choice .requestStops s (s.producers.map .requestStop)
  | requestStop {p : ℕ} :
      Does k s choice (.requestStop p)
        (s.setSequence p { s.sequences p with stopRequested := true }) []
  | joinProducers : Does k s choice .joinProducers s (s.producers.map .joinProducer)
  | joinProducer {p : ℕ} (hfinished : (s.sequences p).finished = true) :
      Does k s choice (.joinProducer p) s []
  | clearProducers :
      Does k s choice .clearProducers { s with producers := [], producersLocked := false } []
  | joinWorker (hexited : s.exited = true) : Does k s choice .joinWorker s []
  | finishShutdown :
      Does k s choice .finishShutdown { s with shutdownComplete := true, shutdownLocked := false } []
  | sleep (hempty : s.queue.events = []) (hopen : s.queue.accepting = true) :
      Does k s choice .awaitEvents { s with sleep := .asleep } [.asleep]
  | runEnds (hempty : s.queue.events = []) (hclosed : s.queue.accepting = false) :
      Does k s choice .awaitEvents { s with exited := true } []
  | take {e : QueuedEvent} {events : List QueuedEvent} (hevents : s.queue.events = e :: events) :
      Does k s choice .awaitEvents { s with queue := { s.queue with events := events } } [.execute e]
  | wake (hwake : choice = .spurious ∨ s.sleep = .notified) :
      Does k s choice .asleep { s with sleep := .awake } [.awaitEvents]
  | execute {e : QueuedEvent} :
      Does k s choice (.execute e) { s with queue := s.queue.call e } [.inAction e]
  | actionReturns {e : QueuedEvent} (hchoice : ∀ what, choice ≠ .throws what) :
      Does k s choice (.inAction e) s [.complete e ⟨e.event.id, .executed, none⟩]
  | actionThrows {e : QueuedEvent} {what : Bytes} (hchoice : choice = .throws what) :
      Does k s choice (.inAction e) s [.complete e ⟨e.event.id, .failed, some what⟩]
  | actionCalls {e : QueuedEvent} {call : LoopCall} {s' : EventLoopGenerator}
      {bs : List LoopSection} (hchoice : choice = .calls call) (hcall : call.isSubmission = true)
      (henter : s.enter k call = some (s', bs)) :
      Does k s choice (.inAction e) s' (bs ++ [.inAction e])
  | complete {e : QueuedEvent} {result : EventResult} :
      Does k s choice (.complete e result)
        { s with queue := s.queue.setValue e.completion result } [.awaitEvents]

/-- A call that an action or a generator makes comes before what it goes on with. -/
theorem calls_of_map {k : ℕ} {s s' : EventLoopGenerator} {call : LoopCall} {a : LoopSection}
    {as : List LoopSection}
    (h : (if call.isSubmission = true then (s.enter k call).map fun r => (r.1, r.2 ++ [a])
      else none) = some (s', as)) :
    ∃ bs, as = bs ++ [a] ∧ call.isSubmission = true ∧ s.enter k call = some (s', bs) := by
  split at h
  · rename_i hcall
    obtain ⟨⟨s'', bs⟩, henter, heq⟩ := Option.map_eq_some_iff.mp h
    cases heq
    exact ⟨bs, rfl, hcall, henter⟩
  · cases h

theorem does_of_run {k : ℕ} {s s' : EventLoopGenerator} {a : LoopSection} {choice : LoopChoice}
    {as : List LoopSection} (h : s.runSection k a choice = some (s', as)) :
    Does k s choice a s' as := by
  cases a with
  | schedule name action =>
      cases h
      exact .schedule
  | notifyOne =>
      cases h
      exact .notifyOne
  | lockProducers =>
      simp only [runSection] at h
      split at h
      · cases h
      · rename_i hfree
        cases h
        exact .lockProducers (Bool.eq_false_of_not_eq_true hfree)
  | admitSequence p =>
      simp only [runSection] at h
      split at h
      · rename_i hopen
        cases h
        exact .accept hopen
      · rename_i hclosed
        cases h
        exact .refuse (Bool.eq_false_of_not_eq_true hclosed)
  | startProducer p =>
      cases choice with
      | throws what =>
          cases h
          exact .startFails rfl
      | proceed | spurious | yields name action | calls call =>
          cases h
          exact .startProducer (by rintro _ ⟨⟩)
  | unlockProducers =>
      cases h
      exact .unlockProducers
  | nextEvent p =>
      cases choice with
      | proceed =>
          cases h
          exact .generatorEnds (Or.inl rfl)
      | spurious =>
          cases h
          exact .generatorEnds (Or.inr rfl)
      | throws what =>
          cases h
          exact .generatorThrows rfl
      | yields name action =>
          cases h
          exact .generatorYields rfl
      | calls call =>
          obtain ⟨bs, rfl, hcall, henter⟩ := calls_of_map h
          exact .generatorCalls rfl hcall henter
  | checkStop p name action =>
      simp only [runSection] at h
      split at h
      · rename_i hstop
        cases h
        exact .stopRequested hstop
      · rename_i hstop
        cases h
        exact .goesOn (Bool.eq_false_of_not_eq_true hstop)
  | scheduleNext p name action =>
      simp only [runSection] at h
      split at h
      · rename_i haccepted
        cases h
        exact .nextAccepted haccepted
      · rename_i hrefused
        cases h
        exact .nextRefused hrefused
  | collect p n =>
      simp only [runSection] at h
      split at h
      · cases h
      · rename_i hsettled
        cases h
        exact .collect hsettled
  | settleSequence p =>
      cases h
      exact .settleSequence
  | lockShutdown =>
      simp only [runSection] at h
      split at h
      · cases h
      · rename_i hfree
        have hfree' := Bool.eq_false_of_not_eq_true hfree
        split at h
        · rename_i hcomplete
          cases h
          exact .shutdownAgain hfree' hcomplete
        · rename_i hfirst
          cases h
          exact .lockShutdown hfree' (Bool.eq_false_of_not_eq_true hfirst)
  | closeAdmission =>
      cases h
      exact .closeAdmission
  | notifyAll =>
      cases h
      exact .notifyAll
  | requestStops =>
      cases h
      exact .requestStops
  | requestStop p =>
      cases h
      exact .requestStop
  | joinProducers =>
      cases h
      exact .joinProducers
  | joinProducer p =>
      simp only [runSection] at h
      split at h
      · rename_i hfinished
        cases h
        exact .joinProducer hfinished
      · cases h
  | clearProducers =>
      cases h
      exact .clearProducers
  | joinWorker =>
      simp only [runSection] at h
      split at h
      · rename_i hexited
        cases h
        exact .joinWorker hexited
      · cases h
  | finishShutdown =>
      cases h
      exact .finishShutdown
  | awaitEvents =>
      simp only [runSection] at h
      split at h
      · rename_i hempty
        split at h
        · rename_i hopen
          cases h
          exact .sleep hempty hopen
        · rename_i hclosed
          cases h
          exact .runEnds hempty (Bool.eq_false_of_not_eq_true hclosed)
      · rename_i hevents
        cases h
        exact .take hevents
  | asleep =>
      simp only [runSection] at h
      split at h
      · cases h
        exact .wake (Or.inl rfl)
      · split at h
        · rename_i hnotified
          cases h
          exact .wake (Or.inr hnotified)
        · cases h
  | execute e =>
      cases h
      exact .execute
  | inAction e =>
      cases choice with
      | throws what =>
          cases h
          exact .actionThrows rfl
      | calls call =>
          obtain ⟨bs, rfl, hcall, henter⟩ := calls_of_map h
          exact .actionCalls rfl hcall henter
      | proceed | spurious | yields name action =>
          cases h
          exact .actionReturns (by rintro _ ⟨⟩)
  | complete e result =>
      cases h
      exact .complete

end EventLoopGenerator

end Watchlist.Concurrency
