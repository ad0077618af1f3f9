import Watchlist.Concurrency.Submissions

/-!
Where the threads of `EventLoopGenerator` are. Each thread is in one of a few
positions: somewhere in a submission, in the body of a producer, at a stage of
`shutdown`, or in `run`. From the positions it can be read off who holds a mutex,
which thread a join waits for, and that the worker does not sleep through a
shutdown.
-/

namespace Watchlist.Concurrency

open Transition

/-! ### What never goes back -/

/-- What a step never takes back from the queue. -/
structure EventQueue.Later (q q' : EventQueue) : Prop where
  closed : q.accepting = false → q'.accepting = false
  promises : ∀ n, q'.promises n = [] → q.promises n = []
  submitted : q.submitted.length ≤ q'.submitted.length

namespace EventQueue

variable {q : EventQueue}

theorem Later.refl (q : EventQueue) : q.Later q := ⟨id, fun _ => id, le_refl _⟩

theorem later_setValue (q : EventQueue) (completion : ℕ) (result : EventResult) :
    q.Later (q.setValue completion result) where
  closed := id
  promises := by
    intro n hn
    by_cases hne : n = completion
    · subst hne
      simp only [setValue, Function.update_self] at hn
      exact (List.append_eq_nil_iff.mp hn).1
    · rwa [promises_setValue_of_ne hne] at hn
  submitted := le_refl _

theorem later_refuse (q : EventQueue) (name : Bytes) (action : ℕ) (answer : SubmissionStatus)
    (status : EventStatus) : q.Later (q.refuse name action answer status).1 where
  closed := id
  promises := (later_setValue q q.submitted.length ⟨0, status, none⟩).promises
  submitted := by simp [refuse]

theorem later_schedule (q : EventQueue) (name : Bytes) (action : ℕ) :
    q.Later (q.schedule name action).1 := by
  unfold schedule
  split
  · exact later_refuse ..
  · split
    · exact later_refuse ..
    · exact ⟨id, fun _ => id, by simp⟩

@[simp] theorem accepting_schedule (q : EventQueue) (name : Bytes) (action : ℕ) :
    (q.schedule name action).1.accepting = q.accepting := by
  unfold schedule
  split
  · rfl
  · split <;> rfl

/-- The completion of a submission is a new one, and a refused one is settled. -/
theorem completion_schedule (q : EventQueue) (name : Bytes) (action : ℕ) :
    (q.schedule name action).2.completion < (q.schedule name action).1.submitted.length ∧
    ((q.schedule name action).1.promises (q.schedule name action).2.completion = [] →
      (q.schedule name action).2.status = .accepted) := by
  unfold schedule
  split
  · exact ⟨by simp [refuse], by simp [refuse, setValue]⟩
  · split
    · exact ⟨by simp [refuse], by simp [refuse, setValue]⟩
    · exact ⟨by simp, fun _ => rfl⟩

end EventQueue

/-- What a step never takes back from a sequence. -/
structure Sequence.Later (old new : Sequence) : Prop where
  completions : ∀ n ∈ old.completions, n ∈ new.completions
  started : new.started = old.started
  finished : old.finished = true → new.finished = true

theorem Sequence.Later.refl (q : Sequence) : q.Later q := ⟨fun _ => id, rfl, id⟩

namespace EventLoopGenerator

variable {s s' : EventLoopGenerator} {as rest : List LoopSection} {k : ℕ} {a : LoopSection}
  {choice : LoopChoice}

structure Later (s s' : EventLoopGenerator) : Prop where
  sequences : ∀ p, (s.sequences p).Later (s'.sequences p)
  queue : s.queue.Later s'.queue

theorem Later.of_queue (hsequences : s'.sequences = s.sequences) (hqueue : s.queue.Later s'.queue) :
    Later s s' :=
  ⟨fun p => by rw [hsequences]; exact .refl _, hqueue⟩

theorem Later.of_same (hsequences : s'.sequences = s.sequences) (hqueue : s'.queue = s.queue) :
    Later s s' := .of_queue hsequences (hqueue ▸ .refl _)

@[simp] theorem sequences_setSequence (s : EventLoopGenerator) (p p' : ℕ) (value : Sequence) :
    (s.setSequence p value).sequences p' = if p' = p then value else s.sequences p' :=
  Function.update_apply ..

/-- Of the sequences only one changes, and nothing of it is taken back. -/
theorem Later.setSequence {q : EventQueue} {p : ℕ} {value : Sequence} (hqueue : s.queue.Later q)
    (hvalue : (s.sequences p).Later value) :
    Later s ({ s with queue := q }.setSequence p value) where
  sequences := by
    intro p'
    rw [sequences_setSequence]
    split
    · rename_i hp
      exact hp ▸ hvalue
    · exact .refl _
  queue := hqueue

@[simp] theorem sequences_notify (s : EventLoopGenerator) : s.notify.sequences = s.sequences := by
  unfold notify
  split <;> rfl

theorem later_notify (s : EventLoopGenerator) : Later s s.notify :=
  .of_same (sequences_notify s) (queue_notify s)

/-- A submission that an action or a generator enters takes a number at most. -/
theorem enter_submission {call : LoopCall} (hcall : call.isSubmission = true)
    (h : s.enter k call = some (s', as)) :
    s' = { s with nextSequence := s'.nextSequence } ∧
      ((∃ name action, as = [.schedule name action]) ∨
        call = .processEventSequence ∧ as = [.lockProducers, .admitSequence s.nextSequence]) := by
  cases call with
  | scheduleEvent name action =>
      cases h
      exact ⟨rfl, Or.inl ⟨name, action, rfl⟩⟩
  | processEventSequence =>
      cases h
      exact ⟨rfl, Or.inr ⟨rfl, rfl⟩⟩
  | shutdown | produce p => cases hcall

theorem later_runSection (h : s.runSection k a choice = some (s', as)) : Later s s' := by
  cases does_of_run h with
  | schedule => exact .of_queue rfl (EventQueue.later_schedule ..)
  | notifyOne | notifyAll => exact later_notify s
  | nextAccepted | nextRefused =>
      exact .setSequence (EventQueue.later_schedule ..)
        ⟨fun n hn => List.mem_append_left _ hn, rfl, id⟩
  | refuse | startFails | generatorThrows | stopRequested | collect | requestStop =>
      exact .setSequence (.refl _) ⟨fun _ => id, rfl, id⟩
  | settleSequence => exact .setSequence (.refl _) ⟨fun _ => id, rfl, fun _ => rfl⟩
  | generatorCalls _ hcall henter | actionCalls _ hcall henter =>
      rw [(enter_submission hcall henter).1]
      exact .of_same rfl rfl
  | closeAdmission => exact .of_queue rfl ⟨fun _ => rfl, fun _ => id, le_refl _⟩
  | take | execute => exact .of_queue rfl ⟨id, fun _ => id, le_refl _⟩
  | complete => exact .of_queue rfl (EventQueue.later_setValue ..)
  | _ => exact .of_same rfl rfl

/-! ### Positions -/

/-- Somewhere in `schedule_event` or `process_event_sequence`. -/
inductive Submission : List LoopSection → Prop
  | returned : Submission []
  | scheduling (name : Bytes) (action : ℕ) : Submission [.schedule name action]
  | notifying : Submission [.notifyOne]
  | locking (p : ℕ) : Submission [.lockProducers, .admitSequence p]
  | admitting (p : ℕ) : Submission [.admitSequence p]
  | starting (p : ℕ) : Submission [.startProducer p, .unlockProducers]
  | unlocking : Submission [.unlockProducers]

/-- The stages of `shutdown` after the joins. -/
def afterJoins : List LoopSection := [.clearProducers, .notifyAll, .joinWorker, .finishShutdown]

/-- The stages of a shutdown that does something. -/
inductive Stage (s : EventLoopGenerator) : List LoopSection → Prop
  | locking : Stage s (.lockProducers :: .closeAdmission :: .notifyAll :: .requestStops ::
      .joinProducers :: afterJoins)
  | closing : Stage s (.closeAdmission :: .notifyAll :: .requestStops :: .joinProducers :: afterJoins)
  | notifying (hclosed : s.queue.accepting = false) :
      Stage s (.notifyAll :: .requestStops :: .joinProducers :: afterJoins)
  | stopping (hclosed : s.queue.accepting = false) :
      Stage s (.requestStops :: .joinProducers :: afterJoins)
  | requesting {l : List LoopSection} (hclosed : s.queue.accepting = false) (ps : List ℕ)
      (hl : l = ps.map .requestStop ++ .joinProducers :: afterJoins) : Stage s l
  | joining {l : List LoopSection} (hclosed : s.queue.accepting = false) (ps : List ℕ)
      (hps : ∀ p ∈ ps, p ∈ s.producers) (hl : l = ps.map .joinProducer ++ afterJoins) : Stage s l
  | cleared (hclosed : s.queue.accepting = false) :
      Stage s [.notifyAll, .joinWorker, .finishShutdown]
  | waiting (hclosed : s.queue.accepting = false) : Stage s [.joinWorker, .finishShutdown]
  | finishing (hclosed : s.queue.accepting = false) : Stage s [.finishShutdown]

/-- Where a thread other than the worker is. -/
inductive ThreadAt (s : EventLoopGenerator) : List LoopSection → Prop
  | submitting {l : List LoopSection} (h : Submission l) : ThreadAt s l
  | generating {l sub : List LoopSection} (p : ℕ) (h : Submission sub)
      (hl : l = sub ++ [.nextEvent p]) : ThreadAt s l
  | checking (p : ℕ) (name : Bytes) (action : ℕ) : ThreadAt s [.checkStop p name action]
  | scheduling (p : ℕ) (name : Bytes) (action : ℕ) : ThreadAt s [.scheduleNext p name action]
  | collecting {l : List LoopSection} (p : ℕ) (ns : List ℕ)
      (hns : ∀ n ∈ ns, n ∈ (s.sequences p).completions) (hl : l = collecting p ns) : ThreadAt s l
  | entering : ThreadAt s [.lockShutdown]
  | stage {l : List LoopSection} (h : Stage s l) : ThreadAt s l

/-- Where the worker is. -/
inductive WorkerAt : List LoopSection → Prop
  | awaiting : WorkerAt [.awaitEvents]
  | asleep : WorkerAt [.asleep]
  | executing (e : QueuedEvent) : WorkerAt [.execute e]
  | acting {l sub : List LoopSection} (e : QueuedEvent) (h : Submission sub)
      (hl : l = sub ++ [.inAction e]) : WorkerAt l
  | completing (e : QueuedEvent) (result : EventResult) : WorkerAt [.complete e result]
  | returned : WorkerAt []

theorem submission_enter {call : LoopCall} (hcall : call.isSubmission = true)
    (h : s.enter k call = some (s', as)) : Submission as := by
  rcases (enter_submission hcall h).2 with ⟨name, action, rfl⟩ | ⟨-, rfl⟩
  · exact .scheduling name action
  · exact .locking _

theorem Submission.step (h : Submission (a :: rest))
    (hrun : s.runSection k a choice = some (s', as)) : Submission (as ++ rest) := by
  have hdoes := does_of_run hrun
  cases h with
  | scheduling name action =>
      cases hdoes
      split
      · exact .notifying
      · exact .returned
  | notifying | unlocking =>
      cases hdoes
      exact .returned
  | locking p =>
      cases hdoes
      exact .admitting p
  | admitting p =>
      cases hdoes with
      | accept => exact .starting p
      | refuse => exact .unlocking
  | starting p => cases hdoes <;> exact .unlocking

theorem Stage.step (h : Stage s (a :: rest)) (hrun : s.runSection k a choice = some (s', as)) :
    ThreadAt s' (as ++ rest) := by
  have hlater := later_runSection hrun
  have hdoes := does_of_run hrun
  cases h with
  | locking =>
      cases hdoes
      exact .stage .closing
  | closing =>
      cases hdoes
      exact .stage (.notifying rfl)
  | notifying hclosed =>
      cases hdoes
      exact .stage (.stopping (hlater.queue.closed hclosed))
  | stopping hclosed =>
      cases hdoes
      exact .stage (.requesting hclosed s.producers rfl)
  | requesting hclosed ps hl =>
      cases ps with
      | nil =>
          cases hl
          cases hdoes
          exact .stage (.joining hclosed s.producers (fun _ => id) rfl)
      | cons p ps =>
          cases hl
          cases hdoes
          exact .stage (.requesting hclosed ps rfl)
  | joining hclosed ps hps hl =>
      cases ps with
      | nil =>
          cases hl
          cases hdoes
          exact .stage (.cleared hclosed)
      | cons p ps =>
          cases hl
          cases hdoes
          exact .stage (.joining hclosed ps (fun p' hp' => hps p' (List.mem_cons_of_mem _ hp')) rfl)
  | cleared hclosed =>
      cases hdoes
      exact .stage (.waiting (hlater.queue.closed hclosed))
  | waiting hclosed =>
      cases hdoes
      exact .stage (.finishing hclosed)
  | finishing hclosed =>
      cases hdoes
      exact .submitting .returned

theorem ThreadAt.step (h : ThreadAt s (a :: rest))
    (hrun : s.runSection k a choice = some (s', as)) : ThreadAt s' (as ++ rest) := by
  have hdoes := does_of_run hrun
  cases h with
  | submitting h => exact .submitting (h.step hrun)
  | stage h => exact h.step hrun
  | @generating _ sub p h hl =>
      cases sub with
      | cons b sub =>
          cases hl
          exact .generating p (h.step hrun) (List.append_assoc ..).symm
      | nil =>
          cases hl
          cases hdoes with
          | generatorEnds | generatorThrows =>
              refine .collecting p (s.sequences p).completions (fun n hn => ?_) (List.append_nil _)
              simpa [sequences_setSequence] using hn
          | generatorYields => exact .checking p _ _
          | generatorCalls _ hcall henter =>
              exact .generating p (submission_enter hcall henter) (List.append_nil _)
  | checking p name action =>
      cases hdoes with
      | stopRequested =>
          refine .collecting p (s.sequences p).completions (fun n hn => ?_) (List.append_nil _)
          simpa [sequences_setSequence] using hn
      | goesOn => exact .scheduling p name action
  | scheduling p name action =>
      cases hdoes with
      | nextAccepted => exact .generating p .notifying rfl
      | nextRefused =>
          refine .collecting p _ (fun n hn => ?_) (List.append_nil _)
          rw [sequences_setSequence, if_pos rfl]
          exact hn
  | collecting p ns hns hl =>
      have hlater := later_runSection hrun
      cases ns with
      | nil =>
          cases hl
          cases hdoes
          exact .submitting .returned
      | cons n ns =>
          cases hl
          cases hdoes
          exact .collecting p ns (fun m hm =>
            (hlater.sequences p).completions m (hns m (List.mem_cons_of_mem _ hm))) rfl
  | entering =>
      cases hdoes with
      | shutdownAgain => exact .submitting .returned
      | lockShutdown => exact .stage .locking

/-- The worker's list runs out when it leaves `run`, and it sleeps once it has marked
itself asleep. -/
theorem WorkerAt.step (h : WorkerAt (a :: rest)) (hrun : s.runSection k a choice = some (s', as)) :
    WorkerAt (as ++ rest) ∧ (as ++ rest = [] → s'.exited = true) ∧
      (as ++ rest = [.asleep] → s'.sleep = .asleep) := by
  have hacting : ∀ {e : QueuedEvent} {l : List LoopSection}, l ++ [.inAction e] ≠ [.asleep] := by
    intro e l hl
    have hlast := congrArg List.getLast? hl
    simp at hlast
  have hdoes := does_of_run hrun
  cases h with
  | awaiting =>
      cases hdoes with
      | sleep => exact ⟨.asleep, by rintro ⟨⟩, fun _ => rfl⟩
      | runEnds => exact ⟨.returned, fun _ => rfl, by rintro ⟨⟩⟩
      | take => exact ⟨.executing _, by rintro ⟨⟩, by rintro ⟨⟩⟩
  | asleep =>
      cases hdoes
      exact ⟨.awaiting, by rintro ⟨⟩, by rintro ⟨⟩⟩
  | executing e =>
      cases hdoes
      exact ⟨.acting e .returned rfl, by rintro ⟨⟩, by rintro ⟨⟩⟩
  | @acting _ sub e h hl =>
      cases sub with
      | cons b sub =>
          cases hl
          have hassoc : as ++ (sub ++ [.inAction e]) = (as ++ sub) ++ [.inAction e] :=
            (List.append_assoc ..).symm
          refine ⟨.acting e (h.step hrun) hassoc, by simp, fun hl => ?_⟩
          exact absurd (hassoc.symm.trans hl) hacting
      | nil =>
          cases hl
          cases hdoes with
          | actionReturns | actionThrows =>
              exact ⟨.completing e _, by rintro ⟨⟩, by rintro ⟨⟩⟩
          | actionCalls _ hcall henter =>
              rw [List.append_nil]
              exact ⟨.acting e (submission_enter hcall henter) rfl, by simp,
                fun hl => absurd hl hacting⟩
  | completing e result =>
      cases hdoes
      exact ⟨.awaiting, by rintro ⟨⟩, by rintro ⟨⟩⟩

/-! ### What single sections change -/

end EventLoopGenerator

/-- The last section of `shutdown`: the thread still holds `shutdown_mutex_`. -/
def LoopSection.isFinish : LoopSection → Bool
  | .finishShutdown => true
  | _ => false

/-- The sections of `process_event_sequence` under `producers_mutex_`. -/
def LoopSection.admits : LoopSection → Bool
  | .admitSequence _ | .startProducer _ | .unlockProducers => true
  | _ => false

/-- A section that the producer of the sequence cannot return without. -/
def LoopSection.produces (p : ℕ) : LoopSection → Prop
  | .nextEvent q | .checkStop q .. | .scheduleNext q .. | .settleSequence q => q = p
  | _ => False

/-- The sections that leave mutexes, admission and the worker's sleep alone. -/
def LoopSection.framed : LoopSection → Bool
  | .notifyOne | .lockProducers | .startProducer _ | .unlockProducers | .lockShutdown
  | .closeAdmission | .notifyAll | .clearProducers | .finishShutdown | .awaitEvents | .asleep =>
      false
  | _ => true

namespace EventLoopGenerator

variable {s s' : EventLoopGenerator} {as rest : List LoopSection} {k : ℕ} {a : LoopSection}
  {choice : LoopChoice}

structure Frame (s s' : EventLoopGenerator) : Prop where
  producers : s'.producers = s.producers
  producersLocked : s'.producersLocked = s.producersLocked
  shutdownLocked : s'.shutdownLocked = s.shutdownLocked
  sleep : s'.sleep = s.sleep
  accepting : s'.queue.accepting = s.queue.accepting

theorem Frame.refl (s : EventLoopGenerator) : Frame s s := ⟨rfl, rfl, rfl, rfl, rfl⟩

theorem frame_enter {call : LoopCall} (h : s.enter k call = some (s', as)) :
    Frame s s' ∧ ∀ b ∈ as, b.isFinish = false := by
  cases call with
  | scheduleEvent name action | processEventSequence =>
      cases h
      exact ⟨⟨rfl, rfl, rfl, rfl, rfl⟩, by simp [LoopSection.isFinish]⟩
  | shutdown | produce p =>
      simp only [enter] at h
      split at h <;> cases h
      exact ⟨⟨rfl, rfl, rfl, rfl, rfl⟩, by simp [LoopSection.isFinish]⟩

theorem frame_runSection (ha : a.framed = true) (h : s.runSection k a choice = some (s', as)) :
    Frame s s' := by
  cases does_of_run h with
  | notifyOne | lockProducers | startProducer | startFails | unlockProducers | lockShutdown
  | shutdownAgain | closeAdmission | notifyAll | clearProducers | finishShutdown | sleep | runEnds
  | take | wake => cases ha
  | schedule | nextAccepted | nextRefused =>
      exact ⟨rfl, rfl, rfl, rfl, EventQueue.accepting_schedule ..⟩
  | generatorCalls _ _ henter | actionCalls _ _ henter => exact (frame_enter henter).1
  | _ => exact ⟨rfl, rfl, rfl, rfl, rfl⟩

/-- Only a shutdown that holds its mutex gets to the end of `shutdown`. -/
theorem isFinish_runSection (ha : a ≠ .lockShutdown)
    (h : s.runSection k a choice = some (s', as)) : ∀ b ∈ as, b.isFinish = false := by
  have hcollecting : ∀ p ns, ∀ b ∈ collecting p ns, b.isFinish = false := by
    intro p ns b hb
    rcases List.mem_append.mp hb with hb | hb
    · obtain ⟨n, -, rfl⟩ := List.mem_map.mp hb
      rfl
    · obtain rfl := List.mem_singleton.mp hb
      rfl
  cases does_of_run h with
  | lockShutdown | shutdownAgain => exact absurd rfl ha
  | schedule => split <;> simp [LoopSection.isFinish]
  | generatorEnds | generatorThrows | stopRequested | nextRefused => exact hcollecting _ _
  | generatorCalls _ _ henter | actionCalls _ _ henter =>
      exact List.forall_mem_append.mpr ⟨(frame_enter henter).2, by simp [LoopSection.isFinish]⟩
  | _ => simp [LoopSection.isFinish]

/-- Producers leave the vector in `shutdown` only. -/
theorem producers_runSection (ha : a ≠ .clearProducers)
    (h : s.runSection k a choice = some (s', as)) : ∀ p ∈ s.producers, p ∈ s'.producers := by
  by_cases hframed : a.framed = true
  · rw [(frame_runSection hframed h).producers]
    exact fun _ => id
  · cases does_of_run h with
    | clearProducers => exact absurd rfl ha
    | notifyOne | notifyAll =>
        simp only [notify]
        split <;> exact fun _ => id
    | startProducer => exact fun _ hp => List.mem_append_left _ hp
    | lockProducers | startFails | unlockProducers | lockShutdown | shutdownAgain | closeAdmission
    | finishShutdown | sleep | runEnds | take | wake => exact fun _ => id
    | _ => exact absurd rfl hframed

/-- `shutdown_mutex_` is taken and given back by `shutdown` only. -/
theorem shutdownLocked_runSection (ha : a ≠ .lockShutdown) (ha' : a ≠ .finishShutdown)
    (h : s.runSection k a choice = some (s', as)) : s'.shutdownLocked = s.shutdownLocked := by
  by_cases hframed : a.framed = true
  · exact (frame_runSection hframed h).shutdownLocked
  · cases does_of_run h with
    | lockShutdown | shutdownAgain => exact absurd rfl ha
    | finishShutdown => exact absurd rfl ha'
    | notifyOne | notifyAll =>
        simp only [notify]
        split <;> rfl
    | lockProducers | startProducer | startFails | unlockProducers | closeAdmission
    | clearProducers | sleep | runEnds | take | wake => rfl
    | _ => exact absurd rfl hframed

/-- `producers_mutex_` is held after a section that takes it, or held throughout one
that does not give it back. -/
theorem producersLocked_runSection (h : s.runSection k a choice = some (s', as))
    (hlocked : s'.producersLocked = true) :
    a = .lockProducers ∨ s.producersLocked = true ∧ a ≠ .unlockProducers ∧ a ≠ .clearProducers := by
  by_cases hframed : a.framed = true
  · rw [(frame_runSection hframed h).producersLocked] at hlocked
    refine Or.inr ⟨hlocked, ?_, ?_⟩ <;> rintro rfl <;> cases hframed
  · cases does_of_run h with
    | lockProducers => exact Or.inl rfl
    | notifyOne | notifyAll =>
        refine Or.inr ⟨?_, by simp, by simp⟩
        simp only [notify] at hlocked
        split at hlocked <;> exact hlocked
    | unlockProducers | clearProducers => cases hlocked
    | startProducer | startFails | lockShutdown | shutdownAgain | closeAdmission | finishShutdown
    | sleep | runEnds | take | wake => exact Or.inr ⟨hlocked, by simp, by simp⟩
    | _ => exact absurd rfl hframed

/-- The worker falls asleep while the queue is open, and wakes up by notifications. -/
theorem sleep_runSection (h : s.runSection k a choice = some (s', as))
    (hsleep : s'.sleep = .asleep) :
    s'.queue.accepting = true ∨ s.sleep = .asleep ∧ a ≠ .notifyAll ∧
      (s'.queue.accepting = s.queue.accepting ∨ a = .closeAdmission) := by
  by_cases hframed : a.framed = true
  · have hframe := frame_runSection hframed h
    refine Or.inr ⟨hframe.sleep ▸ hsleep, ?_, Or.inl hframe.accepting⟩
    rintro rfl
    cases hframed
  · cases does_of_run h with
    | notifyOne | notifyAll =>
        simp only [notify] at hsleep
        split at hsleep
        · cases hsleep
        · exact absurd hsleep ‹_›
    | closeAdmission => exact Or.inr ⟨hsleep, by simp, Or.inr rfl⟩
    | sleep hempty hopen => exact Or.inl hopen
    | wake => cases hsleep
    | lockProducers | startProducer | startFails | unlockProducers | lockShutdown | shutdownAgain
    | clearProducers | finishShutdown | runEnds | take =>
        exact Or.inr ⟨hsleep, by simp, Or.inl rfl⟩
    | _ => exact absurd rfl hframed

/-- The worker alone ends its sleep. -/
theorem awake_runSection (ha : a ≠ .asleep) (h : s.runSection k a choice = some (s', as))
    (hsleep : s'.sleep = .awake) : s.sleep = .awake := by
  by_cases hframed : a.framed = true
  · exact (frame_runSection hframed h).sleep ▸ hsleep
  · cases does_of_run h with
    | wake => exact absurd rfl ha
    | sleep => cases hsleep
    | notifyOne | notifyAll =>
        simp only [notify] at hsleep
        split at hsleep
        · cases hsleep
        · exact hsleep
    | lockProducers | startProducer | startFails | unlockProducers | lockShutdown | shutdownAgain
    | closeAdmission | clearProducers | finishShutdown | runEnds | take => exact hsleep
    | _ => exact absurd rfl hframed

/-- A producer goes on until it has settled its sequence. -/
theorem produces_runSection {p : ℕ} (ha : a.produces p)
    (h : s.runSection k a choice = some (s', as)) :
    (∃ b ∈ as, b.produces p) ∨ (s'.sequences p).finished = true := by
  have hcollecting : ∀ ns, ∃ b ∈ collecting p ns, b.produces p :=
    fun ns => ⟨.settleSequence p, List.mem_append_right _ (List.mem_singleton_self _), rfl⟩
  cases does_of_run h with
  | generatorEnds | generatorThrows | stopRequested | nextRefused =>
      obtain rfl := ha
      exact Or.inl (hcollecting _)
  | generatorYields | goesOn =>
      obtain rfl := ha
      exact Or.inl ⟨_, List.mem_singleton_self _, rfl⟩
  | @generatorCalls q =>
      obtain rfl : q = p := ha
      exact Or.inl ⟨.nextEvent q, List.mem_append_right _ (List.mem_singleton_self _), rfl⟩
  | @nextAccepted q =>
      obtain rfl : q = p := ha
      exact Or.inl ⟨.nextEvent q, by simp, rfl⟩
  | settleSequence =>
      obtain rfl := ha
      refine Or.inr ?_
      rw [sequences_setSequence, if_pos rfl]
  | _ => exact absurd ha id

/-- A sequence gets a completion from `schedule_event` only. -/
theorem completions_runSection {p n : ℕ} (h : s.runSection k a choice = some (s', as))
    (hn : n ∈ (s'.sequences p).completions) :
    n ∈ (s.sequences p).completions ∨
    ∃ name action, a = .scheduleNext p name action ∧ n < s'.queue.submitted.length ∧
      (s'.queue.promises n = [] → (s.queue.schedule name action).2.status = .accepted) := by
  have hsame : ∀ {q : EventQueue} {p' : ℕ} {value : Sequence},
      s' = { s with queue := q }.setSequence p' value →
      value.completions = (s.sequences p').completions → n ∈ (s.sequences p).completions := by
    intro q p' value hs hvalue
    rw [hs, sequences_setSequence] at hn
    split at hn
    · rename_i hp
      rw [hp]
      exact hvalue ▸ hn
    · exact hn
  have hscheduled : ∀ {q : ℕ} {name : Bytes} {action : ℕ} {value : Sequence},
      s' = { s with queue := (s.queue.schedule name action).1 }.setSequence q value →
      value.completions = (s.sequences q).completions ++
        [(s.queue.schedule name action).2.completion] →
      n ∈ (s.sequences p).completions ∨ ∃ name' action',
        LoopSection.scheduleNext q name action = .scheduleNext p name' action' ∧
          n < s'.queue.submitted.length ∧ (s'.queue.promises n = [] →
            (s.queue.schedule name' action').2.status = .accepted) := by
    intro q name action value hs hvalue
    have hnew := EventQueue.completion_schedule s.queue name action
    rw [hs, sequences_setSequence] at hn
    split at hn
    · rename_i hp
      subst hp
      rw [hvalue] at hn
      rcases List.mem_append.mp hn with hn | hn
      · exact Or.inl hn
      · obtain rfl := List.mem_singleton.mp hn
        exact Or.inr ⟨name, action, rfl, hs ▸ hnew⟩
    · exact Or.inl hn
  cases does_of_run h with
  | nextAccepted | nextRefused => exact hscheduled rfl rfl
  | notifyOne | notifyAll =>
      rw [sequences_notify] at hn
      exact Or.inl hn
  | refuse | startFails | generatorThrows | stopRequested | collect | settleSequence | requestStop =>
      exact Or.inl (hsame rfl rfl)
  | generatorCalls _ hcall henter | actionCalls _ hcall henter =>
      rw [(enter_submission hcall henter).1] at hn
      exact Or.inl hn
  | _ => exact Or.inl hn

end EventLoopGenerator

end Watchlist.Concurrency
