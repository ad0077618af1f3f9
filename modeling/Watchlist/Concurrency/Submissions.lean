import Watchlist.Concurrency.GeneratorSteps

/-!
What `EventLoopGenerator` promises for each submission. Only the worker takes events
out of the queue, runs their actions and answers them; every other section submits,
closes the admission, or leaves the queue alone. So the accounts of the queue hold
with the events that the worker has at its position in `run`.
-/

namespace Watchlist.Concurrency

open Transition

/-- The sections of `run`. -/
def LoopSection.ofWorker : LoopSection → Bool
  | .awaitEvents | .asleep | .execute _ | .inAction _ | .complete .. => true
  | _ => false

/-- What the sections outside of `run` do to the queue. -/
inductive EventQueue.Submits (q : EventQueue) : EventQueue → Prop
  | same : Submits q q
  | schedule (name : Bytes) (action : ℕ) : Submits q (q.schedule name action).1
  | close : Submits q q.close

namespace EventQueue

variable {last : EventId} {q q' : EventQueue} {current taken : List QueuedEvent}

theorem Submits.accounts (h : q.Submits q') (hq : Accounts last q current taken) :
    Accounts last q' current taken := by
  cases h with
  | same => exact hq
  | schedule name action => exact accounts_schedule hq name action
  | close => exact accounts_close hq

/-- Nothing more is accepted, and nothing is queued. -/
def Drained (q : EventQueue) : Prop := q.accepting = false ∧ q.events = []

theorem Submits.drained (h : q.Submits q') (hq : q.Drained) : q'.Drained := by
  cases h with
  | same => exact hq
  | schedule name action =>
      rw [EventQueue.schedule, hq.1]
      exact hq
  | close => exact ⟨rfl, hq.2⟩

end EventQueue

namespace EventLoopGenerator

variable {s s' : EventLoopGenerator} {as : List LoopSection} {k : ℕ}

@[simp] theorem queue_notify (s : EventLoopGenerator) : s.notify.queue = s.queue := by
  unfold notify
  split <;> rfl

@[simp] theorem exited_notify (s : EventLoopGenerator) : s.notify.exited = s.exited := by
  unfold notify
  split <;> rfl

theorem ofWorker_collecting {sequence : ℕ} {completions : List ℕ} {a : LoopSection}
    (h : a ∈ collecting sequence completions) : a.ofWorker = false := by
  rcases List.mem_append.mp h with h | h
  · obtain ⟨n, -, rfl⟩ := List.mem_map.mp h
    rfl
  · obtain rfl := List.mem_singleton.mp h
    rfl

/-- What a thread other than the worker does, and the worker within an action. -/
structure Outside (s s' : EventLoopGenerator) (as : List LoopSection) : Prop where
  exited : s'.exited = s.exited
  queue : s.queue.Submits s'.queue
  sections : ∀ a ∈ as, a.ofWorker = false

theorem outside_enter {call : LoopCall} (h : s.enter k call = some (s', as)) : Outside s s' as := by
  cases call with
  | scheduleEvent name action =>
      cases h
      exact ⟨rfl, .same, by simp [LoopSection.ofWorker]⟩
  | processEventSequence =>
      cases h
      exact ⟨rfl, .same, by simp [LoopSection.ofWorker]⟩
  | shutdown =>
      simp only [enter] at h
      split at h
      · cases h
      · cases h
        exact ⟨rfl, .same, by simp [LoopSection.ofWorker]⟩
  | produce sequence =>
      simp only [enter] at h
      split at h
      · cases h
        exact ⟨rfl, .same, by simp [LoopSection.ofWorker]⟩
      · cases h

theorem Outside.append {bs : List LoopSection} (h : Outside s s' as)
    (hbs : ∀ a ∈ bs, a.ofWorker = false) : Outside s s' (as ++ bs) :=
  ⟨h.exited, h.queue, List.forall_mem_append.mpr ⟨h.sections, hbs⟩⟩

theorem outside_runSection {a : LoopSection} {choice : LoopChoice} (ha : a.ofWorker = false)
    (h : s.runSection k a choice = some (s', as)) : Outside s s' as := by
  have hnone : ∀ b ∈ ([] : List LoopSection), b.ofWorker = false := List.forall_mem_nil _
  cases does_of_run h with
  | sleep | runEnds | take | wake | execute | actionReturns | actionThrows | actionCalls
  | complete => cases ha
  | @schedule name action =>
      refine ⟨rfl, .schedule name action, ?_⟩
      split <;> simp [LoopSection.ofWorker]
  | notifyOne | notifyAll => exact ⟨exited_notify s, queue_notify s ▸ .same, hnone⟩
  | generatorCalls hchoice hcall henter =>
      exact (outside_enter henter).append (by simp [LoopSection.ofWorker])
  | generatorEnds | generatorThrows | stopRequested =>
      exact ⟨rfl, .same, fun b => ofWorker_collecting⟩
  | @nextAccepted p name action => exact ⟨rfl, .schedule name action, by simp [LoopSection.ofWorker]⟩
  | @nextRefused p name action => exact ⟨rfl, .schedule name action, fun b => ofWorker_collecting⟩
  | closeAdmission => exact ⟨rfl, .close, hnone⟩
  | requestStops | joinProducers => exact ⟨rfl, .same, by simp [LoopSection.ofWorker]⟩
  | lockShutdown => exact ⟨rfl, .same, by simp [shutdownStages, LoopSection.ofWorker]⟩
  | _ => exact ⟨rfl, .same, by simp [LoopSection.ofWorker]⟩

/-! ### The worker -/

/-- Where the worker is: what it has to do, the event whose action it has called, and
the event it has taken. Within an action it may be in calls of its own. -/
inductive Works : List LoopSection → List QueuedEvent → List QueuedEvent → Prop
  | awaiting : Works [.awaitEvents] [] []
  | asleep : Works [.asleep] [] []
  | executing (e : QueuedEvent) : Works [.execute e] [] [e]
  | acting (e : QueuedEvent) : Works [.inAction e] [e] []
  | calling {a : LoopSection} {rest : List LoopSection} {current taken : List QueuedEvent}
      (ha : a.ofWorker = false) (hrest : Works rest current taken) :
      Works (a :: rest) current taken
  | completing {result : EventResult} (e : QueuedEvent) (hid : result.id = e.event.id)
      (hstatus : SubmissionStatus.accepted.Allows result.status) :
      Works [.complete e result] [e] []
  | returned : Works [] [] []

theorem Works.append {rest : List LoopSection} {current taken : List QueuedEvent}
    (h : Works rest current taken) (has : ∀ a ∈ as, a.ofWorker = false) :
    Works (as ++ rest) current taken := by
  induction as with
  | nil => exact h
  | cons a as ih =>
      obtain ⟨ha, has⟩ := List.forall_mem_cons.mp has
      exact .calling ha (ih has)

/-- The queue is accounted for with what the worker has, and only the worker is in `run`. -/
structure Kept (last : EventId) (s : Threads EventLoopGenerator LoopSection) : Prop where
  worker : ∃ current taken, Works (s.pending 0) current taken ∧
    EventQueue.Accounts last s.shared.queue current taken
  exited : s.shared.exited = true → s.pending 0 = [] ∧ s.shared.queue.Drained
  others : ∀ k, k ≠ 0 → ∀ a ∈ s.pending k, a.ofWorker = false

theorem kept_start (last : EventId) : Kept last (start last) where
  worker := ⟨[], [], .awaiting, EventQueue.accounts_initial last⟩
  exited := nofun
  others k hk a ha := by
    have hidle : (start last).pending k = [] := if_neg hk
    rw [hidle] at ha
    cases ha

variable {last : EventId} {t u : Threads EventLoopGenerator LoopSection}

/-- A section of `run` takes the worker from one position to the next. -/
theorem works_of_runSection {current taken : List QueuedEvent} {a : LoopSection}
    {rest : List LoopSection} {choice : LoopChoice} (hexited : s.exited = false)
    (hworks : Works (a :: rest) current taken)
    (haccounts : EventQueue.Accounts last s.queue current taken)
    (hrun : s.runSection 0 a choice = some (s', as)) :
    (∃ current taken, Works (as ++ rest) current taken ∧
      EventQueue.Accounts last s'.queue current taken) ∧
    (s'.exited = true → as ++ rest = [] ∧ s'.queue.Drained) := by
  -- a worker that has not exited by this section has still not exited
  have hrunning : s'.exited = s.exited →
      (s'.exited = true → as ++ rest = [] ∧ s'.queue.Drained) := by
    intro hsame hout
    rw [hsame, hexited] at hout
    cases hout
  cases hworks with
  | calling ha hrest =>
      have hout := outside_runSection ha hrun
      exact ⟨⟨current, taken, hrest.append hout.sections, hout.queue.accounts haccounts⟩,
        hrunning hout.exited⟩
  | awaiting =>
      cases does_of_run hrun with
      | sleep => exact ⟨⟨[], [], .asleep, haccounts⟩, hrunning rfl⟩
      | runEnds hempty hclosed => exact ⟨⟨[], [], .returned, haccounts⟩, fun _ => ⟨rfl, hclosed, hempty⟩⟩
      | @take e events hevents =>
          exact ⟨⟨[], [e], .executing e, EventQueue.accounts_pop haccounts hevents⟩, hrunning rfl⟩
  | asleep =>
      cases does_of_run hrun with
      | wake => exact ⟨⟨[], [], .awaiting, haccounts⟩, hrunning rfl⟩
  | executing e =>
      cases does_of_run hrun with
      | execute => exact ⟨⟨[e], [], .acting e, EventQueue.accounts_call haccounts⟩, hrunning rfl⟩
  | acting e =>
      cases does_of_run hrun with
      | actionReturns | actionThrows =>
          exact ⟨⟨[e], [], .completing e rfl trivial, haccounts⟩, hrunning rfl⟩
      | actionCalls hchoice hcall henter =>
          have hout := outside_enter henter
          refine ⟨⟨[e], [], ?_, hout.queue.accounts haccounts⟩, hrunning hout.exited⟩
          rw [List.append_nil]
          exact (Works.acting e).append hout.sections
  | completing e hid hstatus =>
      cases does_of_run hrun with
      | complete =>
          exact ⟨⟨[], [], .awaiting, EventQueue.accounts_setValue haccounts hid hstatus⟩, hrunning rfl⟩

/-- A thread other than the worker takes a step. -/
theorem Kept.become (h : Kept last t) (hk : k ≠ 0) (hout : Outside t.shared s' as)
    {rest : List LoopSection} (hrest : ∀ a ∈ rest, a ∈ t.pending k) :
    Kept last (t.become k s' (as ++ rest)) := by
  have hworker : (t.become k s' (as ++ rest)).pending 0 = t.pending 0 :=
    Threads.pending_become_of_ne hk.symm ..
  constructor
  · obtain ⟨current, taken, hworks, haccounts⟩ := h.worker
    rw [hworker]
    exact ⟨current, taken, hworks, hout.queue.accounts haccounts⟩
  · intro hexited
    rw [hworker]
    obtain ⟨hidle, hdrained⟩ := h.exited (hout.exited ▸ hexited)
    exact ⟨hidle, hout.queue.drained hdrained⟩
  · intro j hj a ha
    rw [Threads.pending_become] at ha
    split at ha
    · rcases List.mem_append.mp ha with ha | ha
      · exact hout.sections a ha
      · exact h.others k hk a (hrest a ha)
    · exact h.others j hj a ha

theorem Kept.step {l : Threads.Label LoopCall LoopChoice} (h : Kept last t)
    (hstep : machine.step t l = some u) : Kept last u := by
  cases Program.moves_of_step hstep with
  | @enter k call s' as hidle hcall =>
      have hk : k ≠ 0 := by
        rintro rfl
        cases hcall
      simp only [program, if_neg hk] at hcall
      have hkept : Kept last (t.become k s' (as ++ [])) :=
        h.become hk (outside_enter hcall) fun b hb => absurd hb List.not_mem_nil
      rwa [List.append_nil] at hkept
  | @advance k choice a rest s' as hat hrun =>
      by_cases hk : k = 0
      · subst hk
        obtain ⟨current, taken, hworks, haccounts⟩ := h.worker
        have hexited : t.shared.exited = false := by
          apply Bool.eq_false_of_not_eq_true
          intro hexited
          have hidle := (h.exited hexited).1
          rw [hat] at hidle
          cases hidle
        rw [hat] at hworks
        obtain ⟨hworker, hdrained⟩ := works_of_runSection hexited hworks haccounts hrun
        constructor
        · rw [Threads.pending_become_self]
          exact hworker
        · rw [Threads.pending_become_self]
          exact hdrained
        · intro j hj b hb
          rw [Threads.pending_become_of_ne hj] at hb
          exact h.others j hj b hb
      · have ha : a.ofWorker = false := h.others k hk a (by rw [hat]; exact List.mem_cons_self)
        refine h.become hk (outside_runSection ha hrun) fun b hb => ?_
        rw [hat]
        exact List.mem_cons_of_mem a hb

theorem kept_of_reaches (h : machine.Reaches (start last) t) : Kept last t :=
  Machine.invariant (Kept last) (fun _ _ _ ht hstep => ht.step hstep) h (kept_start last)

/-- Whatever is submitted is accepted and completed, or rejected. Accepted events
have the identifiers after `last`, below the limit; actions are called in the order of
their identifiers, each at most once; a promise is set at most once, to what the answer
allows; and after the worker has exited, nothing is left over. -/
theorem submissions_accounted (last : EventId) (t : Threads EventLoopGenerator LoopSection)
    (h : machine.Reaches (start last) t) :
    (t.shared.queue.accepted.map (·.event.id.toNat) =
        List.range' (last.toNat + 1) t.shared.queue.accepted.length ∧
      last.toNat + t.shared.queue.accepted.length < 2 ^ 64) ∧
    (t.shared.queue.executed <+: t.shared.queue.accepted ∧
      (t.shared.queue.executed.map (·.event.id.toNat)).Pairwise (· < ·)) ∧
    (∀ n event status, t.shared.queue.submitted[n]? = some (event, status) →
      t.shared.queue.promises n = [] ∨
        ∃ result, t.shared.queue.promises n = [result] ∧ result.id = event.id ∧
          status.Allows result.status) ∧
    (t.shared.exited = true → t.shared.queue.events = [] ∧
      t.shared.queue.executed = t.shared.queue.accepted ∧
      ∀ n < t.shared.queue.submitted.length, t.shared.queue.promises n ≠ []) := by
  have hkept := kept_of_reaches h
  obtain ⟨current, taken, hworks, haccounts⟩ := hkept.worker
  refine ⟨⟨haccounts.ids, haccounts.below_limit⟩,
    ⟨haccounts.executed_prefix, haccounts.executed_increasing⟩,
    fun n event status => haccounts.promise, fun hexited => ?_⟩
  obtain ⟨hidle, -, hevents⟩ := hkept.exited hexited
  rw [hidle] at hworks
  cases hworks
  exact ⟨hevents, haccounts.drained hevents⟩

/-- The last identifier is given out, an action submits once more and throws, and the
loop is shut down. -/
def exhausting : List (Threads.Label LoopCall LoopChoice) :=
  ([.enter 1 (.scheduleEvent [] 0), .advance 1 .proceed, .advance 1 .proceed, .advance 0 .proceed,
    .advance 0 .proceed, .advance 0 (.calls (.scheduleEvent [] 1)), .advance 0 .proceed,
    .enter 2 .shutdown] : List (Threads.Label LoopCall LoopChoice)) ++
    List.replicate 7 (.advance 2 .proceed) ++
    ([.advance 0 (.throws []), .advance 0 .proceed, .advance 0 .proceed] :
      List (Threads.Label LoopCall LoopChoice)) ++
    List.replicate 3 (.advance 2 .proceed)

theorem submissions_accounted_exhausted :
    ∃ t, machine.exec (start 0xfffffffffffffffe) exhausting = some t ∧
      t.shared.exited = true ∧ t.shared.shutdownComplete = true ∧
      t.shared.queue.promises 1 = [⟨0, .rejectedIdExhausted, none⟩] ∧
      t.shared.queue.events = [] ∧ t.shared.queue.executed = t.shared.queue.accepted ∧
      ∀ n < t.shared.queue.submitted.length, t.shared.queue.promises n ≠ [] := by
  have hends : (machine.exec (start 0xfffffffffffffffe) exhausting).map (fun t =>
      (t.shared.exited, t.shared.shutdownComplete, t.shared.queue.promises 1)) =
        some (true, true, [⟨0, .rejectedIdExhausted, none⟩]) := by
    decide +kernel
  obtain ⟨t, hrun, hend⟩ := Option.map_eq_some_iff.mp hends
  simp only [Prod.mk.injEq] at hend
  obtain ⟨hexited, hcomplete, hpromise⟩ := hend
  exact ⟨t, hrun, hexited, hcomplete, hpromise,
    (submissions_accounted _ t ⟨exhausting, hrun⟩).2.2.2 hexited⟩

end EventLoopGenerator

end Watchlist.Concurrency
