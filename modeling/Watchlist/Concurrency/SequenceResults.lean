import Watchlist.Library.ThreadLog
import Watchlist.Concurrency.SequenceOwners

/-!
What the result of a sequence says. The log of the producer's thread is what happened:
what the generator yielded and threw, which submissions were made and how they were
answered, and whether a stop was seen. When the promise of the sequence is set, the
result is read off that log and the promises of its submissions, all of which are set.
-/

namespace Watchlist.Concurrency

open Transition

/-! ### Queues only grow -/

/-- What any step of the loop keeps of the queue. -/
structure EventQueue.Extends (q q' : EventQueue) : Prop where
  submitted : q.submitted <+: q'.submitted
  promises : ∀ n, q.promises n <+: q'.promises n
  issued : q.lastIssued.toNat ≤ q'.lastIssued.toNat

namespace EventQueue

variable {q q' q'' : EventQueue}

theorem Extends.refl (q : EventQueue) : q.Extends q :=
  ⟨List.prefix_refl _, fun _ => List.prefix_refl _, le_refl _⟩

theorem Extends.trans (h : q.Extends q') (h' : q'.Extends q'') : q.Extends q'' :=
  ⟨h.submitted.trans h'.submitted, fun n => (h.promises n).trans (h'.promises n),
    h.issued.trans h'.issued⟩

theorem extends_setValue (q : EventQueue) (completion : ℕ) (result : EventResult) :
    q.Extends (q.setValue completion result) where
  submitted := List.prefix_refl _
  promises := by
    intro n
    by_cases hn : n = completion
    · subst hn
      rw [promises_setValue_self]
      exact List.prefix_append _ _
    · rw [promises_setValue_of_ne hn]
  issued := le_refl _

theorem extends_refuse (q : EventQueue) (name : Bytes) (action : ℕ) (answer : SubmissionStatus)
    (status : EventStatus) : q.Extends (q.refuse name action answer status).1 where
  submitted := List.prefix_append _ _
  promises := (extends_setValue q q.submitted.length ⟨0, status, none⟩).promises
  issued := le_refl _

theorem extends_schedule (q : EventQueue) (name : Bytes) (action : ℕ) :
    q.Extends (q.schedule name action).1 := by
  unfold schedule
  split
  · exact extends_refuse ..
  · split
    · exact extends_refuse ..
    · rename_i hlimit
      refine ⟨List.prefix_append _ _, fun _ => List.prefix_refl _, ?_⟩
      show q.lastIssued.toNat ≤ (q.lastIssued + 1).toNat
      rw [toNat_succ hlimit]
      exact Nat.le_succ _

theorem Submits.extends (h : q.Submits q') : q.Extends q' := by
  cases h with
  | same => exact .refl q
  | schedule name action => exact extends_schedule q name action
  | close => exact ⟨List.prefix_refl _, fun _ => List.prefix_refl _, le_refl _⟩

/-- What a promise has been set to first stays. -/
theorem Extends.head (h : q.Extends q') {n : ℕ} {result : EventResult}
    (hresult : (q.promises n).head? = some result) : (q'.promises n).head? = some result := by
  obtain ⟨more, hmore⟩ := h.promises n
  rw [← hmore, List.head?_append, hresult]
  rfl

theorem Extends.getElem (h : q.Extends q') {n : ℕ} {x : Event × SubmissionStatus}
    (hx : q.submitted[n]? = some x) : q'.submitted[n]? = some x := by
  obtain ⟨more, hmore⟩ := h.submitted
  obtain ⟨hlt, -⟩ := List.getElem?_eq_some_iff.mp hx
  rw [← hmore, List.getElem?_append_left hlt, hx]

/-- An accepted event gets an identifier that no earlier one has. -/
theorem issued_schedule (q : EventQueue) (name : Bytes) (action : ℕ)
    (h : (q.schedule name action).2.status = .accepted) :
    (q.schedule name action).2.id.toNat = q.lastIssued.toNat + 1 ∧
      (q.schedule name action).1.lastIssued = (q.schedule name action).2.id := by
  unfold schedule at h ⊢
  split at h
  · cases h
  · split at h
    · cases h
    · rename_i hopen hlimit
      rw [if_neg hopen, if_neg hlimit]
      exact ⟨toNat_succ hlimit, rfl⟩

/-- How `schedule_event` is answered is how its promise can be set. -/
theorem placed_schedule (q : EventQueue) (name : Bytes) (action : ℕ) :
    (q.schedule name action).1.submitted[(q.schedule name action).2.completion]? =
      some (⟨(q.schedule name action).2.id, name, action⟩, (q.schedule name action).2.status) := by
  obtain ⟨hsubmitted, hcompletion⟩ := submitted_schedule q name action
  rw [hsubmitted, hcompletion, List.getElem?_append_right (le_refl _), Nat.sub_self]
  rfl

end EventQueue

namespace EventLoopGenerator

variable {s s' : EventLoopGenerator} {as rest : List LoopSection} {k p : ℕ} {a : LoopSection}
  {choice : LoopChoice}

theorem extends_runSection (h : s.runSection k a choice = some (s', as)) :
    s.queue.Extends s'.queue := by
  by_cases ha : a.ofWorker = false
  · exact (outside_runSection ha h).queue.extends
  · cases does_of_run h with
    | sleep | runEnds | wake | actionReturns | actionThrows => exact .refl _
    | take | execute => exact ⟨List.prefix_refl _, fun _ => List.prefix_refl _, le_refl _⟩
    | actionCalls _ _ henter => exact (outside_enter henter).queue.extends
    | complete => exact EventQueue.extends_setValue ..
    | _ => exact absurd rfl ha

/-- What the steps of other threads leave of a sequence and of the queue. -/
structure Apart (p : ℕ) (s s' : EventLoopGenerator) : Prop where
  same : (s.sequences p).Same (s'.sequences p)
  numbered : s.nextSequence ≤ s'.nextSequence
  queue : s.queue.Extends s'.queue

theorem Apart.refl (p : ℕ) (s : EventLoopGenerator) : Apart p s s := ⟨.refl _, le_refl _, .refl _⟩

theorem Apart.trans {s'' : EventLoopGenerator} (h : Apart p s s') (h' : Apart p s' s'') :
    Apart p s s'' where
  same := ⟨h'.same.started.trans h.same.started, h'.same.finished.trans h.same.finished,
    h'.same.completions.trans h.same.completions, h'.same.result.trans h.same.result,
    h'.same.promise.trans h.same.promise⟩
  numbered := h.numbered.trans h'.numbered
  queue := h.queue.trans h'.queue

theorem apart_step {t u : Threads EventLoopGenerator LoopSection}
    {l : Threads.Label LoopCall LoopChoice} (h : ConsumedBy k p t) (hl : l.thread ≠ k)
    (hstep : machine.step t l = some u) : Apart p t.shared u.shared := by
  obtain ⟨-, hsame⟩ := h.other_step hl hstep
  cases Program.moves_of_step hstep with
  | @enter j call s' as hidle hcall =>
      have hj : j ≠ 0 := by
        rintro rfl
        cases hcall
      simp only [program, if_neg hj] at hcall
      refine ⟨hsame, ?_, (outside_enter hcall).queue.extends⟩
      cases call with
      | scheduleEvent name action => cases hcall; exact le_refl _
      | processEventSequence => cases hcall; exact Nat.le_succ _
      | shutdown | produce q =>
          simp only [enter] at hcall
          split at hcall <;> cases hcall
          exact le_refl _
  | advance hat hrun => exact ⟨hsame, nextSequence_runSection hrun, extends_runSection hrun⟩

end EventLoopGenerator

/-! ### Adding up results -/

namespace SequenceResult

theorem events_foldl_add (es : List EventResult) (r : SequenceResult) :
    (es.foldl add r).events = r.events ++ es := by
  induction es generalizing r with
  | nil => exact (List.append_nil _).symm
  | cons e es ih =>
      rw [List.foldl_cons, ih, add, List.append_assoc]
      rfl

theorem producerException_foldl_add (es : List EventResult) (r : SequenceResult) :
    (es.foldl add r).producerException = r.producerException := by
  induction es generalizing r with
  | nil => rfl
  | cons e es ih => rw [List.foldl_cons, ih, add]

theorem failed_add (r : SequenceResult) (e : EventResult) :
    (r.add e).status = .failed ↔ r.status = .failed ∨ e.status = .failed := by
  cases hr : r.status <;> cases he : e.status <;> simp [add, hr, he]

theorem completed_add (r : SequenceResult) (e : EventResult) :
    (r.add e).status = .completed ↔ r.status = .completed ∧ e.status = .executed := by
  cases hr : r.status <;> cases he : e.status <;> simp [add, hr, he]

/-- A failure is never taken back. -/
theorem failed_foldl_add (es : List EventResult) (r : SequenceResult) :
    (es.foldl add r).status = .failed ↔ r.status = .failed ∨ ∃ e ∈ es, e.status = .failed := by
  induction es generalizing r with
  | nil => simp
  | cons e es ih => simp [ih, failed_add, or_assoc]

theorem completed_foldl_add (es : List EventResult) (r : SequenceResult) :
    (es.foldl add r).status = .completed ↔
      r.status = .completed ∧ ∀ e ∈ es, e.status = .executed := by
  induction es generalizing r with
  | nil => simp
  | cons e es ih => simp [ih, completed_add, and_assoc]

end SequenceResult

/-! ### What the producer's thread has done -/

abbrev LoopEntry := Program.Entry EventLoopGenerator LoopSection LoopChoice

/-- A submission of the producer, and how it was answered. -/
structure Submitted where
  event : Event
  status : SubmissionStatus
  completion : ℕ

def Submitted.accepted (sub : Submitted) : Bool := sub.status = .accepted

/-- An event that the generator yields: a name and an action. -/
def Submitted.yielded (sub : Submitted) : Bytes × ℕ := (sub.event.name, sub.event.action)

def submittedIn (e : LoopEntry) : List Submitted :=
  match e.ran with
  | .scheduleNext _ name action =>
      let answer := (e.state.queue.schedule name action).2
      [⟨⟨answer.id, name, action⟩, answer.status, answer.completion⟩]
  | _ => []

def yieldedIn (e : LoopEntry) : List (Bytes × ℕ) :=
  match e.ran, e.choice with
  | .nextEvent _, .yields name action => [(name, action)]
  | _, _ => []

def thrownIn (e : LoopEntry) : List Bytes :=
  match e.ran, e.choice with
  | .nextEvent _, .throws what => [what]
  | _, _ => []

def stopSeenIn (e : LoopEntry) : Bool :=
  match e.ran with
  | .checkStop p _ _ => (e.state.sequences p).stopRequested
  | _ => false

/-- The submissions of the sequence, in order. -/
def submissions (log : List LoopEntry) : List Submitted := log.flatMap submittedIn

/-- What the generator has yielded, in order. -/
def yielded (log : List LoopEntry) : List (Bytes × ℕ) := log.flatMap yieldedIn

/-- What the generator has thrown. -/
def generatorThrew (log : List LoopEntry) : List Bytes := log.flatMap thrownIn

/-- A stop was seen before an event was submitted. -/
def stopSeen (log : List LoopEntry) : Bool := log.any stopSeenIn

namespace EventLoopGenerator

variable {s s' : EventLoopGenerator} {as rest : List LoopSection} {k p : ℕ} {a : LoopSection}
  {choice : LoopChoice} {log : List LoopEntry}

/-- The sequence knows its submissions, and the queue how they were answered. -/
structure Recorded (p : ℕ) (s : EventLoopGenerator) (log : List LoopEntry) : Prop where
  numbered : p < s.nextSequence
  promise : (s.sequences p).promise = []
  completions : (s.sequences p).completions = (submissions log).map Submitted.completion
  placed : ∀ sub ∈ submissions log,
    s.queue.submitted[sub.completion]? = some (sub.event, sub.status)
  issued : ∀ sub ∈ submissions log, sub.accepted → sub.event.id.toNat ≤ s.queue.lastIssued.toNat
  increasing : (((submissions log).filter Submitted.accepted).map (·.event.id.toNat)).Pairwise (· < ·)

/-- The generator is being consumed: everything so far has been accepted. -/
structure Consuming (p : ℕ) (s : EventLoopGenerator) (log : List LoopEntry)
    (extra : List (Bytes × ℕ)) : Prop extends Recorded p s log where
  result : (s.sequences p).result = ⟨.completed, [], none⟩
  accepted : ∀ sub ∈ submissions log, sub.status = .accepted
  yields : yielded log = (submissions log).map Submitted.yielded ++ extra
  thrown : generatorThrew log = []
  stop : stopSeen log = false

/-- How the consumption of the generator has ended. -/
structure Consumed (log : List LoopEntry) (base : SequenceResult) : Prop where
  events : base.events = []
  exception : base.producerException = (generatorThrew log).head?
  failed : base.status = .failed ↔ generatorThrew log ≠ []
  completed : base.status = .completed ↔ generatorThrew log = [] ∧ stopSeen log = false ∧
    ∀ sub ∈ submissions log, sub.status = .accepted
  /-- only the last submission can have been rejected -/
  accepted : ∀ sub ∈ (submissions log).dropLast, sub.status = .accepted
  yields : ∃ extra, yielded log = (submissions log).map Submitted.yielded ++ extra ∧
    (extra = [] ∨ stopSeen log = true ∧ extra.length = 1)

/-- Where the producer's thread is. -/
inductive ProducerAt (p : ℕ) (s : EventLoopGenerator) (log : List LoopEntry) :
    List LoopSection → Prop
  | generating {l sub : List LoopSection} (h : Submission sub)
      (hsub : ∀ b ∈ sub, b.touches p = false) (hopen : Consuming p s log [])
      (hl : l = sub ++ [.nextEvent p]) : ProducerAt p s log l
  | checking (name : Bytes) (action : ℕ) (hopen : Consuming p s log [(name, action)]) :
      ProducerAt p s log [.checkStop p name action]
  | scheduling (name : Bytes) (action : ℕ) (hopen : Consuming p s log [(name, action)]) :
      ProducerAt p s log [.scheduleNext p name action]
  | collecting {l : List LoopSection} {base : SequenceResult} {found : List Submitted}
      {es : List EventResult} (later : List Submitted) (hrecorded : Recorded p s log) (hconsumed : Consumed log base)
      (hsplit : submissions log = found ++ later)
      (hfound : List.Forall₂ (fun sub e =>
        (s.queue.promises sub.completion).head? = some e) found es)
      (hresult : (s.sequences p).result = es.foldl SequenceResult.add base)
      (hl : l = collecting p (later.map Submitted.completion)) : ProducerAt p s log l
  | settled {base : SequenceResult} {es : List EventResult} (hconsumed : Consumed log base)
      (hplaced : ∀ sub ∈ submissions log,
        s.queue.submitted[sub.completion]? = some (sub.event, sub.status))
      (hincreasing : (((submissions log).filter Submitted.accepted).map
        (·.event.id.toNat)).Pairwise (· < ·))
      (hfound : List.Forall₂ (fun sub e =>
        (s.queue.promises sub.completion).head? = some e) (submissions log) es)
      (hpromise : (s.sequences p).promise = [es.foldl SequenceResult.add base]) :
      ProducerAt p s log []

theorem Recorded.apart (h : Recorded p s log) (hapart : Apart p s s') : Recorded p s' log where
  numbered := lt_of_lt_of_le h.numbered hapart.numbered
  promise := hapart.same.promise.trans h.promise
  completions := hapart.same.completions.trans h.completions
  placed := fun sub hsub => hapart.queue.getElem (h.placed sub hsub)
  issued := fun sub hsub haccepted => (h.issued sub hsub haccepted).trans hapart.queue.issued
  increasing := h.increasing

theorem Consuming.apart {extra : List (Bytes × ℕ)} (h : Consuming p s log extra)
    (hapart : Apart p s s') : Consuming p s' log extra where
  toRecorded := h.toRecorded.apart hapart
  result := hapart.same.result.trans h.result
  accepted := h.accepted
  yields := h.yields
  thrown := h.thrown
  stop := h.stop

/-- Other threads leave the producer where it is. -/
theorem ProducerAt.apart {l : List LoopSection} (h : ProducerAt p s log l)
    (hapart : Apart p s s') : ProducerAt p s' log l := by
  have hfound : ∀ {subs es}, List.Forall₂ (fun (sub : Submitted) e =>
        (s.queue.promises sub.completion).head? = some e) subs es →
      List.Forall₂ (fun sub e => (s'.queue.promises sub.completion).head? = some e) subs es :=
    fun h => h.imp fun sub e he => hapart.queue.head he
  cases h with
  | generating h hsub hopen hl => exact .generating h hsub (hopen.apart hapart) hl
  | checking name action hopen => exact .checking name action (hopen.apart hapart)
  | scheduling name action hopen => exact .scheduling name action (hopen.apart hapart)
  | collecting later hrecorded hconsumed hsplit hheads hresult hl =>
      exact .collecting later (hrecorded.apart hapart) hconsumed hsplit (hfound hheads)
        (hapart.same.result.trans hresult) hl
  | settled hconsumed hplaced hincreasing hheads hpromise =>
      exact .settled hconsumed (fun sub hsub => hapart.queue.getElem (hplaced sub hsub))
        hincreasing (hfound hheads) (hapart.same.promise.trans hpromise)

/-! ### The steps of the producer -/

@[simp] theorem submissions_append (log log' : List LoopEntry) :
    submissions (log ++ log') = submissions log ++ submissions log' := List.flatMap_append

@[simp] theorem yielded_append (log log' : List LoopEntry) :
    yielded (log ++ log') = yielded log ++ yielded log' := List.flatMap_append

@[simp] theorem generatorThrew_append (log log' : List LoopEntry) :
    generatorThrew (log ++ log') = generatorThrew log ++ generatorThrew log' :=
  List.flatMap_append

@[simp] theorem stopSeen_append (log log' : List LoopEntry) :
    stopSeen (log ++ log') = (stopSeen log || stopSeen log') := List.any_append

/-- A section that is none of the sequence's own. -/
structure Silent (e : LoopEntry) : Prop where
  submissions : submissions [e] = []
  yielded : yielded [e] = []
  thrown : generatorThrew [e] = []
  stop : stopSeen [e] = false

theorem Recorded.silent {e : LoopEntry} (h : Recorded p s log) (he : submissions [e] = []) :
    Recorded p s (log ++ [e]) := by
  have hsame : submissions (log ++ [e]) = submissions log := by
    rw [submissions_append, he, List.append_nil]
  constructor
  · exact h.numbered
  · exact h.promise
  · rw [hsame]
    exact h.completions
  · rw [hsame]
    exact h.placed
  · rw [hsame]
    exact h.issued
  · rw [hsame]
    exact h.increasing

theorem Consuming.silent {e : LoopEntry} {extra : List (Bytes × ℕ)} (h : Consuming p s log extra)
    (he : Silent e) : Consuming p s (log ++ [e]) extra where
  toRecorded := h.toRecorded.silent he.submissions
  result := h.result
  accepted := by
    rw [submissions_append, he.submissions, List.append_nil]
    exact h.accepted
  yields := by
    rw [yielded_append, he.yielded, submissions_append, he.submissions, List.append_nil,
      List.append_nil]
    exact h.yields
  thrown := by
    rw [generatorThrew_append, h.thrown, he.thrown]
    rfl
  stop := by
    rw [stopSeen_append, h.stop, he.stop]
    rfl

theorem Consumed.silent {e : LoopEntry} {base : SequenceResult} (h : Consumed log base)
    (he : Silent e) : Consumed (log ++ [e]) base := by
  have hsubmissions : submissions (log ++ [e]) = submissions log := by
    rw [submissions_append, he.submissions, List.append_nil]
  have hyielded : yielded (log ++ [e]) = yielded log := by
    rw [yielded_append, he.yielded, List.append_nil]
  have hthrown : generatorThrew (log ++ [e]) = generatorThrew log := by
    rw [generatorThrew_append, he.thrown, List.append_nil]
  have hstop : stopSeen (log ++ [e]) = stopSeen log := by
    rw [stopSeen_append, he.stop, Bool.or_false]
  constructor
  · exact h.events
  · rw [hthrown]
    exact h.exception
  · rw [hthrown]
    exact h.failed
  · rw [hthrown, hstop, hsubmissions]
    exact h.completed
  · rw [hsubmissions]
    exact h.accepted
  · rw [hyielded, hsubmissions, hstop]
    exact h.yields

theorem silent_of_submission {l : List LoopSection} (h : Submission (a :: l)) :
    Silent ⟨s, a, choice⟩ := by
  cases h <;> exact ⟨rfl, rfl, rfl, rfl⟩

/-- The generator has come to its end. -/
theorem Consuming.returned (h : Consuming p s log []) : Consumed log ⟨.completed, [], none⟩ where
  events := rfl
  exception := by rw [h.thrown]; rfl
  failed := by simp [h.thrown]
  completed := by simpa [h.thrown, h.stop] using h.accepted
  accepted := fun sub hsub => h.accepted sub (List.mem_of_mem_dropLast hsub)
  yields := ⟨[], h.yields, .inl rfl⟩

/-- The generator has thrown. -/
theorem Consuming.threw {e : LoopEntry} {what : Bytes} (h : Consuming p s log [])
    (hsubmissions : submissions [e] = []) (hyielded : yielded [e] = [])
    (hthrown : generatorThrew [e] = [what]) : Consumed (log ++ [e]) ⟨.failed, [], some what⟩ where
  events := rfl
  exception := by
    rw [generatorThrew_append, h.thrown, hthrown]
    rfl
  failed := by simp [generatorThrew_append, h.thrown, hthrown]
  completed := by simp [generatorThrew_append, h.thrown, hthrown]
  accepted := by
    rw [submissions_append, hsubmissions, List.append_nil]
    exact fun sub hsub => h.accepted sub (List.mem_of_mem_dropLast hsub)
  yields := by
    rw [yielded_append, hyielded, submissions_append, hsubmissions, List.append_nil,
      List.append_nil]
    exact ⟨[], h.yields, .inl rfl⟩

/-- A stop has been seen. -/
theorem Consuming.stopped {e : LoopEntry} {name : Bytes} {action : ℕ}
    (h : Consuming p s log [(name, action)]) (hsubmissions : submissions [e] = [])
    (hyielded : yielded [e] = []) (hthrown : generatorThrew [e] = [])
    (hstop : stopSeen [e] = true) : Consumed (log ++ [e]) ⟨.cancelled, [], none⟩ where
  events := rfl
  exception := by
    rw [generatorThrew_append, h.thrown, hthrown]
    rfl
  failed := by simp [generatorThrew_append, h.thrown, hthrown]
  completed := by simp [stopSeen_append, hstop]
  accepted := by
    rw [submissions_append, hsubmissions, List.append_nil]
    exact fun sub hsub => h.accepted sub (List.mem_of_mem_dropLast hsub)
  yields := by
    rw [yielded_append, hyielded, submissions_append, hsubmissions, List.append_nil,
      List.append_nil]
    refine ⟨[(name, action)], h.yields, .inr ⟨?_, rfl⟩⟩
    rw [stopSeen_append, hstop, Bool.or_true]

/-- What a submission of the producer adds to its log. -/
def submittedAs (s : EventLoopGenerator) (name : Bytes) (action : ℕ) : Submitted :=
  ⟨⟨(s.queue.schedule name action).2.id, name, action⟩, (s.queue.schedule name action).2.status,
    (s.queue.schedule name action).2.completion⟩

/-- The submission has been rejected. -/
theorem Consuming.rejected {e : LoopEntry} {name : Bytes} {action : ℕ}
    (h : Consuming p s log [(name, action)])
    (hsubmissions : submissions [e] = [submittedAs s name action]) (hyielded : yielded [e] = [])
    (hthrown : generatorThrew [e] = [])
    (hrejected : (submittedAs s name action).status ≠ .accepted) :
    Consumed (log ++ [e]) ⟨.cancelled, [], none⟩ where
  events := rfl
  exception := by
    rw [generatorThrew_append, h.thrown, hthrown]
    rfl
  failed := by simp [generatorThrew_append, h.thrown, hthrown]
  completed := by
    rw [submissions_append, hsubmissions]
    refine iff_of_false nofun fun hall => hrejected ?_
    exact hall.2.2 _ (List.mem_append_right _ (List.mem_singleton_self _))
  accepted := by
    rw [submissions_append, hsubmissions, List.dropLast_concat]
    exact h.accepted
  yields := by
    rw [yielded_append, hyielded, submissions_append, hsubmissions, List.append_nil, List.map_append]
    refine ⟨[], ?_, .inl rfl⟩
    rw [List.append_nil]
    exact h.yields

/-- The sequence records the completion that it has been given. -/
theorem Recorded.submit {e : LoopEntry} {name : Bytes} {action : ℕ} (h : Recorded p s log)
    (hsubmissions : submissions [e] = [submittedAs s name action])
    (hqueue : s'.queue = (s.queue.schedule name action).1)
    (hnumber : s'.nextSequence = s.nextSequence)
    (hpromise : (s'.sequences p).promise = (s.sequences p).promise)
    (hcompletions : (s'.sequences p).completions =
      (s.sequences p).completions ++ [(s.queue.schedule name action).2.completion]) :
    Recorded p s' (log ++ [e]) := by
  have hextends : s.queue.Extends s'.queue := hqueue ▸ EventQueue.extends_schedule ..
  have hall : submissions (log ++ [e]) = submissions log ++ [submittedAs s name action] := by
    rw [submissions_append, hsubmissions]
  constructor
  · rw [hnumber]
    exact h.numbered
  · rw [hpromise]
    exact h.promise
  · rw [hcompletions, h.completions, hall, List.map_append]
    rfl
  · rw [hall]
    intro sub hsub
    rcases List.mem_append.mp hsub with hsub | hsub
    · exact hextends.getElem (h.placed sub hsub)
    · obtain rfl := List.mem_singleton.mp hsub
      rw [hqueue]
      exact EventQueue.placed_schedule ..
  · rw [hall]
    intro sub hsub haccepted
    rcases List.mem_append.mp hsub with hsub | hsub
    · exact (h.issued sub hsub haccepted).trans hextends.issued
    · obtain rfl := List.mem_singleton.mp hsub
      have hissued := (EventQueue.issued_schedule s.queue name action
        (of_decide_eq_true haccepted)).2
      rw [hqueue, hissued]
      exact le_refl _
  · rw [hall, List.filter_append, List.map_append, List.pairwise_append]
    refine ⟨h.increasing, ?_, ?_⟩
    · cases haccepted : (submittedAs s name action).accepted <;> simp [haccepted]
    · intro id hid id' hid'
      obtain ⟨sub, hsub, rfl⟩ := List.mem_map.mp hid
      obtain ⟨sub', hsub', rfl⟩ := List.mem_map.mp hid'
      obtain ⟨hmem, haccepted⟩ := List.mem_filter.mp hsub
      obtain ⟨hmem', haccepted'⟩ := List.mem_filter.mp hsub'
      obtain rfl := List.mem_singleton.mp hmem'
      have hissued := (EventQueue.issued_schedule s.queue name action
        (of_decide_eq_true haccepted')).1
      have hbefore := h.issued sub hmem haccepted
      show sub.event.id.toNat < (s.queue.schedule name action).2.id.toNat
      omega

/-- The producer goes on to wait for its completions. -/
theorem producerAt_collect (base : SequenceResult) (hrecorded : Recorded p s log)
    (hconsumed : Consumed log base) (hresult : (s.sequences p).result = base) :
    ProducerAt p s log (collecting p (s.sequences p).completions) := by
  rw [hrecorded.completions]
  exact .collecting (submissions log) hrecorded hconsumed (List.nil_append _).symm .nil hresult rfl

theorem producerAt_returned (h : Consuming p s log []) :
    ProducerAt p s log (collecting p (s.sequences p).completions) :=
  producerAt_collect _ h.toRecorded h.returned h.result

/-- The sequence's promise and number are left alone by its consumption. -/
theorem Recorded.setResult (h : Recorded p s log) (value : Sequence)
    (hpromise : value.promise = (s.sequences p).promise)
    (hcompletions : value.completions = (s.sequences p).completions) :
    Recorded p (s.setSequence p value) log where
  numbered := h.numbered
  promise := by
    rw [sequences_setSequence, if_pos rfl, hpromise]
    exact h.promise
  completions := by
    rw [sequences_setSequence, if_pos rfl, hcompletions]
    exact h.completions
  placed := h.placed
  issued := h.issued
  increasing := h.increasing

theorem producerAt_generating {sub : List LoopSection} (h : Submission (a :: sub))
    (hsub : ∀ b ∈ a :: sub, b.touches p = false) (hopen : Consuming p s log [])
    (hrun : s.runSection k a choice = some (s', as)) :
    ProducerAt p s' (log ++ [⟨s, a, choice⟩]) (as ++ (sub ++ [.nextEvent p])) := by
  obtain ⟨ha, hrest⟩ := List.forall_mem_cons.mp hsub
  have huntouched := untouched_runSection ha hrun
  have hapart : Apart p s s' := ⟨huntouched.same, huntouched.numbered, extends_runSection hrun⟩
  refine .generating (h.step hrun) ?_ ((hopen.silent (silent_of_submission h)).apart hapart)
    (List.append_assoc ..).symm
  exact List.forall_mem_append.mpr ⟨huntouched.sections_of_lt hopen.numbered, hrest⟩

theorem producerAt_nextEvent (hopen : Consuming p s log [])
    (hrun : s.runSection k (.nextEvent p) choice = some (s', as)) :
    ProducerAt p s' (log ++ [⟨s, .nextEvent p, choice⟩]) as := by
  cases does_of_run hrun with
  | generatorEnds hchoice =>
      refine producerAt_returned (hopen.silent ?_)
      rcases hchoice with rfl | rfl <;> exact ⟨rfl, rfl, rfl, rfl⟩
  | @generatorThrows _ what hchoice =>
      subst hchoice
      have hrecorded := hopen.toRecorded.silent (e := ⟨s, .nextEvent p, .throws what⟩) rfl
      have hset := hrecorded.setResult { s.sequences p with
        result := { (s.sequences p).result with
          status := .failed, producerException := some what } } rfl rfl
      have hat := producerAt_collect ⟨.failed, [], some what⟩ hset
        (hopen.threw rfl rfl rfl) (by simp [sequences_setSequence, hopen.result])
      simpa [sequences_setSequence] using hat
  | @generatorYields _ name action hchoice =>
      subst hchoice
      have hsame : submissions (log ++ [⟨s, .nextEvent p, .yields name action⟩]) =
          submissions log := by
        rw [submissions_append]
        exact List.append_nil _
      refine .checking name action ⟨hopen.toRecorded.silent rfl, hopen.result, ?_, ?_, ?_, ?_⟩
      · rw [hsame]
        exact hopen.accepted
      · rw [yielded_append, hopen.yields, hsame, List.append_nil]
        rfl
      · rw [generatorThrew_append, hopen.thrown]
        rfl
      · rw [stopSeen_append, hopen.stop]
        rfl
  | generatorCalls hchoice hcall henter =>
      subst hchoice
      have huntouched := untouched_submission (p := p) hcall henter
      have hapart : Apart p s s' :=
        ⟨huntouched.same, huntouched.numbered, (outside_enter henter).queue.extends⟩
      exact .generating (submission_enter hcall henter)
        (huntouched.sections_of_lt hopen.numbered)
        ((hopen.silent ⟨rfl, rfl, rfl, rfl⟩).apart hapart) rfl

theorem producerAt_checkStop {name : Bytes} {action : ℕ}
    (hopen : Consuming p s log [(name, action)])
    (hrun : s.runSection k (.checkStop p name action) choice = some (s', as)) :
    ProducerAt p s' (log ++ [⟨s, .checkStop p name action, choice⟩]) as := by
  cases does_of_run hrun with
  | stopRequested hstop =>
      have hseen : stopSeen [⟨s, .checkStop p name action, choice⟩] = true := by
        simpa [stopSeen, stopSeenIn] using hstop
      have hrecorded := hopen.toRecorded.silent (e := ⟨s, .checkStop p name action, choice⟩) rfl
      have hset := hrecorded.setResult { s.sequences p with
        result := { (s.sequences p).result with status := .cancelled } } rfl rfl
      have hat := producerAt_collect ⟨.cancelled, [], none⟩ hset
        (hopen.stopped rfl rfl rfl hseen) (by simp [sequences_setSequence, hopen.result])
      simpa [sequences_setSequence] using hat
  | goesOn hstop =>
      have hnot : stopSeen [⟨s, .checkStop p name action, choice⟩] = false := by
        simpa [stopSeen, stopSeenIn] using hstop
      exact .scheduling name action (hopen.silent ⟨rfl, rfl, rfl, hnot⟩)

theorem producerAt_scheduleNext {name : Bytes} {action : ℕ}
    (hopen : Consuming p s log [(name, action)])
    (hrun : s.runSection k (.scheduleNext p name action) choice = some (s', as)) :
    ProducerAt p s' (log ++ [⟨s, .scheduleNext p name action, choice⟩]) as := by
  have hsubmissions : submissions [⟨s, .scheduleNext p name action, choice⟩] =
      [submittedAs s name action] := rfl
  cases does_of_run hrun with
  | nextAccepted haccepted =>
      refine .generating .notifying (by simp [LoopSection.touches,
        LoopSection.prepares, LoopSection.consumes]) ⟨?_, ?_, ?_, ?_, ?_, ?_⟩ rfl
      · exact hopen.toRecorded.submit hsubmissions rfl rfl (by simp [sequences_setSequence])
          (by simp [sequences_setSequence])
      · simpa [sequences_setSequence] using hopen.result
      · rw [submissions_append, hsubmissions]
        refine List.forall_mem_append.mpr ⟨hopen.accepted, ?_⟩
        exact List.forall_mem_singleton.mpr haccepted
      · rw [yielded_append, hopen.yields, submissions_append, hsubmissions, List.map_append,
          List.append_nil]
        exact List.append_nil _
      · rw [generatorThrew_append, hopen.thrown]
        rfl
      · rw [stopSeen_append, hopen.stop]
        rfl
  | nextRefused hrefused =>
      have hrecorded : Recorded p ({ s with
          queue := (s.queue.schedule name action).1 }.setSequence p { s.sequences p with
            completions := (s.sequences p).completions ++
              [(s.queue.schedule name action).2.completion]
            result := { (s.sequences p).result with status := .cancelled } })
          (log ++ [⟨s, .scheduleNext p name action, choice⟩]) :=
        hopen.toRecorded.submit hsubmissions rfl rfl (by simp [sequences_setSequence])
          (by simp [sequences_setSequence])
      have hat := producerAt_collect ⟨.cancelled, [], none⟩ hrecorded
        (hopen.rejected hsubmissions rfl rfl hrefused)
        (by simp [sequences_setSequence, hopen.result])
      simpa [sequences_setSequence] using hat

theorem ProducerAt.step (h : ProducerAt p s log (a :: rest))
    (hrun : s.runSection k a choice = some (s', as)) :
    ProducerAt p s' (log ++ [⟨s, a, choice⟩]) (as ++ rest) := by
  cases h with
  | @generating _ sub h hsub hopen hl =>
      cases sub with
      | nil =>
          obtain ⟨rfl, rfl⟩ := List.cons.inj hl
          rw [List.append_nil]
          exact producerAt_nextEvent hopen hrun
      | cons b sub =>
          obtain ⟨rfl, rfl⟩ := List.cons.inj hl
          exact producerAt_generating h hsub hopen hrun
  | checking name action hopen =>
      rw [List.append_nil]
      exact producerAt_checkStop hopen hrun
  | scheduling name action hopen =>
      rw [List.append_nil]
      exact producerAt_scheduleNext hopen hrun
  | @collecting _ base found es later hrecorded hconsumed hsplit hfound hresult hl =>
      cases later with
      | nil =>
          obtain ⟨rfl, rfl⟩ := List.cons.inj hl
          cases hrun
          have hall : submissions log = found := hsplit.trans (List.append_nil _)
          have hconsumed' := hconsumed.silent (e := ⟨s, .settleSequence p, choice⟩)
            ⟨rfl, rfl, rfl, rfl⟩
          have hrecorded' := hrecorded.silent (e := ⟨s, .settleSequence p, choice⟩) rfl
          have hsame : submissions (log ++ [⟨s, .settleSequence p, choice⟩]) = found := by
            rw [submissions_append, hall]
            exact List.append_nil _
          rw [← hsame] at hfound
          refine .settled hconsumed' hrecorded'.placed hrecorded'.increasing hfound ?_
          simp [sequences_setSequence, hrecorded.promise, hresult]
      | cons sub later =>
          obtain ⟨rfl, rfl⟩ := List.cons.inj hl
          cases does_of_run hrun with
          | @collect _ _ result _ hset =>
              have hrecorded' := (hrecorded.silent
                (e := ⟨s, .collect p sub.completion, choice⟩) rfl).setResult
                { s.sequences p with result := (s.sequences p).result.add result } rfl rfl
              have hsplit' : submissions (log ++ [⟨s, .collect p sub.completion, choice⟩]) =
                  (found ++ [sub]) ++ later := by
                have hnone : submissions [⟨s, .collect p sub.completion, choice⟩] = [] := rfl
                rw [submissions_append, hnone, hsplit, List.append_nil, List.append_assoc]
                rfl
              have hhead : (s.queue.promises sub.completion).head? = some result := by
                rw [hset]
                rfl
              refine .collecting later hrecorded' (hconsumed.silent ⟨rfl, rfl, rfl, rfl⟩) hsplit'
                (List.rel_append hfound (.cons hhead .nil)) ?_ rfl
              simp [sequences_setSequence, hresult]

/-- The run lemma: the producer's log and its position go together. -/
theorem ProducerAt.run {l left : List LoopSection} {log' : List LoopEntry}
    (hruns : program.Runs (Apart p) k s l log' s' left) (h : ProducerAt p s log l) :
    ProducerAt p s' (log ++ log') left := by
  induction hruns generalizing log with
  | stop l hothers =>
      rw [List.append_nil]
      exact h.apart hothers
  | next hothers hrun hrest ih =>
      have hnext := (h.apart hothers).step hrun
      have hend := ih hnext
      rwa [List.append_assoc] at hend

/-! ### Which actions have thrown -/

end EventLoopGenerator

def actionThrewIn (e : LoopEntry) : List (ℕ × Bytes) :=
  match e.ran, e.choice with
  | .inAction event, .throws what => [(event.completion, what)]
  | _, _ => []

/-- The actions that have thrown, by the numbers of their completions. -/
def actionsThrew (log : List LoopEntry) : List (ℕ × Bytes) := log.flatMap actionThrewIn

theorem EventQueue.Submits.failed {q q' : EventQueue} (h : q.Submits q') {n : ℕ}
    {r : EventResult} (hr : r ∈ q'.promises n) (hfailed : r.status = .failed) :
    r ∈ q.promises n := by
  have hrefuse : ∀ {name action answer status}, status ≠ .failed →
      r ∈ (q.refuse name action answer status).1.promises n → r ∈ q.promises n := by
    intro name action answer status hstatus hr
    by_cases hn : n = q.submitted.length
    · subst hn
      have hr : r ∈ q.promises q.submitted.length ++ [⟨0, status, none⟩] := by
        simpa [refuse, setValue] using hr
      rcases List.mem_append.mp hr with hr | hr
      · exact hr
      · rw [List.mem_singleton.mp hr] at hfailed
        exact absurd hfailed hstatus
    · simpa [refuse, promises_setValue_of_ne hn] using hr
  cases h with
  | same | close => exact hr
  | schedule name action =>
      unfold EventQueue.schedule at hr
      split at hr
      · exact hrefuse (by simp) hr
      · split at hr
        · exact hrefuse (by simp) hr
        · exact hr

namespace EventLoopGenerator

variable {s s' : EventLoopGenerator} {as rest : List LoopSection} {k p : ℕ} {a : LoopSection}
  {choice : LoopChoice} {log : List LoopEntry} {last : EventId}
  {t u : Threads EventLoopGenerator LoopSection}

/-- A failure that a promise has been set to, or that the worker is about to set it to, is
that of an action that has thrown, and each action that has thrown is such a failure. -/
structure FailuresKnown (log : List LoopEntry) (q : EventQueue) (l : List LoopSection) : Prop where
  thrown : ∀ n what, (n, what) ∈ actionsThrew log →
    (∃ r ∈ q.promises n, r.status = .failed) ∨
      ∃ e r, .complete e r ∈ l ∧ e.completion = n ∧ r.status = .failed
  settled : ∀ n, ∀ r ∈ q.promises n, r.status = .failed →
    ∃ what, r.exception = some what ∧ (n, what) ∈ actionsThrew log
  completing : ∀ e r, .complete e r ∈ l → r.status = .failed →
    ∃ what, r.exception = some what ∧ (e.completion, what) ∈ actionsThrew log

@[simp] theorem actionsThrew_append (log log' : List LoopEntry) :
    actionsThrew (log ++ log') = actionsThrew log ++ actionsThrew log' := List.flatMap_append

/-- Nothing throws, and the worker neither sets a promise nor gets to set one. -/
theorem FailuresKnown.keep {q q' : EventQueue} {l l' : List LoopSection} {new : List LoopEntry}
    (h : FailuresKnown log q l) (hextends : q.Extends q')
    (hfailed : ∀ n, ∀ r ∈ q'.promises n, r.status = .failed → r ∈ q.promises n)
    (hnew : actionsThrew new = [])
    (hsame : ∀ e r, .complete e r ∈ l' ↔ .complete e r ∈ l) :
    FailuresKnown (log ++ new) q' l' := by
  have hthrew : actionsThrew (log ++ new) = actionsThrew log := by
    rw [actionsThrew_append, hnew, List.append_nil]
  constructor
  · intro n what hmem
    rw [hthrew] at hmem
    rcases h.thrown n what hmem with ⟨r, hr, hstatus⟩ | ⟨e, r, hmem, hrest⟩
    · exact .inl ⟨r, (hextends.promises n).subset hr, hstatus⟩
    · exact .inr ⟨e, r, (hsame e r).mpr hmem, hrest⟩
  · intro n r hr hstatus
    rw [hthrew]
    exact h.settled n r (hfailed n r hr hstatus) hstatus
  · intro e r hmem hstatus
    rw [hthrew]
    exact h.completing e r ((hsame e r).mp hmem) hstatus

/-- A step outside of the worker, or within a call of an action. -/
theorem FailuresKnown.outside {l l' : List LoopSection} {new : List LoopEntry}
    (h : FailuresKnown log s.queue l) (hout : Outside s s' as) (hnew : actionsThrew new = [])
    (hsame : ∀ e r, .complete e r ∈ l' ↔ .complete e r ∈ l) :
    FailuresKnown (log ++ new) s'.queue l' :=
  h.keep hout.queue.extends (fun _ _ hr hstatus => hout.queue.failed hr hstatus) hnew hsame

theorem Outside.not_completes (h : Outside s s' as) (e : QueuedEvent) (r : EventResult) :
    .complete e r ∉ as := by
  intro hmem
  cases h.sections _ hmem

theorem actionThrewIn_of_ofWorker (ha : a.ofWorker = false) :
    actionsThrew [⟨s, a, choice⟩] = [] := by
  cases a <;> first | rfl | cases ha

/-- An action returns, and its event will be completed as executed. -/
theorem FailuresKnown.returns {e : QueuedEvent} (h : FailuresKnown log s.queue [.inAction e])
    (hchoice : ∀ what, choice ≠ .throws what) :
    FailuresKnown (log ++ [⟨s, .inAction e, choice⟩]) s.queue
      [.complete e ⟨e.event.id, .executed, none⟩] := by
  have hthrew : actionsThrew (log ++ [⟨s, .inAction e, choice⟩]) = actionsThrew log := by
    have hnone : actionsThrew [⟨s, .inAction e, choice⟩] = [] := by
      cases choice with
      | throws what => exact absurd rfl (hchoice what)
      | proceed | yields | calls | spurious => rfl
    rw [actionsThrew_append, hnone, List.append_nil]
  refine ⟨fun n what hmem => ?_, fun n r hr hstatus => ?_, fun e' r hmem hstatus => ?_⟩
  · rw [hthrew] at hmem
    exact .inl ((h.thrown n what hmem).resolve_right (by simp))
  · rw [hthrew]
    exact h.settled n r hr hstatus
  · simp only [List.mem_singleton, LoopSection.complete.injEq] at hmem
    rw [hmem.2] at hstatus
    cases hstatus

/-- An action throws, and its event will be completed as failed. -/
theorem FailuresKnown.throws {e : QueuedEvent} (h : FailuresKnown log s.queue [.inAction e])
    (what : Bytes) :
    FailuresKnown (log ++ [⟨s, .inAction e, .throws what⟩]) s.queue
      [.complete e ⟨e.event.id, .failed, some what⟩] := by
  have hthrew : actionsThrew (log ++ [⟨s, .inAction e, .throws what⟩]) =
      actionsThrew log ++ [(e.completion, what)] := actionsThrew_append _ _
  refine ⟨fun n what' hmem => ?_, fun n r hr hstatus => ?_, fun e' r hmem hstatus => ?_⟩
  · rw [hthrew] at hmem
    rcases List.mem_append.mp hmem with hmem | hmem
    · exact .inl ((h.thrown n what' hmem).resolve_right (by simp))
    · obtain ⟨rfl, rfl⟩ := Prod.mk.inj (List.mem_singleton.mp hmem)
      exact .inr ⟨e, _, List.mem_cons_self, rfl, rfl⟩
  · obtain ⟨what', hexception, hmem⟩ := h.settled n r hr hstatus
    rw [hthrew]
    exact ⟨what', hexception, List.mem_append_left _ hmem⟩
  · simp only [List.mem_singleton, LoopSection.complete.injEq] at hmem
    obtain ⟨rfl, rfl⟩ := hmem
    rw [hthrew]
    exact ⟨what, rfl, List.mem_append_right _ (List.mem_singleton_self _)⟩

theorem FailuresKnown.completes {e : QueuedEvent} {result : EventResult}
    (h : FailuresKnown log s.queue [.complete e result]) :
    FailuresKnown (log ++ [⟨s, .complete e result, choice⟩])
      (s.queue.setValue e.completion result) [.awaitEvents] := by
  have hextends := EventQueue.extends_setValue s.queue e.completion result
  have hthrew : actionsThrew (log ++ [⟨s, .complete e result, choice⟩]) = actionsThrew log := by
    rw [actionsThrew_append]
    exact List.append_nil _
  refine ⟨fun n what hmem => ?_, fun n r hr hfailed => ?_, fun _ _ hmem => ?_⟩
  · rw [hthrew] at hmem
    rcases h.thrown n what hmem with ⟨r, hr, hfailed⟩ | ⟨e', r, hmem', hn, hfailed⟩
    · exact .inl ⟨r, (hextends.promises n).subset hr, hfailed⟩
    · simp only [List.mem_singleton, LoopSection.complete.injEq] at hmem'
      obtain ⟨rfl, rfl⟩ := hmem'
      subst hn
      refine .inl ⟨r, ?_, hfailed⟩
      rw [EventQueue.promises_setValue_self]
      exact List.mem_append_right _ (List.mem_singleton_self r)
  · rw [hthrew]
    by_cases hn : n = e.completion
    · subst hn
      rw [EventQueue.promises_setValue_self] at hr
      rcases List.mem_append.mp hr with hr | hr
      · exact h.settled _ r hr hfailed
      · obtain rfl := List.mem_singleton.mp hr
        exact h.completing e r List.mem_cons_self hfailed
    · rw [EventQueue.promises_setValue_of_ne hn] at hr
      exact h.settled n r hr hfailed
  · cases List.mem_singleton.mp hmem

/-- The step lemma of the worker. -/
theorem FailuresKnown.worker {current taken : List QueuedEvent}
    (h : FailuresKnown log s.queue (a :: rest)) (hworks : Works (a :: rest) current taken)
    (hrun : s.runSection 0 a choice = some (s', as)) :
    FailuresKnown (log ++ [⟨s, a, choice⟩]) s'.queue (as ++ rest) := by
  -- a section that leaves the promises alone and is not about to set one
  have hquiet : ∀ {q' : EventQueue} {bs}, q'.promises = s.queue.promises →
      s.queue.Extends q' → actionsThrew [⟨s, a, choice⟩] = [] →
      (∀ e r, .complete e r ∈ bs ↔ .complete e r ∈ a :: rest) →
      FailuresKnown (log ++ [⟨s, a, choice⟩]) q' bs := by
    intro q' bs hpromises hextends hnew hsame
    exact h.keep hextends (fun n r hr _ => by rwa [hpromises] at hr) hnew hsame
  have hextends := extends_runSection hrun
  have hdoes := does_of_run hrun
  cases hworks with
  | calling ha hrest =>
      have hout := outside_runSection ha hrun
      refine h.outside hout (actionThrewIn_of_ofWorker ha) fun e r => ?_
      have hne : LoopSection.complete e r ≠ a := by
        rintro rfl
        cases ha
      simp [hout.not_completes, hne]
  | awaiting | asleep | executing e => cases hdoes <;> exact hquiet rfl hextends rfl (by simp)
  | acting e =>
      cases hdoes with
      | actionReturns hchoice => exact h.returns hchoice
      | actionThrows hchoice =>
          subst hchoice
          exact h.throws _
      | actionCalls hchoice hcall henter =>
          subst hchoice
          have hout := outside_enter henter
          exact h.outside hout rfl fun e' r => by simp [hout.not_completes]
  | completing e hid hstatus =>
      cases hdoes
      exact h.completes

/-- The log of the worker knows the failures, in every state that the loop reaches. -/
theorem failuresKnown_of_run {ls : List (Threads.Label LoopCall LoopChoice)}
    (h : machine.exec (start last) ls = some t) :
    Kept last t ∧
      FailuresKnown (program.ranBy 0 (start last) ls) t.shared.queue (t.pending 0) := by
  refine Machine.invariant_of_run (M := machine) (fun ls t => Kept last t ∧
    FailuresKnown (program.ranBy 0 (start last) ls) t.shared.queue (t.pending 0))
    ⟨kept_start last, nofun, nofun, ?_⟩ ?_ h
  · intro e r hmem
    cases List.mem_singleton.mp hmem
  · intro ls t l u hrun ht hstep
    obtain ⟨hkept, hknown⟩ := ht
    refine ⟨hkept.step hstep, ?_⟩
    rw [Program.ranBy_append hrun, Program.ranBy_singleton]
    cases Program.moves_of_step hstep with
    | @enter k call s' as hidle hcall =>
        have hk : k ≠ 0 := by
          rintro rfl
          cases hcall
        simp only [program, if_neg hk] at hcall
        rw [Threads.pending_become_of_ne (Ne.symm hk)]
        exact hknown.outside (outside_enter hcall) rfl fun _ _ => Iff.rfl
    | @advance k choice a rest s' as hat hrun =>
        by_cases hk : k = 0
        · subst hk
          obtain ⟨current, taken, hworks, -⟩ := hkept.worker
          rw [hat] at hworks hknown
          have hran : Program.ranIn 0 t (.advance 0 choice : Threads.Label LoopCall LoopChoice) =
              [⟨t.shared, a, choice⟩] := by simp [Program.ranIn, hat]
          rw [hran, Threads.pending_become_self]
          exact hknown.worker hworks hrun
        · have ha : a.ofWorker = false := hkept.others k hk a (by rw [hat]; exact List.mem_cons_self)
          have hran : Program.ranIn 0 t (.advance k choice : Threads.Label LoopCall LoopChoice) =
              ([] : List LoopEntry) := by simp [Program.ranIn, hk]
          rw [hran, Threads.pending_become_of_ne (Ne.symm hk)]
          exact hknown.outside (outside_runSection ha hrun) rfl fun _ _ => Iff.rfl

/-- The worker is about to set the promise of the event whose action it has called. -/
theorem Works.current_of_complete {l : List LoopSection} {current taken : List QueuedEvent}
    {e : QueuedEvent} {r : EventResult} (h : Works l current taken) (hmem : .complete e r ∈ l) :
    e ∈ current := by
  induction h with
  | calling ha hrest ih =>
      rcases List.mem_cons.mp hmem with rfl | hmem
      · cases ha
      · exact ih hmem
  | completing e' hid hstatus =>
      obtain ⟨rfl, rfl⟩ : e = e' ∧ r = _ := by simpa using hmem
      exact List.mem_singleton_self e
  | awaiting | asleep | executing | acting | returned => simp at hmem

/-- A promise that has been set was set by a failure exactly if its action has thrown. -/
theorem failed_iff_thrown {ls : List (Threads.Label LoopCall LoopChoice)}
    (h : machine.exec (start last) ls = some t) {n : ℕ} {r : EventResult}
    (hset : t.shared.queue.promises n = [r]) :
    r.status = .failed ↔
      ∃ what, (n, what) ∈ actionsThrew (program.ranBy 0 (start last) ls) := by
  obtain ⟨hkept, hknown⟩ := failuresKnown_of_run h
  constructor
  · intro hstatus
    obtain ⟨what, -, hmem⟩ := hknown.settled n r (by rw [hset]; exact List.mem_cons_self) hstatus
    exact ⟨what, hmem⟩
  · rintro ⟨what, hmem⟩
    rcases hknown.thrown n what hmem with ⟨r', hr', hstatus⟩ | ⟨e, r', hmem', rfl, -⟩
    · rw [hset] at hr'
      rwa [← List.mem_singleton.mp hr']
    · -- the promise would not have been set yet
      obtain ⟨current, taken, hworks, haccounts⟩ := hkept.worker
      have hwaiting := haccounts.waiting e
        (List.mem_append_left _ (hworks.current_of_complete hmem'))
      rw [hwaiting] at hset
      cases hset

/-! ### The result -/

end EventLoopGenerator

/-- The action of the submission has been run, and has thrown. -/
def Submitted.Threw (worker : List LoopEntry) (sub : Submitted) : Prop :=
  sub.status = .accepted ∧ ∃ what, (sub.completion, what) ∈ actionsThrew worker

/-- The generator has thrown, or an accepted action has. -/
def SomethingThrew (log worker : List LoopEntry) : Prop :=
  generatorThrew log ≠ [] ∨ ∃ sub ∈ submissions log, sub.Threw worker

/-- The result says what the logs of the producer and of the worker say. -/
structure SequenceResult.Reports (log worker : List LoopEntry) (q : EventQueue)
    (result : SequenceResult) : Prop where
  /-- every submission is settled, and its outcome is listed -/
  events : List.Forall₂ (fun sub e => q.promises sub.completion = [e] ∧ e.id = sub.event.id ∧
    sub.status.Allows e.status) (submissions log) result.events
  increasing : (((submissions log).filter Submitted.accepted).map
    (·.event.id.toNat)).Pairwise (· < ·)
  yields : (submissions log).map Submitted.yielded <+: yielded log
  exception : result.producerException = (generatorThrew log).head?
  failed : result.status = .failed ↔ SomethingThrew log worker
  cancelled : result.status = .cancelled ↔ ¬SomethingThrew log worker ∧
    (stopSeen log = true ∨ ∃ sub ∈ submissions log, sub.status ≠ .accepted)
  completed : result.status = .completed → yielded log = (submissions log).map Submitted.yielded ∧
    ∀ e ∈ result.events, e.status = .executed
  rejection : ∀ sub ∈ (submissions log).dropLast, sub.status = .accepted

theorem exists_iff_of_forall₂ {α β : Type*} {R : α → β → Prop} {A : α → Prop} {B : β → Prop}
    {as : List α} {bs : List β} (h : List.Forall₂ R as bs) (hAB : ∀ a b, R a b → (A a ↔ B b)) :
    (∃ a ∈ as, A a) ↔ ∃ b ∈ bs, B b := by
  induction h with
  | nil => simp
  | cons hab htail ih => simp only [List.exists_mem_cons_iff, hAB _ _ hab, ih]

theorem SubmissionStatus.Allows.accepted_of_failed {status : SubmissionStatus}
    (h : status.Allows .failed) : status = .accepted := by
  cases status <;> first | rfl | cases h

theorem SubmissionStatus.Allows.executed_iff {status : SubmissionStatus} {outcome : EventStatus}
    (h : status.Allows outcome) : outcome = .executed ↔ status = .accepted ∧ outcome ≠ .failed := by
  cases status <;> cases outcome <;> cases h <;> simp

namespace EventLoopGenerator

variable {k p : ℕ} {last : EventId} {t u : Threads EventLoopGenerator LoopSection}
  {log worker : List LoopEntry}

/-- What has been collected, once the promises are known to be set for good. -/
theorem reports_of_consumed {q : EventQueue} {base : SequenceResult} {es : List EventResult}
    (hconsumed : Consumed log base)
    (hincreasing : (((submissions log).filter Submitted.accepted).map
      (·.event.id.toNat)).Pairwise (· < ·))
    (hevents : List.Forall₂ (fun sub e => q.promises sub.completion = [e] ∧ e.id = sub.event.id ∧
      sub.status.Allows e.status) (submissions log) es)
    (hthrown : ∀ n r, q.promises n = [r] →
      (r.status = .failed ↔ ∃ what, (n, what) ∈ actionsThrew worker)) :
    (es.foldl SequenceResult.add base).Reports log worker q := by
  have hfailedEvent : ∀ (sub : Submitted) e, (q.promises sub.completion = [e] ∧
      e.id = sub.event.id ∧ sub.status.Allows e.status) →
      (sub.Threw worker ↔ e.status = .failed) := by
    rintro sub e ⟨hset, -, hallows⟩
    constructor
    · exact fun hthrew => (hthrown _ _ hset).mpr hthrew.2
    · intro hfailed
      have hthrew := (hthrown _ _ hset).mp hfailed
      rw [hfailed] at hallows
      exact ⟨hallows.accepted_of_failed, hthrew⟩
  have hsomeFailed := exists_iff_of_forall₂ hevents hfailedEvent
  have hfailed : (es.foldl SequenceResult.add base).status = .failed ↔
      SomethingThrew log worker := by
    rw [SequenceResult.failed_foldl_add, hconsumed.failed, ← hsomeFailed]
    rfl
  have hcompleted : (es.foldl SequenceResult.add base).status = .completed ↔
      ¬SomethingThrew log worker ∧ stopSeen log = false ∧
        ∀ sub ∈ submissions log, sub.status = .accepted := by
    have hexecuted : (∃ sub ∈ submissions log, ¬(sub.status = .accepted ∧ ¬sub.Threw worker)) ↔
        ∃ e ∈ es, e.status ≠ .executed := by
      apply exists_iff_of_forall₂ hevents
      rintro sub e ⟨hset, hid, hallows⟩
      rw [hfailedEvent sub e ⟨hset, hid, hallows⟩, ← hallows.executed_iff]
    have hall : (∀ e ∈ es, e.status = .executed) ↔
        ∀ sub ∈ submissions log, sub.status = .accepted ∧ ¬sub.Threw worker := by
      have hnot := not_congr hexecuted
      simpa using hnot.symm
    rw [SequenceResult.completed_foldl_add, hconsumed.completed, hall, SomethingThrew]
    constructor
    · rintro ⟨⟨hnone, hstop, haccepted⟩, hquiet⟩
      refine ⟨?_, hstop, haccepted⟩
      rintro (hthrew | ⟨sub, hsub, hthrew⟩)
      · exact hthrew hnone
      · exact (hquiet sub hsub).2 hthrew
    · rintro ⟨hnothing, hstop, haccepted⟩
      refine ⟨⟨?_, hstop, haccepted⟩, fun sub hsub => ⟨haccepted sub hsub, fun hthrew => ?_⟩⟩
      · by_contra hthrew
        exact hnothing (.inl hthrew)
      · exact hnothing (.inr ⟨sub, hsub, hthrew⟩)
  have hlisted : (es.foldl SequenceResult.add base).events = es := by
    rw [SequenceResult.events_foldl_add, hconsumed.events]
    rfl
  obtain ⟨extra, hyields, hextra⟩ := hconsumed.yields
  constructor
  · rw [hlisted]
    exact hevents
  · exact hincreasing
  · rw [hyields]
    exact List.prefix_append _ _
  · rw [SequenceResult.producerException_foldl_add, hconsumed.exception]
  · exact hfailed
  · -- neither failed nor completed
    rw [← hfailed]
    cases hstatus : (es.foldl SequenceResult.add base).status with
    | failed => simp
    | completed =>
        obtain ⟨-, hstop, haccepted⟩ := hcompleted.mp hstatus
        simpa [hstop] using haccepted
    | cancelled =>
        have hnot : ¬SomethingThrew log worker := by
          rw [← hfailed, hstatus]
          nofun
        have hopen : ¬(stopSeen log = false ∧ ∀ sub ∈ submissions log, sub.status = .accepted) := by
          intro hrest
          rw [hcompleted.mpr ⟨hnot, hrest⟩] at hstatus
          cases hstatus
        refine iff_of_true rfl ⟨nofun, ?_⟩
        by_contra hneither
        apply hopen
        simpa using hneither
  · intro hstatus
    obtain ⟨-, hstop, -⟩ := hcompleted.mp hstatus
    rw [hlisted]
    refine ⟨?_, (SequenceResult.completed_foldl_add es base).mp hstatus |>.2⟩
    rcases hextra with rfl | ⟨hseen, -⟩
    · rw [hyields, List.append_nil]
    · rw [hstop] at hseen
      cases hseen
  · exact hconsumed.accepted

/-- When a promise that has been set first is looked at in the accounts. -/
theorem settled_of_head (hkept : Kept last u) {subs : List Submitted} {es : List EventResult}
    (hplaced : ∀ sub ∈ subs,
      u.shared.queue.submitted[sub.completion]? = some (sub.event, sub.status))
    (hfound : List.Forall₂ (fun (sub : Submitted) e =>
      (u.shared.queue.promises sub.completion).head? = some e) subs es) :
    List.Forall₂ (fun sub e => u.shared.queue.promises sub.completion = [e] ∧
      e.id = sub.event.id ∧ sub.status.Allows e.status) subs es := by
  obtain ⟨current, taken, -, haccounts⟩ := hkept.worker
  induction hfound with
  | nil => exact .nil
  | @cons sub e subs es hhead htail ih =>
      obtain ⟨hsub, hrest⟩ := List.forall_mem_cons.mp hplaced
      refine .cons ?_ (ih hrest)
      rcases haccounts.promise hsub with hnone | ⟨result, hset, hid, hallows⟩
      · rw [hnone] at hhead
        cases hhead
      · rw [hset] at hhead
        obtain rfl := Option.some.inj hhead
        exact ⟨hset, hid, hallows⟩

/-- Whatever the generator, the actions, other submitters, the worker and a shutdown do: once
the completion of a sequence is ready, it has one result, and this reports what the
producer's thread and the worker have done. -/
theorem sequence_result_exact {last : EventId} {before ls : List (Threads.Label LoopCall LoopChoice)}
    {k p : ℕ} {t u : Threads EventLoopGenerator LoopSection}
    (hproduce : machine.exec (start last) (before ++ [.enter k (.produce p)]) = some t)
    (hrun : machine.exec t ls = some u) (hown : ∀ call, .enter k call ∉ ls)
    (hready : (u.shared.sequences p).promise ≠ []) :
    ∃ result, (u.shared.sequences p).promise = [result] ∧
      result.Reports (program.ranBy k t ls)
        (program.ranBy 0 (start last) (before ++ [.enter k (.produce p)] ++ ls))
        u.shared.queue := by
  have hwhole : machine.exec (start last) (before ++ [.enter k (.produce p)] ++ ls) = some u := by
    rw [Machine.exec_append, hproduce]
    exact hrun
  rw [Machine.exec_append] at hproduce
  obtain ⟨v, hv, hlast⟩ := Option.bind_eq_some_iff.mp hproduce
  have hentered : machine.step v (.enter k (.produce p)) = some t := by
    rw [Machine.exec_cons] at hlast
    obtain ⟨w, hw, hend⟩ := Option.bind_eq_some_iff.mp hlast
    obtain rfl := Option.some.inj hend
    exact hw
  obtain ⟨hconsumed, hpending, hcompletions, hresult, hpromise⟩ :=
    (registered_of_reaches ⟨before, hv⟩ p).consumedBy hentered
  have hstart : ProducerAt p t.shared [] (t.pending k) := by
    rw [hpending]
    exact .generating .returned nofun ⟨⟨hconsumed.numbered, hpromise, hcompletions, nofun, nofun,
      List.Pairwise.nil⟩, hresult, nofun, rfl, rfl, rfl⟩ rfl
  have hruns := Program.runs_ranBy (P := program) (R := Apart p) (I := ConsumedBy k p)
    (Apart.refl p) (fun _ _ _ h h' => h.trans h') (fun _ _ _ h hstep => h.step hstep)
    (fun _ _ _ h hl hstep => apart_step h hl hstep) hown hrun hconsumed
  have hend := hstart.run hruns
  rw [List.nil_append] at hend
  obtain ⟨hkept, -⟩ := failuresKnown_of_run hwhole
  generalize u.pending k = left at hend
  cases hend with
  | generating h hsub hopen hl => exact absurd hopen.promise hready
  | checking name action hopen | scheduling name action hopen => exact absurd hopen.promise hready
  | collecting later hrecorded hbase hsplit hfound hresult hl =>
      exact absurd hrecorded.promise hready
  | settled hbase hplaced hincreasing hfound hset =>
      exact ⟨_, hset, reports_of_consumed hbase hincreasing
        (settled_of_head hkept hplaced hfound) fun n r hr => failed_iff_thrown hwhole hr⟩

/-- A sequence is handed in. -/
def handingIn : List (Threads.Label LoopCall LoopChoice) :=
  .enter 1 .processEventSequence :: List.replicate 4 (.advance 1 .proceed)

/-- Its generator yields one event and returns; the action of the event throws. -/
def oneFailure : List (Threads.Label LoopCall LoopChoice) :=
  ([.advance 2 (.yields [97] 7)] : List (Threads.Label LoopCall LoopChoice)) ++
    List.replicate 4 (.advance 2 .proceed) ++
    ([.advance 0 .proceed, .advance 0 .proceed, .advance 0 (.throws [98]), .advance 0 .proceed] :
      List (Threads.Label LoopCall LoopChoice)) ++
    List.replicate 2 (.advance 2 .proceed)

theorem sequence_result_exact_oneFailure :
    ∃ t u result, machine.exec (start 0) (handingIn ++ [.enter 2 (.produce 0)]) = some t ∧
      machine.exec t oneFailure = some u ∧
      (u.shared.sequences 0).promise = [result] ∧ result.status = .failed ∧
      result.Reports (program.ranBy 2 t oneFailure)
        (program.ranBy 0 (start 0) (handingIn ++ [.enter 2 (.produce 0)] ++ oneFailure))
        u.shared.queue := by
  obtain ⟨t, u, hproduce, hrun, hpromise⟩ :
      ∃ t u, machine.exec (start 0) (handingIn ++ [.enter 2 (.produce 0)]) = some t ∧
        machine.exec t oneFailure = some u ∧
        (u.shared.sequences 0).promise.map SequenceResult.status = [.failed] :=
    ⟨_, _, rfl, rfl, by decide +kernel⟩
  have hready : (u.shared.sequences 0).promise ≠ [] := by
    intro hnone
    rw [hnone] at hpromise
    cases hpromise
  obtain ⟨result, hset, hreports⟩ :=
    sequence_result_exact hproduce hrun (by simp [oneFailure]) hready
  rw [hset] at hpromise
  exact ⟨t, u, result, hproduce, hrun, hset, List.singleton_inj.mp hpromise, hreports⟩

end EventLoopGenerator

end Watchlist.Concurrency
