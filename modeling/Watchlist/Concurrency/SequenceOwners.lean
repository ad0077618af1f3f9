import Watchlist.Concurrency.ShutdownPositions

/-!
Who may touch a sequence. A sequence is numbered when it is handed in; the thread that
does so has its number until the producer is in the vector, from where one thread takes
it and becomes its producer. Apart from the stop request, nobody else touches what the
producer has recorded.
-/

namespace Watchlist.Concurrency

open Transition

namespace LoopSection

/-- The sections that hand the sequence in. -/
def prepares (p : ℕ) : LoopSection → Bool
  | .admitSequence q | .startProducer q => q = p
  | _ => false

/-- The sections of `consume_sequence`. -/
def consumes (p : ℕ) : LoopSection → Bool
  | .nextEvent q | .checkStop q .. | .scheduleNext q .. | .collect q _ | .settleSequence q => q = p
  | _ => false

/-- The sections that read or write more than the stop request of the sequence. -/
def touches (p : ℕ) (a : LoopSection) : Bool := a.prepares p || a.consumes p

end LoopSection

/-- Up to the stop request, the sequence is the same. -/
structure Sequence.Same (old new : Sequence) : Prop where
  started : new.started = old.started
  finished : new.finished = old.finished
  completions : new.completions = old.completions
  result : new.result = old.result
  promise : new.promise = old.promise

theorem Sequence.Same.refl (q : Sequence) : q.Same q := ⟨rfl, rfl, rfl, rfl, rfl⟩

namespace EventLoopGenerator

variable {s s' : EventLoopGenerator} {as rest : List LoopSection} {k p : ℕ} {a : LoopSection}
  {choice : LoopChoice}

/-- Nobody touches the sequence, apart from a new one that is handed in. -/
structure Untouched (p : ℕ) (s s' : EventLoopGenerator) (as : List LoopSection) : Prop where
  same : (s.sequences p).Same (s'.sequences p)
  producers : p ∈ s'.producers → p ∈ s.producers
  numbered : s.nextSequence ≤ s'.nextSequence
  sections : ∀ b ∈ as, b.touches p = true →
    b = .admitSequence p ∧ p = s.nextSequence ∧ s'.nextSequence = p + 1
  once : as.countP (·.prepares p) ≤ 1

theorem Untouched.of_same (hsequences : s'.sequences = s.sequences)
    (hproducers : p ∈ s'.producers → p ∈ s.producers) (hnumber : s'.nextSequence = s.nextSequence)
    (has : ∀ b ∈ as, b.touches p = false) : Untouched p s s' as where
  same := by rw [hsequences]; exact .refl _
  producers := hproducers
  numbered := hnumber.ge
  sections := fun b hb htouch => by
    rw [has b hb] at htouch
    cases htouch
  once := by
    have hnone : as.countP (·.prepares p) = 0 := by
      apply List.countP_eq_zero.mpr
      intro b hb hprepares
      have htouch := has b hb
      rw [LoopSection.touches, hprepares] at htouch
      cases htouch
    omega

/-- Nothing is done, and what is left to do concerns others. -/
theorem Untouched.idle (s : EventLoopGenerator) (has : ∀ b ∈ as, b.touches p = false) :
    Untouched p s s as :=
  .of_same rfl id rfl has

theorem untouched_submission {call : LoopCall} (hcall : call.isSubmission = true)
    (h : s.enter k call = some (s', as)) : Untouched p s s' as := by
  cases call with
  | scheduleEvent name action =>
      cases h
      exact .of_same rfl id rfl (by simp [LoopSection.touches, LoopSection.prepares,
        LoopSection.consumes])
  | processEventSequence =>
      cases h
      refine ⟨.refl _, id, Nat.le_succ _, fun b hb htouch => ?_, ?_⟩
      · simp only [List.mem_cons, List.not_mem_nil, or_false] at hb
        rcases hb with rfl | rfl
        · cases htouch
        · have hp : s.nextSequence = p := by
            simpa [LoopSection.touches, LoopSection.prepares, LoopSection.consumes] using htouch
          exact ⟨by rw [hp], hp.symm, by rw [← hp]⟩
      · rw [List.countP_cons_of_neg (by simp [LoopSection.prepares])]
        exact List.countP_le_length
  | shutdown | produce q => cases hcall

theorem untouched_collecting {q : ℕ} (hq : q ≠ p) (ns : List ℕ) :
    ∀ b ∈ collecting q ns, b.touches p = false := by
  intro b hb
  rcases List.mem_append.mp hb with hb | hb
  · obtain ⟨n, -, rfl⟩ := List.mem_map.mp hb
    simp [LoopSection.touches, LoopSection.prepares, LoopSection.consumes, hq]
  · obtain rfl := List.mem_singleton.mp hb
    simp [LoopSection.touches, LoopSection.prepares, LoopSection.consumes, hq]

theorem sequences_setSequence_of_ne {q : ℕ} (hq : q ≠ p) (s : EventLoopGenerator)
    (value : Sequence) : (s.setSequence q value).sequences p = s.sequences p := by
  rw [sequences_setSequence, if_neg (Ne.symm hq)]

/-- A section that concerns another sequence changes that one, and the queue. -/
theorem Untouched.of_other {q : ℕ} (hq : q ≠ p) {queue : EventQueue} {value : Sequence}
    (has : ∀ b ∈ as, b.touches p = false) :
    Untouched p s ({ s with queue := queue }.setSequence q value) as where
  same := by
    rw [sequences_setSequence_of_ne hq]
    exact .refl _
  producers := id
  numbered := le_refl _
  sections := (Untouched.idle s has).sections
  once := (Untouched.idle s has).once

/-- A section that leaves the sequence alone follows. -/
theorem Untouched.append {b : LoopSection} (h : Untouched p s s' as) (hb : b.touches p = false) :
    Untouched p s s' (as ++ [b]) where
  same := h.same
  producers := h.producers
  numbered := h.numbered
  sections := fun c hc htouch => by
    rcases List.mem_append.mp hc with hc | hc
    · exact h.sections c hc htouch
    · rw [List.mem_singleton.mp hc, hb] at htouch
      cases htouch
  once := by
    have hprepares : b.prepares p = false := (Bool.or_eq_false_iff.mp hb).1
    rw [List.countP_append, List.countP_cons_of_neg (by simp [hprepares])]
    exact h.once

theorem untouched_runSection (ha : a.touches p = false)
    (h : s.runSection k a choice = some (s', as)) : Untouched p s s' as := by
  have hnone : ∀ b ∈ ([] : List LoopSection), b.touches p = false := List.forall_mem_nil _
  cases does_of_run h with
  | schedule =>
      refine .of_same rfl id rfl ?_
      split <;> simp [LoopSection.touches, LoopSection.prepares, LoopSection.consumes]
  | notifyOne | notifyAll =>
      refine .of_same (sequences_notify s) ?_ ?_ hnone
      · unfold notify
        split <;> exact id
      · unfold notify
        split <;> rfl
  | startProducer =>
      refine .of_same rfl (fun hp => (List.mem_append.mp hp).resolve_right fun hp => ?_) rfl hnone
      simp [LoopSection.touches, LoopSection.prepares, List.mem_singleton.mp hp] at ha
  | clearProducers => exact .of_same rfl (by rintro ⟨⟩) rfl hnone
  -- what follows concerns the sequence that the section concerns
  | accept | generatorYields | goesOn =>
      refine .idle s ?_
      simpa [LoopSection.touches, LoopSection.prepares, LoopSection.consumes] using ha
  | @generatorEnds q =>
      have hq : q ≠ p := by
        simpa [LoopSection.touches, LoopSection.prepares, LoopSection.consumes] using ha
      exact .idle s (untouched_collecting hq _)
  | @refuse q | @startFails q | @collect q | @settleSequence q | @nextAccepted q =>
      have hq : q ≠ p := by
        simpa [LoopSection.touches, LoopSection.prepares, LoopSection.consumes] using ha
      refine .of_other hq ?_
      simp [LoopSection.touches, LoopSection.prepares, LoopSection.consumes, hq]
  | @generatorThrows q | @stopRequested q | @nextRefused q =>
      have hq : q ≠ p := by
        simpa [LoopSection.touches, LoopSection.prepares, LoopSection.consumes] using ha
      exact .of_other hq (untouched_collecting hq _)
  | generatorCalls _ hcall henter | actionCalls _ hcall henter =>
      exact (untouched_submission hcall henter).append ha
  | @requestStop q =>
      refine ⟨?_, id, le_refl _, List.forall_mem_nil _, Nat.zero_le _⟩
      rw [sequences_setSequence]
      split
      · rename_i hp
        subst hp
        exact ⟨rfl, rfl, rfl, rfl, rfl⟩
      · exact .refl _
  | _ =>
      refine .of_same rfl id rfl ?_
      simp [shutdownStages, LoopSection.touches, LoopSection.prepares, LoopSection.consumes]

/-! ### The register of sequences -/

/-- A sequence that has no producer yet: where it is, and that nothing has been recorded. -/
structure Registered (p : ℕ) (t : Threads EventLoopGenerator LoopSection) : Prop where
  single : t.Single (·.prepares p)
  numbered : (t.Pending (.admitSequence p) ∨ t.Pending (.startProducer p) ∨
    p ∈ t.shared.producers ∨ (t.shared.sequences p).started = true) → p < t.shared.nextSequence
  /-- a sequence that is being handed in is nowhere else -/
  prepared : ∀ a, t.Pending a → a.prepares p = true →
    (t.shared.sequences p).started = false ∧ p ∉ t.shared.producers ∧
      (t.shared.sequences p).promise = []
  unstarted : (t.shared.sequences p).started = false →
    (∀ a, t.Pending a → a.consumes p = false) ∧ (t.shared.sequences p).completions = [] ∧
      (t.shared.sequences p).result = ⟨.completed, [], none⟩ ∧
      (p ∈ t.shared.producers → (t.shared.sequences p).promise = [])
  unused : t.shared.nextSequence ≤ p → (t.shared.sequences p).promise = []

theorem registered_start (last : EventId) (p : ℕ) : Registered p (start last) := by
  have hpending : ∀ a, (start last).Pending a → a = .awaitEvents := by
    rintro a ⟨k, hk⟩
    by_cases hk0 : k = 0
    · subst hk0
      exact List.mem_singleton.mp hk
    · rw [show (start last).pending k = [] from if_neg hk0] at hk
      cases hk
  constructor
  · refine Threads.single_of_none fun a ha => ?_
    rw [hpending a ha]
    rfl
  · rintro (h | h | h | h)
    · cases hpending _ h
    · cases hpending _ h
    · cases h
    · cases h
  · intro a ha hprepares
    rw [hpending a ha] at hprepares
    cases hprepares
  · intro _
    refine ⟨fun a ha => ?_, rfl, rfl, fun _ => rfl⟩
    rw [hpending a ha]
    rfl
  · exact fun _ => rfl

variable {t u : Threads EventLoopGenerator LoopSection}

/-- The sections that a step leaves to do, apart from a new one, were there before. -/
theorem Registered.become_untouched (h : Registered p t) {rest : List LoopSection}
    (hstep : Untouched p t.shared s' as)
    (hrest : ∀ b ∈ rest, b ∈ t.pending k)
    (hsingle : (∀ b ∈ as, b.prepares p = false) →
      (t.become k s' (as ++ rest)).Single (·.prepares p))
    (hnew : (∀ b, t.Pending b → b.prepares p = false) →
      (t.become k s' (as ++ rest)).Single (·.prepares p)) :
    Registered p (t.become k s' (as ++ rest)) := by
  have hold : ∀ b, (t.become k s' (as ++ rest)).Pending b → b ∈ as ∨ t.Pending b := by
    rintro b ⟨j, hj⟩
    rw [Threads.pending_become] at hj
    split at hj
    · rcases List.mem_append.mp hj with hj | hj
      · exact .inl hj
      · exact .inr ⟨k, hrest b hj⟩
    · exact .inr ⟨j, hj⟩
  -- a sequence that is touched by what follows has just been numbered
  have hfresh : ∀ b ∈ as, b.touches p = true →
      b = .admitSequence p ∧ p = t.shared.nextSequence ∧ s'.nextSequence = p + 1 ∧
        (t.shared.sequences p).promise = [] ∧ (t.shared.sequences p).started = false ∧
          p ∉ t.shared.producers := by
    intro b hb htouch
    obtain ⟨hadmits, hp, hnext⟩ := hstep.sections b hb htouch
    have hlt : ¬p < t.shared.nextSequence := by omega
    refine ⟨hadmits, hp, hnext, h.unused hp.ge, ?_, fun hmem => ?_⟩
    · apply Bool.eq_false_of_not_eq_true
      exact fun hstarted => hlt (h.numbered (.inr (.inr (.inr hstarted))))
    · exact hlt (h.numbered (.inr (.inr (.inl hmem))))
  constructor
  · by_cases has : ∀ b ∈ as, b.prepares p = false
    · exact hsingle has
    · obtain ⟨b, hb, hprepares⟩ : ∃ b ∈ as, b.prepares p = true := by
        simpa using has
      have htouch : b.touches p = true := by
        rw [LoopSection.touches, hprepares, Bool.true_or]
      obtain ⟨-, hp, -⟩ := hfresh b hb htouch
      apply hnew
      intro c hc
      apply Bool.eq_false_of_not_eq_true
      intro hprepares
      have hlt : p < t.shared.nextSequence := by
        cases c <;> simp only [LoopSection.prepares, Bool.false_eq_true, decide_eq_true_eq]
          at hprepares
        · exact h.numbered (.inl (hprepares ▸ hc))
        · exact h.numbered (.inr (.inl (hprepares ▸ hc)))
      omega
  · intro hp
    show p < s'.nextSequence
    have hnumbered := hstep.numbered
    rcases hp with hp | hp | hp | hp
    · rcases hold _ hp with hb | hb
      · obtain ⟨-, -, hnext, -⟩ := hfresh _ hb (by simp [LoopSection.touches,
          LoopSection.prepares])
        omega
      · have := h.numbered (.inl hb)
        omega
    · rcases hold _ hp with hb | hb
      · obtain ⟨-, -, hnext, -⟩ := hfresh _ hb (by simp [LoopSection.touches,
          LoopSection.prepares])
        omega
      · have := h.numbered (.inr (.inl hb))
        omega
    · have := h.numbered (.inr (.inr (.inl (hstep.producers hp))))
      omega
    · have := h.numbered (.inr (.inr (.inr (hstep.same.started ▸ hp))))
      omega
  · intro b hb hprepares
    show (s'.sequences p).started = false ∧ p ∉ s'.producers ∧ (s'.sequences p).promise = []
    rw [hstep.same.started, hstep.same.promise]
    rcases hold b hb with hb | hb
    · obtain ⟨-, -, -, hpromise, hstarted, hproducers⟩ := hfresh b hb (by
        rw [LoopSection.touches, hprepares, Bool.true_or])
      exact ⟨hstarted, fun hp => hproducers (hstep.producers hp), hpromise⟩
    · obtain ⟨hstarted, hproducers, hpromise⟩ := h.prepared b hb hprepares
      exact ⟨hstarted, fun hp => hproducers (hstep.producers hp), hpromise⟩
  · intro hstarted
    show (∀ a, _ → _) ∧ (s'.sequences p).completions = [] ∧ (s'.sequences p).result = _ ∧
      (p ∈ s'.producers → (s'.sequences p).promise = [])
    rw [hstep.same.completions, hstep.same.result, hstep.same.promise]
    obtain ⟨hconsumes, hcompletions, hresult, hpromise⟩ :=
      h.unstarted (hstep.same.started ▸ hstarted)
    refine ⟨fun b hb => ?_, hcompletions, hresult, fun hp => hpromise (hstep.producers hp)⟩
    rcases hold b hb with hb | hb
    · apply Bool.eq_false_of_not_eq_true
      intro hconsumes
      obtain ⟨rfl, -⟩ := hstep.sections b hb (by
        rw [LoopSection.touches, hconsumes, Bool.or_true])
      cases hconsumes
    · exact hconsumes b hb
  · intro hp
    show (s'.sequences p).promise = []
    rw [hstep.same.promise]
    exact h.unused (le_trans hstep.numbered hp)

/-- What the producer of a sequence leaves alone. -/
theorem consumes_runSection (ha : a.consumes p = true) (hp : p < s.nextSequence)
    (h : s.runSection k a choice = some (s', as)) :
    (s'.sequences p).started = (s.sequences p).started ∧ s'.producers = s.producers ∧
      s.nextSequence ≤ s'.nextSequence ∧ ∀ b ∈ as, b.prepares p = false := by
  have hcollecting : ∀ ns, ∀ b ∈ collecting p ns, b.prepares p = false := by
    intro ns b hb
    rcases List.mem_append.mp hb with hb | hb
    · obtain ⟨n, -, rfl⟩ := List.mem_map.mp hb
      rfl
    · obtain rfl := List.mem_singleton.mp hb
      rfl
  cases does_of_run h with
  | generatorEnds | generatorThrows | stopRequested | nextRefused =>
      obtain rfl := of_decide_eq_true ha
      exact ⟨by simp [sequences_setSequence], rfl, le_refl _, hcollecting _⟩
  | generatorYields | goesOn | nextAccepted | collect | settleSequence =>
      obtain rfl := of_decide_eq_true ha
      exact ⟨by simp [sequences_setSequence], rfl, le_refl _, by simp [LoopSection.prepares]⟩
  | @generatorCalls q _ _ bs _ hcall henter =>
      have hsub := untouched_submission (p := p) hcall henter
      obtain ⟨hsame, -⟩ := enter_submission hcall henter
      refine ⟨hsub.same.started, by rw [hsame], hsub.numbered, fun b hb => ?_⟩
      rcases List.mem_append.mp hb with hb | hb
      · apply Bool.eq_false_of_not_eq_true
        intro hprepares
        obtain ⟨-, hnext, -⟩ := hsub.sections b hb (by
          rw [LoopSection.touches, hprepares, Bool.true_or])
        omega
      · rw [List.mem_singleton.mp hb]
        rfl
  | _ => cases ha

theorem Registered.advance_consumes (h : Registered p t) (hat : t.pending k = a :: rest)
    (ha : a.consumes p = true) (hrun : t.shared.runSection k a choice = some (s', as)) :
    Registered p (t.become k s' (as ++ rest)) := by
  have hstarted : (t.shared.sequences p).started = true := by
    by_contra hnot
    have hnone := (h.unstarted (Bool.eq_false_of_not_eq_true hnot)).1 a
      (Threads.pending_head hat)
    rw [ha] at hnone
    cases hnone
  have hp : p < t.shared.nextSequence := h.numbered (.inr (.inr (.inr hstarted)))
  obtain ⟨hsame, hproducers, hnumber, hnew⟩ := consumes_runSection ha hp hrun
  have hstarted' : (s'.sequences p).started = true := hsame.trans hstarted
  constructor
  · refine h.single.become hat ?_
    rw [List.countP_eq_zero.mpr fun b hb => ne_true_of_eq_false (hnew b hb)]
    exact Nat.zero_le _
  · exact fun _ => lt_of_lt_of_le hp hnumber
  · intro b hb hprepares
    rcases Threads.pending_of_become hat hb with hb | hb
    · rw [hnew b hb] at hprepares
      cases hprepares
    · rw [(h.prepared b hb hprepares).1] at hstarted
      cases hstarted
  · intro hnot
    rw [Threads.shared_become, hstarted'] at hnot
    cases hnot
  · intro hle
    rw [Threads.shared_become] at hle
    omega

/-- The one thread that hands the sequence in goes on, or is done with it. -/
theorem Registered.advance_prepares (h : Registered p t) (hat : t.pending k = a :: rest)
    (ha : a.prepares p = true) (hrun : t.shared.runSection k a choice = some (s', as)) :
    Registered p (t.become k s' (as ++ rest)) := by
  have hpending := Threads.pending_head hat
  obtain ⟨hstarted, hproducers, hpromise⟩ := h.prepared a hpending ha
  obtain ⟨hconsumes, hcompletions, hresult, -⟩ := h.unstarted hstarted
  -- the sections that the thread is left with do not consume anything
  have hlater {s' : EventLoopGenerator} : (∀ b ∈ as, b.consumes p = false) →
      ∀ b, (t.become k s' (as ++ rest)).Pending b → b.consumes p = false := by
    intro has b hb
    exact (Threads.pending_of_become hat hb).elim (has b) (hconsumes b)
  -- the promise is set at once, and nobody has the sequence any more
  have hends {promise : List SequenceResult} (hp : p < t.shared.nextSequence)
      (hprepares : ∀ b ∈ as, b.prepares p = false) (hconsumes : ∀ b ∈ as, b.consumes p = false) :
      Registered p (t.become k
        (t.shared.setSequence p { t.shared.sequences p with promise := promise }) (as ++ rest)) := by
    have hnone (s' : EventLoopGenerator) : ∀ b,
        (t.become k s' (as ++ rest)).Pending b → b.prepares p = false :=
      h.single.release hat ha hprepares
    constructor
    · exact Threads.single_of_none (hnone _)
    · exact fun _ => hp
    · intro b hb hprepares
      rw [hnone _ b hb] at hprepares
      cases hprepares
    · intro _
      refine ⟨hlater hconsumes, ?_, ?_, fun hmem => absurd hmem hproducers⟩
      · simpa [sequences_setSequence] using hcompletions
      · simpa [sequences_setSequence] using hresult
    · exact fun hle => absurd hp (not_lt.mpr hle)
  cases does_of_run hrun with
  | accept =>
      obtain rfl := of_decide_eq_true ha
      constructor
      · refine h.single.become hat ?_
        simp [LoopSection.prepares]
      · exact fun _ => h.numbered (.inl hpending)
      · intro b hb hprepares
        exact ⟨hstarted, hproducers, hpromise⟩
      · intro _
        exact ⟨hlater (by simp [LoopSection.consumes]), hcompletions, hresult, fun _ => hpromise⟩
      · exact fun _ => hpromise
  | refuse =>
      obtain rfl := of_decide_eq_true ha
      exact hends (h.numbered (.inl hpending)) (by simp [LoopSection.prepares])
        (by simp [LoopSection.consumes])
  | startFails =>
      obtain rfl := of_decide_eq_true ha
      exact hends (h.numbered (.inr (.inl hpending))) (List.forall_mem_nil _)
        (List.forall_mem_nil _)
  | @startProducer q hchoice =>
      obtain rfl := of_decide_eq_true ha
      have hnone (s' : EventLoopGenerator) : ∀ b,
          (t.become k s' ([] ++ rest)).Pending b → b.prepares q = false :=
        h.single.release hat (by simp [LoopSection.prepares]) (by simp [LoopSection.prepares])
      constructor
      · exact Threads.single_of_none (hnone _)
      · exact fun _ => h.numbered (.inr (.inl hpending))
      · intro b hb hprepares
        rw [hnone _ b hb] at hprepares
        cases hprepares
      · intro _
        exact ⟨hlater (List.forall_mem_nil _), hcompletions, hresult, fun _ => hpromise⟩
      · exact fun _ => hpromise
  | _ => cases ha

theorem untouched_enter {call : LoopCall} (hcall : call ≠ .produce p)
    (h : s.enter k call = some (s', as)) : Untouched p s s' as := by
  cases call with
  | scheduleEvent name action | processEventSequence => exact untouched_submission rfl h
  | shutdown =>
      simp only [enter] at h
      split at h <;> cases h
      refine .of_same rfl id rfl ?_
      simp [LoopSection.touches, LoopSection.prepares, LoopSection.consumes]
  | produce q =>
      have hq : q ≠ p := fun hq => hcall (congrArg LoopCall.produce hq)
      simp only [enter] at h
      split at h <;> cases h
      refine .of_other hq ?_
      simp [LoopSection.touches, LoopSection.prepares, LoopSection.consumes, hq]

/-- A thread becomes the producer of the sequence. -/
theorem enter_produce (h : s.enter k (.produce p) = some (s', as)) :
    p ∈ s.producers ∧ (s.sequences p).started = false ∧ as = [.nextEvent p] ∧
      s' = s.setSequence p { s.sequences p with started := true } := by
  simp only [enter] at h
  split at h <;> cases h
  rename_i hproduce
  exact ⟨hproduce.2.1, hproduce.2.2, rfl, rfl⟩

theorem Registered.enter_produce (h : Registered p t)
    (henter : t.shared.enter k (.produce p) = some (s', as)) :
    Registered p (t.become k s' as) := by
  obtain ⟨hmem, hunstarted, rfl, rfl⟩ := EventLoopGenerator.enter_produce henter
  have hp := h.numbered (.inr (.inr (.inl hmem)))
  have hnone : ∀ b, (t.become k (t.shared.setSequence p { t.shared.sequences p with
      started := true }) [.nextEvent p]).Pending b → b.prepares p = false := by
    intro b hb
    apply Bool.eq_false_of_not_eq_true
    intro hprepares
    rcases Threads.pending_of_enter hb with hb | hb
    · rw [List.mem_singleton.mp hb] at hprepares
      cases hprepares
    · exact (h.prepared b hb hprepares).2.1 hmem
  constructor
  · exact Threads.single_of_none hnone
  · exact fun _ => hp
  · intro b hb hprepares
    rw [hnone b hb] at hprepares
    cases hprepares
  · intro hnot
    simp [sequences_setSequence] at hnot
  · exact fun hle => absurd hp (not_lt.mpr hle)

theorem Registered.step (h : Registered p t) {l : Threads.Label LoopCall LoopChoice}
    (hstep : machine.step t l = some u) : Registered p u := by
  cases Program.moves_of_step hstep with
  | @enter k call s' as hidle hcall =>
      have hk : k ≠ 0 := by
        rintro rfl
        cases hcall
      simp only [program, if_neg hk] at hcall
      by_cases hproduce : call = .produce p
      · subst hproduce
        exact h.enter_produce hcall
      · have hnext := h.become_untouched (untouched_enter hproduce hcall)
          (List.nil_subset (t.pending k))
          (fun has => by
            rw [List.append_nil]
            exact h.single.enter has)
          (fun hnone => by
            rw [List.append_nil]
            exact Threads.Single.acquire hnone (untouched_enter hproduce hcall).once)
        rwa [List.append_nil] at hnext
  | @advance k choice a rest s' as hat hrun =>
      cases hprepares : a.prepares p with
      | true => exact h.advance_prepares hat hprepares hrun
      | false =>
          cases hconsumes : a.consumes p with
          | true => exact h.advance_consumes hat hconsumes hrun
          | false =>
              have htouch : a.touches p = false := by
                rw [LoopSection.touches, hprepares, hconsumes]
                rfl
              have huntouched := untouched_runSection htouch hrun
              refine h.become_untouched huntouched
                (fun b hb => by rw [hat]; exact List.mem_cons_of_mem a hb) (fun has => ?_)
                (fun hnone => Threads.Single.acquire_append hnone hat huntouched.once)
              refine h.single.become hat ?_
              rw [List.countP_eq_zero.mpr fun b hb => ne_true_of_eq_false (has b hb)]
              exact Nat.zero_le _

theorem registered_of_reaches {last : EventId} (h : machine.Reaches (start last) t) (p : ℕ) :
    Registered p t :=
  Machine.invariant (Registered p) (fun _ _ _ ht hstep => ht.step hstep) h
    (registered_start last p)

/-! ### The producer alone -/

/-- The sequence has been started, and no thread but `k` touches it. -/
structure ConsumedBy (k p : ℕ) (t : Threads EventLoopGenerator LoopSection) : Prop where
  started : (t.shared.sequences p).started = true
  numbered : p < t.shared.nextSequence
  others : ∀ j, j ≠ k → ∀ b ∈ t.pending j, b.touches p = false

/-- What no other thread can do to a sequence that has a producer. -/
theorem Untouched.sections_of_lt (h : Untouched p s s' as) (hp : p < s.nextSequence) :
    ∀ b ∈ as, b.touches p = false := by
  intro b hb
  apply Bool.eq_false_of_not_eq_true
  intro htouch
  obtain ⟨-, hnext, -⟩ := h.sections b hb htouch
  omega

theorem ConsumedBy.become_untouched (h : ConsumedBy k p t) {j : ℕ}
    (hstep : Untouched p t.shared s' as) (hrest : ∀ b ∈ rest, b ∈ t.pending j) :
    ConsumedBy k p (t.become j s' (as ++ rest)) where
  started := hstep.same.started.trans h.started
  numbered := lt_of_lt_of_le h.numbered hstep.numbered
  others := by
    intro i hi b hb
    rw [Threads.pending_become] at hb
    split at hb
    · rename_i hij
      rcases List.mem_append.mp hb with hb | hb
      · exact hstep.sections_of_lt h.numbered b hb
      · exact h.others i hi b (hij ▸ hrest b hb)
    · exact h.others i hi b hb

/-- A step of another thread leaves the sequence as it is. -/
theorem ConsumedBy.other_step (h : ConsumedBy k p t) {l : Threads.Label LoopCall LoopChoice}
    (hl : l.thread ≠ k) (hstep : machine.step t l = some u) :
    ConsumedBy k p u ∧ (t.shared.sequences p).Same (u.shared.sequences p) := by
  cases Program.moves_of_step hstep with
  | @enter j call s' as hidle hcall =>
      have hj : j ≠ 0 := by
        rintro rfl
        cases hcall
      simp only [program, if_neg hj] at hcall
      have hproduce : call ≠ .produce p := by
        rintro rfl
        have hnot := (EventLoopGenerator.enter_produce hcall).2.1
        rw [h.started] at hnot
        cases hnot
      have huntouched := untouched_enter hproduce hcall
      have hnext := h.become_untouched huntouched (List.nil_subset (t.pending j))
      rw [List.append_nil] at hnext
      exact ⟨hnext, huntouched.same⟩
  | @advance j choice a rest s' as hat hrun =>
      have htouch : a.touches p = false := h.others j hl a (by rw [hat]; exact List.mem_cons_self)
      have huntouched := untouched_runSection htouch hrun
      refine ⟨h.become_untouched huntouched fun b hb => ?_, huntouched.same⟩
      rw [hat]
      exact List.mem_cons_of_mem a hb

theorem nextSequence_runSection (h : s.runSection k a choice = some (s', as)) :
    s.nextSequence ≤ s'.nextSequence := by
  -- some sequence is not touched by the section
  obtain ⟨q, hq⟩ : ∃ q, a.touches q = false := by
    cases a with
    | admitSequence p | startProducer p | nextEvent p | checkStop p | scheduleNext p | collect p
    | settleSequence p =>
        refine ⟨p + 1, ?_⟩
        simp [LoopSection.touches, LoopSection.prepares, LoopSection.consumes]
    | _ => exact ⟨0, rfl⟩
  exact (untouched_runSection hq h).numbered

theorem ConsumedBy.step (h : ConsumedBy k p t) {l : Threads.Label LoopCall LoopChoice}
    (hstep : machine.step t l = some u) : ConsumedBy k p u := by
  by_cases hl : l.thread = k
  · have hothers : ∀ {s' as}, ∀ j, j ≠ k → ∀ b ∈ (t.become k s' as).pending j,
        b.touches p = false := by
      intro s' as j hj b hb
      rw [Threads.pending_become_of_ne hj] at hb
      exact h.others j hj b hb
    cases Program.moves_of_step hstep with
    | @enter j call s' as hidle hcall =>
        obtain rfl : j = k := hl
        have hj : j ≠ 0 := by
          rintro rfl
          cases hcall
        simp only [program, if_neg hj] at hcall
        have hproduce : call ≠ .produce p := by
          rintro rfl
          have hnot := (EventLoopGenerator.enter_produce hcall).2.1
          rw [h.started] at hnot
          cases hnot
        have huntouched := untouched_enter hproduce hcall
        exact ⟨huntouched.same.started.trans h.started,
          lt_of_lt_of_le h.numbered huntouched.numbered, hothers⟩
    | @advance j choice a rest s' as hat hrun =>
        obtain rfl : j = k := hl
        have hlater := later_runSection hrun
        exact ⟨(hlater.sequences p).started.trans h.started,
          lt_of_lt_of_le h.numbered (nextSequence_runSection hrun), hothers⟩
  · exact (h.other_step hl hstep).1

/-- The thread that has just become the producer is alone with the sequence, and nothing
has been recorded yet. -/
theorem Registered.consumedBy (h : Registered p t)
    (hstep : machine.step t (.enter k (.produce p)) = some u) :
    ConsumedBy k p u ∧ u.pending k = [.nextEvent p] ∧
      (u.shared.sequences p).completions = [] ∧
      (u.shared.sequences p).result = ⟨.completed, [], none⟩ ∧
      (u.shared.sequences p).promise = [] := by
  obtain ⟨s', as, hcall, rfl⟩ : ∃ s' as, t.shared.enter k (.produce p) = some (s', as) ∧
      u = t.become k s' as := by
    have hmoves : program.Moves t (.enter k (.produce p)) u := Program.moves_of_step hstep
    cases hmoves with
    | enter hidle hcall =>
        simp only [program] at hcall
        split at hcall
        · cases hcall
        · exact ⟨_, _, hcall, rfl⟩
  obtain ⟨hmem, hunstarted, rfl, rfl⟩ := EventLoopGenerator.enter_produce hcall
  obtain ⟨hconsumes, hcompletions, hresult, hpromise⟩ := h.unstarted hunstarted
  refine ⟨⟨by simp [sequences_setSequence], h.numbered (.inr (.inr (.inl hmem))), ?_⟩,
    Threads.pending_become_self .., ?_, ?_, ?_⟩
  · intro j hj b hb
    rw [Threads.pending_become_of_ne hj] at hb
    rw [LoopSection.touches, hconsumes b ⟨j, hb⟩, Bool.or_false]
    apply Bool.eq_false_of_not_eq_true
    intro hprepares
    exact (h.prepared b ⟨j, hb⟩ hprepares).2.1 hmem
  · simpa [sequences_setSequence] using hcompletions
  · simpa [sequences_setSequence] using hresult
  · simpa [sequences_setSequence] using hpromise hmem

end EventLoopGenerator

end Watchlist.Concurrency
