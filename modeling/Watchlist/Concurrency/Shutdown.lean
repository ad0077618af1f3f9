import Watchlist.Concurrency.ShutdownPositions

/-!
When `shutdown` comes to its end. It joins the producers with `producers_mutex_`
held. A producer waits for its events, and the worker that runs them may want the
mutex itself, from within an action that hands in another sequence: then nobody can
go on. As long as that does not come about, some thread always can.
-/

namespace Watchlist.Concurrency

open Transition

/-- The stages of a shutdown that is under way. -/
def LoopSection.ofShutdown : LoopSection → Bool
  | .closeAdmission | .notifyAll | .requestStops | .requestStop _ | .joinProducers
  | .joinProducer _ | .clearProducers | .joinWorker | .finishShutdown => true
  | _ => false

namespace EventLoopGenerator

variable {s s' : EventLoopGenerator} {as rest l : List LoopSection} {k : ℕ} {a b : LoopSection}
  {choice : LoopChoice}

/-! ### Reading positions -/

theorem Submission.ofShutdown (h : Submission l) : ∀ b ∈ l, b.ofShutdown = false := by
  cases h <;> simp [LoopSection.ofShutdown]

/-- The worker runs no generator. -/
theorem WorkerAt.not_generates (h : WorkerAt l) (p : ℕ) : .nextEvent p ∉ l := by
  cases h with
  | acting e h hl =>
      subst hl
      cases h <;> simp
  | awaiting | asleep | executing | completing | returned => simp

theorem WorkerAt.ofShutdown (h : WorkerAt l) : ∀ b ∈ l, b.ofShutdown = false := by
  cases h with
  | acting e h hl =>
      subst hl
      intro b hb
      rcases List.mem_append.mp hb with hb | hb
      · exact h.ofShutdown b hb
      · obtain rfl := List.mem_singleton.mp hb
        rfl
  | awaiting | asleep | executing | completing | returned => simp [LoopSection.ofShutdown]

theorem ThreadAt.stage_of_mem (h : ThreadAt s l) (hb : b ∈ l) (hshutdown : b.ofShutdown = true) :
    Stage s l := by
  have hnone : (∀ c ∈ l, c.ofShutdown = false) → Stage s l := by
    intro hall
    rw [hall b hb] at hshutdown
    cases hshutdown
  cases h with
  | stage h => exact h
  | submitting h => exact hnone h.ofShutdown
  | generating p h hl =>
      subst hl
      refine hnone fun c hc => ?_
      rcases List.mem_append.mp hc with hc | hc
      · exact h.ofShutdown c hc
      · obtain rfl := List.mem_singleton.mp hc
        rfl
  | checking | scheduling | entering => exact hnone (by simp [LoopSection.ofShutdown])
  | collecting p ns hns hl =>
      subst hl
      refine hnone fun c hc => ?_
      rcases List.mem_append.mp hc with hc | hc
      · obtain ⟨n, -, rfl⟩ := List.mem_map.mp hc
        rfl
      · obtain rfl := List.mem_singleton.mp hc
        rfl

theorem Stage.finish (h : Stage s l) : .finishShutdown ∈ l := by
  cases h with
  | requesting hclosed ps hl | joining hclosed ps hps hl => simp [hl, afterJoins]
  | _ => simp [afterJoins]

theorem Stage.not_produces (h : Stage s l) (p : ℕ) : ∀ b ∈ l, ¬b.produces p := by
  intro b hb hproduces
  cases b with
  | nextEvent | checkStop | scheduleNext | settleSequence =>
      cases h with
      | requesting hclosed ps hl | joining hclosed ps hps hl => simp [hl, afterJoins] at hb
      | _ => simp [afterJoins] at hb
  | _ => exact hproduces

/-- What follows a wait for `producers_mutex_`. -/
theorem Submission.locks (h : Submission (.lockProducers :: rest)) :
    ∃ p, rest = [.admitSequence p] := by
  cases h with
  | locking p => exact ⟨p, rfl⟩

theorem WorkerAt.locks (h : WorkerAt (.lockProducers :: rest)) :
    ∃ p rest', rest = .admitSequence p :: rest' := by
  cases h with
  | @acting _ sub e h hl =>
      cases sub with
      | nil => cases hl
      | cons b sub =>
          cases hl
          obtain ⟨p, rfl⟩ := h.locks
          exact ⟨p, _, rfl⟩

theorem ThreadAt.locks (h : ThreadAt s (.lockProducers :: rest)) :
    (∃ p rest', rest = .admitSequence p :: rest') ∨
      rest = .closeAdmission :: .notifyAll :: .requestStops :: .joinProducers :: afterJoins := by
  cases h with
  | submitting h =>
      obtain ⟨p, rfl⟩ := h.locks
      exact Or.inl ⟨p, [], rfl⟩
  | @generating _ sub p h hl =>
      cases sub with
      | nil => cases hl
      | cons b sub =>
          cases hl
          obtain ⟨q, rfl⟩ := h.locks
          exact Or.inl ⟨q, _, rfl⟩
  | collecting p ns hns hl => cases ns <;> cases hl
  | stage h =>
      cases h with
      | locking => exact Or.inr rfl
      | requesting hclosed ps hl | joining hclosed ps hps hl => cases ps <;> cases hl

/-- The start of a producer thread is followed by the end of the locked section. -/
theorem Submission.starts {p : ℕ} (h : Submission (.startProducer p :: rest)) :
    rest = [.unlockProducers] := by
  cases h with
  | starting => rfl

theorem WorkerAt.starts {p : ℕ} (h : WorkerAt (.startProducer p :: rest)) :
    ∃ rest', rest = .unlockProducers :: rest' := by
  cases h with
  | @acting _ sub e h hl =>
      cases sub with
      | nil => cases hl
      | cons b sub =>
          cases hl
          rw [h.starts]
          exact ⟨_, rfl⟩

theorem ThreadAt.starts {p : ℕ} (h : ThreadAt s (.startProducer p :: rest)) :
    ∃ rest', rest = .unlockProducers :: rest' := by
  cases h with
  | submitting h => exact ⟨[], h.starts⟩
  | @generating _ sub q h hl =>
      cases sub with
      | nil => cases hl
      | cons b sub =>
          cases hl
          rw [h.starts]
          exact ⟨_, rfl⟩
  | collecting q ns hns hl => cases ns <;> cases hl
  | stage h =>
      cases h with
      | requesting hclosed ps hl | joining hclosed ps hps hl => cases ps <;> cases hl

/-- A shutdown that holds `producers_mutex_` holds it until it clears the producers. -/
theorem Stage.holds_step (h : Stage s (a :: rest)) (hrun : s.runSection k a choice = some (s', as))
    (hlock : .lockProducers ∉ a :: rest) (hclear : .clearProducers ∈ a :: rest)
    (ha : a ≠ .clearProducers) :
    .clearProducers ∈ as ++ rest ∧ .lockProducers ∉ as ++ rest := by
  have hdoes := does_of_run hrun
  cases h with
  | locking => exact absurd List.mem_cons_self hlock
  | closing | notifying hclosed | stopping hclosed =>
      cases hdoes
      simp [afterJoins]
  | requesting hclosed ps hl =>
      cases ps <;> cases hl <;> cases hdoes <;> simp [afterJoins]
  | joining hclosed ps hps hl =>
      cases ps with
      | nil =>
          cases hl
          exact absurd rfl ha
      | cons p ps =>
          cases hl
          cases hdoes
          simp [afterJoins]
  | cleared hclosed | waiting hclosed | finishing hclosed => simp at hclear

/-- Other threads go on from where they are. -/
theorem Stage.later (h : Stage s l)
    (hclosed' : s.queue.accepting = false → s'.queue.accepting = false)
    (hproducers : ∀ p ∈ s.producers, p ∈ s'.producers) : Stage s' l := by
  cases h with
  | locking => exact .locking
  | closing => exact .closing
  | notifying hclosed => exact .notifying (hclosed' hclosed)
  | stopping hclosed => exact .stopping (hclosed' hclosed)
  | requesting hclosed ps hl => exact .requesting (hclosed' hclosed) ps hl
  | joining hclosed ps hps hl =>
      exact .joining (hclosed' hclosed) ps (fun p hp => hproducers p (hps p hp)) hl
  | cleared hclosed => exact .cleared (hclosed' hclosed)
  | waiting hclosed => exact .waiting (hclosed' hclosed)
  | finishing hclosed => exact .finishing (hclosed' hclosed)

theorem ThreadAt.later (h : ThreadAt s l)
    (hcompletions : ∀ p, ∀ n ∈ (s.sequences p).completions, n ∈ (s'.sequences p).completions)
    (hclosed : s.queue.accepting = false → s'.queue.accepting = false)
    (hproducers : .finishShutdown ∈ l → ∀ p ∈ s.producers, p ∈ s'.producers) : ThreadAt s' l := by
  cases h with
  | submitting h => exact .submitting h
  | generating p h hl => exact .generating p h hl
  | checking => exact .checking ..
  | scheduling => exact .scheduling ..
  | collecting p ns hns hl =>
      exact .collecting p ns (fun n hn => hcompletions p n (hns n hn)) hl
  | entering => exact .entering
  | stage h => exact .stage (h.later hclosed (hproducers h.finish))

theorem WorkerAt.not_enters (h : WorkerAt l) : .lockShutdown ∉ l := by
  cases h with
  | acting e h hl =>
      subst hl
      cases h <;> simp
  | awaiting | asleep | executing | completing | returned => simp

theorem ThreadAt.enters (h : ThreadAt s l) (hl : .lockShutdown ∈ l) : l = [.lockShutdown] := by
  cases h with
  | entering => rfl
  | submitting h => cases h <;> simp at hl
  | generating p h hsub =>
      subst hsub
      cases h <;> simp at hl
  | checking | scheduling => simp at hl
  | collecting p ns hns hsub => simp [hsub, Concurrency.collecting] at hl
  | stage h =>
      cases h with
      | requesting hclosed ps hsub | joining hclosed ps hps hsub => simp [hsub, afterJoins] at hl
      | _ => simp [afterJoins] at hl

/-- A producer waits for its own completions. -/
theorem ThreadAt.collects {p n : ℕ} (h : ThreadAt s (.collect p n :: rest)) :
    n ∈ (s.sequences p).completions := by
  cases h with
  | submitting h => cases h
  | @generating _ sub q h hl =>
      cases sub with
      | nil => cases hl
      | cons b sub =>
          cases hl
          cases h
  | collecting q ns hns hl =>
      cases ns with
      | nil => cases hl
      | cons m ns =>
          cases hl
          exact hns n List.mem_cons_self
  | stage h =>
      cases h with
      | requesting hclosed ps hl | joining hclosed ps hps hl => cases ps <;> cases hl

/-! ### The invariant -/

/-- A shutdown holds `producers_mutex_`. -/
def Holds (t : Threads EventLoopGenerator LoopSection) : Prop :=
  ∃ k, .clearProducers ∈ t.pending k ∧ .lockProducers ∉ t.pending k

/-- Some thread holds `producers_mutex_`. -/
def Owned (t : Threads EventLoopGenerator LoopSection) : Prop :=
  (∃ k a rest, t.pending k = a :: rest ∧ a.admits = true) ∨ Holds t

/-- Where the threads are, and what they owe each other. -/
structure Positioned (t : Threads EventLoopGenerator LoopSection) : Prop where
  worker : WorkerAt (t.pending 0)
  returned : t.pending 0 = [] → t.shared.exited = true
  others : ∀ k, k ≠ 0 → ThreadAt t.shared (t.pending k)
  /-- one thread is in a shutdown that does something -/
  single : t.Single LoopSection.isFinish
  locked : t.shared.shutdownLocked = true ↔ t.Pending .finishShutdown
  owner : t.shared.producersLocked = true → Owned t
  /-- a started producer has a thread until it has finished -/
  running : ∀ p, (t.shared.sequences p).started = true → (t.shared.sequences p).finished = false →
    ∃ a, t.Pending a ∧ a.produces p
  asleep : t.pending 0 = [.asleep] → t.shared.sleep ≠ .awake
  /-- the worker does not sleep through the end of the admission -/
  woken : t.shared.sleep = .asleep → t.shared.queue.accepting = true ∨
    ∃ k rest, t.pending k = .notifyAll :: rest
  completions : ∀ p, ∀ n ∈ (t.shared.sequences p).completions,
    n < t.shared.queue.submitted.length

theorem positioned_start (last : EventId) : Positioned (start last) where
  worker := .awaiting
  returned := nofun
  others := by
    intro k hk
    have hidle : (start last).pending k = [] := if_neg hk
    exact hidle ▸ .submitting .returned
  single := by
    refine Threads.single_of_none fun b hb => ?_
    obtain ⟨k, hk⟩ := hb
    by_cases hk0 : k = 0
    · subst hk0
      obtain rfl := List.mem_singleton.mp hk
      rfl
    · rw [show (start last).pending k = [] from if_neg hk0] at hk
      cases hk
  locked := by
    refine iff_of_false (by simp [start, initial]) ?_
    rintro ⟨k, hk⟩
    by_cases hk0 : k = 0
    · subst hk0
      cases List.mem_singleton.mp hk
    · rw [show (start last).pending k = [] from if_neg hk0] at hk
      cases hk
  owner := nofun
  running := nofun
  asleep := fun h => by cases h
  woken := nofun
  completions := nofun

section Steps

variable {t u : Threads EventLoopGenerator LoopSection} {last : EventId}

theorem Positioned.stage_of_mem (h : Positioned t) (hb : b ∈ t.pending k)
    (hshutdown : b.ofShutdown = true) : k ≠ 0 ∧ Stage t.shared (t.pending k) := by
  have hk : k ≠ 0 := by
    rintro rfl
    rw [h.worker.ofShutdown b hb] at hshutdown
    cases hshutdown
  exact ⟨hk, (h.others k hk).stage_of_mem hb hshutdown⟩

theorem Positioned.locks (h : Positioned t) (hat : t.pending k = .lockProducers :: rest) :
    (∃ p rest', rest = .admitSequence p :: rest') ∨ k ≠ 0 ∧
      rest = .closeAdmission :: .notifyAll :: .requestStops :: .joinProducers :: afterJoins := by
  by_cases hk : k = 0
  · subst hk
    have hworker := h.worker
    rw [hat] at hworker
    exact Or.inl hworker.locks
  · have hthread := h.others k hk
    rw [hat] at hthread
    exact hthread.locks.imp_right fun hrest => ⟨hk, hrest⟩

theorem Positioned.starts (h : Positioned t) {p : ℕ}
    (hat : t.pending k = .startProducer p :: rest) : ∃ rest', rest = .unlockProducers :: rest' := by
  by_cases hk : k = 0
  · subst hk
    have hworker := h.worker
    rw [hat] at hworker
    exact hworker.starts
  · have hthread := h.others k hk
    rw [hat] at hthread
    exact hthread.starts

/-! ### Entering a call -/

/-- What entering a call changes. -/
structure Entered (s s' : EventLoopGenerator) (as : List LoopSection) : Prop where
  frame : Frame s s'
  queue : s'.queue = s.queue
  exited : s'.exited = s.exited
  completions : ∀ p, (s'.sequences p).completions = (s.sequences p).completions
  finished : ∀ p, (s'.sequences p).finished = (s.sequences p).finished
  started : ∀ p, (s'.sequences p).started = true →
    (s.sequences p).started = true ∨ .nextEvent p ∈ as
  position : ThreadAt s' as

theorem entered_enter {call : LoopCall} (h : s.enter k call = some (s', as)) : Entered s s' as := by
  have hframe := (frame_enter h).1
  cases call with
  | scheduleEvent name action =>
      cases h
      exact ⟨hframe, rfl, rfl, fun _ => rfl, fun _ => rfl, fun _ => Or.inl,
        .submitting (.scheduling name action)⟩
  | processEventSequence =>
      cases h
      exact ⟨hframe, rfl, rfl, fun _ => rfl, fun _ => rfl, fun _ => Or.inl,
        .submitting (.locking _)⟩
  | shutdown =>
      simp only [enter] at h
      split at h <;> cases h
      exact ⟨hframe, rfl, rfl, fun _ => rfl, fun _ => rfl, fun _ => Or.inl, .entering⟩
  | produce p =>
      simp only [enter] at h
      split at h <;> cases h
      refine ⟨hframe, rfl, rfl, fun q => ?_, fun q => ?_, fun q hq => ?_,
        .generating p .returned rfl⟩
      · rw [sequences_setSequence]
        split
        · rename_i hqp
          rw [hqp]
        · rfl
      · rw [sequences_setSequence]
        split
        · rename_i hqp
          rw [hqp]
        · rfl
      · rw [sequences_setSequence] at hq
        split at hq
        · rename_i hqp
          exact Or.inr (by simp [hqp])
        · exact Or.inl hq

theorem Holds.enter (hidle : t.pending k = []) (h : Holds t) : Holds (t.become k s' as) := by
  obtain ⟨j, hclear, hlock⟩ := h
  have hjk : j ≠ k := by
    rintro rfl
    rw [hidle] at hclear
    cases hclear
  exact ⟨j, by rwa [Threads.pending_become_of_ne hjk], by rwa [Threads.pending_become_of_ne hjk]⟩

theorem Positioned.enter (h : Positioned t) (hk : k ≠ 0) (hidle : t.pending k = [])
    {call : LoopCall} (hcall : t.shared.enter k call = some (s', as)) :
    Positioned (t.become k s' as) := by
  have hentered := entered_enter hcall
  have hfinish := (frame_enter hcall).2
  have hhead : ∀ {j c r}, t.pending j = c :: r → (t.become k s' as).pending j = c :: r := by
    intro j c r hj
    have hjk : j ≠ k := by
      rintro rfl
      rw [hidle] at hj
      cases hj
    rwa [Threads.pending_become_of_ne hjk]
  have hworker : (t.become k s' as).pending 0 = t.pending 0 :=
    Threads.pending_become_of_ne hk.symm ..
  constructor
  · rw [hworker]
    exact h.worker
  · rw [hworker]
    exact fun hreturned => hentered.exited.trans (h.returned hreturned)
  · intro j hj
    by_cases hjk : j = k
    · subst hjk
      rw [Threads.pending_become_self]
      exact hentered.position
    · rw [Threads.pending_become_of_ne hjk]
      refine (h.others j hj).later (fun p n hn => hentered.completions p ▸ hn) ?_ ?_
      · exact fun hclosed => hentered.frame.accepting.trans hclosed
      · exact fun _ p hp => hentered.frame.producers ▸ hp
  · exact h.single.enter hfinish
  · rw [Threads.shared_become, hentered.frame.shutdownLocked, h.locked]
    refine ⟨fun hpending => hpending.enter hidle, fun hpending => ?_⟩
    refine (Threads.pending_of_enter hpending).resolve_left fun hmem => ?_
    exact absurd (hfinish _ hmem) (by simp [LoopSection.isFinish])
  · intro hlocked
    rcases h.owner (hentered.frame.producersLocked ▸ hlocked) with ⟨j, c, r, hj, hadmits⟩ | hholds
    · exact Or.inl ⟨j, c, r, hhead hj, hadmits⟩
    · exact Or.inr (hholds.enter hidle)
  · intro p hstarted hfinished
    rcases hentered.started p hstarted with hold | hnew
    · obtain ⟨c, hc, hproduces⟩ := h.running p hold (hentered.finished p ▸ hfinished)
      exact ⟨c, hc.enter hidle, hproduces⟩
    · exact ⟨_, Threads.pending_enter_of_mem hnew, rfl⟩
  · rw [hworker]
    exact fun hasleep => hentered.frame.sleep.symm ▸ h.asleep hasleep
  · intro hsleep
    rcases h.woken (hentered.frame.sleep ▸ hsleep) with hopen | ⟨j, r, hj⟩
    · exact Or.inl (hentered.frame.accepting.trans hopen)
    · exact Or.inr ⟨j, r, hhead hj⟩
  · intro p n hn
    rw [Threads.shared_become, hentered.queue]
    exact h.completions p n (hentered.completions p ▸ hn)

/-! ### Running a section -/

/-- The thread that holds `producers_mutex_` in a shutdown keeps it. -/
theorem Holds.advance (hp : Positioned t) (hat : t.pending k = a :: rest)
    (hrun : t.shared.runSection k a choice = some (s', as)) (ha : a ≠ .clearProducers)
    (h : Holds t) : Holds (t.become k s' (as ++ rest)) := by
  obtain ⟨j, hclear, hlock⟩ := h
  by_cases hjk : j = k
  · subst hjk
    have hstage := (hp.stage_of_mem hclear rfl).2
    rw [hat] at hstage hclear hlock
    refine ⟨j, ?_⟩
    rw [Threads.pending_become_self]
    exact hstage.holds_step hrun hlock hclear ha
  · exact ⟨j, by rwa [Threads.pending_become_of_ne hjk], by rwa [Threads.pending_become_of_ne hjk]⟩

/-- Whoever takes `producers_mutex_` holds it next. -/
theorem Positioned.owned_of_lock (h : Positioned t) (hat : t.pending k = .lockProducers :: rest) :
    Owned (t.become k s' rest) := by
  rcases h.locks hat with ⟨p, rest', rfl⟩ | ⟨_, rfl⟩
  · exact Or.inl ⟨k, _, rest', Threads.pending_become_self .., rfl⟩
  · refine Or.inr ⟨k, ?_⟩
    rw [Threads.pending_become_self]
    simp [afterJoins]

theorem Owned.advance (hp : Positioned t) (hat : t.pending k = a :: rest)
    (hrun : t.shared.runSection k a choice = some (s', as)) (hunlock : a ≠ .unlockProducers)
    (hclear : a ≠ .clearProducers) (h : Owned t) : Owned (t.become k s' (as ++ rest)) := by
  rcases h with ⟨j, c, r, hj, hadmits⟩ | hholds
  · by_cases hjk : j = k
    · subst hjk
      obtain ⟨rfl, rfl⟩ := List.cons.inj (hat.symm.trans hj)
      refine Or.inl ⟨j, ?_⟩
      rw [Threads.pending_become_self]
      cases does_of_run hrun with
      | accept | refuse => exact ⟨_, _, rfl, rfl⟩
      | startProducer | startFails =>
          obtain ⟨rest', rfl⟩ := hp.starts hat
          exact ⟨_, _, rfl, rfl⟩
      | unlockProducers => exact absurd rfl hunlock
      | _ => cases hadmits
    · exact Or.inl ⟨j, c, r, (Threads.pending_become_of_ne hjk ..).trans hj, hadmits⟩
  · exact Or.inr (hholds.advance hp hat hrun hclear)

theorem Positioned.owner_advance (h : Positioned t) (hat : t.pending k = a :: rest)
    (hrun : t.shared.runSection k a choice = some (s', as)) (hlocked : s'.producersLocked = true) :
    Owned (t.become k s' (as ++ rest)) := by
  rcases producersLocked_runSection hrun hlocked with rfl | ⟨hlocked', hunlock, hclear⟩
  · cases does_of_run hrun
    exact h.owned_of_lock hat
  · exact (h.owner hlocked').advance h hat hrun hunlock hclear

theorem Positioned.running_advance (h : Positioned t) (hat : t.pending k = a :: rest)
    (hrun : t.shared.runSection k a choice = some (s', as)) {p : ℕ}
    (hstarted : (s'.sequences p).started = true) (hfinished : (s'.sequences p).finished = false) :
    ∃ c, (t.become k s' (as ++ rest)).Pending c ∧ c.produces p := by
  have hlater := (later_runSection hrun).sequences p
  have hopen : (t.shared.sequences p).finished = false := by
    apply Bool.eq_false_of_not_eq_true
    intro hold
    rw [hlater.finished hold] at hfinished
    cases hfinished
  obtain ⟨c, hc, hproduces⟩ := h.running p (hlater.started ▸ hstarted) hopen
  rcases hc.become hat with rfl | hc
  · rcases produces_runSection hproduces hrun with ⟨c, hmem, hc⟩ | hdone
    · exact ⟨c, Threads.pending_become_of_mem hmem, hc⟩
    · rw [hdone] at hfinished
      cases hfinished
  · exact ⟨c, hc, hproduces⟩

/-- After `closeAdmission` comes the notification. -/
theorem Positioned.closes (h : Positioned t) (hat : t.pending k = .closeAdmission :: rest) :
    ∃ rest', rest = .notifyAll :: rest' := by
  have hstage := (h.stage_of_mem (b := .closeAdmission) (by rw [hat]; exact List.mem_cons_self)
    rfl).2
  rw [hat] at hstage
  cases hstage with
  | closing => exact ⟨_, rfl⟩
  | requesting hclosed ps hl | joining hclosed ps hps hl => cases ps <;> cases hl

theorem Positioned.woken_advance (h : Positioned t) (hat : t.pending k = a :: rest)
    (hrun : t.shared.runSection k a choice = some (s', as)) (hsleep : s'.sleep = .asleep) :
    s'.queue.accepting = true ∨
      ∃ j r, (t.become k s' (as ++ rest)).pending j = .notifyAll :: r := by
  rcases sleep_runSection hrun hsleep with hopen | ⟨hbefore, hnotify, haccepting | rfl⟩
  · exact Or.inl hopen
  · rcases h.woken hbefore with hopen | ⟨j, r, hj⟩
    · exact Or.inl (haccepting.trans hopen)
    · refine Or.inr ⟨j, r, ?_⟩
      rwa [Threads.pending_become_of_ne]
      rintro rfl
      exact hnotify (List.cons.inj (hat.symm.trans hj)).1
  · obtain ⟨rest', rfl⟩ := h.closes hat
    cases hrun
    exact Or.inr ⟨k, rest', Threads.pending_become_self ..⟩

theorem isFinish_iff : b.isFinish = true ↔ b = .finishShutdown := by
  cases b <;> simp [LoopSection.isFinish]

/-- `shutdown_mutex_` is held by the one thread that has still to finish a shutdown. -/
theorem Positioned.token_advance (h : Positioned t) (hat : t.pending k = a :: rest)
    (hrun : t.shared.runSection k a choice = some (s', as)) :
    (t.become k s' (as ++ rest)).Single LoopSection.isFinish ∧
      (s'.shutdownLocked = true ↔ (t.become k s' (as ++ rest)).Pending .finishShutdown) := by
  have hnone : ∀ {t : Threads EventLoopGenerator LoopSection},
      ¬t.Pending .finishShutdown ↔ ∀ b, t.Pending b → b.isFinish = false := by
    intro t
    constructor
    · intro hnot b hb
      apply Bool.eq_false_of_not_eq_true
      rintro hfinish
      exact hnot (isFinish_iff.mp hfinish ▸ hb)
    · intro hall hpending
      cases hall _ hpending
  have hkeep : as.countP LoopSection.isFinish = 0 → s'.shutdownLocked = t.shared.shutdownLocked →
      a ≠ .finishShutdown → (t.become k s' (as ++ rest)).Single LoopSection.isFinish ∧
        (s'.shutdownLocked = true ↔ (t.become k s' (as ++ rest)).Pending .finishShutdown) := by
    intro hcount hlocked ha
    refine ⟨h.single.become hat (by omega), ?_⟩
    rw [hlocked, h.locked]
    constructor
    · intro hpending
      exact (hpending.become hat).resolve_left ha.symm
    · intro hpending
      refine (Threads.pending_of_become hat hpending).resolve_left fun hmem => ?_
      exact List.countP_eq_zero.mp hcount _ hmem rfl
  by_cases hlock : a = .lockShutdown
  · subst hlock
    cases does_of_run hrun with
    | shutdownAgain => exact hkeep rfl rfl (by simp)
    | lockShutdown hfree =>
        have hnobody : ¬t.Pending .finishShutdown := by
          rw [← h.locked, hfree]
          simp
        refine ⟨Threads.Single.acquire_append (hnone.mp hnobody) hat (by decide), ?_⟩
        exact iff_of_true rfl (Threads.pending_become_of_mem (by simp [shutdownStages]))
  · by_cases hfinish : a = .finishShutdown
    · subst hfinish
      cases hrun
      have hreleased : ∀ b, (t.become k { t.shared with
          shutdownComplete := true, shutdownLocked := false } ([] ++ rest)).Pending b →
          b.isFinish = false := h.single.release hat rfl (by simp)
      exact ⟨Threads.single_of_none hreleased, iff_of_false (by simp) (hnone.mpr hreleased)⟩
    · refine hkeep ?_ (shutdownLocked_runSection hlock hfinish hrun) hfinish
      rw [List.countP_eq_zero]
      intro b hb
      simp [isFinish_runSection hlock hrun b hb]

theorem Positioned.others_advance (h : Positioned t) (hat : t.pending k = a :: rest)
    (hrun : t.shared.runSection k a choice = some (s', as)) {j : ℕ} (hj : j ≠ 0) :
    ThreadAt s' ((t.become k s' (as ++ rest)).pending j) := by
  have hlater := later_runSection hrun
  by_cases hjk : j = k
  · subst hjk
    have hthread := h.others j hj
    rw [hat] at hthread
    rw [Threads.pending_become_self]
    exact hthread.step hrun
  · rw [Threads.pending_become_of_ne hjk]
    refine (h.others j hj).later (fun p => (hlater.sequences p).completions) hlater.queue.closed ?_
    intro hfinish
    -- two threads in a shutdown would both have `shutdown_mutex_`
    refine producers_runSection ?_ hrun
    rintro rfl
    have hmem : .clearProducers ∈ t.pending k := by rw [hat]; exact List.mem_cons_self
    have hmine := (h.stage_of_mem hmem rfl).2.finish
    exact hjk (h.single.alone j k _ _ hfinish hmine rfl rfl)

theorem Positioned.advance (h : Positioned t) (hkept : Kept last t)
    (hat : t.pending k = a :: rest) (hrun : t.shared.runSection k a choice = some (s', as)) :
    Positioned (t.become k s' (as ++ rest)) := by
  have hlater := later_runSection hrun
  obtain ⟨hsingle, hlocked⟩ := h.token_advance hat hrun
  have hworker : WorkerAt ((t.become k s' (as ++ rest)).pending 0) ∧
      ((t.become k s' (as ++ rest)).pending 0 = [] → s'.exited = true) ∧
      ((t.become k s' (as ++ rest)).pending 0 = [.asleep] → s'.sleep ≠ .awake) := by
    by_cases hk : k = 0
    · subst hk
      have hworker := h.worker
      rw [hat] at hworker
      rw [Threads.pending_become_self]
      obtain ⟨hnext, hexited, hsleep⟩ := hworker.step hrun
      exact ⟨hnext, hexited, fun hl => by simp [hsleep hl]⟩
    · have ha : a.ofWorker = false := hkept.others k hk a (by rw [hat]; exact List.mem_cons_self)
      rw [Threads.pending_become_of_ne (Ne.symm hk)]
      refine ⟨h.worker, fun hreturned => ?_, fun hasleep hawake => ?_⟩
      · exact (outside_runSection ha hrun).exited.trans (h.returned hreturned)
      · refine h.asleep hasleep (awake_runSection ?_ hrun hawake)
        rintro rfl
        cases ha
  exact {
    worker := hworker.1
    returned := hworker.2.1
    others := fun j hj => h.others_advance hat hrun hj
    single := hsingle
    locked := hlocked
    owner := h.owner_advance hat hrun
    running := fun p => h.running_advance hat hrun
    asleep := hworker.2.2
    woken := h.woken_advance hat hrun
    completions := by
      intro p n hn
      rcases completions_runSection hrun hn with hold | ⟨_, _, _, hnew, _⟩
      · exact lt_of_lt_of_le (h.completions p n hold) hlater.queue.submitted
      · exact hnew }

/-- The step lemma. -/
theorem Positioned.step (h : Positioned t) (hkept : Kept last t)
    {l : Threads.Label LoopCall LoopChoice} (hstep : machine.step t l = some u) :
    Positioned u := by
  cases Program.moves_of_step hstep with
  | @enter k call s' as hidle hcall =>
      have hk : k ≠ 0 := by
        rintro rfl
        cases hcall
      simp only [program, if_neg hk] at hcall
      exact h.enter hk hidle hcall
  | advance hat hrun => exact h.advance hkept hat hrun

/-! ### What must not come together -/

/-- The worker wants `producers_mutex_`: an action hands in a sequence. -/
def WorkerWaits (t : Threads EventLoopGenerator LoopSection) : Prop :=
  ∃ rest, t.pending 0 = .lockProducers :: rest

/-- A producer has an event that has not been completed. -/
def Owed (t : Threads EventLoopGenerator LoopSection) : Prop :=
  ∃ p, ∃ n ∈ (t.shared.sequences p).completions, t.shared.queue.promises n = []

/-- A producer wants `producers_mutex_`: its generator hands in a sequence. -/
def GeneratorWaits (t : Threads EventLoopGenerator LoopSection) : Prop :=
  ∃ k p rest, t.pending k = .lockProducers :: rest ∧ .nextEvent p ∈ rest

/-- A shutdown waits, directly or through the worker, for a thread that waits for it. -/
def Entangled (t : Threads EventLoopGenerator LoopSection) : Prop :=
  Holds t ∧ (WorkerWaits t ∧ Owed t ∨ GeneratorWaits t)

/-- The steps that tie the knot: a shutdown takes `producers_mutex_`, an action or a
generator asks for it, or a producer gets one more event accepted. -/
def Entangles (t : Threads EventLoopGenerator LoopSection) :
    Threads.Label LoopCall LoopChoice → Prop
  | .enter .. => False
  | .advance k choice =>
      match t.pending k, choice with
      | .lockProducers :: .closeAdmission :: _, _ => WorkerWaits t ∧ Owed t ∨ GeneratorWaits t
      | .inAction _ :: _, .calls .processEventSequence => Holds t ∧ Owed t
      | .nextEvent _ :: _, .calls .processEventSequence => Holds t
      | .scheduleNext _ name action :: _, _ =>
          Holds t ∧ WorkerWaits t ∧ (t.shared.queue.schedule name action).2.status = .accepted
      | _, _ => False

theorem Stage.holds_before (h : Stage s (a :: rest))
    (hrun : s.runSection k a choice = some (s', as)) (hclear : .clearProducers ∈ as ++ rest) :
    a = .lockProducers ∧ (∃ rest', rest = .closeAdmission :: rest') ∨
      .clearProducers ∈ a :: rest ∧ .lockProducers ∉ a :: rest := by
  cases h with
  | locking => exact Or.inl ⟨rfl, _, rfl⟩
  | closing | notifying hclosed | stopping hclosed => exact Or.inr (by simp [afterJoins])
  | requesting hclosed ps hl | joining hclosed ps hps hl =>
      refine Or.inr ?_
      rw [hl]
      simp [afterJoins]
  | cleared hclosed | waiting hclosed | finishing hclosed =>
      cases does_of_run hrun
      simp at hclear

/-- A shutdown starts to hold `producers_mutex_` by taking it. -/
theorem holds_of_advance (hp : Positioned t) (hkept : Kept last t) (hat : t.pending k = a :: rest)
    (hrun : t.shared.runSection k a choice = some (s', as))
    (h : Holds (t.become k s' (as ++ rest))) :
    Holds t ∨ a = .lockProducers ∧ k ≠ 0 ∧ ∃ rest', rest = .closeAdmission :: rest' := by
  have hafter := hp.advance hkept hat hrun
  obtain ⟨j, hclear, hlock⟩ := h
  by_cases hjk : j = k
  · subst hjk
    obtain ⟨hj, hstage⟩ := hafter.stage_of_mem hclear rfl
    have hfinish := hstage.finish
    rw [Threads.pending_become_self] at hclear hlock hfinish
    have hbefore : .finishShutdown ∈ a :: rest := by
      rcases List.mem_append.mp hfinish with hnew | hold
      · by_cases ha : a = .lockShutdown
        · subst ha
          cases does_of_run hrun with
          | shutdownAgain => cases hnew
          | lockShutdown => exact absurd (List.mem_append_left _ (by simp [shutdownStages])) hlock
        · cases isFinish_runSection ha hrun _ hnew
      · exact List.mem_cons_of_mem _ hold
    have hstage' := (hp.stage_of_mem (hat ▸ hbefore) rfl).2
    rw [hat] at hstage'
    rcases hstage'.holds_before hrun hclear with ⟨rfl, hrest⟩ | hholds
    · exact Or.inr ⟨rfl, hj, hrest⟩
    · exact Or.inl ⟨j, hat ▸ hholds⟩
  · rw [Threads.pending_become_of_ne hjk] at hclear hlock
    exact Or.inl ⟨j, hclear, hlock⟩

/-- Within a submission the wait for `producers_mutex_` comes first. -/
theorem Submission.not_waits_after {sub r : List LoopSection} (h : Submission (a :: sub))
    (hrun : s.runSection k a choice = some (s', as)) (hb : b ≠ .lockProducers) :
    as ++ (sub ++ [b]) ≠ .lockProducers :: r := by
  have hbase : [b] ≠ .lockProducers :: r := fun heq => hb (List.cons.inj heq).1
  have hdoes := does_of_run hrun
  cases h with
  | scheduling name action =>
      cases hdoes
      split
      · rintro ⟨⟩
      · exact hbase
  | notifying | unlocking =>
      cases hdoes
      exact hbase
  | locking p | admitting p | starting p => cases hdoes <;> rintro ⟨⟩

/-- A call of the application waits for `producers_mutex_` when it hands in a sequence. -/
theorem waits_of_enter {call : LoopCall} {bs r : List LoopSection}
    (hcall : call.isSubmission = true) (henter : s.enter k call = some (s', bs))
    (hwaits : bs ++ [b] = .lockProducers :: r) : call = .processEventSequence := by
  rcases (enter_submission hcall henter).2 with ⟨name, action, rfl⟩ | ⟨hprocess, _⟩
  · cases hwaits
  · exact hprocess

/-- The worker starts to want `producers_mutex_` when an action hands in a sequence. -/
theorem WorkerAt.waits_after (h : WorkerAt (a :: rest))
    (hrun : s.runSection k a choice = some (s', as)) {r : List LoopSection}
    (hwaits : as ++ rest = .lockProducers :: r) :
    (∃ e, a = .inAction e) ∧ choice = .calls .processEventSequence := by
  have hdoes := does_of_run hrun
  cases h with
  | awaiting | asleep | executing e | completing e result => cases hdoes <;> cases hwaits
  | @acting _ sub e h hl =>
      cases sub with
      | cons b sub =>
          cases hl
          exact absurd hwaits (h.not_waits_after hrun (by simp))
      | nil =>
          cases hl
          cases hdoes with
          | actionReturns | actionThrows => cases hwaits
          | actionCalls hchoice hcall henter =>
              rw [List.append_nil] at hwaits
              rw [hchoice, waits_of_enter hcall henter hwaits]
              exact ⟨⟨e, rfl⟩, rfl⟩

theorem collecting_ne {p : ℕ} {ns : List ℕ} {r : List LoopSection} :
    collecting p ns ++ [] ≠ .lockProducers :: r := by
  cases ns <;> rintro ⟨⟩

theorem Stage.not_waits_after {r : List LoopSection} (h : Stage s (a :: rest))
    (hrun : s.runSection k a choice = some (s', as)) : as ++ rest ≠ .lockProducers :: r := by
  have hdoes := does_of_run hrun
  cases h with
  | locking | closing | notifying hclosed | cleared hclosed | waiting hclosed | finishing hclosed =>
      cases hdoes
      rintro ⟨⟩
  | stopping hclosed =>
      cases hdoes
      cases s.producers <;> rintro ⟨⟩
  | requesting hclosed ps hl =>
      cases ps with
      | nil =>
          cases hl
          cases hdoes
          cases s.producers <;> rintro ⟨⟩
      | cons p ps =>
          cases hl
          cases hdoes
          cases ps <;> rintro ⟨⟩
  | joining hclosed ps hps hl =>
      cases ps with
      | nil =>
          cases hl
          cases hdoes
          rintro ⟨⟩
      | cons p ps =>
          cases hl
          cases hdoes
          cases ps <;> rintro ⟨⟩

/-- A generator starts to want it in the same way. -/
theorem ThreadAt.waits_after (h : ThreadAt s (a :: rest))
    (hrun : s.runSection k a choice = some (s', as)) {p : ℕ} {r : List LoopSection}
    (hwaits : as ++ rest = .lockProducers :: r) (hp : .nextEvent p ∈ r) :
    (∃ q, a = .nextEvent q) ∧ choice = .calls .processEventSequence := by
  have hdoes := does_of_run hrun
  cases h with
  | submitting h =>
      have hafter := h.step hrun
      rw [hwaits] at hafter
      obtain ⟨q, rfl⟩ := hafter.locks
      simp at hp
  | @generating _ sub q h hl =>
      cases sub with
      | cons b sub =>
          cases hl
          exact absurd hwaits (h.not_waits_after hrun (by simp))
      | nil =>
          cases hl
          cases hdoes with
          | generatorEnds | generatorThrows => exact absurd hwaits collecting_ne
          | generatorYields => cases hwaits
          | generatorCalls hchoice hcall henter =>
              rw [List.append_nil] at hwaits
              rw [hchoice, waits_of_enter hcall henter hwaits]
              exact ⟨⟨q, rfl⟩, rfl⟩
  | checking q name action =>
      cases hdoes with
      | stopRequested => exact absurd hwaits collecting_ne
      | goesOn => cases hwaits
  | scheduling q name action =>
      cases hdoes with
      | nextAccepted => cases hwaits
      | nextRefused => exact absurd hwaits collecting_ne
  | collecting q ns hns hl =>
      cases ns with
      | nil =>
          cases hl
          cases hdoes
          cases hwaits
      | cons n ns =>
          cases hl
          cases hdoes
          cases ns <;> cases hwaits
  | entering =>
      cases hdoes with
      | shutdownAgain => cases hwaits
      | lockShutdown =>
          cases hwaits
          simp at hp
  | stage h => exact absurd hwaits (h.not_waits_after hrun)

/-! ### The invariant of the runs that tie no knot -/

theorem WorkerWaits.advance (hworker : WorkerAt (t.pending 0)) (hat : t.pending k = a :: rest)
    (hrun : t.shared.runSection k a choice = some (s', as))
    (h : WorkerWaits (t.become k s' (as ++ rest))) :
    WorkerWaits t ∧ k ≠ 0 ∨
      k = 0 ∧ (∃ e, a = .inAction e) ∧ choice = .calls .processEventSequence := by
  obtain ⟨r, hr⟩ := h
  by_cases hk : k = 0
  · subst hk
    rw [hat] at hworker
    rw [Threads.pending_become_self] at hr
    exact Or.inr ⟨rfl, hworker.waits_after hrun hr⟩
  · rw [Threads.pending_become_of_ne (Ne.symm hk)] at hr
    exact Or.inl ⟨⟨r, hr⟩, hk⟩

theorem GeneratorWaits.advance (hp : Positioned t) (hat : t.pending k = a :: rest)
    (hrun : t.shared.runSection k a choice = some (s', as))
    (h : GeneratorWaits (t.become k s' (as ++ rest))) :
    GeneratorWaits t ∨ (∃ q, a = .nextEvent q) ∧ choice = .calls .processEventSequence := by
  obtain ⟨j, p, r, hr, hmem⟩ := h
  by_cases hjk : j = k
  · subst hjk
    rw [Threads.pending_become_self] at hr
    by_cases hj : j = 0
    · -- the worker produces nothing
      subst hj
      have hworker := hp.worker
      rw [hat] at hworker
      have hafter := (hworker.step hrun).1
      rw [hr] at hafter
      exact absurd (List.mem_cons_of_mem _ hmem) (hafter.not_generates p)
    · have hthread := hp.others j hj
      rw [hat] at hthread
      exact Or.inr (hthread.waits_after hrun hr hmem)
  · rw [Threads.pending_become_of_ne hjk] at hr
    exact Or.inl ⟨j, p, r, hr, hmem⟩

theorem Owed.advance (hrun : t.shared.runSection k a choice = some (s', as))
    (h : Owed (t.become k s' (as ++ rest))) :
    Owed t ∨ ∃ p name action, a = .scheduleNext p name action ∧
      (t.shared.queue.schedule name action).2.status = .accepted := by
  obtain ⟨p, n, hn, hpromise⟩ := h
  rcases completions_runSection hrun hn with hold | ⟨name, action, ha, _, haccepted⟩
  · exact Or.inl ⟨p, n, hold, (later_runSection hrun).queue.promises n hpromise⟩
  · exact Or.inr ⟨p, name, action, ha, haccepted hpromise⟩

/-- A run gets entangled by a step that ties the knot. -/
theorem not_entangled_advance (hp : Positioned t) (hkept : Kept last t)
    (hat : t.pending k = a :: rest) (hrun : t.shared.runSection k a choice = some (s', as))
    (hnot : ¬Entangles t (.advance k choice)) (h : ¬Entangled t) :
    ¬Entangled (t.become k s' (as ++ rest)) := by
  rintro ⟨hholds, hwaits⟩
  simp only [Entangles, hat] at hnot
  rcases holds_of_advance hp hkept hat hrun hholds with hheld | ⟨rfl, hk, rest', rfl⟩
  · -- the mutex has been held before: who has started to wait, or what is newly owed?
    rcases hwaits with ⟨hworker, howed⟩ | hgenerator
    · rcases hworker.advance hp.worker hat hrun with ⟨hworker, hk⟩ | ⟨rfl, ⟨e, rfl⟩, rfl⟩
      · rcases howed.advance hrun with howed | ⟨p, name, action, rfl, haccepted⟩
        · exact h ⟨hheld, Or.inl ⟨hworker, howed⟩⟩
        · cases choice <;> exact hnot ⟨hheld, hworker, haccepted⟩
      · rcases howed.advance hrun with howed | ⟨p, name, action, hne, _⟩
        · exact hnot ⟨hheld, howed⟩
        · cases hne
    · rcases hgenerator.advance hp hat hrun with hgenerator | ⟨⟨q, rfl⟩, rfl⟩
      · exact h ⟨hheld, Or.inr hgenerator⟩
      · exact hnot hheld
  · -- a shutdown takes the mutex
    have hbefore : WorkerWaits t ∧ Owed t ∨ GeneratorWaits t := by
      rcases hwaits with ⟨hworker, howed⟩ | hgenerator
      · refine Or.inl ⟨?_, ?_⟩
        · rcases hworker.advance hp.worker hat hrun with ⟨hworker, _⟩ | ⟨_, ⟨e, he⟩, _⟩
          · exact hworker
          · cases he
        · rcases howed.advance hrun with howed | ⟨p, name, action, hne, _⟩
          · exact howed
          · cases hne
      · rcases hgenerator.advance hp hat hrun with hgenerator | ⟨⟨q, hq⟩, _⟩
        · exact Or.inr hgenerator
        · cases hq
    cases choice <;> exact hnot hbefore

theorem not_entangled_enter (hk : k ≠ 0) (hidle : t.pending k = []) {call : LoopCall}
    (hcall : t.shared.enter k call = some (s', as)) (h : ¬Entangled t) :
    ¬Entangled (t.become k s' as) := by
  have hentered := entered_enter hcall
  have hold : ∀ {j}, j ≠ k → (t.become k s' as).pending j = t.pending j :=
    fun hjk => Threads.pending_become_of_ne hjk ..
  have hnew : ∀ {c r}, as = c :: r → ∀ b ∈ r, ∃ p, b = .admitSequence p := by
    intro c r has b hb
    cases call with
    | scheduleEvent name action | processEventSequence =>
        cases hcall
        cases has
        simp at hb
        try exact ⟨_, hb⟩
    | shutdown | produce p =>
        simp only [EventLoopGenerator.enter] at hcall
        split at hcall <;> cases hcall
        cases has
        cases hb
  have hclear : .clearProducers ∉ as := by
    intro hmem
    have hstage := hentered.position.stage_of_mem hmem rfl
    have hfinish := (frame_enter hcall).2 _ hstage.finish
    cases hfinish
  rintro ⟨⟨j, hj, hlock⟩, hwaits⟩
  have hjk : j ≠ k := by
    rintro rfl
    rw [Threads.pending_become_self] at hj
    exact hclear hj
  rw [hold hjk] at hj hlock
  refine h ⟨⟨j, hj, hlock⟩, ?_⟩
  rcases hwaits with ⟨⟨r, hr⟩, p, n, hn, hpromise⟩ | ⟨i, p, r, hr, hmem⟩
  · refine Or.inl ⟨⟨r, hold hk.symm ▸ hr⟩, p, n, hentered.completions p ▸ hn, ?_⟩
    rw [Threads.shared_become, hentered.queue] at hpromise
    exact hpromise
  · refine Or.inr ⟨i, p, r, ?_, hmem⟩
    rwa [hold] at hr
    rintro rfl
    rw [Threads.pending_become_self] at hr
    obtain ⟨q, hq⟩ := hnew hr _ hmem
    cases hq

/-- What holds in the runs in which no step ties the knot. -/
structure Untangled (last : EventId) (t : Threads EventLoopGenerator LoopSection) : Prop where
  kept : Kept last t
  positioned : Positioned t
  free : ¬Entangled t

theorem untangled_start (last : EventId) : Untangled last (start last) where
  kept := kept_start last
  positioned := positioned_start last
  free := by
    rintro ⟨⟨k, hk, _⟩, _⟩
    by_cases hk0 : k = 0
    · subst hk0
      cases List.mem_singleton.mp hk
    · rw [show (start last).pending k = [] from if_neg hk0] at hk
      cases hk

theorem Untangled.step (h : Untangled last t) {l : Threads.Label LoopCall LoopChoice}
    (hnot : ¬Entangles t l) (hstep : machine.step t l = some u) : Untangled last u := by
  refine ⟨h.kept.step hstep, h.positioned.step h.kept hstep, ?_⟩
  cases Program.moves_of_step hstep with
  | @enter k call s' as hidle hcall =>
      have hk : k ≠ 0 := by
        rintro rfl
        cases hcall
      simp only [program, if_neg hk] at hcall
      exact not_entangled_enter hk hidle hcall h.free
  | advance hat hrun => exact not_entangled_advance h.positioned h.kept hat hrun hnot h.free

/-! ### Progress -/

/-- The step is made by a thread that is under way: no new call, no chance wake-up. -/
def Proceeds : Threads.Label LoopCall LoopChoice → Prop
  | .enter _ (.produce _) => True
  | .enter .. => False
  | .advance _ choice => choice ≠ .spurious

/-- Some thread can take a step. -/
def CanProceed (t : Threads EventLoopGenerator LoopSection) : Prop :=
  ∃ l u, Proceeds l ∧ machine.step t l = some u

/-- Some thread has not returned from `shutdown`. -/
def ShutsDown (t : Threads EventLoopGenerator LoopSection) : Prop :=
  t.Pending .lockShutdown ∨ t.Pending .finishShutdown

/-- A shutdown joins a producer that waits for an event, and the worker waits for the
mutex that the shutdown holds. -/
def Deadlocked (t : Threads EventLoopGenerator LoopSection) : Prop :=
  ∃ k p rest j n rest', t.pending k = .joinProducer p :: rest ∧
    (t.shared.sequences p).finished = false ∧
    t.pending j = .collect p n :: rest' ∧ t.shared.queue.promises n = [] ∧
    Holds t ∧ WorkerWaits t

theorem canProceed_of_run (hat : t.pending k = a :: rest)
    (hrun : (t.shared.runSection k a .proceed).isSome = true) : CanProceed t := by
  obtain ⟨⟨s', as⟩, hrun⟩ := Option.isSome_iff_exists.mp hrun
  exact ⟨.advance k .proceed, _, nofun, Program.step_of_moves (P := program) (.advance hat hrun)⟩

/-- A thread in a submission can go on, unless it waits for `producers_mutex_`. -/
theorem Submission.canProceed {sub : List LoopSection} (h : Submission (a :: sub))
    (hat : t.pending k = a :: rest) (hfree : a = .lockProducers → t.shared.producersLocked = false) :
    CanProceed t := by
  apply canProceed_of_run hat
  cases h with
  | scheduling | notifying | starting | unlocking => rfl
  | locking p => simp [runSection, hfree rfl]
  | admitting p =>
      simp only [runSection]
      split <;> rfl

/-- Whoever admits a sequence can go on. -/
theorem canProceed_of_admits (hat : t.pending k = a :: rest) (hadmits : a.admits = true) :
    CanProceed t := by
  apply canProceed_of_run hat
  cases a with
  | admitSequence p =>
      simp only [runSection]
      split <;> rfl
  | startProducer | unlockProducers => rfl
  | _ => cases hadmits

/-- Once the queue is closed the worker goes on to its end, unless it waits for
`producers_mutex_`. -/
theorem Positioned.worker_canProceed (h : Positioned t)
    (hclosed : t.shared.queue.accepting = false) (hexited : t.shared.exited = false)
    (hfree : WorkerWaits t → t.shared.producersLocked = false) : CanProceed t := by
  have hworker := h.worker
  generalize hat : t.pending 0 = l at hworker
  cases hworker with
  | awaiting =>
      apply canProceed_of_run hat
      simp only [runSection]
      repeat' split
      all_goals rfl
  | asleep =>
      cases hsleep : t.shared.sleep with
      | awake => exact absurd hsleep (h.asleep hat)
      | notified =>
          apply canProceed_of_run hat
          simp [runSection, hsleep]
      | asleep =>
          rcases h.woken hsleep with hopen | ⟨j, r, hj⟩
          · rw [hclosed] at hopen
            cases hopen
          · exact canProceed_of_run hj rfl
  | executing | completing => exact canProceed_of_run hat rfl
  | @acting _ sub e hsub hl =>
      subst hl
      cases sub with
      | nil => exact canProceed_of_run hat rfl
      | cons b sub =>
          refine hsub.canProceed hat ?_
          rintro rfl
          exact hfree ⟨_, hat⟩
  | returned =>
      rw [h.returned hat] at hexited
      cases hexited

/-- After the worker has left, no completion is open. -/
theorem Untangled.settled (h : Untangled last t) (hexited : t.shared.exited = true) {p n : ℕ}
    (hn : n ∈ (t.shared.sequences p).completions) : t.shared.queue.promises n ≠ [] := by
  obtain ⟨current, taken, hworks, haccounts⟩ := h.kept.worker
  obtain ⟨hidle, -, hevents⟩ := h.kept.exited hexited
  rw [hidle] at hworks
  cases hworks
  exact (haccounts.drained hevents).2 n (h.positioned.completions p n hn)

/-- While a shutdown holds `producers_mutex_`, a started producer can go on, or the
worker can, whose event it waits for. -/
theorem Untangled.producer_canProceed (h : Untangled last t) (hholds : Holds t)
    (hclosed : t.shared.queue.accepting = false) {p : ℕ} (hproduces : a.produces p)
    (ha : t.Pending a) : CanProceed t := by
  obtain ⟨j, hmem⟩ := ha
  have hj : j ≠ 0 := by
    rintro rfl
    have hworker := h.positioned.worker
    generalize t.pending 0 = l at hworker hmem
    cases hworker with
    | acting e hsub hl =>
        subst hl
        rcases List.mem_append.mp hmem with hmem | hmem
        · cases hsub <;> simp at hmem <;> rcases hmem with rfl | rfl <;> cases hproduces
        · obtain rfl := List.mem_singleton.mp hmem
          cases hproduces
    | awaiting | asleep | executing | completing =>
        obtain rfl := List.mem_singleton.mp hmem
        cases hproduces
    | returned => cases hmem
  have hthread := h.positioned.others j hj
  generalize hat : t.pending j = l at hthread hmem
  cases hthread with
  | submitting hsub =>
      cases hsub <;> simp at hmem <;> rcases hmem with rfl | rfl <;> cases hproduces
  | @generating _ sub q hsub hl =>
      subst hl
      cases sub with
      | nil => exact canProceed_of_run hat rfl
      | cons b sub =>
          refine hsub.canProceed hat ?_
          rintro rfl
          have hwaits : GeneratorWaits t := ⟨j, q, _, hat, by simp⟩
          exact absurd ⟨hholds, Or.inr hwaits⟩ h.free
  | checking | scheduling =>
      apply canProceed_of_run hat
      simp only [runSection]
      split <;> rfl
  | entering =>
      obtain rfl := List.mem_singleton.mp hmem
      cases hproduces
  | collecting q ns hns hl =>
      subst hl
      cases ns with
      | nil => exact canProceed_of_run hat rfl
      | cons n ns =>
          cases hpromise : t.shared.queue.promises n with
          | cons event events =>
              apply canProceed_of_run hat
              simp [runSection, hpromise]
          | nil =>
              -- the event is the worker's to run
              have hn := hns n List.mem_cons_self
              refine h.positioned.worker_canProceed hclosed ?_ fun hwaits => ?_
              · apply Bool.eq_false_of_not_eq_true
                intro hexited
                exact h.settled hexited hn hpromise
              · exact absurd ⟨hholds, Or.inl ⟨hwaits, q, n, hn, hpromise⟩⟩ h.free
  | stage hstage =>
      exact absurd hproduces (hstage.not_produces p a hmem)

/-- The producer that a shutdown joins can be started or goes on. -/
theorem Untangled.join_canProceed (h : Untangled last t) {m p : ℕ} (hbelow : t.Below m)
    (hholds : Holds t) (hclosed : t.shared.queue.accepting = false)
    (hproducer : p ∈ t.shared.producers) (hfinished : (t.shared.sequences p).finished = false) :
    CanProceed t := by
  cases hstarted : (t.shared.sequences p).started with
  | false =>
      have henter : program.enter (m + 1) t.shared (.produce p) =
          some (t.shared.setSequence p { t.shared.sequences p with started := true },
            [.nextEvent p]) := by
        simp [program, EventLoopGenerator.enter, hproducer, hstarted]
      exact ⟨.enter (m + 1) (.produce p), _, trivial,
        Program.step_of_moves (P := program) (.enter (hbelow (m + 1) (Nat.le_succ m)) henter)⟩
  | true =>
      obtain ⟨c, hc, hproduces⟩ := h.positioned.running p hstarted hfinished
      exact h.producer_canProceed hholds hclosed hproduces hc

/-- Only one thread is in a shutdown that does something. -/
theorem Positioned.one_shutdown (h : Positioned t) {j : ℕ} (hk : .finishShutdown ∈ t.pending k)
    (hj : .clearProducers ∈ t.pending j) : j = k :=
  h.single.alone j k _ _ (h.stage_of_mem hj rfl).2.finish hk rfl rfl

theorem Untangled.stage_canProceed (h : Untangled last t) {m : ℕ} (hbelow : t.Below m)
    (hk : .finishShutdown ∈ t.pending k) : CanProceed t := by
  have hstage := (h.positioned.stage_of_mem hk rfl).2
  generalize hat : t.pending k = l at hstage
  -- another thread may hold `producers_mutex_`, but no other shutdown does
  have howner : .clearProducers ∉ t.pending k ∨ .lockProducers ∈ t.pending k →
      t.shared.producersLocked = true → CanProceed t := by
    intro hnot hlocked
    rcases h.positioned.owner hlocked with ⟨j, c, r, hj, hadmits⟩ | ⟨j, hclear, hlock⟩
    · exact canProceed_of_admits hj hadmits
    · obtain rfl := h.positioned.one_shutdown hk hclear
      exact absurd hnot (by simp [hclear, hlock])
  cases hstage with
  | locking =>
      cases hlocked : t.shared.producersLocked with
      | true => exact howner (Or.inr (by rw [hat]; exact List.mem_cons_self)) hlocked
      | false =>
          apply canProceed_of_run hat
          simp [runSection, hlocked]
  | closing | notifying hclosed | stopping hclosed | cleared hclosed | finishing hclosed =>
      exact canProceed_of_run hat rfl
  | requesting hclosed ps hl =>
      subst hl
      cases ps <;> exact canProceed_of_run hat rfl
  | joining hclosed ps hps hl =>
      subst hl
      cases ps with
      | nil => exact canProceed_of_run hat rfl
      | cons p ps =>
          cases hfinished : (t.shared.sequences p).finished with
          | true =>
              apply canProceed_of_run hat
              simp [runSection, hfinished]
          | false =>
              have hholds : Holds t := ⟨k, by simp [hat, afterJoins], by simp [hat, afterJoins]⟩
              exact h.join_canProceed hbelow hholds hclosed (hps p List.mem_cons_self) hfinished
  | waiting hclosed =>
      cases hexited : t.shared.exited with
      | true =>
          apply canProceed_of_run hat
          simp [runSection, hexited]
      | false =>
          by_cases hlocked : t.shared.producersLocked = true
          · exact howner (Or.inl (by simp [hat])) hlocked
          · exact h.positioned.worker_canProceed hclosed hexited fun _ => by simpa using hlocked

/-- While a thread is in `shutdown`, some thread can take a step. -/
theorem Untangled.canProceed (h : Untangled last t) {m : ℕ} (hbelow : t.Below m)
    (hshuts : ShutsDown t) : CanProceed t := by
  rcases hshuts with ⟨k, hk⟩ | ⟨k, hk⟩
  · cases hlocked : t.shared.shutdownLocked with
    | true =>
        obtain ⟨j, hj⟩ := h.positioned.locked.mp hlocked
        exact h.stage_canProceed hbelow hj
    | false =>
        have hat : t.pending k = [.lockShutdown] := by
          by_cases hk0 : k = 0
          · subst hk0
            exact absurd hk h.positioned.worker.not_enters
          · exact (h.positioned.others k hk0).enters hk
        apply canProceed_of_run hat
        simp only [runSection, hlocked, Bool.false_eq_true, if_false]
        split <;> rfl
  · exact h.stage_canProceed hbelow hk

/-- The deadlock is a knot. -/
theorem Untangled.not_deadlocked (h : Untangled last t) : ¬Deadlocked t := by
  rintro ⟨k, p, rest, j, n, rest', _, _, hj, hpromise, hholds, hwaits⟩
  refine h.free ⟨hholds, Or.inl ⟨hwaits, p, n, ?_, hpromise⟩⟩
  have hj0 : j ≠ 0 := by
    rintro rfl
    have hworker := h.positioned.worker
    rw [hj] at hworker
    cases hworker with
    | @acting _ sub e hsub hl =>
        cases sub with
        | nil => cases hl
        | cons b sub =>
            cases hl
            cases hsub
  have hthread := h.positioned.others j hj0
  rw [hj] at hthread
  exact hthread.collects

end Steps

/-- As long as no step ties a knot of a shutdown with a thread that wants
`producers_mutex_`, a shutdown does not deadlock: while it has not returned some
thread that is under way can take a step. -/
theorem shutdown_never_deadlocks (last : EventId) {t : Threads EventLoopGenerator LoopSection}
    {ls : List (Threads.Label LoopCall LoopChoice)}
    (hmeets : machine.Meets (fun t l => ¬Entangles t l) (start last) ls)
    (hrun : machine.exec (start last) ls = some t) :
    ¬Deadlocked t ∧ (ShutsDown t → CanProceed t) := by
  have huntangled : Untangled last t :=
    Machine.invariant_of_meets (Untangled last) (fun _ _ _ ht hnot hstep => ht.step hnot hstep)
      hmeets hrun (untangled_start last)
  have hstart : (start last).Below 1 := fun k hk => if_neg (by omega)
  obtain ⟨m, hbelow⟩ := Program.exists_below_exec hstart hrun
  exact ⟨huntangled.not_deadlocked, huntangled.canProceed hbelow⟩

/-! ### Two runs -/

/-- An action runs, a producer has an event in the queue, and a shutdown joins the
producer. -/
def joining : List (Threads.Label LoopCall LoopChoice) :=
  ([.enter 1 (.scheduleEvent [] 0), .advance 1 .proceed, .advance 1 .proceed,
    .enter 1 .processEventSequence] : List (Threads.Label LoopCall LoopChoice)) ++
    List.replicate 4 (.advance 1 .proceed) ++
    ([.enter 2 (.produce 0), .advance 2 (.yields [] 1)] :
      List (Threads.Label LoopCall LoopChoice)) ++
    List.replicate 3 (.advance 2 .proceed) ++
    ([.advance 0 .proceed, .advance 0 .proceed, .enter 3 .shutdown] :
      List (Threads.Label LoopCall LoopChoice)) ++
    List.replicate 7 (.advance 3 .proceed)

/-- Then the action hands in a sequence, and the producer waits for its event. -/
def deadlocking : List (Threads.Label LoopCall LoopChoice) :=
  joining ++ [.advance 0 (.calls .processEventSequence), .advance 2 .proceed]

/-- No thread of the first `n` waits for `producers_mutex_` within an action or a
generator, and no such wait begins. -/
def calm (n : ℕ) (t : Threads EventLoopGenerator LoopSection)
    (l : Threads.Label LoopCall LoopChoice) : Bool :=
  (match l with
    | .advance _ (.calls .processEventSequence) => false
    | _ => true) &&
    (List.range n).all fun k =>
      match t.pending k with
      | .lockProducers :: rest =>
          k ≠ 0 && rest.all fun | .nextEvent _ => false | _ => true
      | _ => true

theorem not_entangles_of_calm {n : ℕ} {t : Threads EventLoopGenerator LoopSection}
    {l : Threads.Label LoopCall LoopChoice} (hn : 0 < n) (hbelow : t.Below n)
    (h : calm n t l = true) : ¬Entangles t l := by
  simp only [calm, Bool.and_eq_true, List.all_eq_true, List.mem_range] at h
  obtain ⟨hlabel, hthreads⟩ := h
  have hworker : ¬WorkerWaits t := by
    rintro ⟨rest, hrest⟩
    have hzero := hthreads 0 hn
    rw [hrest] at hzero
    simp at hzero
  have hgenerator : ¬GeneratorWaits t := by
    rintro ⟨k, p, rest, hrest, hmem⟩
    have hk : k < n := by
      by_contra hk
      rw [hbelow k (not_lt.mp hk)] at hrest
      cases hrest
    have hwait := hthreads k hk
    rw [hrest] at hwait
    simp only [Bool.and_eq_true, List.all_eq_true] at hwait
    cases hwait.2 _ hmem
  intro hentangles
  cases l with
  | enter => exact hentangles
  | advance k choice =>
      simp only [Entangles] at hentangles
      split at hentangles
      · exact hentangles.elim (fun hwaits => hworker hwaits.1) hgenerator
      · cases hlabel
      · cases hlabel
      · exact hworker hentangles.2.1
      · exact hentangles

theorem meets_joining :
    machine.Meets (fun t l => ¬Entangles t l) (start 0) joining := by
  have hcalm : machine.Meets (fun t l => calm 4 t l = true) (start 0) joining := by
    decide +kernel
  have hstart : (start 0).Below 4 := fun k hk => if_neg (by omega)
  refine Program.meets_of_below hstart (by decide) ?_
  exact hcalm.mono fun t l hl hbelow => not_entangles_of_calm (by decide) hbelow hl

theorem shutdown_never_deadlocks_joining :
    ∃ t, machine.exec (start 0) joining = some t ∧ ShutsDown t ∧ CanProceed t := by
  have hends : (machine.exec (start 0) joining).map (fun t => (t.pending 3).getLast?) =
      some (some .finishShutdown) := by
    decide +kernel
  obtain ⟨t, hrun, hlast⟩ := Option.map_eq_some_iff.mp hends
  have hshuts : ShutsDown t := Or.inr ⟨3, List.mem_of_getLast? hlast⟩
  exact ⟨t, hrun, hshuts, (shutdown_never_deadlocks 0 meets_joining hrun).2 hshuts⟩

/-- The action, the producer and the shutdown wait for each other, and nothing that is
under way can go on. -/
theorem deadlocking_deadlocks :
    ∃ t, machine.exec (start 0) deadlocking = some t ∧ Deadlocked t ∧ ShutsDown t ∧
      (∃ e ∈ t.shared.queue.events, e.completion = 1 ∧ t.shared.queue.promises 1 = []) ∧
      ¬CanProceed t := by
  have hthreads : (machine.exec (start 0) deadlocking).map (fun t =>
      ((t.pending 0).head?, t.pending 1, (t.pending 2).head?, t.pending 3)) =
      some (some .lockProducers, [], some (.collect 0 1), .joinProducer 0 :: afterJoins) := by
    decide +kernel
  have hloop : (machine.exec (start 0) deadlocking).map (fun t =>
      ((t.shared.producersLocked, t.shared.producers, (t.shared.sequences 0).finished,
        (t.shared.sequences 0).started),
        t.shared.queue.promises 1, t.shared.queue.events.map QueuedEvent.completion)) =
      some ((true, [0], false, true), [], [1]) := by
    decide +kernel
  obtain ⟨t, hrun, hthreads⟩ := Option.map_eq_some_iff.mp hthreads
  rw [hrun, Option.map_some, Option.some.injEq] at hloop
  simp only [Prod.mk.injEq, List.head?_eq_some_iff] at hthreads hloop
  obtain ⟨⟨r, h0⟩, h1, ⟨r', h2⟩, h3⟩ := hthreads
  obtain ⟨⟨hlocked, hproducers, hfinished, hstarted⟩, hpromise, hcompletions⟩ := hloop
  obtain ⟨e, he, hcompletion⟩ : ∃ e ∈ t.shared.queue.events, e.completion = 1 :=
    List.mem_map.mp (hcompletions ▸ List.mem_singleton_self 1)
  have hbelow : t.Below 4 :=
    Program.below_exec (fun k hk => if_neg (by omega)) (by decide) hrun
  have hholds : Holds t := ⟨3, by simp [h3, afterJoins], by simp [h3, afterJoins]⟩
  refine ⟨t, hrun, ⟨3, 0, _, 2, 1, _, h3, hfinished, h2, hpromise, hholds, r, h0⟩,
    Or.inr ⟨3, by simp [h3, afterJoins]⟩, ⟨e, he, hcompletion, hpromise⟩, ?_⟩
  rintro ⟨l, u, hproceeds, hstep⟩
  cases Program.moves_of_step hstep with
  | @enter k call s' as hidle hcall =>
      cases call with
      | produce p =>
          -- the only producer has been started
          by_cases hp : p = 0
          · simp [program, enter, hp, hproducers, hstarted] at hcall
          · simp [program, enter, hp, hproducers] at hcall
      | scheduleEvent | processEventSequence | shutdown => exact hproceeds
  | @advance k choice a rest s' as hat hrun =>
      have hk : k < 4 := by
        by_contra hk
        rw [hbelow k (not_lt.mp hk)] at hat
        cases hat
      replace hrun : t.shared.runSection k a choice = some (s', as) := hrun
      interval_cases k
      · obtain rfl := (List.cons.inj (h0.symm.trans hat)).1
        simp [runSection, hlocked] at hrun
      · rw [h1] at hat
        cases hat
      · obtain rfl := (List.cons.inj (h2.symm.trans hat)).1
        simp [runSection, hpromise] at hrun
      · obtain rfl := (List.cons.inj (h3.symm.trans hat)).1
        simp [runSection, hfinished] at hrun

end EventLoopGenerator

end Watchlist.Concurrency
