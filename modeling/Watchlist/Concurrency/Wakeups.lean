import Watchlist.Concurrency.ThreadPoolManager

/-!
No wake-up of the pool's workers is lost. A notification may find nobody asleep, or
wake a worker whose task another one takes first; what matters is that while there is
work, a notification is still to come or some worker is on its way to the queue, and
that after the stop nobody goes to sleep any more.
-/

namespace Watchlist.Concurrency

open Transition

/-- The worker looks at the queue again without being notified. -/
def WorkerPc.Awake {τ : Type*} : WorkerPc τ → Prop
  | .ready | .running _ => True
  | .asleep | .exited => False

namespace ThreadPoolManager

variable {n : ℕ} {τ : Type*} {p q : ThreadPoolManager n τ} {l : Label n τ}

/-- What keeps the pool from sleeping over its work or its stop. -/
structure Wakeable (p : ThreadPoolManager n τ) : Prop where
  work : p.tasks ≠ [] → 0 < p.notifyOnes ∨ 0 < p.notifyAlls ∨ ∃ w, (p.workers w).Awake
  stop : p.stop = true → 0 < p.notifyAlls ∨ ∀ w, p.workers w ≠ .asleep

theorem wakeable_initial : Wakeable (initial n τ) where
  work := fun h => absurd rfl h
  stop := nofun

/-- A worker wakes up or goes back to the queue. -/
theorem Wakeable.of_awake (hstop : p.stop = true → 0 < p.notifyAlls ∨ ∀ w, p.workers w ≠ .asleep)
    {w : Fin n} (hw : (p.workers w).Awake) : Wakeable p :=
  ⟨fun _ => Or.inr (Or.inr ⟨w, hw⟩), hstop⟩

/-- A worker that is awake afterwards does not sleep. -/
theorem not_asleep_setWorker {w : Fin n} {pc : WorkerPc τ} (hpc : pc ≠ .asleep)
    (h : ∀ w, p.workers w ≠ .asleep) (w' : Fin n) : (p.setWorker w pc).workers w' ≠ .asleep := by
  rw [workers_setWorker]
  split
  · exact hpc
  · exact h w'

theorem Wakeable.enqueue (h : Wakeable p) (task : τ) : Wakeable (p.enqueue task) := by
  unfold ThreadPoolManager.enqueue
  split
  · exact ⟨h.work, h.stop⟩
  · exact ⟨fun _ => Or.inl (Nat.succ_pos _), h.stop⟩

theorem Wakeable.setWorker (h : Wakeable p) {w : Fin n} {pc : WorkerPc τ} (hpc : pc.Awake) :
    Wakeable (p.setWorker w pc) := by
  have hne : pc ≠ .asleep := by
    rintro rfl
    exact hpc
  apply Wakeable.of_awake (w := w)
  · exact fun hstop => (h.stop hstop).imp_right fun hnone => not_asleep_setWorker hne hnone
  · rw [workers_setWorker, if_pos rfl]
    exact hpc

/-- With work in the queue no worker has left, so one that does not sleep is awake. -/
theorem awake_of_not_asleep (haccounted : Accounted p) (htasks : p.tasks ≠ []) {w : Fin n}
    (hw : p.workers w ≠ .asleep) : (p.workers w).Awake := by
  cases hpc : p.workers w with
  | ready | running t => trivial
  | asleep => exact absurd hpc hw
  | exited => exact absurd (haccounted.exited w hpc).2 htasks

theorem not_asleep_wakeAll (p : ThreadPoolManager n τ) (w : Fin n) :
    p.wakeAll.workers w ≠ .asleep := by
  simp only [wakeAll]
  split
  · rintro ⟨⟩
  · assumption

theorem Wakeable.lock (h : Wakeable p) (w : Fin n) : Wakeable (p.lock w) := by
  unfold ThreadPoolManager.lock
  split
  · rename_i htasks
    split
    · rename_i hstop
      refine ⟨fun hne => absurd htasks hne, fun _ => ?_⟩
      exact (h.stop hstop).imp_right fun hnone => not_asleep_setWorker (by simp) hnone
    · rename_i hstop
      exact ⟨fun hne => absurd htasks hne, fun hstop' => absurd hstop' hstop⟩
  · rename_i t rest htasks
    have htaken : Wakeable (p.setWorker w (.running t)) := h.setWorker trivial
    refine Wakeable.of_awake (w := w) htaken.stop ?_
    show ((p.setWorker w (.running t)).workers w).Awake
    rw [workers_setWorker, if_pos rfl]
    trivial

/-- The step lemma. -/
theorem Wakeable.step (hn : 0 < n) (haccounted : Accounted p) (h : Wakeable p)
    (hstep : p.step l = some q) : Wakeable q := by
  cases l with
  | enqueue task =>
      obtain rfl := Option.some.inj hstep
      exact h.enqueue task
  | setStop =>
      obtain rfl := Option.some.inj hstep
      exact ⟨fun _ => Or.inr (Or.inl (Nat.succ_pos _)), fun _ => Or.inl (Nat.succ_pos _)⟩
  | notifyOne w =>
      obtain ⟨_, rfl⟩ := allow_eq_some.mp hstep
      have hwoken : Wakeable (p.setWorker w .ready) := h.setWorker trivial
      refine Wakeable.of_awake (w := w) hwoken.stop ?_
      show ((p.setWorker w .ready).workers w).Awake
      rw [workers_setWorker, if_pos rfl]
      trivial
  | notifyNobody =>
      obtain ⟨⟨_, hnobody⟩, rfl⟩ := allow_eq_some.mp hstep
      have hnone : ∀ w, p.workers w ≠ .asleep := by
        intro w hw
        have hasleep : p.isAsleep w = true := by simp [isAsleep, hw]
        rw [hnobody w] at hasleep
        cases hasleep
      refine ⟨fun htasks => ?_, fun _ => Or.inr hnone⟩
      exact Or.inr (Or.inr ⟨⟨0, hn⟩, awake_of_not_asleep haccounted htasks (hnone _)⟩)
  | notifyAll =>
      obtain ⟨_, rfl⟩ := allow_eq_some.mp hstep
      have hawake : Accounted p.wakeAll := haccounted.of_frame rfl rfl rfl rfl id
        (fun _ _ => workers_wakeAll_running) (fun _ => workers_wakeAll_exited)
      refine ⟨fun htasks => ?_, fun _ => Or.inr p.not_asleep_wakeAll⟩
      exact Or.inr (Or.inr ⟨⟨0, hn⟩,
        awake_of_not_asleep hawake htasks (p.not_asleep_wakeAll _)⟩)
  | wakeSpuriously w =>
      obtain ⟨_, rfl⟩ := allow_eq_some.mp hstep
      exact h.setWorker trivial
  | lock w =>
      obtain ⟨_, rfl⟩ := allow_eq_some.mp hstep
      exact h.lock w
  | finish w threw =>
      simp only [ThreadPoolManager.step] at hstep
      split at hstep
      · obtain rfl := Option.some.inj hstep
        have hready : Wakeable (p.setWorker w .ready) := h.setWorker trivial
        exact ⟨hready.work, hready.stop⟩
      · cases hstep

theorem wakeable_of_reaches (hn : 0 < n) (h : (machine n τ).Reaches (initial n τ) p) :
    Wakeable p := by
  have hboth := Machine.invariant (fun p => Accounted p ∧ Wakeable p)
    (fun _ _ _ hp hstep => ⟨hp.1.step hstep, hp.2.step hn hp.1 hstep⟩) h
    ⟨accounted_initial, wakeable_initial⟩
  exact hboth.2

/-- No notification is still to be issued, and every worker that has not left sleeps. -/
structure Resting (p : ThreadPoolManager n τ) : Prop where
  notifyOnes : p.notifyOnes = 0
  notifyAlls : p.notifyAlls = 0
  workers : ∀ w, p.workers w ≠ .exited → p.workers w = .asleep

/-- The pool never rests with a task in its queue, nor with its stop set while some
worker has not left. -/
theorem pool_never_stuck (hn : 0 < n) (h : (machine n τ).Reaches (initial n τ) p) :
    ¬((p.tasks ≠ [] ∨ p.stop = true ∧ ∃ w, p.workers w ≠ .exited) ∧ Resting p) := by
  rintro ⟨hpending, hrest⟩
  have hwakeable := wakeable_of_reaches hn h
  rcases hpending with htasks | ⟨hstop, w, hw⟩
  · rcases hwakeable.work htasks with hone | hall | ⟨w, hawake⟩
    · rw [hrest.notifyOnes] at hone
      exact lt_irrefl 0 hone
    · rw [hrest.notifyAlls] at hall
      exact lt_irrefl 0 hall
    · have hleft : p.workers w ≠ .exited := by
        intro hexited
        rw [hexited] at hawake
        exact hawake
      rw [hrest.workers w hleft] at hawake
      exact hawake
  · rcases hwakeable.stop hstop with hall | hnone
    · rw [hrest.notifyAlls] at hall
      exact lt_irrefl 0 hall
    · exact hnone w (hrest.workers w hw)

/-- A task is queued while its worker sleeps; the notification is what keeps the pool
from resting. -/
theorem pool_never_stuck_queued :
    ∃ p, (machine 1 ℕ).exec (initial 1 ℕ) [.lock 0, .enqueue 7] = some p ∧ p.tasks ≠ [] ∧
      ¬Resting p := by
  refine ⟨_, rfl, List.cons_ne_nil _ _, fun hrest => ?_⟩
  exact pool_never_stuck Nat.one_pos ⟨[.lock 0, .enqueue 7], rfl⟩
    ⟨Or.inl (List.cons_ne_nil _ _), hrest⟩

/-- After an orderly stop every worker has left, so that none has to be woken. -/
theorem stopped_pool_rests :
    ∃ p, (machine 1 ℕ).exec (initial 1 ℕ) [.setStop, .notifyAll, .lock 0] = some p ∧
      (p.tasks ≠ [] ∨ p.stop = true) ∧ Resting p := by
  refine ⟨_, rfl, Or.inr rfl, rfl, rfl, fun w hw => ?_⟩
  rw [Subsingleton.elim w 0] at hw
  exact absurd rfl hw

end ThreadPoolManager

end Watchlist.Concurrency
