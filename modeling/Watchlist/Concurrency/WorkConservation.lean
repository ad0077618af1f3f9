import Watchlist.Concurrency.Wakeups
import Watchlist.Library.Weights

/-!
No task waits in the queue of the pool while a worker has nothing to do. A task that never
returns keeps its worker, so that some worker is awake is not enough for the tasks behind it.
There have to be as many workers on their way to the queue, or notifications to be issued, as
there are tasks, unless nobody sleeps.
-/

namespace Watchlist.Concurrency

open Transition

/-- On the way to the queue. -/
def WorkerPc.readies {τ : Type*} : WorkerPc τ → ℕ
  | .ready => 1
  | _ => 0

/-- Without a task, and not gone. -/
def WorkerPc.idles {τ : Type*} : WorkerPc τ → ℕ
  | .ready | .asleep => 1
  | _ => 0

namespace ThreadPoolManager

variable {n : ℕ} {τ : Type*} {p q : ThreadPoolManager n τ} {l : Label n τ}

/-- What the workers weigh together. -/
def weigh (p : ThreadPoolManager n τ) (f : WorkerPc τ → ℕ) : ℕ := ∑ w, f (p.workers w)

theorem weigh_setWorker (p : ThreadPoolManager n τ) (f : WorkerPc τ → ℕ) (w : Fin n)
    (pc : WorkerPc τ) : (p.setWorker w pc).weigh f + f (p.workers w) = p.weigh f + f pc :=
  sum_update p.workers f w pc

def readyCount (p : ThreadPoolManager n τ) : ℕ := p.weigh WorkerPc.readies

def idleCount (p : ThreadPoolManager n τ) : ℕ := p.weigh WorkerPc.idles

/-- While a worker sleeps, every task in the queue has a worker or a notification of its own. -/
def Supplied (p : ThreadPoolManager n τ) : Prop :=
  (∃ w, p.workers w = .asleep) → p.tasks.length ≤ p.readyCount + p.notifyOnes

theorem supplied_initial : Supplied (initial n τ) := fun _ => Nat.zero_le _

theorem supplied_of_not_asleep (h : ∀ w, p.workers w ≠ .asleep) : Supplied p :=
  fun ⟨w, hw⟩ => absurd hw (h w)

theorem Supplied.enqueue (h : Supplied p) (task : τ) : Supplied (p.enqueue task) := by
  unfold ThreadPoolManager.enqueue
  split
  · exact h
  · intro hasleep
    have hle := h hasleep
    show (p.tasks ++ [_]).length ≤ p.readyCount + (p.notifyOnes + 1)
    rw [List.length_append, List.length_singleton]
    omega

/-- A worker that is made ready no longer sleeps, and the others are as before. -/
theorem exists_asleep_of_ready {w : Fin n}
    (h : ∃ w', (p.setWorker w .ready).workers w' = .asleep) : ∃ w', p.workers w' = .asleep := by
  obtain ⟨w', hw'⟩ := h
  rw [workers_setWorker] at hw'
  split at hw'
  · cases hw'
  · exact ⟨w', hw'⟩

theorem Supplied.ready (h : Supplied p) (w : Fin n) : Supplied (p.setWorker w .ready) := by
  intro hasleep
  have hle := h (exists_asleep_of_ready hasleep)
  have hcount := p.weigh_setWorker WorkerPc.readies w .ready
  have hone : (p.workers w).readies ≤ 1 := by
    cases p.workers w <;> simp [WorkerPc.readies]
  show p.tasks.length ≤ (p.setWorker w .ready).weigh WorkerPc.readies + p.notifyOnes
  simp only [readyCount] at hle
  have hready : (WorkerPc.ready : WorkerPc τ).readies = 1 := rfl
  omega

/-- A notification goes over into a worker that is ready. -/
theorem Supplied.notifyOne (h : Supplied p) {w : Fin n} (hw : p.workers w = .asleep)
    (hone : 0 < p.notifyOnes) :
    Supplied { p.setWorker w .ready with notifyOnes := p.notifyOnes - 1 } := by
  intro hasleep
  have hle := h (exists_asleep_of_ready hasleep)
  have hcount := p.weigh_setWorker WorkerPc.readies w .ready
  rw [hw] at hcount
  show p.tasks.length ≤ (p.setWorker w .ready).weigh WorkerPc.readies + (p.notifyOnes - 1)
  simp only [readyCount] at hle
  have hready : (WorkerPc.ready : WorkerPc τ).readies = 1 := rfl
  have hzero : (WorkerPc.asleep : WorkerPc τ).readies = 0 := rfl
  omega

theorem Supplied.lock (h : Supplied p) {w : Fin n} (hw : p.workers w = .ready) :
    Supplied (p.lock w) := by
  unfold ThreadPoolManager.lock
  split
  · rename_i htasks
    have hnone : p.tasks.length = 0 := List.length_eq_zero_iff.mpr htasks
    split <;> exact fun _ => (le_of_eq hnone).trans (Nat.zero_le _)
  · rename_i t rest htasks
    rintro ⟨w', hw'⟩
    have hbefore : p.workers w' = .asleep := by
      replace hw' : (p.setWorker w (.running t)).workers w' = .asleep := hw'
      rw [workers_setWorker] at hw'
      split at hw'
      · cases hw'
      · exact hw'
    have hle := h ⟨w', hbefore⟩
    have hcount := p.weigh_setWorker WorkerPc.readies w (.running t)
    rw [hw] at hcount
    show rest.length ≤ (p.setWorker w (.running t)).weigh WorkerPc.readies + p.notifyOnes
    rw [htasks, List.length_cons] at hle
    simp only [readyCount] at hle
    have hready : (WorkerPc.ready : WorkerPc τ).readies = 1 := rfl
    have hzero : (WorkerPc.running t).readies = 0 := rfl
    omega

/-- The step lemma. -/
theorem Supplied.step (h : Supplied p) (hstep : p.step l = some q) : Supplied q := by
  cases l with
  | enqueue task =>
      obtain rfl := Option.some.inj hstep
      exact h.enqueue task
  | setStop =>
      obtain rfl := Option.some.inj hstep
      exact h
  | notifyOne w =>
      obtain ⟨⟨hone, hasleep⟩, rfl⟩ := allow_eq_some.mp hstep
      exact h.notifyOne (workers_of_isAsleep hasleep) hone
  | notifyNobody =>
      obtain ⟨⟨-, hnobody⟩, rfl⟩ := allow_eq_some.mp hstep
      refine supplied_of_not_asleep fun w hw => ?_
      have hasleep : p.isAsleep w = true := by
        rw [isAsleep, show p.workers w = .asleep from hw]
      rw [hnobody w] at hasleep
      cases hasleep
  | notifyAll =>
      obtain ⟨-, rfl⟩ := allow_eq_some.mp hstep
      exact supplied_of_not_asleep p.not_asleep_wakeAll
  | wakeSpuriously w =>
      obtain ⟨-, rfl⟩ := allow_eq_some.mp hstep
      exact h.ready w
  | lock w =>
      obtain ⟨hready, rfl⟩ := allow_eq_some.mp hstep
      exact h.lock (workers_of_isReady hready)
  | finish w threw =>
      simp only [ThreadPoolManager.step] at hstep
      split at hstep
      · obtain rfl := Option.some.inj hstep
        exact h.ready w
      · cases hstep

theorem supplied_of_reaches (h : (machine n τ).Reaches (initial n τ) p) : Supplied p :=
  Machine.invariant Supplied (fun _ _ _ hp hstep => hp.step hstep) h supplied_initial

/-- In every state that the pool can reach, as many workers are on their way to the queue, or
notifications still to be issued, as there are tasks in the queue and workers without one. -/
theorem pool_conserves_work (h : (machine n τ).Reaches (initial n τ) p) :
    min p.tasks.length p.idleCount ≤ p.readyCount + p.notifyOnes := by
  by_cases hasleep : ∃ w, p.workers w = .asleep
  · exact (min_le_left _ _).trans (supplied_of_reaches h hasleep)
  · have hready : p.idleCount ≤ p.readyCount := by
      show ∑ w, (p.workers w).idles ≤ ∑ w, (p.workers w).readies
      refine Finset.sum_le_sum fun w _ => ?_
      cases hw : p.workers w with
      | asleep => exact absurd ⟨w, hw⟩ hasleep
      | ready | running t | exited => exact le_rfl
    exact (min_le_right _ _).trans (le_add_right hready)

/-- One task holds its worker; the two behind it wait for the other worker, which is woken. -/
theorem pool_conserves_work_held :
    ∃ p, (machine 2 ℕ).exec (initial 2 ℕ)
        [.lock 0, .lock 1, .enqueue 5, .notifyOne 0, .lock 0, .enqueue 6, .enqueue 7] = some p ∧
      p.tasks.length = 2 ∧ p.idleCount = 1 ∧ p.readyCount = 0 ∧
      min p.tasks.length p.idleCount ≤ p.readyCount + p.notifyOnes := by
  refine ⟨_, rfl, rfl, by decide, by decide, ?_⟩
  exact pool_conserves_work ⟨[.lock 0, .lock 1, .enqueue 5, .notifyOne 0, .lock 0, .enqueue 6,
    .enqueue 7], rfl⟩

/-- With a worker for every task that is ever accepted, one is on its way to a task in the queue
as soon as the notifications have been issued. -/
theorem exists_ready_of_queued (h : (machine n τ).Reaches (initial n τ) p)
    (hfew : p.accepted.length ≤ n) (hones : p.notifyOnes = 0) {t : Ticket τ} (ht : t ∈ p.tasks) :
    ∃ w, p.workers w = .ready := by
  have haccounted := accounted_of_reaches h
  have hqueued : 0 < p.tasks.length := List.length_pos_of_mem ht
  by_contra hnone
  push Not at hnone
  have hcount : p.readyCount = 0 := by
    show ∑ w, (p.workers w).readies = 0
    refine Finset.sum_eq_zero fun w _ => ?_
    cases hw : p.workers w with
    | ready => exact absurd hw (hnone w)
    | asleep | running _ | exited => rfl
  have hrunning : ∀ w, ∃ t', p.workers w = .running t' := by
    intro w
    cases hw : p.workers w with
    | ready => exact absurd hw (hnone w)
    | asleep =>
        have hle := supplied_of_reaches h ⟨w, hw⟩
        omega
    | running t' => exact ⟨t', rfl⟩
    | exited => exact absurd (haccounted.exited w hw).2 (List.ne_nil_of_mem ht)
  choose taken htaken using hrunning
  have hinjective : Function.Injective taken := fun w w' hsame =>
    haccounted.running_once w w' _ (htaken w) (hsame ▸ htaken w')
  -- Each worker has a task of its own, so that the one in the queue is one too many.
  have hall : n ≤ p.started.length := by
    have hsub : (List.ofFn taken).Subperm p.started :=
      (List.nodup_ofFn.mpr hinjective).subperm fun t' ht' => by
        obtain ⟨w, rfl⟩ := List.mem_ofFn.mp ht'
        exact (haccounted.running w _ (htaken w)).1
    simpa using hsub.length_le
  have hlength := congrArg List.length haccounted.queue
  rw [List.length_append] at hlength
  omega

end ThreadPoolManager

end Watchlist.Concurrency
