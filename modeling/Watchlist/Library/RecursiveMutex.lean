import Watchlist.Library.Threads

/-!
A mutex that its owner may lock again, and the sections that run while it is locked.
Each pending section of a thread that has still to unlock the mutex is one of the
times the thread has locked it; so only one thread has such sections.
-/

/-- Nobody's, or locked by its owner, who has to unlock it once more than `depth` times. -/
inductive RecursiveMutex
  | free
  | held (owner depth : ℕ)
  deriving DecidableEq

namespace RecursiveMutex

/-- Thread `k` locks the mutex; `none` when it has to wait for another thread. -/
def lock (k : ℕ) : RecursiveMutex → Option RecursiveMutex
  | free => some (held k 0)
  | held owner depth => if owner = k then some (held owner (depth + 1)) else none

/-- The owner unlocks the mutex. -/
def unlock : RecursiveMutex → RecursiveMutex
  | held owner (depth + 1) => held owner depth
  | _ => free

/-- How often thread `k` has still to unlock the mutex. -/
def times (k : ℕ) : RecursiveMutex → ℕ
  | free => 0
  | held owner depth => if owner = k then depth + 1 else 0

variable {m m' : RecursiveMutex} {j k : ℕ}

theorem times_of_ne (h : 0 < m.times k) (hjk : j ≠ k) : m.times j = 0 := by
  cases m with
  | free => rfl
  | held owner depth =>
      simp only [times] at h ⊢
      split at h
      · rename_i howner
        rw [howner, if_neg (Ne.symm hjk)]
      · exact absurd h (lt_irrefl 0)

theorem times_lock (h : m.lock k = some m') :
    m'.times k = m.times k + 1 ∧ ∀ j, j ≠ k → m'.times j = m.times j := by
  cases m with
  | free =>
      obtain rfl := Option.some.inj h
      refine ⟨if_pos rfl, fun j hjk => ?_⟩
      exact if_neg (Ne.symm hjk)
  | held owner depth =>
      simp only [lock] at h
      split at h
      · rename_i howner
        obtain rfl := Option.some.inj h
        refine ⟨by simp only [times, if_pos howner], fun j hjk => ?_⟩
        have hne : owner ≠ j := fun he => hjk (he.symm.trans howner)
        simp only [times, if_neg hne]
      · cases h

theorem times_unlock (h : 0 < m.times k) :
    m.unlock.times k + 1 = m.times k ∧ ∀ j, j ≠ k → m.unlock.times j = m.times j := by
  cases m with
  | free => exact absurd h (lt_irrefl 0)
  | held owner depth =>
      simp only [times] at h
      split at h
      · rename_i howner
        cases depth with
        | zero =>
            refine ⟨by simp only [unlock, times, if_pos howner], fun j hjk => ?_⟩
            have hne : owner ≠ j := fun he => hjk (he.symm.trans howner)
            simp only [unlock, times, if_neg hne]
        | succ depth =>
            refine ⟨by simp only [unlock, times, if_pos howner], fun j hjk => ?_⟩
            have hne : owner ≠ j := fun he => hjk (he.symm.trans howner)
            simp only [unlock, times, if_neg hne]
      · exact absurd h (lt_irrefl 0)

end RecursiveMutex

namespace Transition

namespace Threads

variable {σ α : Type*} {holds : α → Bool} {s : Threads σ α} {mutex mutex' : RecursiveMutex}
  {j k : ℕ} {s' : σ} {a b : α} {as rest : List α}

/-- The sections that have still to unlock the mutex are where it is locked. -/
def Locked (holds : α → Bool) (mutex : RecursiveMutex) (s : Threads σ α) : Prop :=
  ∀ k, (s.pending k).countP holds = mutex.times k

theorem Locked.become (h : s.Locked holds mutex) (hat : s.pending k = a :: rest)
    (hself : mutex'.times k + (if holds a then 1 else 0) = mutex.times k + as.countP holds)
    (hothers : ∀ j, j ≠ k → mutex'.times j = mutex.times j) :
    (s.become k s' (as ++ rest)).Locked holds mutex' := by
  intro j
  by_cases hjk : j = k
  · subst hjk
    have hj := h j
    rw [hat, List.countP_cons] at hj
    rw [pending_become_self, List.countP_append]
    omega
  · rw [pending_become_of_ne hjk, h j, hothers j hjk]

theorem Locked.enter (h : s.Locked holds mutex) (hidle : s.pending k = [])
    (hnew : as.countP holds = 0) : (s.become k s' as).Locked holds mutex := by
  intro j
  by_cases hjk : j = k
  · subst hjk
    have hj := h j
    rw [hidle] at hj
    rw [pending_become_self, hnew]
    exact hj
  · rw [pending_become_of_ne hjk]
    exact h j

theorem Locked.times_pos (h : s.Locked holds mutex) (ha : a ∈ s.pending k) (hh : holds a = true) :
    0 < mutex.times k := by
  rw [← h k]
  exact List.countP_pos_iff.mpr ⟨a, ha, hh⟩

/-- Only one thread has sections that run while the mutex is locked. -/
theorem Locked.alone (h : s.Locked holds mutex) (ha : a ∈ s.pending j) (hb : b ∈ s.pending k)
    (hha : holds a = true) (hhb : holds b = true) : j = k := by
  by_contra hjk
  have hj : 0 < mutex.times j := h.times_pos ha hha
  have hzero : mutex.times j = 0 := RecursiveMutex.times_of_ne (h.times_pos hb hhb) hjk
  omega

end Threads

end Transition
