import Watchlist.Library.Threads

/-!
Weighing what all threads still have to do. A quantity that each section hands on,
such as a token, a lock or an item on its way, is a weight of sections: running a
section takes its own weight away and adds that of what follows from it. Together
with what the shared state holds of the quantity, the weight is then the same
before and after a step.
-/

namespace Transition

namespace Threads

variable {σ α : Type*}

/-- The sections that all threads still have to run weigh `m` together. -/
def Weighs (w : α → ℕ) (s : Threads σ α) (m : ℕ) : Prop :=
  ∃ n, s.Below n ∧ ∑ k ∈ Finset.range n, ((s.pending k).map w).sum = m

variable {w : α → ℕ} {s : Threads σ α} {m k : ℕ} {a b : α} {as rest : List α} {s' : σ}

/-- Threads that have nothing to do weigh nothing, so any bound on the others does. -/
theorem sum_range_of_below {n n' : ℕ} (h : s.Below n) (hle : n ≤ n') :
    ∑ k ∈ Finset.range n', ((s.pending k).map w).sum =
      ∑ k ∈ Finset.range n, ((s.pending k).map w).sum := by
  symm
  apply Finset.sum_subset (Finset.range_mono hle)
  intro k _ hk
  have hidle : s.pending k = [] := h k (by simpa using hk)
  rw [hidle, List.map_nil, List.sum_nil]

/-- Only thread 0 has anything to do. -/
theorem weighs_of_first (h : ∀ k, k ≠ 0 → s.pending k = []) :
    s.Weighs w ((s.pending 0).map w).sum :=
  ⟨1, fun k hk => h k (by omega), Finset.sum_range_one _⟩

theorem Weighs.unique {m' : ℕ} (h : s.Weighs w m) (h' : s.Weighs w m') : m = m' := by
  obtain ⟨n, hn, rfl⟩ := h
  obtain ⟨n', hn', rfl⟩ := h'
  rw [← sum_range_of_below hn (le_max_left n n'), ← sum_range_of_below hn' (le_max_right n n')]

/-- The share of one thread, and what it is replaced by. -/
theorem Weighs.split (h : s.Weighs w m) (k : ℕ) (s' : σ) (as : List α) :
    ∃ m₀, m = ((s.pending k).map w).sum + m₀ ∧
      (s.become k s' as).Weighs w ((as.map w).sum + m₀) := by
  obtain ⟨n, hn, rfl⟩ := h
  have hle : n ≤ max n (k + 1) := le_max_left n (k + 1)
  have hk : k ∈ Finset.range (max n (k + 1)) := by simp
  refine ⟨∑ j ∈ (Finset.range (max n (k + 1))).erase k, ((s.pending j).map w).sum, ?_,
    max n (k + 1), ?_, ?_⟩
  · rw [← sum_range_of_below hn hle]
    exact (Finset.add_sum_erase _ _ hk).symm
  · intro j hj
    have hjk : j ≠ k := by omega
    rw [pending_become_of_ne hjk]
    exact hn j (hle.trans hj)
  · rw [← Finset.add_sum_erase _ _ hk, pending_become_self]
    congr 1
    apply Finset.sum_congr rfl
    intro j hj
    rw [pending_become_of_ne (Finset.ne_of_mem_erase hj)]

/-- Running a section replaces its weight by that of what follows from it. -/
theorem Weighs.become (h : s.Weighs w m) (hat : s.pending k = a :: rest) (s' : σ) (as : List α) :
    ∃ m₀, m = w a + m₀ ∧ (s.become k s' (as ++ rest)).Weighs w ((as.map w).sum + m₀) := by
  obtain ⟨m₀, rfl, hnext⟩ := h.split k s' (as ++ rest)
  rw [hat, List.map_cons, List.sum_cons, Nat.add_assoc]
  rw [List.map_append, List.sum_append, Nat.add_assoc] at hnext
  exact ⟨_, rfl, hnext⟩

/-- Entering a call adds the weight of its sections. -/
theorem Weighs.enter (h : s.Weighs w m) (hidle : s.pending k = []) (s' : σ) (as : List α) :
    (s.become k s' as).Weighs w ((as.map w).sum + m) := by
  obtain ⟨m₀, rfl, hnext⟩ := h.split k s' as
  rwa [hidle, List.map_nil, List.sum_nil, Nat.zero_add]

/-- No pending section weighs more than all together. -/
theorem Weighs.le (h : s.Weighs w m) (ha : s.Pending a) : w a ≤ m := by
  obtain ⟨k, hk⟩ := ha
  obtain ⟨m₀, rfl, -⟩ := h.split k s.shared []
  have hle : w a ≤ ((s.pending k).map w).sum := List.le_sum_of_mem (List.mem_map_of_mem hk)
  omega

/-- What weighs something is somewhere. -/
theorem Weighs.exists_pending (h : s.Weighs w m) (hm : 0 < m) : ∃ a, s.Pending a ∧ 0 < w a := by
  by_contra hnone
  push Not at hnone
  obtain ⟨n, hn, rfl⟩ := h
  have hzero : ∀ k ∈ Finset.range n, ((s.pending k).map w).sum = 0 := by
    intro k _
    apply List.sum_eq_zero
    intro x hx
    obtain ⟨a, ha, rfl⟩ := List.mem_map.mp hx
    exact Nat.le_zero.mp (hnone a ⟨k, ha⟩)
  rw [Finset.sum_eq_zero hzero] at hm
  exact absurd hm (lt_irrefl 0)

/-- A smaller weight of each section makes a smaller weight of all. -/
theorem Weighs.mono {w' : α → ℕ} {m' : ℕ} (h : s.Weighs w m) (h' : s.Weighs w' m')
    (hle : ∀ a, w a ≤ w' a) : m ≤ m' := by
  obtain ⟨n, hn, rfl⟩ := h
  obtain ⟨n', hn', rfl⟩ := h'
  rw [← sum_range_of_below hn (le_max_left n n'), ← sum_range_of_below hn' (le_max_right n n')]
  apply Finset.sum_le_sum
  intro k _
  exact List.sum_le_sum fun a _ => hle a

/-- The two weights of one section differ by no more than those of all. -/
theorem Weighs.add_le {w' : α → ℕ} {m' : ℕ} (h : s.Weighs w m) (h' : s.Weighs w' m')
    (hle : ∀ a, w a ≤ w' a) (hat : s.pending k = a :: rest) : m + w' a ≤ m' + w a := by
  obtain ⟨m₀, rfl, hrest⟩ := h.become hat s.shared []
  obtain ⟨m₀', rfl, hrest'⟩ := h'.become hat s.shared []
  have hmono := hrest.mono hrest' hle
  simp only [List.map_nil, List.sum_nil] at hmono
  omega

/-- The weight of what is pending and the shared state agree. -/
def Balanced (w : α → ℕ) (J : σ → ℕ → Prop) (s : Threads σ α) : Prop :=
  ∃ m, s.Weighs w m ∧ J s.shared m

end Threads

open Threads

/-- A balance that calls and sections keep, whatever else is pending, every step keeps. -/
theorem Program.balanced_step {σ α κ ε : Type*} {P : Program σ α κ ε} {w : α → ℕ}
    {J : σ → ℕ → Prop} {s t : Threads σ α} {l : Threads.Label κ ε} (hs : s.Balanced w J)
    (h : P.machine.step s l = some t)
    (henter : ∀ k call s' as m, P.enter k s.shared call = some (s', as) → J s.shared m →
      J s' ((as.map w).sum + m))
    (hrun : ∀ k a choice s' as m, s.Pending a → P.run k s.shared a choice = some (s', as) →
      J s.shared (w a + m) → J s' ((as.map w).sum + m)) : t.Balanced w J := by
  obtain ⟨m, hm, hJ⟩ := hs
  cases moves_of_step h with
  | enter hidle hcall => exact ⟨_, hm.enter hidle _ _, henter _ _ _ _ _ hcall hJ⟩
  | advance hat hact =>
      obtain ⟨m₀, rfl, hnext⟩ := hm.become hat _ _
      exact ⟨_, hnext, hrun _ _ _ _ _ _ (pending_head hat) hact hJ⟩

/-! ### Weights that end a run -/

/-- The step goes on with a call, and comes out in a way that `ok` allows. -/
def Threads.Label.goesOnWith {κ ε : Type*} (ok : ε → Bool) : Threads.Label κ ε → Bool
  | .enter _ _ => false
  | .advance _ choice => ok choice

/-- The step goes on with a call; it enters none. -/
def Threads.Label.goesOn {κ ε : Type*} (l : Threads.Label κ ε) : Bool :=
  l.goesOnWith fun _ => true

/-- If every section weighs more than what follows from it, with what the shared state weighs
before and after, a run that enters no call is no longer than what there was weighs. -/
theorem Program.length_add_weight_le {σ α κ ε : Type*} {P : Program σ α κ ε} {w : α → ℕ}
    (c : σ → ℕ) {ok : ε → Bool} (I : Threads σ α → Prop)
    (hI : ∀ s l t, I s → P.machine.step s l = some t → I t)
    (hrun : ∀ s k a choice s' as, I s → s.Pending a → ok choice = true →
      P.run k s.shared a choice = some (s', as) → (as.map w).sum + c s' < w a + c s.shared)
    {s t : Threads σ α} {ls : List (Threads.Label κ ε)} {m : ℕ} (hs : I s)
    (hls : ∀ l ∈ ls, l.goesOnWith ok = true) (hm : s.Weighs w m) (h : P.machine.exec s ls = some t) :
    ∃ m', t.Weighs w m' ∧ ls.length + (m' + c t.shared) ≤ m + c s.shared := by
  induction ls generalizing s m with
  | nil =>
      obtain rfl := Option.some.inj h
      exact ⟨m, hm, (Nat.zero_add _).le⟩
  | cons l ls ih =>
      obtain ⟨hl, hlater⟩ := List.forall_mem_cons.mp hls
      rw [Machine.exec_cons] at h
      obtain ⟨u, hu, hrest⟩ := Option.bind_eq_some_iff.mp h
      have hnext := hI s l u hs hu
      cases moves_of_step hu with
      | enter _ _ => cases hl
      | advance hat hact =>
          obtain ⟨m₀, rfl, hweighs⟩ := hm.become hat _ _
          have hless := hrun s _ _ _ _ _ hs (pending_head hat) hl hact
          obtain ⟨m', hm', hle⟩ := ih hnext hlater hweighs hrest
          refine ⟨m', hm', ?_⟩
          rw [shared_become] at hle
          rw [List.length_cons]
          omega

/-- If every step that counts makes a weight smaller, a run of such steps is no longer than the
weight that it begins with. -/
theorem Machine.length_add_le_of_lt {σ ℓ : Type*} {M : Machine σ ℓ} (weight : σ → ℕ)
    (counts : ℓ → Bool) (I : σ → Prop) (hI : ∀ s l t, I s → M.step s l = some t → I t)
    (hless : ∀ s l t, I s → counts l = true → M.step s l = some t → weight t < weight s)
    {s t : σ} {ls : List ℓ} (hs : I s) (hls : ∀ l ∈ ls, counts l = true)
    (h : M.exec s ls = some t) : ls.length + weight t ≤ weight s := by
  induction ls generalizing s with
  | nil =>
      obtain rfl := Option.some.inj h
      exact (Nat.zero_add _).le
  | cons l ls ih =>
      obtain ⟨hl, hlater⟩ := List.forall_mem_cons.mp hls
      rw [Machine.exec_cons] at h
      obtain ⟨u, hu, hrest⟩ := Option.bind_eq_some_iff.mp h
      have hle := ih (hI s l u hs hu) hlater hrest
      have hlt := hless s l u hs hl hu
      rw [List.length_cons]
      omega

/-- A fixed number of places, one of which changes. -/
theorem sum_update {n : ℕ} {β : Type*} (g : Fin n → β) (f : β → ℕ) (i : Fin n) (x : β) :
    ∑ j, f (Function.update g i x j) + f (g i) = ∑ j, f (g j) + f x := by
  have hothers : ∀ j ∈ Finset.univ.erase i, f (Function.update g i x j) = f (g j) := by
    intro j hj
    rw [Function.update_of_ne (Finset.ne_of_mem_erase hj)]
  rw [← Finset.add_sum_erase _ _ (Finset.mem_univ i),
    ← Finset.add_sum_erase _ (fun j => f (g j)) (Finset.mem_univ i),
    Finset.sum_congr rfl hothers, Function.update_self]
  omega

end Transition
