import Watchlist.Library.Transition

/-!
Threads over a shared state. What a thread still has to do is a list of sections;
a section is one atomic step on the shared state, and the sections that follow
from its outcome take its place. A thread with nothing to do can enter a call.
Any number of threads run, and the labels of a run choose which one moves.

Most facts about such a program are about what a single section does. The rules
below lift them to a step of the whole: a pending section was pending before or
follows from the section just run, and no other section goes away.
-/

namespace Transition

/-- The shared state, and what each thread still has to do. -/
structure Threads (σ α : Type*) where
  shared : σ
  pending : ℕ → List α

/-- The calls of a program and its sections, as the thread with the given number
enters and runs them; `none` when the section has to wait. -/
structure Program (σ α κ ε : Type*) where
  enter : ℕ → σ → κ → Option (σ × List α)
  run : ℕ → σ → α → ε → Option (σ × List α)

namespace Threads

variable {σ α κ ε : Type*}

inductive Label (κ ε : Type*)
  | enter (k : ℕ) (call : κ)
  | advance (k : ℕ) (choice : ε)

/-- The thread that makes the step. -/
def Label.thread : Label κ ε → ℕ
  | .enter k _ | .advance k _ => k

/-- The shared state becomes `s'`, and thread `k` has `as` to do. -/
def become (s : Threads σ α) (k : ℕ) (s' : σ) (as : List α) : Threads σ α :=
  ⟨s', Function.update s.pending k as⟩

@[simp] theorem shared_become (s : Threads σ α) (k : ℕ) (s' : σ) (as : List α) :
    (s.become k s' as).shared = s' := rfl

@[simp] theorem pending_become (s : Threads σ α) (k j : ℕ) (s' : σ) (as : List α) :
    (s.become k s' as).pending j = if j = k then as else s.pending j :=
  Function.update_apply ..

@[simp] theorem pending_become_self (s : Threads σ α) (k : ℕ) (s' : σ) (as : List α) :
    (s.become k s' as).pending k = as := Function.update_self ..

theorem pending_become_of_ne {s : Threads σ α} {k j : ℕ} (h : j ≠ k) (s' : σ) (as : List α) :
    (s.become k s' as).pending j = s.pending j := Function.update_of_ne h ..

/-- Nothing changes when a thread is left with what it has. -/
@[simp] theorem become_self (s : Threads σ α) (k : ℕ) : s.become k s.shared (s.pending k) = s := by
  rw [become, Function.update_eq_self]

/-- No thread has anything to do. -/
def Idle (s : Threads σ α) : Prop := ∀ k, s.pending k = []

/-- Some thread still has to run the section. -/
def Pending (s : Threads σ α) (a : α) : Prop := ∃ k, a ∈ s.pending k

theorem Idle.not_pending {s : Threads σ α} (h : s.Idle) (a : α) : ¬s.Pending a := by
  rintro ⟨k, hk⟩
  rw [h k] at hk
  cases hk

/-- Only the first `n` threads have anything to do. -/
def Below (n : ℕ) (s : Threads σ α) : Prop := ∀ k, n ≤ k → s.pending k = []

theorem Idle.below {s : Threads σ α} (h : s.Idle) (n : ℕ) : s.Below n := fun k _ => h k

theorem Below.idle {s : Threads σ α} {n : ℕ} (h : s.Below n) (hn : ∀ k < n, s.pending k = []) :
    s.Idle := by
  intro k
  by_cases hk : k < n
  · exact hn k hk
  · exact h k (not_lt.mp hk)

/-- Whether the first `n` threads have nothing to do. -/
def idleBelow (n : ℕ) (s : Threads σ α) : Bool :=
  (List.range n).all fun k => (s.pending k).isEmpty

theorem Below.idle_of_idleBelow {s : Threads σ α} {n : ℕ} (h : s.Below n)
    (hn : s.idleBelow n = true) : s.Idle := by
  apply h.idle
  intro k hk
  have hempty := List.all_eq_true.mp hn k (List.mem_range.mpr hk)
  exact List.isEmpty_iff.mp hempty

theorem Below.pending {s : Threads σ α} {n : ℕ} (h : s.Below n) {a : α} (ha : s.Pending a) :
    ∃ k < n, a ∈ s.pending k := by
  obtain ⟨k, hk⟩ := ha
  refine ⟨k, ?_, hk⟩
  by_contra hn
  rw [h k (not_lt.mp hn)] at hk
  cases hk

/-- All threads start with nothing to do. -/
def initial (s : σ) : Threads σ α := ⟨s, fun _ => []⟩

theorem idle_initial (s : σ) : (initial s : Threads σ α).Idle := fun _ => rfl

end Threads

namespace Program

open Threads

variable {σ α κ ε : Type*} (P : Program σ α κ ε)

def step (s : Threads σ α) : Threads.Label κ ε → Option (Threads σ α)
  | .enter k call =>
      match s.pending k with
      | [] => (P.enter k s.shared call).map fun r => s.become k r.1 r.2
      | _ :: _ => none
  | .advance k choice =>
      match s.pending k with
      | [] => none
      | a :: rest => (P.run k s.shared a choice).map fun r => s.become k r.1 (r.2 ++ rest)

def machine : Machine (Threads σ α) (Threads.Label κ ε) := ⟨P.step⟩

/-- The two kinds of step. -/
inductive Moves (s : Threads σ α) : Threads.Label κ ε → Threads σ α → Prop
  | enter {k : ℕ} {call : κ} {s' : σ} {as : List α} (hidle : s.pending k = [])
      (hcall : P.enter k s.shared call = some (s', as)) :
      Moves s (.enter k call) (s.become k s' as)
  | advance {k : ℕ} {choice : ε} {a : α} {rest : List α} {s' : σ} {as : List α}
      (hat : s.pending k = a :: rest) (hrun : P.run k s.shared a choice = some (s', as)) :
      Moves s (.advance k choice) (s.become k s' (as ++ rest))

variable {P} {s t : Threads σ α} {l : Threads.Label κ ε}

theorem moves_of_step (h : P.step s l = some t) : P.Moves s l t := by
  cases l with
  | enter k call =>
      simp only [step] at h
      split at h
      · rename_i hidle
        obtain ⟨⟨s', as⟩, hcall, rfl⟩ := Option.map_eq_some_iff.mp h
        exact .enter hidle hcall
      · cases h
  | advance k choice =>
      simp only [step] at h
      split at h
      · cases h
      · rename_i a rest hat
        obtain ⟨⟨s', as⟩, hrun, rfl⟩ := Option.map_eq_some_iff.mp h
        exact .advance hat hrun

theorem step_of_moves (h : P.Moves s l t) : P.step s l = some t := by
  cases h with
  | enter hidle hcall => simp only [step, hidle, hcall, Option.map_some]
  | advance hat hrun => simp only [step, hat, hrun, Option.map_some]

/-! ### Runs of the first threads

A concrete run is made by some first `n` threads; what it leaves to do is then
found out by looking at these. -/

theorem below_step {n : ℕ} (hs : s.Below n) (hl : l.thread < n) (h : P.machine.step s l = some t) :
    t.Below n := by
  intro k hk
  have hne : k ≠ l.thread := by omega
  cases moves_of_step h with
  | enter => exact (pending_become_of_ne hne ..).trans (hs k hk)
  | advance => exact (pending_become_of_ne hne ..).trans (hs k hk)

theorem below_exec {n : ℕ} {ls : List (Threads.Label κ ε)} (hs : s.Below n)
    (hls : ∀ l ∈ ls, l.thread < n) (h : P.machine.exec s ls = some t) : t.Below n := by
  induction ls generalizing s with
  | nil =>
      obtain rfl := Option.some.inj h
      exact hs
  | cons l ls ih =>
      rw [Machine.exec_cons] at h
      obtain ⟨u, hu, hrest⟩ := Option.bind_eq_some_iff.mp h
      obtain ⟨hl, hls⟩ := List.forall_mem_cons.mp hls
      exact ih (below_step hs hl hu) hls hrest

/-- In every run only finitely many threads have anything to do. -/
theorem exists_below_exec {n : ℕ} {ls : List (Threads.Label κ ε)} (hs : s.Below n)
    (h : P.machine.exec s ls = some t) : ∃ m, t.Below m := by
  obtain ⟨m, hm⟩ : ∃ m, ∀ l ∈ ls, l.thread < m := by
    clear h
    induction ls with
    | nil => exact ⟨0, nofun⟩
    | cons l ls ih =>
        obtain ⟨m, hm⟩ := ih
        refine ⟨max (l.thread + 1) m, fun l' hl' => ?_⟩
        rcases List.mem_cons.mp hl' with rfl | hl'
        · exact lt_max_of_lt_left (Nat.lt_succ_self _)
        · exact lt_max_of_lt_right (hm l' hl')
  exact ⟨max n m, below_exec (fun k hk => hs k (le_of_max_le_left hk))
    (fun l hl => lt_max_of_lt_right (hm l hl)) h⟩

/-- A condition need only be met in states where the other threads are idle. -/
theorem meets_of_below {n : ℕ} {C : Threads σ α → Threads.Label κ ε → Prop}
    {ls : List (Threads.Label κ ε)} (hs : s.Below n) (hls : ∀ l ∈ ls, l.thread < n)
    (h : P.machine.Meets (fun s l => s.Below n → C s l) s ls) : P.machine.Meets C s ls := by
  induction ls generalizing s with
  | nil => trivial
  | cons l ls ih =>
      obtain ⟨hl, hls⟩ := List.forall_mem_cons.mp hls
      exact ⟨h.1 hs, fun t ht => ih (below_step hs hl ht) hls (h.2 t ht)⟩

end Program

namespace Threads

variable {σ α : Type*} {s : Threads σ α} {k : ℕ} {s' : σ} {a b : α} {as rest : List α}

/-! ### What is pending after a step -/

/-- After a thread has run a section: what follows from it, and what was pending. -/
theorem pending_of_become (hat : s.pending k = a :: rest)
    (h : (s.become k s' (as ++ rest)).Pending b) : b ∈ as ∨ s.Pending b := by
  obtain ⟨j, hj⟩ := h
  rw [pending_become] at hj
  split at hj
  · rcases List.mem_append.mp hj with hj | hj
    · exact Or.inl hj
    · exact Or.inr ⟨k, by rw [hat]; exact List.mem_cons_of_mem a hj⟩
  · exact Or.inr ⟨j, hj⟩

/-- Only the section that has been run can have gone. -/
theorem Pending.become (hat : s.pending k = a :: rest) (h : s.Pending b) :
    b = a ∨ (s.become k s' (as ++ rest)).Pending b := by
  obtain ⟨j, hj⟩ := h
  by_cases hjk : j = k
  · subst hjk
    rw [hat] at hj
    rcases List.mem_cons.mp hj with rfl | hj
    · exact Or.inl rfl
    · refine Or.inr ⟨j, ?_⟩
      rw [pending_become_self]
      exact List.mem_append_right as hj
  · exact Or.inr ⟨j, by rwa [pending_become_of_ne hjk]⟩

theorem pending_become_of_mem (h : b ∈ as) : (s.become k s' (as ++ rest)).Pending b :=
  ⟨k, by rw [pending_become_self]; exact List.mem_append_left rest h⟩

/-- After a thread has entered a call. -/
theorem pending_of_enter (h : (s.become k s' as).Pending b) : b ∈ as ∨ s.Pending b := by
  obtain ⟨j, hj⟩ := h
  rw [pending_become] at hj
  split at hj
  · exact Or.inl hj
  · exact Or.inr ⟨j, hj⟩

theorem Pending.enter (hidle : s.pending k = []) (h : s.Pending b) :
    (s.become k s' as).Pending b := by
  obtain ⟨j, hj⟩ := h
  have hjk : j ≠ k := by
    rintro rfl
    rw [hidle] at hj
    cases hj
  exact ⟨j, by rwa [pending_become_of_ne hjk]⟩

theorem pending_enter_of_mem (h : b ∈ as) : (s.become k s' as).Pending b :=
  ⟨k, by rwa [pending_become_self]⟩

theorem pending_head (hat : s.pending k = a :: rest) : s.Pending a :=
  ⟨k, by rw [hat]; exact List.mem_cons_self⟩

/-- A property of all pending sections, after a section has been run. -/
theorem forall_pending_become {J : α → Prop} (hat : s.pending k = a :: rest)
    (hnew : ∀ b ∈ as, J b) (hold : ∀ b, s.Pending b → J b) :
    ∀ b, (s.become k s' (as ++ rest)).Pending b → J b :=
  fun b hb => (pending_of_become hat hb).elim (hnew b) (hold b)

theorem forall_pending_enter {J : α → Prop} (hnew : ∀ b ∈ as, J b)
    (hold : ∀ b, s.Pending b → J b) : ∀ b, (s.become k s' as).Pending b → J b :=
  fun b hb => (pending_of_enter hb).elim (hnew b) (hold b)

/-- A property of all that a thread does after its next section, which the sections that
follow from another have too. -/
theorem forall_tail_become {J : α → Prop} (hat : s.pending k = a :: rest)
    (hnew : ∀ b ∈ as.tail, J b) (hold : ∀ j, ∀ b ∈ (s.pending j).tail, J b) :
    ∀ j, ∀ b ∈ ((s.become k s' (as ++ rest)).pending j).tail, J b := by
  intro j b hb
  by_cases hjk : j = k
  · subst hjk
    have hrest := hold j
    rw [hat, List.tail_cons] at hrest
    rw [pending_become_self] at hb
    cases as with
    | nil => exact hrest b (List.mem_of_mem_tail hb)
    | cons c cs =>
        rw [List.cons_append, List.tail_cons] at hb
        rcases List.mem_append.mp hb with hb | hb
        · exact hnew b hb
        · exact hrest b hb
  · rw [pending_become_of_ne hjk] at hb
    exact hold j b hb

theorem forall_tail_enter {J : α → Prop} (hnew : ∀ b ∈ as.tail, J b)
    (hold : ∀ j, ∀ b ∈ (s.pending j).tail, J b) :
    ∀ j, ∀ b ∈ ((s.become k s' as).pending j).tail, J b := by
  intro j b hb
  by_cases hjk : j = k
  · subst hjk
    rw [pending_become_self] at hb
    exact hnew b hb
  · rw [pending_become_of_ne hjk] at hb
    exact hold j b hb

/-! ### Sections that are pending once

A token, such as a lock, is what at most one thread has still to give back: among
all pending sections at most one has the property. -/

/-- At most one pending section has the property. -/
structure Single (p : α → Bool) (s : Threads σ α) : Prop where
  once : ∀ k, (s.pending k).countP p ≤ 1
  alone : ∀ j k a b, a ∈ s.pending j → b ∈ s.pending k → p a = true → p b = true → j = k

variable {p : α → Bool}

theorem single_of_none (h : ∀ a, s.Pending a → p a = false) : Single p s where
  once k := by
    rw [List.countP_eq_zero.mpr fun a ha => ne_true_of_eq_false (h a ⟨k, ha⟩)]
    exact Nat.zero_le 1
  alone j k a b ha _ hpa _ := absurd hpa (ne_true_of_eq_false (h a ⟨j, ha⟩))

theorem Idle.single (h : s.Idle) : Single p s :=
  single_of_none fun a ha => absurd ha (h.not_pending a)

/-- The section that has been run may hand its property on. -/
theorem Single.become (h : Single p s) (hat : s.pending k = a :: rest)
    (hcount : as.countP p ≤ if p a then 1 else 0) : Single p (s.become k s' (as ++ rest)) := by
  have hmem : ∀ b ∈ as, p b = true → p a = true := by
    intro b hb hpb
    by_contra hpa
    rw [if_neg hpa] at hcount
    exact List.countP_eq_zero.mp (Nat.le_zero.mp hcount) b hb hpb
  have horigin : ∀ j, ∀ b ∈ (s.become k s' (as ++ rest)).pending j, p b = true →
      ∃ b' ∈ s.pending j, p b' = true := by
    intro j b hb hpb
    rw [pending_become] at hb
    split at hb
    · rename_i hjk
      rw [hjk, hat]
      rcases List.mem_append.mp hb with hb | hb
      · exact ⟨a, List.mem_cons_self, hmem b hb hpb⟩
      · exact ⟨b, List.mem_cons_of_mem a hb, hpb⟩
    · exact ⟨b, hb, hpb⟩
  constructor
  · intro j
    rw [pending_become]
    split
    · have hk := h.once k
      rw [hat, List.countP_cons] at hk
      rw [List.countP_append]
      omega
    · exact h.once j
  · intro i j b c hb hc hpb hpc
    obtain ⟨b', hb', hpb'⟩ := horigin i b hb hpb
    obtain ⟨c', hc', hpc'⟩ := horigin j c hc hpc
    exact h.alone i j b' c' hb' hc' hpb' hpc'

/-- A call may start with sections that do not have the property. -/
theorem Single.enter (h : Single p s) (hnew : ∀ b ∈ as, p b = false) :
    Single p (s.become k s' as) := by
  have hold : ∀ j, ∀ b ∈ (s.become k s' as).pending j, p b = true → b ∈ s.pending j := by
    intro j b hb hpb
    rw [pending_become] at hb
    split at hb
    · exact absurd hpb (ne_true_of_eq_false (hnew b hb))
    · exact hb
  constructor
  · intro j
    rw [pending_become]
    split
    · rw [List.countP_eq_zero.mpr fun b hb => ne_true_of_eq_false (hnew b hb)]
      exact Nat.zero_le 1
    · exact h.once j
  · intro i j b c hb hc hpb hpc
    exact h.alone i j b c (hold i b hb hpb) (hold j c hc hpc) hpb hpc

/-- A thread may take the property up when no pending section has it. -/
theorem Single.acquire (h : ∀ b, s.Pending b → p b = false) (hcount : as.countP p ≤ 1) :
    Single p (s.become k s' as) := by
  have hthread : ∀ j, ∀ b ∈ (s.become k s' as).pending j, p b = true → j = k := by
    intro j b hb hpb
    by_contra hjk
    rw [pending_become_of_ne hjk] at hb
    exact ne_true_of_eq_false (h b ⟨j, hb⟩) hpb
  constructor
  · intro j
    rw [pending_become]
    split
    · exact hcount
    · rw [List.countP_eq_zero.mpr fun b hb => ne_true_of_eq_false (h b ⟨j, hb⟩)]
      exact Nat.zero_le 1
  · intro i j b c hb hc hpb hpc
    rw [hthread i b hb hpb, hthread j c hc hpc]

/-- The same for a thread that has more to do. -/
theorem Single.acquire_append (h : ∀ b, s.Pending b → p b = false) (hat : s.pending k = a :: rest)
    (hcount : as.countP p ≤ 1) : Single p (s.become k s' (as ++ rest)) := by
  apply Single.acquire h
  have hrest : rest.countP p = 0 := by
    apply List.countP_eq_zero.mpr
    intro b hb
    exact ne_true_of_eq_false (h b ⟨k, by rw [hat]; exact List.mem_cons_of_mem a hb⟩)
  rw [List.countP_append, hrest]
  exact hcount

/-- Apart from the section that has it, no pending section has the property. -/
theorem Single.others (h : Single p s) (hat : s.pending k = a :: rest) (ha : p a = true) :
    (∀ b ∈ rest, p b = false) ∧ ∀ j, j ≠ k → ∀ b ∈ s.pending j, p b = false := by
  constructor
  · have hk := h.once k
    rw [hat, List.countP_cons_of_pos ha] at hk
    intro b hb
    exact Bool.eq_false_of_not_eq_true (List.countP_eq_zero.mp (by omega) b hb)
  · intro j hjk b hb
    apply Bool.eq_false_of_not_eq_true
    intro hpb
    exact hjk (h.alone j k b a hb (by rw [hat]; exact List.mem_cons_self) hpb ha)

/-- Once the section that has the property is run for good, none has it. -/
theorem Single.release (h : Single p s) (hat : s.pending k = a :: rest) (ha : p a = true)
    (hnew : ∀ b ∈ as, p b = false) :
    ∀ b, (s.become k s' (as ++ rest)).Pending b → p b = false := by
  obtain ⟨hrest, hothers⟩ := h.others hat ha
  rintro b ⟨j, hb⟩
  by_cases hjk : j = k
  · rw [hjk, pending_become_self] at hb
    rcases List.mem_append.mp hb with hb | hb
    · exact hnew b hb
    · exact hrest b hb
  · rw [pending_become_of_ne hjk] at hb
    exact hothers j hjk b hb

end Threads

end Transition
