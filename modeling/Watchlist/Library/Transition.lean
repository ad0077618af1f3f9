import Mathlib

/-!
Machines that take one labelled step at a time. The label resolves every choice
the environment has (which thread moves, what a call is given, which operation
fails), so a step is a partial function and a run is computed from its labels.
The rules below are the only inductions over runs that the developments on top
of this file need: an invariant of every step is an invariant of every run, also
when the steps are known to meet a condition, and a map between two machines
that respects single steps respects runs.
-/

namespace Transition

/-- The step to `t`, allowed under a condition. -/
def allow {σ : Type*} (c : Prop) [Decidable c] (t : σ) : Option σ := if c then some t else none

@[simp] theorem allow_eq_some {σ : Type*} {c : Prop} [Decidable c] {t u : σ} :
    allow c t = some u ↔ c ∧ t = u := by
  unfold allow
  split <;> simp_all

/-- `step s l` is the state after the step `l`, or `none` when `s` refuses it. -/
structure Machine (σ ℓ : Type*) where
  step : σ → ℓ → Option σ

namespace Machine

variable {σ σ' ℓ ℓ' : Type*} (M : Machine σ ℓ)

/-- The state after all the labelled steps, taken in order. -/
def exec (s : σ) (ls : List ℓ) : Option σ := ls.foldlM M.step s

@[simp] theorem exec_nil (s : σ) : M.exec s [] = some s := rfl

@[simp] theorem exec_cons (s : σ) (l : ℓ) (ls : List ℓ) :
    M.exec s (l :: ls) = (M.step s l).bind (fun t => M.exec t ls) := rfl

theorem exec_cons_of_step {M : Machine σ ℓ} {s t : σ} {l : ℓ} (h : M.step s l = some t)
    (ls : List ℓ) : M.exec s (l :: ls) = M.exec t ls := by
  rw [exec_cons, h, Option.bind_some]

theorem exec_append (s : σ) (ls ls' : List ℓ) :
    M.exec s (ls ++ ls') = (M.exec s ls).bind (fun t => M.exec t ls') := by
  simp [exec, List.foldlM_append]

/-- `t` is reached from `s` by some run. -/
def Reaches (s t : σ) : Prop := ∃ ls, M.exec s ls = some t

theorem Reaches.refl (s : σ) : M.Reaches s s := ⟨[], rfl⟩

variable {M}

theorem Reaches.step {s t u : σ} {l : ℓ} (h : M.Reaches s t) (hl : M.step t l = some u) :
    M.Reaches s u := by
  obtain ⟨ls, hls⟩ := h
  exact ⟨ls ++ [l], by simp [exec_append, hls, hl]⟩

/-- Every step of the run from `s` meets `C`, a condition on the state before
the step and on its label. -/
def Meets (M : Machine σ ℓ) (C : σ → ℓ → Prop) : σ → List ℓ → Prop
  | _, [] => True
  | s, l :: ls => C s l ∧ ∀ t, M.step s l = some t → M.Meets C t ls

/-- Whether a run meets a condition is found out by running it. -/
instance decidableMeets {C : σ → ℓ → Prop} [∀ s l, Decidable (C s l)] :
    ∀ (s : σ) (ls : List ℓ), Decidable (M.Meets C s ls)
  | _, [] => isTrue trivial
  | s, l :: ls =>
      match h : M.step s l with
      | none => decidable_of_iff (C s l) ⟨fun hc => ⟨hc, fun t ht => by simp [h] at ht⟩, And.left⟩
      | some t =>
          let _ := decidableMeets (C := C) t ls
          decidable_of_iff (C s l ∧ M.Meets C t ls)
            ⟨fun hc => ⟨hc.1, fun u hu => Option.some.inj (h.symm.trans hu) ▸ hc.2⟩,
              fun hc => ⟨hc.1, hc.2 t h⟩⟩

/-- The invariant rule for runs whose steps all meet a condition. -/
theorem invariant_of_meets {C : σ → ℓ → Prop} (I : σ → Prop)
    (hstep : ∀ s l t, I s → C s l → M.step s l = some t → I t)
    {s t : σ} {ls : List ℓ} (hmeets : M.Meets C s ls) (hrun : M.exec s ls = some t)
    (hs : I s) : I t := by
  induction ls generalizing s with
  | nil =>
      simp only [exec_nil, Option.some.injEq] at hrun
      exact hrun ▸ hs
  | cons l ls ih =>
      rw [exec_cons] at hrun
      obtain ⟨u, hu, hrest⟩ := Option.bind_eq_some_iff.mp hrun
      exact ih (hmeets.2 u hu) hrest (hstep s l u hs hmeets.1 hu)

theorem Meets.mono {C C' : σ → ℓ → Prop} (h : ∀ s l, C s l → C' s l) {s : σ} {ls : List ℓ}
    (hmeets : M.Meets C s ls) : M.Meets C' s ls := by
  induction ls generalizing s with
  | nil => trivial
  | cons l ls ih => exact ⟨h s l hmeets.1, fun t ht => ih (hmeets.2 t ht)⟩

theorem Meets.and {C C' : σ → ℓ → Prop} {s : σ} {ls : List ℓ} (h : M.Meets C s ls)
    (h' : M.Meets C' s ls) : M.Meets (fun s l => C s l ∧ C' s l) s ls := by
  induction ls generalizing s with
  | nil => trivial
  | cons l ls ih => exact ⟨⟨h.1, h'.1⟩, fun t ht => ih (h.2 t ht) (h'.2 t ht)⟩

theorem meets_of_forall {C : σ → ℓ → Prop} {s : σ} {ls : List ℓ} (h : ∀ l ∈ ls, ∀ t, C t l) :
    M.Meets C s ls := by
  induction ls generalizing s with
  | nil => trivial
  | cons l ls ih =>
      obtain ⟨hl, hls⟩ := List.forall_mem_cons.mp h
      exact ⟨hl s, fun t _ => ih hls⟩

/-- The first part of a run meets what the whole run meets. -/
theorem Meets.left {C : σ → ℓ → Prop} {s : σ} {ls ls' : List ℓ}
    (h : M.Meets C s (ls ++ ls')) : M.Meets C s ls := by
  induction ls generalizing s with
  | nil => trivial
  | cons l ls ih => exact ⟨h.1, fun t ht => ih (h.2 t ht)⟩

/-- The last step of a run meets the condition in the state that the run has reached. -/
theorem Meets.last {C : σ → ℓ → Prop} {s t : σ} {ls : List ℓ} {l : ℓ}
    (h : M.Meets C s (ls ++ [l])) (hrun : M.exec s ls = some t) : C t l := by
  induction ls generalizing s with
  | nil =>
      obtain rfl := Option.some.inj hrun
      exact h.1
  | cons l' ls ih =>
      rw [exec_cons] at hrun
      obtain ⟨u, hu, hrest⟩ := Option.bind_eq_some_iff.mp hrun
      exact ih (h.2 u hu) hrest

/-- The invariant rule for a property of a state and the run that led to it. -/
theorem invariant_of_run (I : List ℓ → σ → Prop) {s t : σ} {ls : List ℓ} (hs : I [] s)
    (hstep : ∀ ls u l v, M.exec s ls = some u → I ls u → M.step u l = some v → I (ls ++ [l]) v)
    (hrun : M.exec s ls = some t) : I ls t := by
  induction ls using List.reverseRecOn generalizing t with
  | nil =>
      obtain rfl := Option.some.inj hrun
      exact hs
  | append_singleton ls l ih =>
      rw [exec_append] at hrun
      obtain ⟨u, hu, hlast⟩ := Option.bind_eq_some_iff.mp hrun
      rw [exec_cons] at hlast
      obtain ⟨v, hv, hend⟩ := Option.bind_eq_some_iff.mp hlast
      obtain rfl := Option.some.inj hend
      exact hstep ls u l v hu (ih hu) hv

/-- The invariant rule: what the first state has and every step keeps, every
reached state has. -/
theorem invariant (I : σ → Prop) (hstep : ∀ s l t, I s → M.step s l = some t → I t)
    {s t : σ} (hreach : M.Reaches s t) (hs : I s) : I t := by
  obtain ⟨ls, hrun⟩ := hreach
  exact invariant_of_meets I (fun u l v hu _ hv => hstep u l v hu hv)
    (meets_of_forall fun _ _ _ => trivial) hrun hs

/-- When a state stays clean exactly through the steps that meet a condition, as
long as the run stays good, a good and clean end says that the whole run met it. -/
theorem meets_iff_of_good {C : σ → ℓ → Prop} (I good clean : σ → Prop)
    (hstep : ∀ s l t, I s → M.step s l = some t → I t)
    (hgood : ∀ s l t, I s → M.step s l = some t → good t → good s)
    (hclean : ∀ s l t, I s → M.step s l = some t → good t → (clean t ↔ clean s ∧ C s l))
    {s t : σ} {ls : List ℓ} (hrun : M.exec s ls = some t) (hs : I s) (ht : good t) :
    good s ∧ (clean t ↔ clean s ∧ M.Meets C s ls) := by
  induction ls generalizing s with
  | nil =>
      simp only [exec_nil, Option.some.injEq] at hrun
      rw [hrun]
      exact ⟨ht, (and_iff_left trivial).symm⟩
  | cons l ls ih =>
      rw [exec_cons] at hrun
      obtain ⟨u, hu, hrest⟩ := Option.bind_eq_some_iff.mp hrun
      obtain ⟨hgu, hiff⟩ := ih hrest (hstep s l u hs hu)
      refine ⟨hgood s l u hs hu hgu, ?_⟩
      rw [hiff, hclean s l u hs hu hgu, and_assoc]
      refine and_congr_right fun _ => and_congr_right fun _ => ?_
      constructor
      · intro hmeets v hv
        rwa [← Option.some.inj (hu.symm.trans hv)]
      · intro hmeets
        exact hmeets u hu

/-- The same for runs that need not stay anything else. -/
theorem meets_iff {C : σ → ℓ → Prop} (I clean : σ → Prop)
    (hstep : ∀ s l t, I s → M.step s l = some t → I t)
    (hclean : ∀ s l t, I s → M.step s l = some t → (clean t ↔ clean s ∧ C s l))
    {s t : σ} {ls : List ℓ} (hrun : M.exec s ls = some t) (hs : I s) :
    clean t ↔ clean s ∧ M.Meets C s ls :=
  (meets_iff_of_good I (fun _ => True) clean hstep (fun _ _ _ _ _ _ => trivial)
    (fun s l t hs hl _ => hclean s l t hs hl) hrun hs trivial).2

/-- A map that turns every step into a run, turns every run into a run. -/
theorem Reaches.map {M' : Machine σ' ℓ'} (f : σ → σ')
    (hstep : ∀ s l t, M.step s l = some t → M'.Reaches (f s) (f t))
    {s t : σ} (hreach : M.Reaches s t) : M'.Reaches (f s) (f t) := by
  refine invariant (M := M) (fun u => M'.Reaches (f s) (f u)) ?_ hreach (Reaches.refl M' (f s))
  intro u l v hu hv
  obtain ⟨ls, hls⟩ := hu
  obtain ⟨ls', hls'⟩ := hstep u l v hv
  exact ⟨ls ++ ls', by simp [exec_append, hls, hls']⟩

end Machine

end Transition
