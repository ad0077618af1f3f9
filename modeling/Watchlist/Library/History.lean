import Mathlib

/-!
Histories: lists that grow at their end. What a history says of each of its entries may
depend on the entries before it, so it is shown when the entry is added.
-/

namespace History

variable {α : Type*}

/-- Every entry is as the entries before it require. -/
def Explained (P : List α → α → Prop) (h : List α) : Prop :=
  ∀ pre x post, h = pre ++ x :: post → P pre x

variable {P : List α → α → Prop} {h : List α} {x : α}

theorem explained_nil : Explained P [] := by
  intro pre x post heq
  have hlength := congrArg List.length heq
  simp at hlength

/-- A new entry has to be explained by all the others. -/
theorem explained_snoc : Explained P (h ++ [x]) ↔ Explained P h ∧ P h x := by
  constructor
  · intro hall
    refine ⟨fun pre y post heq => hall pre y (post ++ [x]) ?_, hall h x [] rfl⟩
    rw [heq, List.append_assoc, List.cons_append]
  · rintro ⟨hall, hx⟩ pre y post heq
    rcases List.eq_nil_or_concat post with rfl | ⟨post, z, rfl⟩
    · obtain ⟨rfl, hlast⟩ := List.append_inj' heq rfl
      obtain rfl : x = y := List.singleton_inj.mp hlast
      exact hx
    · rw [List.concat_eq_append, ← List.cons_append, ← List.append_assoc] at heq
      exact hall pre y post (List.append_inj' heq rfl).1

theorem Explained.mono {Q : List α → α → Prop} (hall : Explained P h)
    (himp : ∀ pre x, P pre x → Q pre x) : Explained Q h :=
  fun pre x post heq => himp pre x (hall pre x post heq)

end History
