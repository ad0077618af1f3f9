import Mathlib

/-!
The end of a list, as far as a bound lets one keep it. A list that is cut back to its last
entries each time something is added is the end of the list that is never cut, and a second
list of this kind can follow the first one from the numbers of its entries alone.
-/

namespace Ends

variable {α : Type*} {l a b : List α} {m n p : ℕ}

theorem rtake_of_length_le (h : l.length ≤ n) : l.rtake n = l := by
  rw [List.rtake, Nat.sub_eq_zero_of_le h, List.drop_zero]

@[simp] theorem length_rtake (l : List α) (n : ℕ) : (l.rtake n).length = min n l.length := by
  rw [List.rtake, List.length_drop]
  omega

theorem rtake_append_of_le (h : n ≤ b.length) : (a ++ b).rtake n = b.rtake n := by
  rw [List.rtake, List.rtake, List.length_append, List.drop_append,
    List.drop_eq_nil_of_le (by omega), List.nil_append]
  congr 1
  omega

theorem rtake_rtake (h : m ≤ n) : (l.rtake n).rtake m = l.rtake m := by
  rw [List.rtake, length_rtake, List.rtake, List.drop_drop, List.rtake]
  congr 1
  omega

/-- What is added to the end of a list is added to its last entries. -/
theorem rtake_rtake_append (l a : List α) (n : ℕ) : (l.rtake n ++ a).rtake n = (l ++ a).rtake n := by
  by_cases h : n ≤ a.length
  · rw [rtake_append_of_le h, rtake_append_of_le h]
  · have hdrop : l.rtake n ++ a = (l ++ a).drop (l.length - n) := by
      rw [List.rtake, List.drop_append_of_le_length (Nat.sub_le _ _)]
    rw [hdrop, List.rtake, List.drop_drop, List.length_drop, List.rtake]
    congr 1
    rw [List.length_append]
    omega

/-! ### Cutting back -/

/-- Remove the first entry while there are too many. -/
def trim (limit : ℕ) : List α → List α
  | [] => []
  | x :: xs => if limit < (x :: xs).length then trim limit xs else x :: xs

theorem trim_eq_rtake (limit : ℕ) (l : List α) : trim limit l = l.rtake limit := by
  induction l with
  | nil => rw [List.rtake_nil, trim]
  | cons x xs ih =>
      rw [trim]
      split
      · rename_i hlong
        rw [ih, ← List.singleton_append, rtake_append_of_le]
        exact Nat.lt_succ_iff.mp hlong
      · rename_i hshort
        exact (rtake_of_length_le (not_lt.mp hshort)).symm

/-- One entry more than the limit needs no loop. -/
theorem ite_tail_eq_rtake (h : l.length ≤ n + 1) :
    (if n < l.length then l.tail else l) = l.rtake n := by
  split
  · rw [List.rtake, show l.length - n = 1 by omega, List.drop_one]
  · rename_i hshort
    exact (rtake_of_length_le (not_lt.mp hshort)).symm

/-! ### Following by numbers -/

/-- In a list that is numbered from `first` on, the entries above a number are its end. -/
theorem filter_lt_of_numbered {number : α → ℕ} {first last : ℕ}
    (h : l.map number = List.range' (first + 1) l.length) :
    (l.filter fun x => last < number x) = l.drop (last - first) := by
  induction l generalizing first with
  | nil => simp
  | cons x xs ih =>
      rw [List.map_cons, List.length_cons, List.range'_succ] at h
      obtain ⟨hx, hxs⟩ := List.cons.inj h
      rw [List.filter_cons, hx, ih hxs]
      by_cases hlast : last < first + 1
      · rw [if_pos (decide_eq_true hlast), Nat.sub_eq_zero_of_le (by omega),
          Nat.sub_eq_zero_of_le (by omega), List.drop_zero, List.drop_zero]
      · rw [if_neg (by simpa using hlast), show last - first = last - (first + 1) + 1 by omega,
          List.drop_succ_cons]

theorem filter_lt_rtake_of_numbered {number : α → ℕ} {first : ℕ}
    (h : l.map number = List.range' (first + 1) l.length) (n last : ℕ) :
    ((l.rtake n).filter fun x => last < number x) =
      l.drop (max (last - first) (l.length - n)) := by
  have hheld : (l.rtake n).map number =
      List.range' (first + (l.length - n) + 1) (l.rtake n).length := by
    rw [length_rtake, List.rtake, List.map_drop, h, List.drop_range']
    congr 1 <;> omega
  rw [filter_lt_of_numbered hheld, List.rtake, List.drop_drop]
  congr 1
  omega

theorem map_rtake {β : Type*} (f : α → β) (l : List α) (n : ℕ) :
    (l.rtake n).map f = (l.map f).rtake n := by
  rw [List.rtake, List.rtake, List.map_drop, List.length_map]

/-- A list that had been followed up to its entry `p` is caught up with from its last `n`
entries, as long as no more than these are wanted. -/
theorem rtake_catch_up (hmn : m ≤ n) (p : ℕ) :
    ((l.take p).rtake m ++ l.drop (max p (l.length - n))).rtake m = l.rtake m := by
  by_cases h : l.length - n ≤ p
  · rw [max_eq_left h, rtake_rtake_append, List.take_append_drop]
  · have hkept : n ≤ (l.drop (l.length - n)).length := by
      rw [List.length_drop]
      omega
    rw [max_eq_right (by omega), rtake_append_of_le (hmn.trans hkept)]
    exact rtake_rtake hmn

end Ends
