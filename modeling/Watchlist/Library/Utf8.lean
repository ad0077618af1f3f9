import Watchlist.Library.Bytes

/-!
Well-formed UTF-8 as the table of byte ranges: each lead byte fixes the ranges
of the bytes that must follow it. The ranges still owed are the only state, so a
text is checked one byte at a time and concatenation is easy to follow.
-/

namespace Utf8

/-- The lead bytes from one to another, with the ranges of the bytes that must
follow them. -/
def leads : List ((UInt8 × UInt8) × List (UInt8 × UInt8)) :=
  [((0x00, 0x7f), []),
   ((0xc2, 0xdf), [(0x80, 0xbf)]),
   ((0xe0, 0xe0), [(0xa0, 0xbf), (0x80, 0xbf)]),
   ((0xe1, 0xec), [(0x80, 0xbf), (0x80, 0xbf)]),
   ((0xed, 0xed), [(0x80, 0x9f), (0x80, 0xbf)]),
   ((0xee, 0xef), [(0x80, 0xbf), (0x80, 0xbf)]),
   ((0xf0, 0xf0), [(0x90, 0xbf), (0x80, 0xbf), (0x80, 0xbf)]),
   ((0xf1, 0xf3), [(0x80, 0xbf), (0x80, 0xbf), (0x80, 0xbf)]),
   ((0xf4, 0xf4), [(0x80, 0x8f), (0x80, 0xbf), (0x80, 0xbf)])]

def inRange (c : UInt8) (r : UInt8 × UInt8) : Bool := r.1 ≤ c && c ≤ r.2

def follow (c : UInt8) : Option (List (UInt8 × UInt8)) :=
  (leads.find? fun l => inRange c l.1).map Prod.snd

/-- The ranges owed after one more byte, unless it does not belong there. -/
def step : List (UInt8 × UInt8) → UInt8 → Option (List (UInt8 × UInt8))
  | [], c => follow c
  | r :: owed, c => if inRange c r then some owed else none

/-- Reading all the bytes; what is owed at the end. -/
def read (owed : List (UInt8 × UInt8)) (s : Bytes) : Option (List (UInt8 × UInt8)) :=
  s.foldlM step owed

/-- A sequence of whole characters. -/
def WellFormed (s : Bytes) : Prop := read [] s = some []

instance (s : Bytes) : Decidable (WellFormed s) := inferInstanceAs (Decidable (_ = _))

@[simp] theorem read_nil (owed : List (UInt8 × UInt8)) : read owed [] = some owed := rfl

@[simp] theorem read_cons (owed : List (UInt8 × UInt8)) (c : UInt8) (s : Bytes) :
    read owed (c :: s) = (step owed c).bind fun owed' => read owed' s := rfl

theorem read_append (owed : List (UInt8 × UInt8)) (a b : Bytes) :
    read owed (a ++ b) = (read owed a).bind fun owed' => read owed' b := by
  simp [read, List.foldlM_append]

theorem step_ascii {c : UInt8} (h : c < 0x80) : step [] c = some [] := by
  have hlow : inRange c (0x00, 0x7f) = true := by
    simp only [inRange, Bool.and_eq_true, decide_eq_true_eq, UInt8.le_iff_toNat_le] at *
    rw [UInt8.lt_iff_toNat_lt] at h
    exact ⟨Nat.zero_le _, Nat.le_of_lt_succ h⟩
  simp [step, follow, leads, hlow]

theorem wellFormed_nil : WellFormed [] := rfl

theorem WellFormed.append {a b : Bytes} (ha : WellFormed a) (hb : WellFormed b) :
    WellFormed (a ++ b) := by
  rw [WellFormed, read_append, show read [] a = some [] from ha]
  exact hb

theorem wellFormed_of_ascii {s : Bytes} (h : ∀ c ∈ s, c < 0x80) : WellFormed s := by
  induction s with
  | nil => rfl
  | cons c s ih =>
      rw [WellFormed, read_cons, step_ascii (h c List.mem_cons_self)]
      exact ih fun d hd => h d (List.mem_cons_of_mem _ hd)

/-- The ranges that can be owed lie above ASCII. -/
def Owed (owed : List (UInt8 × UInt8)) : Prop := ∀ r ∈ owed, 0x80 ≤ r.1

instance (owed : List (UInt8 × UInt8)) : Decidable (Owed owed) :=
  List.decidableBAll (fun r : UInt8 × UInt8 => 0x80 ≤ r.1) owed

theorem owed_follow {c : UInt8} {owed : List (UInt8 × UInt8)} (h : follow c = some owed) :
    Owed owed := by
  obtain ⟨l, hl, rfl⟩ := Option.map_eq_some_iff.mp h
  have hleads : ∀ l ∈ leads, Owed l.2 := by decide
  exact hleads l (List.mem_of_find?_eq_some hl)

theorem owed_step {owed owed' : List (UInt8 × UInt8)} {c : UInt8} (howed : Owed owed)
    (h : step owed c = some owed') : Owed owed' := by
  cases owed with
  | nil => exact owed_follow h
  | cons r owed =>
      simp only [step] at h
      split at h
      · obtain rfl := Option.some.inj h
        exact fun r' hr' => howed r' (List.mem_cons_of_mem _ hr')
      · cases h

/-- A byte inside a character is not an ASCII byte. -/
theorem not_ascii_of_step {r : UInt8 × UInt8} {owed owed' : List (UInt8 × UInt8)} {c : UInt8}
    (howed : Owed (r :: owed)) (h : step (r :: owed) c = some owed') : 0x80 ≤ c := by
  simp only [step] at h
  split at h
  · rename_i hrange
    simp only [inRange, Bool.and_eq_true, decide_eq_true_eq] at hrange
    exact (howed r List.mem_cons_self).trans hrange.1
  · cases h

end Utf8
