import Mathlib

/-!
Byte strings: the order of `memcmp`, literals, and the character classes of the
C locale.
-/

/-- A `std::string`: any sequence of bytes. -/
abbrev Bytes := List UInt8

instance instLinearOrderUInt8 : LinearOrder UInt8 where
  le_refl a := UInt8.le_refl a
  le_trans _ _ _ := UInt8.le_trans
  le_antisymm _ _ := UInt8.le_antisymm
  le_total := UInt8.le_total
  lt_iff_le_not_ge a b := by
    rw [UInt8.le_iff_toNat_le, UInt8.le_iff_toNat_le, UInt8.lt_iff_toNat_lt]
    omega
  toDecidableLE := inferInstance

namespace Bytes

/-- The bytes of a literal. -/
def ascii (s : String) : Bytes := s.toByteArray.data.toList

def isDigit (c : UInt8) : Bool := 48 ≤ c && c ≤ 57

def isUpper (c : UInt8) : Bool := 65 ≤ c && c ≤ 90

def isLower (c : UInt8) : Bool := 97 ≤ c && c ≤ 122

def isAlnum (c : UInt8) : Bool := isDigit c || isUpper c || isLower c

def isXDigit (c : UInt8) : Bool := isDigit c || (65 ≤ c && c ≤ 70) || (97 ≤ c && c ≤ 102)

/-- Space, `\t`, `\n`, `\v`, `\f` and `\r`. -/
def isSpace (c : UInt8) : Bool := c == 32 || (9 ≤ c && c ≤ 13)

def toLower (c : UInt8) : UInt8 := if isUpper c then c + 32 else c

/-- Where `pattern` first occurs. -/
def find (pattern : Bytes) : Bytes → Option ℕ
  | [] => if pattern.isEmpty then some 0 else none
  | c :: cs => if pattern.isPrefixOf (c :: cs) then some 0 else (find pattern cs).map (· + 1)

/-- Write `replacement` over the first occurrence of `pattern`. -/
def replaceFirst (pattern replacement s : Bytes) : Bytes :=
  match find pattern s with
  | some i => s.take i ++ replacement ++ s.drop (i + pattern.length)
  | none => s

/-- The parts between the separators, as a loop over `find` cuts them. -/
def split (separator : UInt8) (s : Bytes) : List Bytes := s.splitOn separator

/-- The decimal digits of a number. -/
def ofNat (n : ℕ) : Bytes := (Nat.toDigits 10 n).map fun c => UInt8.ofNat c.toNat

/-- The same with a sign. -/
def ofInt (n : ℤ) : Bytes := (if n < 0 then [45] else []) ++ ofNat n.natAbs

/-- Every byte is in a part or is the separator after one. -/
theorem sum_length_split (separator : UInt8) (s : Bytes) :
    ((split separator s).map fun part => part.length + 1).sum = s.length + 1 := by
  induction s with
  | nil => rfl
  | cons c cs ih =>
      rw [split, List.splitOn_cons_eq_if_modifyHead, ← split]
      split
      · rw [List.map_cons, List.sum_cons, ih, List.length_cons, List.length_nil]
        omega
      · obtain ⟨part, parts, hparts⟩ :=
          List.exists_cons_of_ne_nil (List.splitOn_ne_nil separator cs)
        rw [split, hparts] at ih
        rw [split, hparts]
        simp only [List.modifyHead, List.map_cons, List.sum_cons, List.length_cons] at ih ⊢
        omega

end Bytes
