import Watchlist.Library.Bytes

/-!
The bytes of a character: a lead byte that announces how many continuation bytes
follow it, and the bits of the scalar value spread over them. A character is
written with the fewest bytes that hold its value.
-/

namespace Utf8

/-- The bits of the continuation bytes, behind those of the lead byte. -/
def value (payload : ℕ) (continuations : Bytes) : ℕ :=
  continuations.foldl (fun v c => v * 64 + c.toNat % 64) payload

/-- A byte that is no lead byte. -/
def IsContinuation (c : UInt8) : Prop := c.toNat / 64 = 2

/-- A lead byte that announces so many continuation bytes, with its payload. -/
inductive Announces (lead : UInt8) : ℕ → ℕ → Prop
  | one (h : lead.toNat / 32 = 6) : Announces lead 1 (lead.toNat % 32)
  | two (h : lead.toNat / 16 = 14) : Announces lead 2 (lead.toNat % 16)
  | three (h : lead.toNat / 8 = 30) : Announces lead 3 (lead.toNat % 8)

/-- The least value that takes so many continuation bytes. -/
def least : ℕ → ℕ
  | 1 => 0x80
  | 2 => 0x800
  | _ => 0x10000

theorem eq_ofNat_iff {b : UInt8} {n : ℕ} (h : n < 256) : b = UInt8.ofNat n ↔ b.toNat = n := by
  rw [← UInt8.toNat_inj, UInt8.toNat_ofNat', Nat.mod_eq_of_lt h]

/-- Characters are told apart by their values. -/
theorem char_lt (c : Char) : c.toNat < 0xd800 ∨ 0xdfff < c.toNat ∧ c.toNat < 0x110000 := c.valid

theorem exists_char_iff {n : ℕ} :
    (∃ c : Char, c.toNat = n) ↔ n < 0xd800 ∨ 0xdfff < n ∧ n < 0x110000 := by
  constructor
  · rintro ⟨c, rfl⟩
    exact char_lt c
  · intro h
    exact ⟨Char.ofNatAux n h, rfl⟩

theorem utf8EncodeChar_of_ascii {c : Char} (h : c.toNat < 0x80) :
    String.utf8EncodeChar c = [UInt8.ofNat c.toNat] :=
  if_pos (Nat.le_of_lt_succ h)

theorem cons_eq_utf8EncodeChar_ascii {lead : UInt8} {rest : Bytes} {c : Char}
    (hlead : lead.toNat < 0x80) :
    lead :: rest = String.utf8EncodeChar c ↔ rest = [] ∧ c.toNat = lead.toNat := by
  have hvalue : c.toNat = c.val.toNat := rfl
  unfold String.utf8EncodeChar
  simp only
  split_ifs with h₁ h₂ h₃
  all_goals rw [List.cons.injEq, eq_ofNat_iff (by omega)]
  · rw [and_comm, hvalue, eq_comm (a := lead.toNat)]
  all_goals
    constructor
    · omega
    · rintro ⟨-, heq⟩
      omega

theorem least_three : least 3 = 0x10000 := rfl

theorem value_one (payload : ℕ) (a : UInt8) : value payload [a] = payload * 64 + a.toNat % 64 := rfl

theorem value_two (payload : ℕ) (a b : UInt8) :
    value payload [a, b] = (payload * 64 + a.toNat % 64) * 64 + b.toNat % 64 := rfl

theorem value_three (payload : ℕ) (a b c : UInt8) :
    value payload [a, b, c] =
      ((payload * 64 + a.toNat % 64) * 64 + b.toNat % 64) * 64 + c.toNat % 64 := rfl

/-- Bytes are the encoding of a character exactly when they have its value and no fewer
could have it. -/
theorem cons_eq_utf8EncodeChar {lead : UInt8} {continuations : Bytes} {c : Char}
    {count payload : ℕ} (hlead : Announces lead count payload)
    (hlength : continuations.length = count) :
    lead :: continuations = String.utf8EncodeChar c ↔
      (∀ b ∈ continuations, IsContinuation b) ∧ c.toNat = value payload continuations ∧
        least count ≤ c.toNat := by
  have hvalue : c.toNat = c.val.toNat := rfl
  have hchar := char_lt c
  unfold String.utf8EncodeChar IsContinuation
  simp only
  cases hlead with
  | one h =>
      obtain ⟨x, rfl⟩ := List.length_eq_one_iff.mp hlength
      rw [value_one, List.forall_mem_singleton, least]
      split_ifs with h₁ h₂ h₃ <;>
        simp only [List.cons.injEq, reduceCtorEq, and_true, and_false, false_iff]
      · omega
      · rw [eq_ofNat_iff (by omega), eq_ofNat_iff (by omega)]
        omega
      · omega
      · omega
  | two h =>
      obtain ⟨x, y, rfl⟩ := List.length_eq_two.mp hlength
      rw [value_two, List.forall_mem_cons, List.forall_mem_singleton, least]
      split_ifs with h₁ h₂ h₃ <;>
        simp only [List.cons.injEq, reduceCtorEq, and_true, and_false, false_iff]
      · omega
      · omega
      · rw [eq_ofNat_iff (by omega), eq_ofNat_iff (by omega), eq_ofNat_iff (by omega)]
        omega
      · omega
  | three h =>
      obtain ⟨x, y, z, rfl⟩ := List.length_eq_three.mp hlength
      rw [value_three, List.forall_mem_cons, List.forall_mem_cons, List.forall_mem_singleton,
        least_three]
      split_ifs with h₁ h₂ h₃ <;>
        simp only [List.cons.injEq, reduceCtorEq, and_true, and_false, false_iff]
      · omega
      · omega
      · omega
      · rw [eq_ofNat_iff (by omega), eq_ofNat_iff (by omega), eq_ofNat_iff (by omega),
          eq_ofNat_iff (by omega)]
        omega

theorem exists_cons_eq_utf8EncodeChar {lead : UInt8} {continuations : Bytes} {count payload : ℕ}
    (hlead : Announces lead count payload) (hlength : continuations.length = count) :
    (∃ c : Char, lead :: continuations = String.utf8EncodeChar c) ↔
      (∀ b ∈ continuations, IsContinuation b) ∧ least count ≤ value payload continuations ∧
        ∃ c : Char, c.toNat = value payload continuations := by
  constructor
  · rintro ⟨c, hc⟩
    obtain ⟨hcontinuations, hvalue, hleast⟩ := (cons_eq_utf8EncodeChar hlead hlength).mp hc
    exact ⟨hcontinuations, hvalue ▸ hleast, c, hvalue⟩
  · rintro ⟨hcontinuations, hleast, c, hvalue⟩
    exact ⟨c, (cons_eq_utf8EncodeChar hlead hlength).mpr ⟨hcontinuations, hvalue, hvalue ▸ hleast⟩⟩

/-- The bytes of a character that is not ASCII. -/
theorem utf8EncodeChar_of_not_ascii {c : Char} (h : 0x80 ≤ c.toNat) :
    ∃ (lead : UInt8) (continuations : Bytes) (payload : ℕ),
      String.utf8EncodeChar c = lead :: continuations ∧
        Announces lead continuations.length payload := by
  have hvalue : c.toNat = c.val.toNat := rfl
  have hchar := char_lt c
  have hof {n : ℕ} (hn : n < 256) : (UInt8.ofNat n).toNat = n := by
    rw [UInt8.toNat_ofNat', Nat.mod_eq_of_lt hn]
  unfold String.utf8EncodeChar
  simp only
  split_ifs with h₁ h₂ h₃
  · omega
  · refine ⟨_, _, _, rfl, .one ?_⟩
    rw [hof (by omega)]
    omega
  · refine ⟨_, _, _, rfl, .two ?_⟩
    rw [hof (by omega)]
    omega
  · refine ⟨_, _, _, rfl, .three ?_⟩
    rw [hof (by omega)]
    omega

end Utf8
