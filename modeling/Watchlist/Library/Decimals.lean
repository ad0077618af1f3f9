import Watchlist.Library.Bytes

/-!
Decimal texts: a number is written with digits only, and different numbers are written
differently. A text that ends with a separator and a number is therefore put together
in one way.
-/

namespace Bytes

/-- A digit is one byte. -/
theorem toNat_ofNat_of_isDigit {c : Char} (h : c.isDigit = true) :
    (UInt8.ofNat c.toNat).toNat = c.toNat ∧ isDigit (UInt8.ofNat c.toNat) = true := by
  have hbounds : 48 ≤ c.toNat ∧ c.toNat ≤ 57 := by
    simpa [Char.isDigit, UInt32.le_iff_toNat_le] using h
  have hsmall : (UInt8.ofNat c.toNat).toNat = c.toNat := by
    rw [UInt8.toNat_ofNat', Nat.mod_eq_of_lt (by omega)]
  refine ⟨hsmall, ?_⟩
  simp only [isDigit, Bool.and_eq_true, decide_eq_true_eq, UInt8.le_iff_toNat_le, hsmall]
  exact hbounds

theorem isDigit_of_mem_ofNat {n : ℕ} {c : UInt8} (h : c ∈ ofNat n) : isDigit c = true := by
  obtain ⟨d, hd, rfl⟩ := List.mem_map.mp h
  exact (toNat_ofNat_of_isDigit (Nat.isDigit_of_mem_toDigits (by omega) (by omega) hd)).2

/-- The digits can be read back. -/
theorem toDigits_of_ofNat (n : ℕ) :
    (ofNat n).map (fun c => Char.ofNat c.toNat) = Nat.toDigits 10 n := by
  rw [ofNat, List.map_map, List.map_congr_left (g := id), List.map_id]
  intro c hc
  have hdigit := Nat.isDigit_of_mem_toDigits (by omega) (by omega) hc
  rw [Function.comp_apply, (toNat_ofNat_of_isDigit hdigit).1, Char.ofNat_toNat, id]

theorem ofNat_inj {m n : ℕ} : ofNat m = ofNat n ↔ m = n := by
  refine ⟨fun h => ?_, fun h => h ▸ rfl⟩
  have hdigits : Nat.toDigits 10 m = Nat.toDigits 10 n := by
    rw [← toDigits_of_ofNat, h, toDigits_of_ofNat]
  rw [← Nat.ofDigitChars_ten_toDigits (n := m), hdigits, Nat.ofDigitChars_ten_toDigits]

/-- The last separator is where the number begins. -/
theorem numbered_inj {separator : UInt8} (hseparator : isDigit separator = false)
    {a b : Bytes} {m n : ℕ} :
    a ++ separator :: ofNat m = b ++ separator :: ofNat n ↔ a = b ∧ m = n := by
  have hlength (s : Bytes) (k : ℕ) :
      List.idxOf separator (s ++ separator :: ofNat k).reverse = (ofNat k).length := by
    have hnot : separator ∉ (ofNat k).reverse := by
      intro h
      rw [isDigit_of_mem_ofNat (List.mem_reverse.mp h)] at hseparator
      cases hseparator
    rw [List.reverse_append, List.reverse_cons, List.append_assoc, List.singleton_append,
      List.idxOf_append_of_notMem hnot, List.idxOf_cons_self, Nat.add_zero, List.length_reverse]
  constructor
  · intro h
    have hsame : (ofNat m).length = (ofNat n).length := by
      rw [← hlength a m, h, hlength]
    obtain ⟨hfront, hrest⟩ := List.append_inj' h (by simp [hsame])
    exact ⟨hfront, ofNat_inj.mp (List.cons_inj_right separator |>.mp hrest)⟩
  · rintro ⟨rfl, rfl⟩
    rfl

end Bytes
