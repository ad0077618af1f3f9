import Watchlist.Library.Utf8Chars
import Watchlist.Storage.DatabaseItem

/-!
What `IsValidUtf8` accepts. It takes one character off the text in every round; the
function is stated again as the loop over an index that it is, with each byte read where
the source reads it, so that a read outside the text would show.
-/

namespace Watchlist.Storage

open Bytes

/-! ### The loop of the source -/

/-- The inner loop: `remaining` continuation bytes from `offset` on. The outer result is
missing when a byte outside the text is read. -/
def continuationsRun (value : Bytes) (index : ℕ) : ℕ → ℕ → UInt32 → Option (Option UInt32)
  | 0, _, codePoint => some (some codePoint)
  | remaining + 1, offset, codePoint =>
      value[index + offset]?.bind fun continuation =>
        if continuation &&& 0xc0 ≠ 0x80 then some none
        else continuationsRun value index remaining (offset + 1)
          ((codePoint <<< 6) ||| (continuation &&& 0x3f).toUInt32)

/-- `IsValidUtf8` from `index` on, unless the fuel runs out or a byte outside the text is
read. -/
def isValidUtf8Run (value : Bytes) : ℕ → ℕ → Option Bool
  | 0, _ => none
  | fuel + 1, index =>
      if index < value.length then
        value[index]?.bind fun lead =>
          if lead ≤ 0x7f then isValidUtf8Run value fuel (index + 1)
          else
            match utf8Lead lead with
            | none => some false
            | some (continuationCount, codePoint) =>
                if value.length ≤ index + continuationCount then some false
                else
                  (continuationsRun value index continuationCount 1 codePoint).bind fun
                    | none => some false
                    | some codePoint =>
                        let minimum : UInt32 :=
                          if continuationCount = 1 then 0x80
                          else if continuationCount = 2 then 0x800
                          else 0x10000
                        if codePoint < minimum || 0x10ffff < codePoint
                            || (0xd800 ≤ codePoint && codePoint ≤ 0xdfff) then some false
                        else isValidUtf8Run value fuel (index + (continuationCount + 1))
      else some true

/-- No continuation byte is read outside the text when there are enough of them. -/
theorem continuationsRun_eq {value : Bytes} {index remaining offset : ℕ}
    (h : index + offset + remaining ≤ value.length) (codePoint : UInt32) :
    continuationsRun value index remaining offset codePoint =
      some (utf8Continue codePoint ((value.drop (index + offset)).take remaining)) := by
  induction remaining generalizing offset codePoint with
  | zero =>
      rw [List.take_zero]
      rfl
  | succ remaining ih =>
      have hat : index + offset < value.length := by omega
      rw [List.drop_eq_getElem_cons hat, List.take_succ_cons, utf8Continue, continuationsRun,
        List.getElem?_eq_getElem hat]
      rw [Option.bind_some]
      split
      · rfl
      · rw [ih (by omega)]
        rfl

/-- The loop ends, and reads nothing outside the text. -/
theorem isValidUtf8Run_eq {value : Bytes} {fuel index n : ℕ} (hfuel : value.length - index < fuel)
    (hn : value.length - index ≤ n) :
    isValidUtf8Run value fuel index = some (isValidUtf8Loop n (value.drop index)) := by
  induction fuel generalizing index n with
  | zero => omega
  | succ fuel ih =>
      rw [isValidUtf8Run]
      split
      · rename_i hat
        obtain ⟨n, rfl⟩ : ∃ m, n = m + 1 := ⟨n - 1, by omega⟩
        rw [List.drop_eq_getElem_cons hat, isValidUtf8Loop, List.getElem?_eq_getElem hat]
        rw [Option.bind_some]
        by_cases hascii : value[index] ≤ 0x7f
        · rw [if_pos hascii, if_pos hascii]
          exact ih (by omega) (by omega)
        rw [if_neg hascii, if_neg hascii]
        cases utf8Lead value[index] with
        | none => rfl
        | some lead =>
            obtain ⟨count, codePoint⟩ := lead
            simp only [List.length_drop]
            by_cases htruncated : value.length ≤ index + count
            · have hfew : value.length - (index + 1) < count := by omega
              rw [if_pos htruncated, if_pos hfew]
            have hmany : ¬value.length - (index + 1) < count := by omega
            rw [if_neg htruncated, if_neg hmany, continuationsRun_eq (by omega), Option.bind_some]
            cases utf8Continue codePoint ((value.drop (index + 1)).take count) with
            | none => rfl
            | some codePoint =>
                have hrest := @ih (index + (count + 1)) n (by omega) (by omega)
                rw [List.drop_drop, Nat.add_right_comm, Nat.add_assoc index]
                simp only [hrest]
                exact (apply_ite some _ _ _).symm
      · rename_i hend
        rw [List.drop_eq_nil_of_le (by omega), isValidUtf8Loop]

/-! ### A round takes a character -/

theorem and_mask_eq_iff (lead : UInt8) :
    (lead &&& 0xe0 = 0xc0 ↔ lead.toNat / 32 = 6) ∧ (lead &&& 0xf0 = 0xe0 ↔ lead.toNat / 16 = 14) ∧
      (lead &&& 0xf8 = 0xf0 ↔ lead.toNat / 8 = 30) ∧ (lead &&& 0xc0 = 0x80 ↔ lead.toNat / 64 = 2) := by
  have hall : ∀ n : Fin 256, (UInt8.ofNat n &&& 0xe0 = 0xc0 ↔ n.val / 32 = 6) ∧
      (UInt8.ofNat n &&& 0xf0 = 0xe0 ↔ n.val / 16 = 14) ∧
      (UInt8.ofNat n &&& 0xf8 = 0xf0 ↔ n.val / 8 = 30) ∧
      (UInt8.ofNat n &&& 0xc0 = 0x80 ↔ n.val / 64 = 2) := by decide +kernel
  have hlead := hall ⟨lead.toNat, UInt8.toNat_lt lead⟩
  rwa [UInt8.ofNat_toNat] at hlead

theorem toNat_and_mask (lead : UInt8) :
    (lead &&& 0x1f).toUInt32.toNat = lead.toNat % 32 ∧
      (lead &&& 0x0f).toUInt32.toNat = lead.toNat % 16 ∧
      (lead &&& 0x07).toUInt32.toNat = lead.toNat % 8 ∧
      (lead &&& 0x3f).toUInt32.toNat = lead.toNat % 64 := by
  simp only [UInt8.toNat_toUInt32, UInt8.toNat_and]
  exact ⟨Nat.and_two_pow_sub_one_eq_mod _ 5, Nat.and_two_pow_sub_one_eq_mod _ 4,
    Nat.and_two_pow_sub_one_eq_mod _ 3, Nat.and_two_pow_sub_one_eq_mod _ 6⟩

/-- The masks of the source tell the lead bytes apart. -/
theorem announces_of_utf8Lead {lead : UInt8} {count : ℕ} {codePoint : UInt32}
    (h : utf8Lead lead = some (count, codePoint)) :
    Utf8.Announces lead count codePoint.toNat := by
  obtain ⟨hone, htwo, hthree, -⟩ := and_mask_eq_iff lead
  obtain ⟨hpayload₁, hpayload₂, hpayload₃, -⟩ := toNat_and_mask lead
  unfold utf8Lead at h
  split at h
  · rename_i hlead
    cases h
    rw [hpayload₁]
    exact .one (hone.mp hlead)
  · split at h
    · rename_i hlead
      cases h
      rw [hpayload₂]
      exact .two (htwo.mp hlead)
    · split at h
      · rename_i hlead
        cases h
        rw [hpayload₃]
        exact .three (hthree.mp hlead)
      · cases h

theorem utf8Lead_of_announces {lead : UInt8} {count payload : ℕ}
    (h : Utf8.Announces lead count payload) :
    ∃ codePoint : UInt32, utf8Lead lead = some (count, codePoint) ∧ codePoint.toNat = payload := by
  obtain ⟨hone, htwo, hthree, -⟩ := and_mask_eq_iff lead
  obtain ⟨hpayload₁, hpayload₂, hpayload₃, -⟩ := toNat_and_mask lead
  unfold utf8Lead
  cases h with
  | one h => exact ⟨_, if_pos (hone.mpr h), hpayload₁⟩
  | two h =>
      have hnot : ¬lead &&& 0xe0 = 0xc0 := fun hlead => by have := hone.mp hlead; omega
      exact ⟨_, (if_neg hnot).trans (if_pos (htwo.mpr h)), hpayload₂⟩
  | three h =>
      have hnot : ¬lead &&& 0xe0 = 0xc0 := fun hlead => by have := hone.mp hlead; omega
      have hnot' : ¬lead &&& 0xf0 = 0xe0 := fun hlead => by have := htwo.mp hlead; omega
      exact ⟨_, (if_neg hnot).trans ((if_neg hnot').trans (if_pos (hthree.mpr h))), hpayload₃⟩

theorem toNat_append_bits {codePoint : UInt32} (h : codePoint.toNat < 2 ^ 26) (c : UInt8) :
    ((codePoint <<< 6) ||| (c &&& 0x3f).toUInt32).toNat = codePoint.toNat * 64 + c.toNat % 64 := by
  have hlow : c.toNat % 64 < 2 ^ 6 := Nat.mod_lt _ (by decide)
  rw [UInt32.toNat_or, UInt32.toNat_shiftLeft, (toNat_and_mask c).2.2.2]
  have hshift : codePoint.toNat <<< (UInt32.toNat 6 % 32) % 2 ^ 32 = 2 ^ 6 * codePoint.toNat := by
    rw [show UInt32.toNat 6 % 32 = 6 from rfl, Nat.shiftLeft_eq, Nat.mod_eq_of_lt] <;> omega
  rw [hshift, ← Nat.two_pow_add_eq_or_of_lt hlow]
  omega

/-- The inner loop computes the value, as long as it fits into 32 bits. -/
theorem utf8Continue_eq_some_iff {codePoint result : UInt32} {continuations : Bytes}
    (h : (codePoint.toNat + 1) * 64 ^ continuations.length ≤ 2 ^ 32) :
    utf8Continue codePoint continuations = some result ↔
      (∀ c ∈ continuations, Utf8.IsContinuation c) ∧
        result.toNat = Utf8.value codePoint.toNat continuations := by
  induction continuations generalizing codePoint with
  | nil =>
      rw [utf8Continue, Option.some.injEq, ← UInt32.toNat_inj, eq_comm]
      exact (and_iff_right fun c hc => absurd hc List.not_mem_nil).symm
  | cons c rest ih =>
      rw [List.length_cons, Nat.pow_succ] at h
      have hpos : 0 < 64 ^ rest.length := Nat.pow_pos (by decide)
      have hcodePoint : codePoint.toNat < 2 ^ 26 := by nlinarith
      have hbits := toNat_append_bits hcodePoint c
      have hnext : (codePoint.toNat * 64 + c.toNat % 64 + 1) * 64 ^ rest.length ≤ 2 ^ 32 := by
        have hmod : c.toNat % 64 < 64 := Nat.mod_lt _ (by decide)
        calc (codePoint.toNat * 64 + c.toNat % 64 + 1) * 64 ^ rest.length
            ≤ ((codePoint.toNat + 1) * 64) * 64 ^ rest.length :=
              Nat.mul_le_mul_right _ (by omega)
          _ = (codePoint.toNat + 1) * (64 ^ rest.length * 64) := by ring
          _ ≤ 2 ^ 32 := h
      have hmark := (and_mask_eq_iff c).2.2.2
      rw [utf8Continue, List.forall_mem_cons]
      split
      · rename_i hbad
        refine iff_of_false (by simp) ?_
        rintro ⟨⟨hc, -⟩, -⟩
        exact hbad (hmark.mpr hc)
      · rename_i hgood
        have hc : Utf8.IsContinuation c := hmark.mp (not_not.mp hgood)
        rw [ih (by rwa [hbits]), hbits, and_iff_right hc]
        rfl

/-- The range checks on a code point are those on the value. -/
theorem codePoint_checks {count : ℕ} {codePoint : UInt32} :
    (codePoint < (if count = 1 then 0x80 else if count = 2 then 0x800 else 0x10000) ||
      0x10ffff < codePoint || (0xd800 ≤ codePoint && codePoint ≤ 0xdfff)) = false ↔
      Utf8.least count ≤ codePoint.toNat ∧ ∃ c : Char, c.toNat = codePoint.toNat := by
  have hminimum : (if count = 1 then 0x80 else if count = 2 then 0x800 else 0x10000 : UInt32).toNat =
      Utf8.least count := by
    split_ifs with hone htwo
    · rw [hone]
      rfl
    · rw [htwo]
      rfl
    · unfold Utf8.least
      split <;> first
        | omega
        | rfl
  rw [Utf8.exists_char_iff, ← hminimum]
  simp only [Bool.or_eq_false_iff, Bool.and_eq_false_iff, decide_eq_false_iff_not,
    UInt32.lt_iff_toNat_lt, UInt32.le_iff_toNat_le]
  rw [show UInt32.toNat 0x10ffff = 0x10ffff from rfl, show UInt32.toNat 0xd800 = 0xd800 from rfl,
    show UInt32.toNat 0xdfff = 0xdfff from rfl]
  omega

theorem le_asciiMax_iff {lead : UInt8} : lead ≤ 0x7f ↔ lead.toNat < 0x80 := by
  rw [UInt8.le_iff_toNat_le, show UInt8.toNat 0x7f = 0x7f from rfl]
  omega

theorem announces_le {lead : UInt8} {count payload : ℕ} (h : Utf8.Announces lead count payload) :
    (payload + 1) * 64 ^ count ≤ 2 ^ 32 ∧ 0x80 ≤ lead.toNat := by
  cases h with
  | one h => exact ⟨by omega, by omega⟩
  | two h => exact ⟨by omega, by omega⟩
  | three h => exact ⟨by omega, by omega⟩

theorem passes_iff {bad next : Bool} :
    (if bad then false else next) = true ↔ bad = false ∧ next = true := by
  cases bad with
  | true => exact iff_of_false Bool.false_ne_true fun h => Bool.noConfusion h.1
  | false => exact (and_iff_right rfl).symm

/-- A round that does not find an ASCII byte. -/
theorem isValidUtf8Loop_announced {fuel : ℕ} {lead : UInt8} {rest : Bytes} {count payload : ℕ}
    (h : Utf8.Announces lead count payload) :
    isValidUtf8Loop (fuel + 1) (lead :: rest) = true ↔
      count ≤ rest.length ∧ (∃ c : Char, lead :: rest.take count = String.utf8EncodeChar c) ∧
        isValidUtf8Loop fuel (rest.drop count) = true := by
  obtain ⟨codePoint, hlead, hpayload⟩ := utf8Lead_of_announces h
  obtain ⟨hfits, hhigh⟩ := announces_le h
  have hascii : ¬lead ≤ 0x7f := by
    rw [le_asciiMax_iff]
    omega
  rw [isValidUtf8Loop, if_neg hascii, hlead]
  simp only
  by_cases hfew : rest.length < count
  · rw [if_pos hfew]
    exact iff_of_false Bool.false_ne_true fun hmany => absurd hmany.1 (by omega)
  rw [if_neg hfew, and_iff_right (not_lt.mp hfew)]
  have hlength : (rest.take count).length = count := by
    rw [List.length_take]
    omega
  have hinner (result : UInt32) : utf8Continue codePoint (rest.take count) = some result ↔
      (∀ c ∈ rest.take count, Utf8.IsContinuation c) ∧
        result.toNat = Utf8.value codePoint.toNat (rest.take count) := by
    apply utf8Continue_eq_some_iff
    rwa [hlength, hpayload]
  rw [Utf8.exists_cons_eq_utf8EncodeChar h hlength]
  cases hcontinue : utf8Continue codePoint (rest.take count) with
  | none =>
      refine iff_of_false Bool.false_ne_true ?_
      rintro ⟨⟨hcontinuations, -, c, hc⟩, -⟩
      have hsome := (hinner c.val).mpr ⟨hcontinuations, by rw [hpayload]; exact hc⟩
      rw [hcontinue] at hsome
      cases hsome
  | some result =>
      obtain ⟨hcontinuations, hvalue⟩ := (hinner result).mp hcontinue
      rw [hpayload] at hvalue
      rw [and_iff_right hcontinuations, ← hvalue, ← codePoint_checks]
      exact passes_iff

/-- A round takes one character off the text, or there is none. -/
theorem isValidUtf8Loop_cons {fuel : ℕ} {lead : UInt8} {rest : Bytes} :
    isValidUtf8Loop (fuel + 1) (lead :: rest) = true ↔
      ∃ (c : Char) (left : Bytes), lead :: rest = String.utf8EncodeChar c ++ left ∧
        isValidUtf8Loop fuel left = true := by
  by_cases hascii : lead.toNat < 0x80
  · rw [isValidUtf8Loop, if_pos (le_asciiMax_iff.mpr hascii)]
    constructor
    · intro hrest
      obtain ⟨c, hc⟩ := Utf8.exists_char_iff.mpr (Or.inl (by omega : lead.toNat < 0xd800))
      have hencode := (Utf8.cons_eq_utf8EncodeChar_ascii hascii).mpr ⟨rfl, hc⟩
      exact ⟨c, rest, by rw [← hencode]; rfl, hrest⟩
    · rintro ⟨c, left, htext, hleft⟩
      obtain ⟨first, more, hc⟩ := List.exists_cons_of_ne_nil (String.utf8EncodeChar_ne_nil (c := c))
      rw [hc] at htext
      obtain ⟨rfl, rfl⟩ := List.cons.inj htext
      obtain ⟨rfl, -⟩ := (Utf8.cons_eq_utf8EncodeChar_ascii hascii).mp hc.symm
      exact hleft
  · constructor
    · intro hvalid
      cases hlead : utf8Lead lead with
      | none =>
          have hnot : ¬lead ≤ 0x7f := fun h => hascii (le_asciiMax_iff.mp h)
          rw [isValidUtf8Loop, if_neg hnot, hlead] at hvalid
          cases hvalid
      | some announced =>
          obtain ⟨count, codePoint⟩ := announced
          obtain ⟨-, ⟨c, hc⟩, hrest⟩ :=
            (isValidUtf8Loop_announced (announces_of_utf8Lead hlead)).mp hvalid
          refine ⟨c, rest.drop count, ?_, hrest⟩
          rw [← hc, List.cons_append, List.take_append_drop]
    · rintro ⟨c, left, htext, hleft⟩
      have hvalue : 0x80 ≤ c.toNat := by
        by_contra hlow
        rw [Utf8.utf8EncodeChar_of_ascii (by omega)] at htext
        obtain ⟨rfl, -⟩ := List.cons.inj htext
        rw [UInt8.toNat_ofNat'] at hascii
        omega
      obtain ⟨first, continuations, payload, hc, hannounces⟩ :=
        Utf8.utf8EncodeChar_of_not_ascii hvalue
      rw [hc, List.cons_append] at htext
      obtain ⟨rfl, rfl⟩ := List.cons.inj htext
      rw [isValidUtf8Loop_announced hannounces, List.take_left, List.drop_left]
      exact ⟨by rw [List.length_append]; omega, ⟨c, hc.symm⟩, hleft⟩

theorem isValidUtf8Loop_iff {fuel : ℕ} {s : Bytes} (h : s.length ≤ fuel) :
    isValidUtf8Loop fuel s = true ↔ ∃ cs : List Char, s = cs.flatMap String.utf8EncodeChar := by
  induction fuel generalizing s with
  | zero =>
      obtain rfl := List.length_eq_zero_iff.mp (Nat.le_zero.mp h)
      exact iff_of_true rfl ⟨[], rfl⟩
  | succ fuel ih =>
      cases s with
      | nil => exact iff_of_true rfl ⟨[], rfl⟩
      | cons lead rest =>
          rw [isValidUtf8Loop_cons]
          have hshorter {c : Char} {left : Bytes}
              (htext : lead :: rest = String.utf8EncodeChar c ++ left) : left.length ≤ fuel := by
            have hlength := congrArg List.length htext
            have hpos := List.length_pos_iff.mpr (String.utf8EncodeChar_ne_nil (c := c))
            rw [List.length_append] at hlength
            omega
          constructor
          · rintro ⟨c, left, htext, hleft⟩
            obtain ⟨cs, rfl⟩ := (ih (hshorter htext)).mp hleft
            exact ⟨c :: cs, htext⟩
          · rintro ⟨cs, htext⟩
            cases cs with
            | nil => cases htext
            | cons c cs =>
                rw [List.flatMap_cons] at htext
                exact ⟨c, _, htext, (ih (hshorter htext)).mpr ⟨cs, rfl⟩⟩

/-- `IsValidUtf8` ends, reads nothing outside its argument, and accepts exactly the
encodings of sequences of characters. -/
theorem isValidUtf8_exact (s : Bytes) :
    (isValidUtf8 s = true ↔ ∃ cs : List Char, s = cs.flatMap String.utf8EncodeChar) ∧
      ∀ fuel, s.length < fuel → isValidUtf8Run s fuel 0 = some (isValidUtf8 s) := by
  refine ⟨isValidUtf8Loop_iff le_rfl, fun fuel hfuel => ?_⟩
  rw [isValidUtf8Run_eq hfuel le_rfl, List.drop_zero]
  rfl

end Watchlist.Storage
