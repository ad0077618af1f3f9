import Watchlist.Library.Parts
import Watchlist.Storage.DatabaseItem

/-!
What the validators of IP literals accept. The grammars are those of dotted
decimals and of RFC 4291, section 2.2; the validators are stated again as the
loops over `find` that they are, with a bound on the rounds.
-/

namespace Watchlist.Storage

open Bytes

/-! ### The grammars -/

structure DecimalOctet (part : Bytes) : Prop where
  length : 1 ≤ part.length ∧ part.length ≤ 3
  digits : ∀ c ∈ part, isDigit c = true
  value : decimalValue part ≤ 255

/-- Four decimal parts with dots between them. -/
def Ipv4Literal (s : Bytes) : Prop :=
  ∃ parts : List Bytes, parts.length = 4 ∧ (∀ part ∈ parts, DecimalOctet part) ∧ s = join 46 parts

structure HexGroup (part : Bytes) : Prop where
  length : 1 ≤ part.length ∧ part.length ≤ 4
  digits : ∀ c ∈ part, isXDigit c = true

/-- A text of `count` groups, the last two of which may be written as an IPv4 literal where
that is allowed. -/
def Ipv6Groups (allowIpv4 : Bool) (count : ℕ) (s : Bytes) : Prop :=
  ∃ (groups : List Bytes) (ipv4 : Option Bytes), (∀ group ∈ groups, HexGroup group) ∧
    (∀ a ∈ ipv4, allowIpv4 = true ∧ Ipv4Literal a) ∧
    groups.length + 2 * ipv4.toList.length = count ∧ s = join 58 (groups ++ ipv4.toList)

/-- Eight groups, or fewer with a `::` in the place of the others; an IPv4 literal only at
the end of the address. -/
def Ipv6Literal (s : Bytes) : Prop :=
  Ipv6Groups true 8 s ∨
    ∃ (m n : ℕ) (left right : Bytes), Ipv6Groups false m left ∧ Ipv6Groups true n right ∧
      m + n < 8 ∧ s = left ++ ascii "::" ++ right

/-! ### The loops of the source -/

/-- A round of `IsValidIpv4`. -/
def ipv4Round (parts : ℕ) (part : Bytes) (_last : Bool) : Option ℕ :=
  if part.isEmpty || 3 < part.length || !part.all isDigit then none
  else if 255 < decimalValue part then none
  else some (parts + 1)

/-- A round of `CountIpv6Parts`. -/
def ipv6Round (allowIpv4 : Bool) (count : ℤ) (part : Bytes) (last : Bool) : Option ℤ :=
  if part.isEmpty then none
  else if part.contains 46 then
    if !allowIpv4 || !last || !isValidIpv4 part then none else some (count + 2)
  else if 4 < part.length || !part.all isXDigit then none
  else some (count + 1)

/-- `IsValidIpv4`, unless the fuel runs out. -/
def isValidIpv4Run (fuel : ℕ) (address : Bytes) : Option Bool :=
  (partsLoop 46 address ipv4Round fuel 0 0).map fun result => result.any (· == 4)

/-- `CountIpv6Parts`, unless the fuel runs out. -/
def countIpv6PartsRun (fuel : ℕ) (sequence : Bytes) (allowIpv4 : Bool) : Option ℤ :=
  if sequence.isEmpty then some 0
  else (partsLoop 58 sequence (ipv6Round allowIpv4) fuel 0 0).map fun result => result.getD (-1)

theorem isValidIpv4Loop_eq (parts : List Bytes) (n : ℕ) :
    isValidIpv4Loop parts n = (foldParts ipv4Round parts n).any (· == 4) := by
  induction parts generalizing n with
  | nil => rfl
  | cons part rest ih =>
      rw [isValidIpv4Loop, foldParts, ipv4Round]
      split
      · rfl
      · split
        · rfl
        · exact ih (n + 1)

theorem countIpv6PartsLoop_eq (allowIpv4 : Bool) (parts : List Bytes) (n : ℤ) :
    countIpv6PartsLoop allowIpv4 parts n =
      (foldParts (ipv6Round allowIpv4) parts n).getD (-1) := by
  induction parts generalizing n with
  | nil => rfl
  | cons part rest ih =>
      rw [countIpv6PartsLoop, foldParts, ipv6Round]
      split
      · rfl
      · split
        · split
          · rfl
          · exact ih (n + 2)
        · split
          · rfl
          · exact ih (n + 1)

theorem isValidIpv4Run_eq {fuel : ℕ} {address : Bytes} (h : address.length < fuel) :
    isValidIpv4Run fuel address = some (isValidIpv4 address) := by
  rw [isValidIpv4Run, partsLoop_eq (Nat.zero_le _) (by omega), List.drop_zero, Option.map_some,
    isValidIpv4, isValidIpv4Loop_eq]

theorem countIpv6PartsRun_eq {fuel : ℕ} {sequence : Bytes} (h : sequence.length < fuel)
    (allowIpv4 : Bool) :
    countIpv6PartsRun fuel sequence allowIpv4 = some (countIpv6Parts sequence allowIpv4) := by
  rw [countIpv6PartsRun, countIpv6Parts]
  split
  · rfl
  · rw [partsLoop_eq (Nat.zero_le _) (by omega), List.drop_zero, Option.map_some,
      countIpv6PartsLoop_eq]

/-- `IsValidIpv6`, unless the fuel runs out. -/
def isValidIpv6Run (fuel : ℕ) (address : Bytes) : Option Bool :=
  match find (ascii "::") address with
  | none => (countIpv6PartsRun fuel address true).map (· == 8)
  | some compression =>
      if (find (ascii "::") (address.drop (compression + 2))).isSome then some false
      else do
        let left ← countIpv6PartsRun fuel (address.take compression) false
        let right ← countIpv6PartsRun fuel (address.drop (compression + 2)) true
        some (decide (0 ≤ left) && decide (0 ≤ right) && decide (left + right < 8))

theorem isValidIpv6Run_eq {fuel : ℕ} {address : Bytes} (h : address.length < fuel) :
    isValidIpv6Run fuel address = some (isValidIpv6 address) := by
  unfold isValidIpv6Run isValidIpv6
  cases hfind : find (ascii "::") address with
  | none =>
      simp only
      rw [countIpv6PartsRun_eq h]
      rfl
  | some compression =>
      have hleft : (address.take compression).length < fuel := by
        rw [List.length_take]
        omega
      have hright : (address.drop (compression + 2)).length < fuel := by
        rw [List.length_drop]
        omega
      simp only
      split
      · rfl
      · rw [countIpv6PartsRun_eq hleft, countIpv6PartsRun_eq hright]
        rfl

/-! ### IPv4 -/

theorem decimalOctet_iff {part : Bytes} :
    DecimalOctet part ↔ ¬(part.isEmpty || 3 < part.length || !part.all isDigit) = true ∧
      ¬255 < decimalValue part := by
  rw [Bool.or_eq_true, Bool.or_eq_true, List.isEmpty_iff, decide_eq_true_eq, Bool.not_eq_true',
    ← Bool.not_eq_true, List.all_eq_true]
  constructor
  · rintro ⟨⟨hone, hthree⟩, hdigits, hvalue⟩
    refine ⟨?_, by omega⟩
    rintro ((rfl | hlong) | hbad)
    · simp at hone
    · omega
    · exact hbad hdigits
  · rintro ⟨hpart, hvalue⟩
    have hne : part ≠ [] := fun h => hpart (.inl (.inl h))
    have := List.length_pos_iff.mpr hne
    have hlong : ¬3 < part.length := fun h => hpart (.inl (.inr h))
    exact ⟨⟨by omega, by omega⟩, not_not.mp fun h => hpart (.inr h), by omega⟩

theorem isValidIpv4Loop_iff {parts : List Bytes} {n : ℕ} :
    isValidIpv4Loop parts n = true ↔
      n + parts.length = 4 ∧ ∀ part ∈ parts, DecimalOctet part := by
  induction parts generalizing n with
  | nil => simp [isValidIpv4Loop]
  | cons part rest ih =>
      rw [List.forall_mem_cons, isValidIpv4Loop, List.length_cons]
      have hpart : DecimalOctet part ↔ _ := decimalOctet_iff
      split
      · rename_i hbad
        refine iff_of_false Bool.false_ne_true ?_
        rintro ⟨-, hoctet, -⟩
        exact (hpart.mp hoctet).1 hbad
      · rename_i hgood
        split
        · rename_i hbad
          refine iff_of_false Bool.false_ne_true ?_
          rintro ⟨-, hoctet, -⟩
          exact (hpart.mp hoctet).2 hbad
        · rename_i hvalue
          rw [ih]
          have hoctet := hpart.mpr ⟨hgood, hvalue⟩
          constructor
          · rintro ⟨hcount, hrest⟩
            exact ⟨by omega, hoctet, hrest⟩
          · rintro ⟨hcount, -, hrest⟩
            exact ⟨by omega, hrest⟩

theorem DecimalOctet.not_mem {part : Bytes} (h : DecimalOctet part) {c : UInt8}
    (hc : isDigit c = false) : c ∉ part := fun hmem =>
  absurd (h.digits c hmem) (ne_true_of_eq_false hc)

theorem isValidIpv4_iff {address : Bytes} : isValidIpv4 address = true ↔ Ipv4Literal address := by
  rw [isValidIpv4, isValidIpv4Loop_iff]
  constructor
  · rintro ⟨hcount, hoctets⟩
    exact ⟨split 46 address, by omega, hoctets, (join_split 46 address).symm⟩
  · rintro ⟨parts, hcount, hoctets, rfl⟩
    have hne : parts ≠ [] := by
      rintro rfl
      cases hcount
    rw [split_join (fun part hpart => (hoctets part hpart).not_mem (by decide)) hne]
    exact ⟨by omega, hoctets⟩

/-- A literal has a dot, and no colon. -/
theorem Ipv4Literal.mem {s : Bytes} (h : Ipv4Literal s) : 46 ∈ s ∧ 58 ∉ s := by
  obtain ⟨parts, hcount, hoctets, rfl⟩ := h
  match parts, hcount with
  | [a, b, c, d], _ =>
      have hjoin : join 46 [a, b, c, d] = a ++ 46 :: (b ++ 46 :: (c ++ 46 :: d)) := by
        simp [join, List.intercalate]
      simp only [List.forall_mem_cons] at hoctets
      obtain ⟨ha, hb, hc, hd, -⟩ := hoctets
      have hcolon : isDigit 58 = false := by decide
      have hdot : (58 : UInt8) ≠ 46 := by decide
      rw [hjoin]
      refine ⟨List.mem_append_right _ List.mem_cons_self, ?_⟩
      simp [ha.not_mem hcolon, hb.not_mem hcolon, hc.not_mem hcolon, hd.not_mem hcolon, hdot]

/-! ### Groups -/

theorem HexGroup.not_mem {part : Bytes} (h : HexGroup part) {c : UInt8}
    (hc : isXDigit c = false) : c ∉ part := fun hmem =>
  absurd (h.digits c hmem) (ne_true_of_eq_false hc)

theorem hexGroup_iff {part : Bytes} (hne : part ≠ []) :
    HexGroup part ↔ ¬(4 < part.length || !part.all isXDigit) = true := by
  have hpos := List.length_pos_iff.mpr hne
  rw [Bool.or_eq_true, decide_eq_true_eq, Bool.not_eq_true', ← Bool.not_eq_true, List.all_eq_true]
  constructor
  · rintro ⟨⟨hone, hfour⟩, hdigits⟩ (hlong | hbad)
    · omega
    · exact hbad hdigits
  · intro h
    have hlong : ¬4 < part.length := fun hlong => h (.inl hlong)
    exact ⟨⟨by omega, by omega⟩, not_not.mp fun hbad => h (.inr hbad)⟩

/-- The parts of a text that counts as `count` groups. -/
def GroupParts (allowIpv4 : Bool) (parts : List Bytes) (count : ℕ) : Prop :=
  ∃ (groups : List Bytes) (ipv4 : Option Bytes), (∀ group ∈ groups, HexGroup group) ∧
    (∀ a ∈ ipv4, allowIpv4 = true ∧ Ipv4Literal a) ∧
    groups.length + 2 * ipv4.toList.length = count ∧ parts = groups ++ ipv4.toList

theorem groupParts_nil {allowIpv4 : Bool} {count : ℕ} :
    GroupParts allowIpv4 [] count ↔ count = 0 := by
  constructor
  · rintro ⟨groups, ipv4, -, -, hcount, hparts⟩
    obtain ⟨hgroups, htail⟩ := List.append_eq_nil_iff.mp hparts.symm
    rw [hgroups, htail] at hcount
    exact hcount.symm
  · rintro rfl
    exact ⟨[], none, by simp, by simp, rfl, rfl⟩

/-- The first part is a group, or the literal at the end. -/
theorem groupParts_cons {allowIpv4 : Bool} {part : Bytes} {rest : List Bytes} {count : ℕ} :
    GroupParts allowIpv4 (part :: rest) count ↔
      (HexGroup part ∧ ∃ n, count = n + 1 ∧ GroupParts allowIpv4 rest n) ∨
      (allowIpv4 = true ∧ Ipv4Literal part ∧ rest = [] ∧ count = 2) := by
  constructor
  · rintro ⟨groups, ipv4, hgroups, hipv4, hcount, hparts⟩
    cases groups with
    | nil =>
        cases ipv4 with
        | none => cases hparts
        | some a =>
            obtain ⟨rfl, rfl⟩ := List.cons.inj hparts
            obtain ⟨hallow, hliteral⟩ := hipv4 part rfl
            exact .inr ⟨hallow, hliteral, rfl, hcount.symm⟩
    | cons group groups =>
        obtain ⟨rfl, rfl⟩ := List.cons.inj hparts
        obtain ⟨hgroup, hgroups⟩ := List.forall_mem_cons.mp hgroups
        rw [List.length_cons] at hcount
        exact .inl ⟨hgroup, groups.length + 2 * ipv4.toList.length, by omega, groups, ipv4,
          hgroups, hipv4, rfl, rfl⟩
  · rintro (⟨hgroup, n, rfl, groups, ipv4, hgroups, hipv4, hcount, rfl⟩ |
      ⟨hallow, hliteral, rfl, rfl⟩)
    · refine ⟨part :: groups, ipv4, List.forall_mem_cons.mpr ⟨hgroup, hgroups⟩, hipv4, ?_, rfl⟩
      rw [List.length_cons]
      omega
    · refine ⟨[], some part, by simp, ?_, rfl, rfl⟩
      rintro a ha
      obtain rfl := Option.some.inj ha
      exact ⟨hallow, hliteral⟩

theorem countIpv6PartsLoop_iff {allowIpv4 : Bool} {parts : List Bytes} {n : ℤ} {count : ℕ}
    (hn : 0 ≤ n) :
    countIpv6PartsLoop allowIpv4 parts n = n + count ↔ GroupParts allowIpv4 parts count := by
  induction parts generalizing n count with
  | nil =>
      rw [groupParts_nil, countIpv6PartsLoop]
      omega
  | cons part rest ih =>
      rw [groupParts_cons, countIpv6PartsLoop]
      split
      · rename_i hempty
        obtain rfl := List.isEmpty_iff.mp hempty
        refine iff_of_false (by omega) ?_
        rintro (⟨hgroup, -⟩ | ⟨-, hliteral, -⟩)
        · exact absurd hgroup.length.1 (by simp)
        · exact absurd hliteral.mem.1 List.not_mem_nil
      · rename_i hne
        have hne : part ≠ [] := fun h => hne (List.isEmpty_iff.mpr h)
        split
        · -- a part with a dot is no group
          rename_i hdot
          have hdot : 46 ∈ part := by simpa using hdot
          have hgroup : ¬HexGroup part := fun h => h.not_mem (by decide) hdot
          split
          · rename_i hbad
            refine iff_of_false (by omega) ?_
            rintro (⟨h, -⟩ | ⟨rfl, hliteral, rfl, -⟩)
            · exact hgroup h
            · simp [isValidIpv4_iff.mpr hliteral] at hbad
          · rename_i hgood
            simp only [Bool.or_eq_true, Bool.not_eq_true', not_or, Bool.not_eq_false,
              List.isEmpty_iff] at hgood
            obtain ⟨⟨hallow, rfl⟩, hvalid⟩ := hgood
            rw [countIpv6PartsLoop]
            constructor
            · intro hcount
              exact .inr ⟨hallow, isValidIpv4_iff.mp hvalid, rfl, by omega⟩
            · rintro (⟨h, -⟩ | ⟨-, -, -, rfl⟩)
              · exact absurd h hgroup
              · rfl
        · -- a part without a dot is no literal
          rename_i hdot
          have hliteral : ¬Ipv4Literal part := fun h => hdot (by simpa using h.mem.1)
          split
          · rename_i hbad
            refine iff_of_false (by omega) ?_
            rintro (⟨h, -⟩ | ⟨-, h, -⟩)
            · exact (hexGroup_iff hne).mp h hbad
            · exact hliteral h
          · rename_i hgood
            have hgroup := (hexGroup_iff hne).mpr hgood
            constructor
            · intro hcount
              obtain ⟨m, rfl⟩ : ∃ m, count = m + 1 := by
                have hge : n + 1 ≤ n + (count : ℤ) := by
                  rw [← hcount]
                  have hnonneg : 0 ≤ countIpv6PartsLoop allowIpv4 rest (n + 1) := by omega
                  have := sum_le_of_countIpv6PartsLoop rfl hnonneg
                  omega
                exact ⟨count - 1, by omega⟩
              have hrest : countIpv6PartsLoop allowIpv4 rest (n + 1) = n + 1 + (m : ℤ) := by
                rw [hcount]
                push_cast
                ring
              exact .inl ⟨hgroup, m, rfl, (ih (by omega)).mp hrest⟩
            · rintro (⟨-, m, rfl, hrest⟩ | ⟨-, h, -⟩)
              · rw [(ih (by omega)).mpr hrest]
                push_cast
                ring
              · exact absurd h hliteral

/-- Every part of a text of groups has bytes, and none of them is a colon. -/
theorem GroupParts.parts {allowIpv4 : Bool} {parts : List Bytes} {count : ℕ}
    (h : GroupParts allowIpv4 parts count) : ∀ part ∈ parts, part ≠ [] ∧ 58 ∉ part := by
  obtain ⟨groups, ipv4, hgroups, hipv4, -, rfl⟩ := h
  intro part hpart
  rcases List.mem_append.mp hpart with hpart | hpart
  · have hgroup := hgroups part hpart
    exact ⟨List.length_pos_iff.mp hgroup.length.1, hgroup.not_mem (by decide)⟩
  · obtain ⟨-, hliteral⟩ := hipv4 part (Option.mem_toList.mp hpart)
    exact ⟨List.ne_nil_of_mem hliteral.mem.1, hliteral.mem.2⟩

theorem ipv6Groups_iff {allowIpv4 : Bool} {count : ℕ} {s : Bytes} :
    Ipv6Groups allowIpv4 count s ↔ ∃ parts, GroupParts allowIpv4 parts count ∧ s = join 58 parts := by
  constructor
  · rintro ⟨groups, ipv4, hgroups, hipv4, hcount, rfl⟩
    exact ⟨_, ⟨groups, ipv4, hgroups, hipv4, hcount, rfl⟩, rfl⟩
  · rintro ⟨-, ⟨groups, ipv4, hgroups, hipv4, hcount, rfl⟩, rfl⟩
    exact ⟨groups, ipv4, hgroups, hipv4, hcount, rfl⟩

theorem countIpv6Parts_iff {allowIpv4 : Bool} {count : ℕ} {s : Bytes} :
    countIpv6Parts s allowIpv4 = count ↔ Ipv6Groups allowIpv4 count s := by
  rw [ipv6Groups_iff, countIpv6Parts]
  split
  · rename_i hempty
    obtain rfl := List.isEmpty_iff.mp hempty
    constructor
    · intro hcount
      exact ⟨[], groupParts_nil.mpr (by omega), rfl⟩
    · rintro ⟨parts, hparts, hjoin⟩
      have hnil : parts = [] := by
        by_contra hne
        have hsplit := split_join (fun part hpart => (hparts.parts part hpart).2) hne
        rw [← hjoin] at hsplit
        have hmem : [] ∈ parts := hsplit ▸ List.mem_cons_self
        exact (hparts.parts [] hmem).1 rfl
      subst hnil
      rw [groupParts_nil.mp hparts]
      rfl
  · rename_i hne
    have hloop : countIpv6PartsLoop allowIpv4 (split 58 s) 0 = 0 + (count : ℤ) ↔ _ :=
      countIpv6PartsLoop_iff le_rfl
    rw [zero_add] at hloop
    rw [hloop]
    constructor
    · intro hparts
      exact ⟨split 58 s, hparts, (join_split 58 s).symm⟩
    · rintro ⟨parts, hparts, rfl⟩
      have hnil : parts ≠ [] := by
        rintro rfl
        exact hne rfl
      rwa [split_join (fun part hpart => (hparts.parts part hpart).2) hnil]

/-- Every group takes a byte and its separator, so that the counter stays in an `int`. -/
theorem le_sum_of_countIpv6PartsLoop {allowIpv4 : Bool} {parts : List Bytes} {n r : ℤ}
    (h : countIpv6PartsLoop allowIpv4 parts n = r) (hr : 0 ≤ r) :
    2 * (r - n) ≤ ((parts.map fun part => part.length + 1).sum : ℕ) + 2 := by
  induction parts generalizing n with
  | nil =>
      obtain rfl : n = r := h
      simp
  | cons part rest ih =>
      simp only [List.map_cons, List.sum_cons, Nat.cast_add]
      unfold countIpv6PartsLoop at h
      split at h
      · omega
      · rename_i hne
        have := List.length_pos_iff.mpr fun hnil => hne (List.isEmpty_iff.mpr hnil)
        split at h
        · split at h
          · omega
          · rename_i hlast
            simp only [Bool.or_eq_true, Bool.not_eq_true', not_or, Bool.not_eq_false,
              List.isEmpty_iff] at hlast
            obtain rfl := hlast.1.2
            obtain rfl : n + 2 = r := h
            simp only [List.map_nil, List.sum_nil]
            omega
        · split at h
          · omega
          · have := ih h
            omega

theorem countIpv6Parts_le (s : Bytes) (allowIpv4 : Bool) :
    2 * countIpv6Parts s allowIpv4 ≤ s.length + 3 := by
  by_cases hvalid : 0 ≤ countIpv6Parts s allowIpv4
  · unfold countIpv6Parts at hvalid ⊢
    split
    · omega
    · rename_i hne
      rw [if_neg hne] at hvalid
      have hsum := le_sum_of_countIpv6PartsLoop rfl hvalid
      rw [sum_length_split] at hsum
      omega
  · omega

/-! ### IPv6 -/

theorem isValidIpv6_of_groups {m n : ℕ} {left right : Bytes} (hleft : Ipv6Groups false m left)
    (hright : Ipv6Groups true n right) (h : m + n < 8) :
    isValidIpv6 (left ++ ascii "::" ++ right) = true := by
  obtain ⟨parts, hparts, rfl⟩ := ipv6Groups_iff.mp hleft
  obtain ⟨parts', hparts', rfl⟩ := ipv6Groups_iff.mp hright
  have htext : join 58 parts ++ ascii "::" ++ join 58 parts' =
      join 58 parts ++ 58 :: 58 :: join 58 parts' := List.append_assoc _ (ascii "::") _
  have hfind : find (ascii "::") (join 58 parts ++ 58 :: 58 :: join 58 parts') =
      some (join 58 parts).length :=
    find_double (join_append_ne_double hparts.parts) _
  have hnone : find (ascii "::") (join 58 parts') = none :=
    find_double_eq_none (join_ne_double hparts'.parts)
  have hdrop : (join 58 parts ++ 58 :: 58 :: join 58 parts').drop ((join 58 parts).length + 2) =
      join 58 parts' := by
    rw [← List.drop_drop, List.drop_left]
    rfl
  rw [htext, isValidIpv6, hfind]
  simp only [hdrop, hnone, List.take_left, Option.isSome_none, Bool.false_eq_true, if_false,
    countIpv6Parts_iff.mpr hleft, countIpv6Parts_iff.mpr hright]
  simp only [Nat.cast_nonneg, decide_true, Bool.true_and, decide_eq_true_eq]
  omega

theorem isValidIpv6_iff {address : Bytes} : isValidIpv6 address = true ↔ Ipv6Literal address := by
  constructor
  · intro hvalid
    unfold isValidIpv6 at hvalid
    split at hvalid
    · exact .inl (countIpv6Parts_iff.mp (by simpa using hvalid))
    · rename_i i hfind
      split at hvalid
      · cases hvalid
      · simp only [Bool.and_eq_true, decide_eq_true_eq] at hvalid
        obtain ⟨⟨hleft, hright⟩, hsum⟩ := hvalid
        obtain ⟨m, hm⟩ := Int.eq_ofNat_of_zero_le hleft
        obtain ⟨n, hn⟩ := Int.eq_ofNat_of_zero_le hright
        refine .inr ⟨m, n, _, _, countIpv6Parts_iff.mp hm, countIpv6Parts_iff.mp hn, by omega, ?_⟩
        exact eq_of_find hfind
  · rintro (hgroups | ⟨m, n, left, right, hleft, hright, hsum, rfl⟩)
    · obtain ⟨parts, hparts, rfl⟩ := ipv6Groups_iff.mp hgroups
      have hnone : find (ascii "::") (join 58 parts) = none :=
        find_double_eq_none (join_ne_double hparts.parts)
      rw [isValidIpv6, hnone]
      simp only [countIpv6Parts_iff.mpr hgroups]
      rfl
    · exact isValidIpv6_of_groups hleft hright hsum

/-- The validators end, and accept exactly the literals. -/
theorem ip_validators_exact (address : Bytes) :
    (isValidIpv4 address = true ↔ Ipv4Literal address) ∧
    (isValidIpv6 address = true ↔ Ipv6Literal address) ∧
    (∀ fuel, address.length < fuel →
      isValidIpv4Run fuel address = some (isValidIpv4 address) ∧
      isValidIpv6Run fuel address = some (isValidIpv6 address)) ∧
    (address.length < 2 ^ 31 → ∀ allowIpv4, countIpv6Parts address allowIpv4 < 2 ^ 31) := by
  refine ⟨isValidIpv4_iff, isValidIpv6_iff,
    fun fuel hfuel => ⟨isValidIpv4Run_eq hfuel, isValidIpv6Run_eq hfuel⟩,
    fun hlength allowIpv4 => ?_⟩
  have := countIpv6Parts_le address allowIpv4
  omega

end Watchlist.Storage
