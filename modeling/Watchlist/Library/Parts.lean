import Watchlist.Library.Bytes

/-!
Texts made of parts with a separator between them. A loop over `find` visits the
parts one after the other and needs no more rounds than the text has bytes; the
joined parts are taken apart again where no part contains the separator, and a
doubled separator shows as an empty part.
-/

namespace Bytes

/-! ### The loop -/

/-- `s.find(separator, start)` -/
def findFrom (separator : UInt8) (s : Bytes) (start : ℕ) : Option ℕ :=
  ((s.drop start).findIdx? (· == separator)).map (start + ·)

section Loop

variable {σ : Type*} (separator : UInt8) (s : Bytes) (body : σ → Bytes → Bool → Option σ)

/-- The loop over the parts from `start` on; `body` is told whether a part is the last one,
and returns `none` to leave the function. Without an outer result the fuel has run out. -/
def partsLoop : ℕ → ℕ → σ → Option (Option σ)
  | 0, _, _ => none
  | fuel + 1, start, st =>
      if start ≤ s.length then
        match findFrom separator s start with
        | none => some (body st (s.drop start) true)
        | some stop =>
            match body st ((s.drop start).take (stop - start)) false with
            | none => some none
            | some st => partsLoop fuel (stop + 1) st
      else some (some st)

/-- What the body makes of a list of parts. -/
def foldParts : List Bytes → σ → Option σ
  | [], st => some st
  | part :: rest, st => (body st part rest.isEmpty).bind (foldParts rest)

variable {separator s body}

/-- The text up to the first separator is its first part. -/
theorem split_of_findIdx {i : ℕ} (h : s.findIdx? (· == separator) = some i) :
    i < s.length ∧ split separator s = s.take i :: split separator (s.drop (i + 1)) := by
  obtain ⟨hi, hat, hbefore⟩ := List.findIdx?_eq_some_iff_getElem.mp h
  have hseparator : s[i] = separator := by simpa using hat
  have hfree : separator ∉ s.take i := by
    intro hmem
    obtain ⟨j, hj, hget⟩ := List.mem_take_iff_getElem.mp hmem
    have hne := hbefore j (by omega)
    exact hne (by simpa using hget)
  refine ⟨hi, ?_⟩
  have htext : s = s.take i ++ separator :: s.drop (i + 1) := by
    rw [← hseparator, List.cons_getElem_drop_succ, List.take_append_drop]
  calc split separator s
      = split separator (s.take i ++ separator :: s.drop (i + 1)) := congrArg _ htext
    _ = s.take i :: split separator (s.drop (i + 1)) :=
        List.splitOn_append_cons_self_of_not_mem hfree _

theorem split_of_findIdx_eq_none (h : s.findIdx? (· == separator) = none) :
    split separator s = [s] := by
  apply List.splitOn_eq_singleton
  intro hmem
  have hne := List.findIdx?_eq_none_iff.mp h separator hmem
  simp at hne

/-- The loop ends, after no more rounds than there are bytes left and one. -/
theorem partsLoop_eq {fuel start : ℕ} (hstart : start ≤ s.length)
    (hfuel : s.length - start < fuel) (st : σ) :
    partsLoop separator s body fuel start st =
      some (foldParts body (split separator (s.drop start)) st) := by
  induction fuel generalizing start st with
  | zero => omega
  | succ fuel ih =>
      rw [partsLoop, if_pos hstart, findFrom]
      cases hfind : (s.drop start).findIdx? (· == separator) with
      | none =>
          rw [split_of_findIdx_eq_none hfind]
          have hlast : foldParts body [s.drop start] st = body st (s.drop start) true := by
            simp only [foldParts, List.isEmpty_nil]
            cases body st (s.drop start) true <;> rfl
          simp only [Option.map_none, hlast]
      | some i =>
          obtain ⟨hi, hsplit⟩ := split_of_findIdx hfind
          rw [List.length_drop] at hi
          have hrest : (split separator ((s.drop start).drop (i + 1))).isEmpty = false := by
            rw [List.isEmpty_eq_false_iff]
            exact List.splitOn_ne_nil separator _
          rw [hsplit]
          simp only [Option.map_some, foldParts, hrest, Nat.add_sub_cancel_left]
          cases body st ((s.drop start).take i) false with
          | none => rfl
          | some st' =>
              simp only [Option.bind_some]
              rw [ih (by omega) (by omega) st', List.drop_drop]
              rfl

end Loop

/-! ### Joined parts -/

def join (separator : UInt8) (parts : List Bytes) : Bytes := [separator].intercalate parts

variable {separator : UInt8} {parts : List Bytes} {s : Bytes}

theorem split_join (hparts : ∀ part ∈ parts, separator ∉ part) (hne : parts ≠ []) :
    split separator (join separator parts) = parts :=
  List.splitOn_intercalate separator hparts hne

@[simp] theorem join_split (separator : UInt8) (s : Bytes) :
    join separator (split separator s) = s :=
  List.intercalate_splitOn separator

/-- Parts with a separator behind each. -/
theorem flatMap_append_separator (separator : UInt8) (hne : parts ≠ []) :
    parts.flatMap (· ++ [separator]) = join separator parts ++ [separator] := by
  induction parts with
  | nil => exact absurd rfl hne
  | cons part rest ih =>
      cases rest with
      | nil => simp [join]
      | cons next rest =>
          rw [List.flatMap_cons, ih (List.cons_ne_nil _ _), join, join,
            List.intercalate_cons_of_ne_nil (List.cons_ne_nil _ _)]
          simp only [List.append_assoc]

theorem notMem_of_mem_split {part : Bytes} (h : part ∈ split separator s) : separator ∉ part := by
  induction s generalizing part with
  | nil =>
      rw [show split separator [] = [[]] from rfl, List.mem_singleton] at h
      rw [h]
      exact List.not_mem_nil
  | cons c cs ih =>
      rw [split, List.splitOn_cons_eq_if_modifyHead, ← split] at h
      split at h
      · rcases List.mem_cons.mp h with rfl | hrest
        · exact List.not_mem_nil
        · exact ih hrest
      · rename_i hc
        obtain ⟨first, rest, hsplit⟩ :=
          List.exists_cons_of_ne_nil (List.splitOn_ne_nil separator cs)
        rw [show split separator cs = first :: rest from hsplit] at h ih
        rcases List.mem_cons.mp h with rfl | hrest
        · have hseparator : separator ≠ c := fun heq => hc (beq_iff_eq.mpr heq.symm)
          rw [List.mem_cons, not_or]
          exact ⟨hseparator, ih List.mem_cons_self⟩
        · exact ih (List.mem_cons_of_mem _ hrest)

theorem split_double (separator : UInt8) (a b : Bytes) :
    split separator (a ++ separator :: separator :: b) =
      split separator a ++ [] :: split separator b := by
  have hrest : split separator (separator :: b) = [] :: split separator b :=
    List.splitOn_append_cons_self [] b
  calc split separator (a ++ separator :: separator :: b)
      = split separator a ++ split separator (separator :: b) := List.splitOn_append_cons_self a _
    _ = split separator a ++ [] :: split separator b := by rw [hrest]

/-- Parts that are not empty make a text without a doubled separator, also where another
separator follows. -/
theorem join_append_ne_double (hparts : ∀ part ∈ parts, part ≠ [] ∧ separator ∉ part)
    (a b : Bytes) : join separator parts ++ [separator] ≠ a ++ separator :: separator :: b := by
  intro h
  by_cases hne : parts = []
  · subst hne
    have hlength := congrArg List.length h
    have hempty : (join separator []).length = 0 := rfl
    rw [List.length_append, List.length_append, hempty] at hlength
    simp only [List.length_cons, List.length_nil] at hlength
    omega
  · have hsplit := congrArg (split separator) h
    have hleft : split separator (join separator parts ++ [separator]) = parts ++ [[]] := by
      calc split separator (join separator parts ++ [separator])
          = split separator (join separator parts) ++ split separator [] :=
            List.splitOn_append_cons_self _ _
        _ = parts ++ [[]] := by
            rw [split_join (fun part hpart => (hparts part hpart).2) hne]
            rfl
    rw [split_double, hleft] at hsplit
    have hinit := congrArg List.dropLast hsplit
    have hne' : split separator b ≠ [] := List.splitOn_ne_nil separator b
    rw [List.dropLast_concat, List.dropLast_append_of_ne_nil (List.cons_ne_nil _ _),
      List.dropLast_cons_of_ne_nil hne'] at hinit
    have hempty : [] ∈ parts := by
      rw [hinit]
      exact List.mem_append_right _ List.mem_cons_self
    exact (hparts [] hempty).1 rfl

theorem join_ne_double (hparts : ∀ part ∈ parts, part ≠ [] ∧ separator ∉ part) (a b : Bytes) :
    join separator parts ≠ a ++ separator :: separator :: b := by
  intro h
  apply join_append_ne_double hparts a (b ++ [separator])
  rw [h]
  simp

/-! ### The first doubled separator -/

theorem eq_of_find {pattern : Bytes} {i : ℕ} (h : find pattern s = some i) :
    s = s.take i ++ pattern ++ s.drop (i + pattern.length) := by
  induction s generalizing i with
  | nil =>
      unfold find at h
      split at h
      · rename_i hempty
        rw [List.isEmpty_iff.mp hempty]
        simp
      · cases h
  | cons c cs ih =>
      unfold find at h
      split at h
      · rename_i hbegins
        obtain ⟨rest, hrest⟩ := List.isPrefixOf_iff_prefix.mp hbegins
        obtain rfl := Option.some.inj h
        rw [← hrest]
        simp
      · obtain ⟨j, hj, rfl⟩ := Option.map_eq_some_iff.mp h
        rw [show j + 1 + pattern.length = j + pattern.length + 1 by omega, List.take_succ_cons,
          List.drop_succ_cons, List.cons_append, List.cons_append, ← ih hj]

/-- A doubled separator is found at its first place. -/
theorem find_double {a : Bytes}
    (hfirst : ∀ b c, a ++ [separator] ≠ b ++ separator :: separator :: c) (rest : Bytes) :
    find [separator, separator] (a ++ separator :: separator :: rest) = some a.length := by
  induction a with
  | nil =>
      rw [List.nil_append, find, if_pos]
      · rfl
      · simp [List.isPrefixOf]
  | cons d a ih =>
      have hnot : ¬[separator, separator].isPrefixOf
          (d :: (a ++ separator :: separator :: rest)) = true := by
        intro hbegins
        cases a with
        | nil =>
            have hd : separator = d := by
              simpa [List.isPrefixOf] using hbegins
            exact hfirst [] [] (by rw [hd]; rfl)
        | cons e a =>
            have hde : separator = d ∧ separator = e := by
              simpa [List.isPrefixOf] using hbegins
            exact hfirst [] (a ++ [separator]) (by rw [← hde.1, ← hde.2]; rfl)
      have hrest := ih fun b c h => hfirst (d :: b) c (by rw [List.cons_append, h]; rfl)
      rw [List.cons_append, find, if_neg hnot, hrest]
      rfl

theorem find_double_eq_none (h : ∀ a b, s ≠ a ++ separator :: separator :: b) :
    find [separator, separator] s = none := by
  cases hfind : find [separator, separator] s with
  | none => rfl
  | some i =>
      have htext := eq_of_find hfind
      rw [List.append_assoc] at htext
      exact absurd htext (h _ _)

end Bytes
