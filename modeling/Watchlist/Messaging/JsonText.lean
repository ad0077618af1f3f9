import Watchlist.Messaging.MqttMessages

/-!
What a JSON parser makes of the text that `AppendField` builds. The escaping
covers the quote, the backslash and three control characters; a string with any
other control character is written as it is, which the grammar does not allow.
-/

namespace Watchlist.Messaging

open Bytes

/-- The bytes that the escaping writes in a form the grammar allows. -/
def Emittable (s : Bytes) : Prop := ∀ c ∈ s, 32 ≤ c ∨ c = 9 ∨ c = 10 ∨ c = 13

instance (s : Bytes) : Decidable (Emittable s) :=
  List.decidableBAll (fun c : UInt8 => 32 ≤ c ∨ c = 9 ∨ c = 10 ∨ c = 13) s

/-- Every value can be written. -/
def AllEmittable (fields : List (Bytes × Bytes)) : Prop := ∀ f ∈ fields, Emittable f.2

instance (fields : List (Bytes × Bytes)) : Decidable (AllEmittable fields) :=
  List.decidableBAll (fun f : Bytes × Bytes => Emittable f.2) fields

theorem allEmittable_nil : AllEmittable [] := by simp [AllEmittable]

theorem allEmittable_cons {f : Bytes × Bytes} {fields : List (Bytes × Bytes)} :
    AllEmittable (f :: fields) ↔ Emittable f.2 ∧ AllEmittable fields := List.forall_mem_cons

/-- A text that the escaping leaves alone. -/
def Plain (s : Bytes) : Prop := ∀ c ∈ s, 32 ≤ c ∧ c ≠ 34 ∧ c ≠ 92

instance (s : Bytes) : Decidable (Plain s) :=
  List.decidableBAll (fun c : UInt8 => 32 ≤ c ∧ c ≠ 34 ∧ c ≠ 92) s

/-! ### Strings -/

theorem string_escapeChar {c : UInt8} (h : 32 ≤ c ∨ c = 9 ∨ c = 10 ∨ c = 13) (rest : Bytes) :
    Json.string (escapeChar c ++ rest) = (Json.string rest).map (Json.prepend [c]) := by
  unfold escapeChar
  split_ifs with h₁ h₂ h₃ h₄ h₅
  · subst h₁
    exact Json.string_escape (by decide) (by decide) rest
  · subst h₂
    exact Json.string_escape (by decide) (by decide) rest
  · subst h₃
    exact Json.string_escape (e := 110) (by decide) (by decide) rest
  · subst h₄
    exact Json.string_escape (e := 114) (by decide) (by decide) rest
  · subst h₅
    exact Json.string_escape (e := 116) (by decide) (by decide) rest
  · exact Json.string_cons (by tauto) h₂ h₁ rest

theorem string_escapeChar_control {c : UInt8} (h : ¬(32 ≤ c ∨ c = 9 ∨ c = 10 ∨ c = 13))
    (rest : Bytes) : Json.string (escapeChar c ++ rest) = none := by
  push Not at h
  obtain ⟨hlow, h₉, h₁₀, h₁₃⟩ := h
  have h₉₂ : c ≠ 92 := by
    rintro rfl
    exact absurd hlow (by decide)
  have h₃₄ : c ≠ 34 := by
    rintro rfl
    exact absurd hlow (by decide)
  rw [escapeChar, if_neg h₉₂, if_neg h₃₄, if_neg h₁₀, if_neg h₁₃, if_neg h₉]
  exact Json.string_control hlow rest

theorem emittable_cons {c : UInt8} {s : Bytes} :
    Emittable (c :: s) ↔ (32 ≤ c ∨ c = 9 ∨ c = 10 ∨ c = 13) ∧ Emittable s :=
  List.forall_mem_cons

/-- Reading back an escaped string. -/
theorem string_escapeJson (s rest : Bytes) :
    Json.string (escapeJson s ++ 34 :: rest) = if Emittable s then some (s, rest) else none := by
  induction s with
  | nil =>
      rw [if_pos (by simp [Emittable])]
      exact Json.string_quote rest
  | cons c s ih =>
      rw [escapeJson, List.flatMap_cons, List.append_assoc, ← escapeJson]
      by_cases hc : 32 ≤ c ∨ c = 9 ∨ c = 10 ∨ c = 13
      · rw [string_escapeChar hc, ih]
        by_cases hs : Emittable s
        · rw [if_pos hs, if_pos (emittable_cons.mpr ⟨hc, hs⟩)]
          rfl
        · rw [if_neg hs, if_neg fun h => hs (emittable_cons.mp h).2]
          rfl
      · rw [string_escapeChar_control hc, if_neg fun h => hc (emittable_cons.mp h).1]

theorem escapeJson_plain {s : Bytes} (h : Plain s) : escapeJson s = s := by
  have hchar : ∀ c ∈ s, escapeChar c = [c] := by
    intro c hc
    obtain ⟨hlow, h₃₄, h₉₂⟩ := h c hc
    have hne : ∀ d : UInt8, d < 32 → c ≠ d := fun d hd hcd => absurd (hcd ▸ hlow) (not_le.mpr hd)
    rw [escapeChar, if_neg h₉₂, if_neg h₃₄, if_neg (hne 10 (by decide)),
      if_neg (hne 13 (by decide)), if_neg (hne 9 (by decide))]
  rw [escapeJson, List.flatMap_congr hchar, List.flatMap_singleton']

theorem string_name {name : Bytes} (h : Plain name) (rest : Bytes) :
    Json.string (name ++ 34 :: rest) = some (name, rest) := by
  have hread := string_escapeJson name rest
  have hname : Emittable name := fun c hc => Or.inl (h c hc).1
  rwa [escapeJson_plain h, if_pos hname] at hread

/-! ### The text of an object -/

/-- A field as it stands in the text. -/
def fieldText (f : Bytes × Bytes) : Bytes :=
  ascii "\"" ++ f.1 ++ ascii "\":\"" ++ escapeJson f.2 ++ ascii "\""

/-- The text of an object with these string members. -/
def objectText (fields : List (Bytes × Bytes)) : Bytes :=
  (fields.foldl (fun stream f => appendField stream f.1 f.2) (ascii "\x7b", true)).1 ++ ascii "\x7d"

theorem foldl_appendField (fields : List (Bytes × Bytes)) (text : Bytes) :
    (fields.foldl (fun stream f => appendField stream f.1 f.2) (text, false)).1 =
      text ++ fields.flatMap fun f => ascii "," ++ fieldText f := by
  induction fields generalizing text with
  | nil => simp
  | cons f fields ih =>
      rw [List.foldl_cons, List.flatMap_cons, ← List.append_assoc]
      refine (ih _).trans ?_
      simp [fieldText]

theorem objectText_cons (f : Bytes × Bytes) (fields : List (Bytes × Bytes)) :
    objectText (f :: fields) = 123 :: (fieldText f ++
      (fields.flatMap (fun g => ascii "," ++ fieldText g) ++ [125])) := by
  rw [objectText, List.foldl_cons]
  have hfold := foldl_appendField fields (ascii "\x7b" ++ fieldText f)
  have hstart : appendField (ascii "\x7b", true) f.1 f.2 = (ascii "\x7b" ++ fieldText f, false) := by
    simp [appendField, fieldText]
  rw [hstart, hfold]
  simp only [List.append_assoc]
  rfl

/-- The tokens of a field. -/
def fieldTokens (f : Bytes × Bytes) : List Json.Token := [.string f.1, .colon, .string f.2]

theorem tokens_punctuation {c : UInt8} {t : Json.Token} (hblank : Json.isBlank c = false)
    (h : Json.punctuation c = some t) (rest : Bytes) :
    Json.tokens (c :: rest) = (Json.tokens rest).map (t :: ·) := by
  simp [Json.tokens_cons, hblank, Json.nextToken, h]

theorem tokens_string {s v rest : Bytes} (h : Json.string s = some (v, rest)) :
    Json.tokens (34 :: s) = (Json.tokens rest).map (.string v :: ·) := by
  simp [Json.tokens_cons, show Json.isBlank 34 = false by decide, Json.nextToken,
    show Json.punctuation 34 = none by decide, h]

theorem tokens_string_none {s : Bytes} (h : Json.string s = none) :
    Json.tokens (34 :: s) = none := by
  simp [Json.tokens_cons, show Json.isBlank 34 = false by decide, Json.nextToken,
    show Json.punctuation 34 = none by decide, h]

/-- Cutting a field: its three tokens, unless its value cannot be read back. -/
theorem tokens_fieldText {f : Bytes × Bytes} (hname : Plain f.1) (rest : Bytes) :
    Json.tokens (fieldText f ++ rest) =
      if Emittable f.2 then (Json.tokens rest).map (fieldTokens f ++ ·) else none := by
  have htext : fieldText f ++ rest =
      34 :: (f.1 ++ 34 :: 58 :: 34 :: (escapeJson f.2 ++ 34 :: rest)) := by
    simp only [fieldText, List.append_assoc]
    rfl
  rw [htext, tokens_string (string_name hname _),
    tokens_punctuation (t := .colon) (by decide) (by decide)]
  by_cases hvalue : Emittable f.2
  · have hread := string_escapeJson f.2 rest
    rw [if_pos hvalue] at hread ⊢
    rw [tokens_string hread]
    cases Json.tokens rest <;> rfl
  · have hread := string_escapeJson f.2 rest
    rw [if_neg hvalue] at hread ⊢
    rw [tokens_string_none hread]
    rfl

theorem tokens_moreFields {fields : List (Bytes × Bytes)} (hnames : ∀ f ∈ fields, Plain f.1) :
    Json.tokens (fields.flatMap (fun g => ascii "," ++ fieldText g) ++ [125]) =
      if AllEmittable fields then
        some (fields.flatMap (fun g => .comma :: fieldTokens g) ++ [.rightBrace])
      else none := by
  induction fields with
  | nil =>
      rw [if_pos allEmittable_nil]
      exact tokens_punctuation (by decide) (by decide) []
  | cons f fields ih =>
      have htext : (f :: fields).flatMap (fun g => ascii "," ++ fieldText g) ++ [125] =
          44 :: (fieldText f ++ (fields.flatMap (fun g => ascii "," ++ fieldText g) ++ [125])) := by
        simp only [List.flatMap_cons, List.append_assoc]
        rfl
      rw [htext, tokens_punctuation (t := .comma) (by decide) (by decide),
        tokens_fieldText (hnames f List.mem_cons_self),
        ih fun g hg => hnames g (List.mem_cons_of_mem _ hg)]
      by_cases hf : Emittable f.2
      · rw [if_pos hf]
        by_cases hfields : AllEmittable fields
        · rw [if_pos hfields, if_pos (allEmittable_cons.mpr ⟨hf, hfields⟩)]
          simp
        · rw [if_neg hfields, if_neg fun h => hfields (allEmittable_cons.mp h).2]
          rfl
      · rw [if_neg hf, if_neg fun h => hf (allEmittable_cons.mp h).1]
        rfl

/-! ### Decoding -/

theorem run_moreFields (fields done : List (Bytes × Bytes)) (f : Bytes × Bytes) :
    Json.run (.after (.string f.2) [.object (done.map fun g => (g.1, .string g.2)) f.1])
      (fields.flatMap (fun g => .comma :: fieldTokens g) ++ [.rightBrace]) =
      some (.after (.object ((done ++ f :: fields).map fun g => (g.1, .string g.2))) []) := by
  induction fields generalizing done f with
  | nil => simp [Json.run, Json.step]
  | cons g fields ih =>
      have hdone : done.map (fun g => (g.1, Json.Value.string g.2)) ++ [(f.1, .string f.2)] =
          (done ++ [f]).map fun g => (g.1, .string g.2) := by simp
      have hnext := ih (done ++ [f]) g
      rw [List.append_assoc, List.singleton_append] at hnext
      rw [← hnext, ← hdone]
      rfl

theorem run_objectTokens (f : Bytes × Bytes) (fields : List (Bytes × Bytes)) :
    Json.run (.value []) (.leftBrace :: (fieldTokens f ++
      (fields.flatMap (fun g => .comma :: fieldTokens g) ++ [.rightBrace]))) =
      some (.after (.object ((f :: fields).map fun g => (g.1, .string g.2))) []) := by
  have hrest := run_moreFields fields [] f
  rw [List.nil_append, List.map_nil] at hrest
  rw [← hrest]
  rfl

theorem tokens_objectText {f : Bytes × Bytes} {fields : List (Bytes × Bytes)}
    (hnames : ∀ g ∈ f :: fields, Plain g.1) :
    Json.tokens (objectText (f :: fields)) =
      if AllEmittable (f :: fields) then
        some (.leftBrace :: (fieldTokens f ++
          (fields.flatMap (fun g => .comma :: fieldTokens g) ++ [.rightBrace])))
      else none := by
  obtain ⟨hname, hnames⟩ := List.forall_mem_cons.mp hnames
  rw [objectText_cons, tokens_punctuation (t := .leftBrace) (by decide) (by decide),
    tokens_fieldText hname, tokens_moreFields hnames]
  by_cases hf : Emittable f.2
  · rw [if_pos hf]
    by_cases hfields : AllEmittable fields
    · rw [if_pos hfields, if_pos (allEmittable_cons.mpr ⟨hf, hfields⟩)]
      rfl
    · rw [if_neg hfields, if_neg fun h => hfields (allEmittable_cons.mp h).2]
      rfl
  · rw [if_neg hf, if_neg fun h => hf (allEmittable_cons.mp h).1]
    rfl

/-! ### UTF-8 -/

theorem step_escapeChar {owed owed' : List (UInt8 × UInt8)} {c : UInt8} (howed : Utf8.Owed owed)
    (h : Utf8.step owed c = some owed') : Utf8.read owed (escapeChar c) = some owed' := by
  have hself : Utf8.read owed [c] = some owed' := by simp [h]
  cases owed with
  | nil =>
      unfold escapeChar
      split_ifs with h₁ h₂ h₃ h₄ h₅
      · subst h₁
        obtain rfl := Option.some.inj h
        rfl
      · subst h₂
        obtain rfl := Option.some.inj h
        rfl
      · subst h₃
        obtain rfl := Option.some.inj h
        rfl
      · subst h₄
        obtain rfl := Option.some.inj h
        rfl
      · subst h₅
        obtain rfl := Option.some.inj h
        rfl
      · exact hself
  | cons r owed =>
      have hhigh := Utf8.not_ascii_of_step howed h
      have hne : ∀ d : UInt8, d < 0x80 → c ≠ d := fun d hd hcd => absurd (hcd ▸ hhigh) (not_le.mpr hd)
      rw [escapeChar, if_neg (hne 92 (by decide)), if_neg (hne 34 (by decide)),
        if_neg (hne 10 (by decide)), if_neg (hne 13 (by decide)), if_neg (hne 9 (by decide))]
      exact hself

/-- The escaping keeps a text well formed. -/
theorem read_escapeJson {owed owed' : List (UInt8 × UInt8)} {s : Bytes} (howed : Utf8.Owed owed)
    (h : Utf8.read owed s = some owed') : Utf8.read owed (escapeJson s) = some owed' := by
  induction s generalizing owed with
  | nil => exact h
  | cons c s ih =>
      rw [Utf8.read_cons] at h
      obtain ⟨mid, hstep, hrest⟩ := Option.bind_eq_some_iff.mp h
      rw [escapeJson, List.flatMap_cons, Utf8.read_append, step_escapeChar howed hstep]
      exact ih (Utf8.owed_step howed hstep) hrest

theorem wellFormed_escapeJson {s : Bytes} (h : Utf8.WellFormed s) :
    Utf8.WellFormed (escapeJson s) := read_escapeJson (by simp [Utf8.Owed]) h

theorem wellFormed_fieldText {f : Bytes × Bytes} (hname : Utf8.WellFormed f.1)
    (hvalue : Utf8.WellFormed f.2) : Utf8.WellFormed (fieldText f) := by
  refine Utf8.WellFormed.append (.append (.append (.append ?_ hname) ?_)
    (wellFormed_escapeJson hvalue)) ?_
  · decide
  · decide
  · decide

theorem wellFormed_objectText {fields : List (Bytes × Bytes)}
    (h : ∀ f ∈ fields, Utf8.WellFormed f.1 ∧ Utf8.WellFormed f.2) :
    Utf8.WellFormed (objectText fields) := by
  cases fields with
  | nil => decide
  | cons f fields =>
      obtain ⟨hf, hfields⟩ := List.forall_mem_cons.mp h
      have hmore : Utf8.WellFormed (fields.flatMap fun g => ascii "," ++ fieldText g) := by
        clear h hf
        induction fields with
        | nil => decide
        | cons g fields ih =>
            obtain ⟨hg, hrest⟩ := List.forall_mem_cons.mp hfields
            rw [List.flatMap_cons]
            refine .append (.append (by decide) (wellFormed_fieldText hg.1 hg.2)) (ih hrest)
      rw [objectText_cons]
      exact Utf8.WellFormed.append (a := [123]) (by decide)
        (.append (wellFormed_fieldText hf.1 hf.2) (.append hmore (by decide)))

/-- What the grammar makes of the text: the members as given when every value can
be written, and nothing otherwise. -/
theorem decode_objectText {fields : List (Bytes × Bytes)} (hne : fields ≠ [])
    (hnames : ∀ g ∈ fields, Plain g.1)
    (hutf8 : ∀ g ∈ fields, Utf8.WellFormed g.1 ∧ Utf8.WellFormed g.2) :
    Json.decode (objectText fields) =
      if AllEmittable fields then some (.object (fields.map fun g => (g.1, .string g.2)))
      else none := by
  obtain ⟨f, rest, rfl⟩ := List.exists_cons_of_ne_nil hne
  rw [Json.decode, if_pos (wellFormed_objectText hutf8), tokens_objectText hnames]
  by_cases hfields : AllEmittable (f :: rest)
  · rw [if_pos hfields, if_pos hfields, Option.bind_some, run_objectTokens]
  · rw [if_neg hfields, if_neg hfields]
    rfl

end Watchlist.Messaging
