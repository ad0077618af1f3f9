import Watchlist.Library.Bytes

/-!
The argument of `PRAGMA name('argument')` as SQLite reads it. A client that puts a
name between the quotes as it stands has SQLite read a string literal, in which a
doubled quote is one quote and any other quote is the end; what follows has to be the
closing parenthesis and the end of the statement. So a name is read as itself when it
has no quote in it, and otherwise as a shorter one or not at all.
-/

namespace Sqlite

open Bytes

/-- A string literal after its opening quote: its text, and what follows the closing
quote. The statement ends at a NUL. -/
def stringLiteral : Bytes → Option (Bytes × Bytes)
  | [] => none
  | [c] => if c = 39 then some ([], []) else none
  | c :: d :: s =>
      if c = 0 then none
      else if c = 39 then
        if d = 39 then (stringLiteral s).map fun r => (39 :: r.1, r.2) else some ([], d :: s)
      else (stringLiteral (d :: s)).map fun r => (c :: r.1, r.2)

/-- What has been read since the last token. -/
inductive Gap
  | nothing
  | blank
  | dash
  | lineComment
  | slash
  | slashStar
  | comment
  | commentStar
  /-- one byte of a byte order mark -/
  | mark
  | markTwo
  deriving DecidableEq

namespace Gap

/-- A token, or the end of the statement, may follow. -/
def complete : Gap → Bool
  | .nothing | .blank => true
  | _ => false

/-- The statement may end; a comment need not be closed for that. -/
def mayEnd : Gap → Bool
  | .dash | .slash | .slashStar | .mark | .markTwo => false
  | _ => true

/-- Read a byte, if it belongs to blanks, byte order marks and comments. A vertical tab is a
blank only after another. -/
def step : Gap → UInt8 → Option Gap
  | .nothing, c =>
      if isSpace c && c != 11 then some .blank
      else if c = 45 then some .dash
      else if c = 47 then some .slash
      else if c = 0xEF then some .mark
      else none
  | .blank, c =>
      if isSpace c then some .blank
      else if c = 45 then some .dash
      else if c = 47 then some .slash
      else if c = 0xEF then some .mark
      else none
  | .dash, c => if c = 45 then some .lineComment else none
  | .lineComment, c => some (if c = 10 then .nothing else .lineComment)
  | .slash, c => if c = 42 then some .slashStar else none
  | .slashStar, c | .comment, c => some (if c = 42 then .commentStar else .comment)
  | .commentStar, c =>
      some (if c = 47 then .nothing else if c = 42 then .commentStar else .comment)
  | .mark, c => if c = 0xBB then some .markTwo else none
  | .markTwo, c => if c = 0xBF then some .nothing else none

end Gap

/-- The text is the closing parenthesis, when `closed` says that it is still to come, and
the end of the statement; what follows a semicolon is another statement. -/
def endsCall (closed : Bool) (gap : Gap) : Bytes → Bool
  | [] => closed && gap.mayEnd
  | c :: s =>
      if c = 0 then closed && gap.mayEnd
      else
        match gap.step c with
        | some gap' => endsCall closed gap' s
        | none =>
            gap.complete &&
              if closed then c == 59 else c == 41 && endsCall true .nothing s

/-- What SQLite takes for the argument where the text has `('`, the name as it stands and
`')`; nothing when that does not parse. -/
def pragmaArgument (name : Bytes) : Option Bytes :=
  match stringLiteral (name ++ [39, 41]) with
  | some (text, rest) => if endsCall false .nothing rest then some text else none
  | none => none

/-- A name with nothing in it that could end a literal. -/
def Quotable (name : Bytes) : Prop := ∀ c ∈ name, c ≠ 39 ∧ c ≠ 0

instance (name : Bytes) : Decidable (Quotable name) := inferInstanceAs (Decidable (∀ c ∈ name, _))

theorem quotable_nil : Quotable [] := fun _ h => by cases h

theorem Quotable.append {a b : Bytes} (ha : Quotable a) (hb : Quotable b) : Quotable (a ++ b) :=
  List.forall_mem_append.mpr ⟨ha, hb⟩

theorem stringLiteral_quotable {name : Bytes} (h : Quotable name) (rest : Bytes) (c : UInt8)
    (hc : c ≠ 39) :
    stringLiteral (name ++ 39 :: c :: rest) = some (name, c :: rest) := by
  induction name with
  | nil => simp [stringLiteral, hc]
  | cons d name ih =>
      obtain ⟨⟨hquote, hnul⟩, hname⟩ := List.forall_mem_cons.mp h
      obtain ⟨e, s, hs⟩ : ∃ e s, name ++ 39 :: c :: rest = e :: s :=
        List.exists_cons_of_ne_nil (by simp)
      rw [List.cons_append, hs, stringLiteral, if_neg hnul, if_neg hquote, ← hs, ih hname]
      rfl

/-- Such a name is read as itself. -/
theorem pragmaArgument_quotable {name : Bytes} (h : Quotable name) :
    pragmaArgument name = some name := by
  rw [pragmaArgument, stringLiteral_quotable h [] 41 (by decide)]
  rfl

/-- A literal is the text between its quotes, unless a doubled quote has become one. -/
theorem stringLiteral_cases {s text rest : Bytes} (h : stringLiteral s = some (text, rest)) :
    (Quotable text ∧ s = text ++ 39 :: rest) ∨ text.length + rest.length + 2 ≤ s.length := by
  induction s using stringLiteral.induct generalizing text with
  | case1 => cases h
  | case2 =>
      obtain ⟨rfl, rfl⟩ := Prod.mk.inj (Option.some.inj h)
      exact .inl ⟨quotable_nil, rfl⟩
  | case3 c hquote => simp [stringLiteral, hquote] at h
  | case4 d s => simp [stringLiteral] at h
  | case5 s hnul ih =>
      simp only [stringLiteral, if_neg hnul, if_true] at h
      obtain ⟨⟨text', rest'⟩, hread, heq⟩ := Option.map_eq_some_iff.mp h
      obtain ⟨rfl, rfl⟩ := Prod.mk.inj heq
      right
      rcases ih hread with ⟨-, rfl⟩ | hshort
      · simp only [List.length_cons, List.length_append]
        omega
      · dsimp only at hshort ⊢
        simp only [List.length_cons]
        omega
  | case6 d s hnul hd =>
      simp only [stringLiteral, if_neg hnul, if_true, if_neg hd] at h
      obtain ⟨rfl, rfl⟩ := Prod.mk.inj (Option.some.inj h)
      exact .inl ⟨quotable_nil, rfl⟩
  | case7 c d s hnul hquote ih =>
      rw [stringLiteral, if_neg hnul, if_neg hquote] at h
      obtain ⟨⟨text', rest'⟩, hread, heq⟩ := Option.map_eq_some_iff.mp h
      obtain ⟨rfl, rfl⟩ := Prod.mk.inj heq
      rcases ih hread with ⟨hquotable, heq⟩ | hshort
      · exact .inl ⟨List.forall_mem_cons.mpr ⟨⟨hquote, hnul⟩, hquotable⟩, by rw [heq]; rfl⟩
      · right
        simp only [List.length_cons] at hshort ⊢
        omega

/-- A name of another kind is read, if at all, as a shorter one. -/
theorem pragmaArgument_shorter {name text : Bytes} (h : pragmaArgument name = some text)
    (hname : ¬Quotable name) : text.length < name.length := by
  unfold pragmaArgument at h
  split at h
  · rename_i read rest hread
    split at h
    · rename_i hends
      obtain rfl := Option.some.inj h
      -- the closing parenthesis is still in the rest
      have hrest : rest ≠ [] := by
        rintro rfl
        cases hends
      have hpos := List.length_pos_iff.mpr hrest
      rcases stringLiteral_cases hread with ⟨hquotable, heq⟩ | hshort
      · have hlength := congrArg List.length heq
        simp only [List.length_append, List.length_cons, List.length_nil] at hlength
        by_contra hlong
        have hsame : name.length = read.length := by omega
        exact hname ((List.append_inj_left heq hsame) ▸ hquotable)
      · simp only [List.length_append, List.length_cons, List.length_nil] at hshort
        omega
    · cases h
  · cases h

example : pragmaArgument (ascii "a'b") = none := by decide +kernel

example : pragmaArgument (ascii "a''b") = some (ascii "a'b") := by decide +kernel

end Sqlite
