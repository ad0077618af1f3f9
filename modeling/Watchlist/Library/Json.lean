import Watchlist.Library.Utf8

/-!
A decoder of JSON texts after RFC 8259, over UTF-8. The text is cut into tokens,
and the tokens drive a machine that keeps the open arrays and objects on a
stack. Nothing outside the grammar is accepted; an object is the list of its
members as written, so names may repeat.
-/

namespace Json

open Bytes

inductive Value
  | null
  | boolean (b : Bool)
  | number (text : Bytes)
  | string (s : Bytes)
  | array (elements : List Value)
  | object (members : List (Bytes × Value))

/-- The text of a string value. -/
def Value.text? : Value → Option Bytes
  | .string s => some s
  | _ => none

/-! ### Tokens -/

inductive Token
  | leftBrace
  | rightBrace
  | leftBracket
  | rightBracket
  | colon
  | comma
  | null
  | boolean (b : Bool)
  | number (text : Bytes)
  | string (s : Bytes)
  deriving DecidableEq

def isBlank (c : UInt8) : Bool := c == 32 || c == 9 || c == 10 || c == 13

/-- The byte that a two-character escape stands for. -/
def unescape (c : UInt8) : Option UInt8 :=
  if c = 34 || c = 92 || c = 47 then some c
  else if c = 98 then some 8
  else if c = 102 then some 12
  else if c = 110 then some 10
  else if c = 114 then some 13
  else if c = 116 then some 9
  else none

def hexDigit (c : UInt8) : Option ℕ :=
  if isDigit c then some (c.toNat - 48)
  else if 65 ≤ c && c ≤ 70 then some (c.toNat - 55)
  else if 97 ≤ c && c ≤ 102 then some (c.toNat - 87)
  else none

/-- The code unit of four hexadecimal digits. -/
def codeUnit (a b c d : UInt8) : Option ℕ := do
  let a ← hexDigit a
  let b ← hexDigit b
  let c ← hexDigit c
  let d ← hexDigit d
  return ((a * 16 + b) * 16 + c) * 16 + d

/-- The UTF-8 bytes of a scalar value. -/
def encode (scalar : ℕ) : Bytes :=
  if scalar < 0x80 then [UInt8.ofNat scalar]
  else if scalar < 0x800 then
    [UInt8.ofNat (0xc0 + scalar / 64), UInt8.ofNat (0x80 + scalar % 64)]
  else if scalar < 0x10000 then
    [UInt8.ofNat (0xe0 + scalar / 4096), UInt8.ofNat (0x80 + scalar / 64 % 64),
      UInt8.ofNat (0x80 + scalar % 64)]
  else
    [UInt8.ofNat (0xf0 + scalar / 262144), UInt8.ofNat (0x80 + scalar / 4096 % 64),
      UInt8.ofNat (0x80 + scalar / 64 % 64), UInt8.ofNat (0x80 + scalar % 64)]

/-- Put decoded bytes before those of the rest of the string. -/
def prepend (decoded : Bytes) (r : Bytes × Bytes) : Bytes × Bytes := (decoded ++ r.1, r.2)

/-- From after the opening quote: the decoded string, and the text after the
closing quote. A lone surrogate has no encoding and is refused. -/
def string : Bytes → Option (Bytes × Bytes)
  | [] => none
  | c :: rest =>
      if c = 34 then some ([], rest)
      else if c < 32 then none
      else if c = 92 then
        match rest with
        | [] => none
        | e :: rest =>
            if e = 117 then
              match rest with
              | h₁ :: h₂ :: h₃ :: h₄ :: rest =>
                  match codeUnit h₁ h₂ h₃ h₄ with
                  | none => none
                  | some unit =>
                      if unit < 0xd800 || 0xdfff < unit then
                        (string rest).map (prepend (encode unit))
                      else if 0xdbff < unit then none
                      else
                        match rest with
                        | b :: u :: l₁ :: l₂ :: l₃ :: l₄ :: rest =>
                            if b = 92 && u = 117 then
                              match codeUnit l₁ l₂ l₃ l₄ with
                              | none => none
                              | some low =>
                                  if low < 0xdc00 || 0xdfff < low then none
                                  else (string rest).map (prepend (encode
                                    (0x10000 + (unit - 0xd800) * 1024 + (low - 0xdc00))))
                            else none
                        | _ => none
              | _ => none
            else
              match unescape e with
              | none => none
              | some d => (string rest).map (prepend [d])
      else (string rest).map (prepend [c])

/-- At least one digit, and the text after the digits. -/
def digits (s : Bytes) : Option (Bytes × Bytes) :=
  if (s.takeWhile isDigit).isEmpty then none else some (s.takeWhile isDigit, s.dropWhile isDigit)

/-- `0`, or digits that do not start with it. -/
def integer : Bytes → Option (Bytes × Bytes)
  | [] => none
  | c :: rest => if c = 48 then some ([c], rest) else digits (c :: rest)

def fraction : Bytes → Option (Bytes × Bytes)
  | c :: rest => if c = 46 then (digits rest).map (prepend [c]) else some ([], c :: rest)
  | [] => some ([], [])

def exponent : Bytes → Option (Bytes × Bytes)
  | c :: rest =>
      if c = 101 || c = 69 then
        match rest with
        | sign :: rest' =>
            if sign = 43 || sign = 45 then (digits rest').map (prepend [c, sign])
            else (digits rest).map (prepend [c])
        | [] => none
      else some ([], c :: rest)
  | [] => some ([], [])

def number (s : Bytes) : Option (Bytes × Bytes) := do
  let sign := if s.head? = some 45 then [45] else []
  let (whole, s) ← integer (s.drop sign.length)
  let (part, s) ← fraction s
  let (power, s) ← exponent s
  return (sign ++ whole ++ part ++ power, s)

/-- `null`, `true` or `false`. -/
def literal (s : Bytes) : Option (Token × Bytes) :=
  if (ascii "null").isPrefixOf s then some (.null, s.drop 4)
  else if (ascii "true").isPrefixOf s then some (.boolean true, s.drop 4)
  else if (ascii "false").isPrefixOf s then some (.boolean false, s.drop 5)
  else none

/-- The token that a character is by itself. -/
def punctuation (c : UInt8) : Option Token :=
  if c = 123 then some .leftBrace
  else if c = 125 then some .rightBrace
  else if c = 91 then some .leftBracket
  else if c = 93 then some .rightBracket
  else if c = 58 then some .colon
  else if c = 44 then some .comma
  else none

/-- The first token of a text that does not start with a blank, and what follows. -/
def nextToken (c : UInt8) (rest : Bytes) : Option (Token × Bytes) :=
  match punctuation c with
  | some t => some (t, rest)
  | none =>
      if c = 34 then (string rest).map fun r => (.string r.1, r.2)
      else if c = 45 || isDigit c then (number (c :: rest)).map fun r => (.number r.1, r.2)
      else literal (c :: rest)

/-- Every round takes at least one byte: the length of the text is fuel enough. -/
def tokensLoop : ℕ → Bytes → Option (List Token)
  | _, [] => some []
  | 0, _ :: _ => none
  | fuel + 1, c :: rest =>
      if isBlank c then tokensLoop fuel rest
      else
        match nextToken c rest with
        | none => none
        | some (t, rest) => (tokensLoop fuel rest).map (t :: ·)

def tokens (s : Bytes) : Option (List Token) := tokensLoop s.length s

/-! ### Values -/

/-- An array or object whose next element or member value is being read. -/
inductive Frame
  | array (done : List Value)
  | object (done : List (Bytes × Value)) (name : Bytes)

/-- What the tokens read so far call for. -/
inductive State
  | value (stack : List Frame)
  | firstElement (stack : List Frame)
  | firstMember (stack : List Frame)
  | nextMember (done : List (Bytes × Value)) (stack : List Frame)
  | colon (done : List (Bytes × Value)) (name : Bytes) (stack : List Frame)
  | after (v : Value) (stack : List Frame)

/-- A token where a value is called for. -/
def startValue (stack : List Frame) : Token → Option State
  | .null => some (.after .null stack)
  | .boolean b => some (.after (.boolean b) stack)
  | .number t => some (.after (.number t) stack)
  | .string s => some (.after (.string s) stack)
  | .leftBracket => some (.firstElement stack)
  | .leftBrace => some (.firstMember stack)
  | _ => none

def step : State → Token → Option State
  | .value stack, t => startValue stack t
  | .firstElement stack, .rightBracket => some (.after (.array []) stack)
  | .firstElement stack, t => startValue (.array [] :: stack) t
  | .firstMember stack, .rightBrace => some (.after (.object []) stack)
  | .firstMember stack, .string name => some (.colon [] name stack)
  | .nextMember done stack, .string name => some (.colon done name stack)
  | .colon done name stack, .colon => some (.value (.object done name :: stack))
  | .after v (.array done :: stack), .comma => some (.value (.array (done ++ [v]) :: stack))
  | .after v (.array done :: stack), .rightBracket =>
      some (.after (.array (done ++ [v])) stack)
  | .after v (.object done name :: stack), .comma =>
      some (.nextMember (done ++ [(name, v)]) stack)
  | .after v (.object done name :: stack), .rightBrace =>
      some (.after (.object (done ++ [(name, v)])) stack)
  | _, _ => none

def run (st : State) (ts : List Token) : Option State := ts.foldlM step st

/-- The value of a whole text. -/
def decode (s : Bytes) : Option Value :=
  if Utf8.WellFormed s then
    match (tokens s).bind (run (.value [])) with
    | some (.after v []) => some v
    | _ => none
  else none

/-! ### One character of a string -/

theorem string_quote (rest : Bytes) : string (34 :: rest) = some ([], rest) := by
  unfold string
  simp

theorem string_escape {e d : UInt8} (he : e ≠ 117) (hd : unescape e = some d) (rest : Bytes) :
    string (92 :: e :: rest) = (string rest).map (prepend [d]) := by
  conv_lhs => unfold string
  simp [he, hd, show ¬(92 : UInt8) < 32 by decide]

theorem string_control {c : UInt8} (h : c < 32) (rest : Bytes) : string (c :: rest) = none := by
  have hquote : c ≠ 34 := by
    rintro rfl
    exact absurd h (by decide)
  unfold string
  simp [h, hquote]

theorem string_cons {c : UInt8} (h : 32 ≤ c) (hquote : c ≠ 34) (hslash : c ≠ 92) (rest : Bytes) :
    string (c :: rest) = (string rest).map (prepend [c]) := by
  conv_lhs => unfold string
  simp [not_lt.mpr h, hquote, hslash]

/-! ### The length of a text is fuel enough -/

theorem length_of_map_prepend {r : Option (Bytes × Bytes)} {decoded v rest : Bytes} {n : ℕ}
    (h : r.map (prepend decoded) = some (v, rest))
    (hr : ∀ {v rest}, r = some (v, rest) → rest.length < n) : rest.length < n := by
  obtain ⟨⟨v', rest'⟩, hsome, heq⟩ := Option.map_eq_some_iff.mp h
  have hrest : rest' = rest := congrArg Prod.snd heq
  exact hrest ▸ hr hsome

theorem length_string {s v rest : Bytes} (h : string s = some (v, rest)) :
    rest.length < s.length := by
  fun_induction string s generalizing v rest
  -- a refusal, a string that goes on, or the closing quote
  all_goals first
    | cases h
      done
    | (have hlt := length_of_map_prepend h (by assumption)
       simp only [List.length_cons]
       omega)
    | (obtain ⟨_, rfl⟩ := Prod.mk.inj (Option.some.inj h)
       exact Nat.lt_succ_self _)

theorem length_digits {s v rest : Bytes} (h : digits s = some (v, rest)) :
    rest.length < s.length := by
  unfold digits at h
  split at h
  · cases h
  · rename_i hne
    obtain ⟨rfl, rfl⟩ := Prod.mk.inj (Option.some.inj h)
    have hlength := congrArg List.length (List.takeWhile_append_dropWhile (p := isDigit) (l := s))
    have hpos : 0 < (s.takeWhile isDigit).length := by
      simpa [List.length_pos_iff, List.isEmpty_iff] using hne
    rw [List.length_append] at hlength
    omega

theorem length_integer {s v rest : Bytes} (h : integer s = some (v, rest)) :
    rest.length < s.length := by
  cases s with
  | nil => cases h
  | cons c cs =>
      simp only [integer] at h
      split at h
      · obtain ⟨_, rfl⟩ := Prod.mk.inj (Option.some.inj h)
        exact Nat.lt_succ_self _
      · exact length_digits h

theorem length_fraction {s v rest : Bytes} (h : fraction s = some (v, rest)) :
    rest.length ≤ s.length := by
  cases s with
  | nil =>
      obtain ⟨_, rfl⟩ := Prod.mk.inj (Option.some.inj h)
      exact le_rfl
  | cons c cs =>
      simp only [fraction] at h
      split at h
      · exact (length_of_map_prepend h length_digits).le.trans (Nat.le_succ _)
      · obtain ⟨_, rfl⟩ := Prod.mk.inj (Option.some.inj h)
        exact le_rfl

theorem length_exponent {s v rest : Bytes} (h : exponent s = some (v, rest)) :
    rest.length ≤ s.length := by
  cases s with
  | nil =>
      obtain ⟨_, rfl⟩ := Prod.mk.inj (Option.some.inj h)
      exact le_rfl
  | cons c cs =>
      simp only [exponent] at h
      split at h
      · cases cs with
        | nil => cases h
        | cons sign cs =>
            simp only at h
            split at h
            · have := length_of_map_prepend h length_digits
              simp only [List.length_cons]
              omega
            · have := length_of_map_prepend h length_digits
              simp only [List.length_cons] at *
              omega
      · obtain ⟨_, rfl⟩ := Prod.mk.inj (Option.some.inj h)
        exact le_rfl

theorem length_number {s v rest : Bytes} (h : number s = some (v, rest)) :
    rest.length < s.length := by
  unfold number at h
  obtain ⟨⟨whole, s₁⟩, h₁, h⟩ := Option.bind_eq_some_iff.mp h
  obtain ⟨⟨part, s₂⟩, h₂, h⟩ := Option.bind_eq_some_iff.mp h
  obtain ⟨⟨power, s₃⟩, h₃, h⟩ := Option.bind_eq_some_iff.mp h
  obtain ⟨_, rfl⟩ := Prod.mk.inj (Option.some.inj h)
  have hwhole := length_integer h₁
  have hpart := length_fraction h₂
  have hpower := length_exponent h₃
  rw [List.length_drop] at hwhole
  omega

theorem length_literal {c : UInt8} {rest rest' : Bytes} {t : Token}
    (h : literal (c :: rest) = some (t, rest')) : rest'.length ≤ rest.length := by
  unfold literal at h
  repeat' split at h
  all_goals first
    | cases h
      done
    | (obtain ⟨_, rfl⟩ := Prod.mk.inj (Option.some.inj h)
       simp only [List.length_drop, List.length_cons]
       omega)

/-- A token takes at least the byte it starts with. -/
theorem length_nextToken {c : UInt8} {rest rest' : Bytes} {t : Token}
    (h : nextToken c rest = some (t, rest')) : rest'.length ≤ rest.length := by
  unfold nextToken at h
  split at h
  · obtain ⟨_, rfl⟩ := Prod.mk.inj (Option.some.inj h)
    exact le_rfl
  · split at h
    · obtain ⟨⟨v, r⟩, hstring, heq⟩ := Option.map_eq_some_iff.mp h
      obtain ⟨_, rfl⟩ := Prod.mk.inj heq
      exact (length_string hstring).le
    · split at h
      · obtain ⟨⟨v, r⟩, hnumber, heq⟩ := Option.map_eq_some_iff.mp h
        obtain ⟨_, rfl⟩ := Prod.mk.inj heq
        exact Nat.le_of_lt_succ (length_number hnumber)
      · exact length_literal h

theorem tokensLoop_of_le {fuel fuel' : ℕ} {s : Bytes} (h : s.length ≤ fuel)
    (h' : s.length ≤ fuel') : tokensLoop fuel s = tokensLoop fuel' s := by
  induction fuel generalizing fuel' s with
  | zero =>
      obtain rfl : s = [] := List.length_eq_zero_iff.mp (Nat.le_zero.mp h)
      cases fuel' <;> rfl
  | succ fuel ih =>
      cases s with
      | nil => cases fuel' <;> rfl
      | cons c rest =>
          cases fuel' with
          | zero => simp at h'
          | succ fuel' =>
              simp only [List.length_cons, Nat.add_le_add_iff_right] at h h'
              simp only [tokensLoop]
              rw [ih h h']
              split
              · rfl
              · split
                · rfl
                · rename_i t rest' hnext
                  have hle := length_nextToken hnext
                  rw [ih (hle.trans h) (hle.trans h')]

@[simp] theorem tokens_nil : tokens [] = some [] := rfl

/-- The tokens of a text, without fuel. -/
theorem tokens_cons (c : UInt8) (rest : Bytes) :
    tokens (c :: rest) =
      if isBlank c then tokens rest
      else
        match nextToken c rest with
        | none => none
        | some (t, rest) => (tokens rest).map (t :: ·) := by
  simp only [tokens, List.length_cons, tokensLoop]
  split
  · rfl
  · split
    · rfl
    · rename_i t rest' hnext
      rw [tokensLoop_of_le (length_nextToken hnext) le_rfl]

end Json
