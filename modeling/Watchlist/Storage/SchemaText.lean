import Watchlist.Storage.Initialize

/-!
What `ValidateExactCreateSql` compares. The tokens of a text leave their pieces in
what `NormalizeSql` makes of it, one after the other, but nothing there says where
a piece ends, and the blanks, quotes, brackets, semicolons and capitals of a
string literal are gone. Two texts that agree on these and on the normalized text
have the same tokens.
-/

namespace Watchlist.Storage

open Bytes Sqlite Faulty Faulty.Program SqlTokens

/-- The tokens of the statement in a text; a semicolon at the end is not part of it. -/
def statement (sql : Bytes) : List Token :=
  if (tokens sql).getLast? = some (.symbol 59) then (tokens sql).dropLast else tokens sql

/-- What can be seen of a token beside the characters that `NormalizeSql` keeps. -/
inductive Outline
  | word (length : ℕ)
  | number (length : ℕ)
  | symbol
  /-- a string literal, or a token with a character that is dropped -/
  | exact (token : Token)
  deriving DecidableEq

def outline : Token → Outline
  | .word w => if w.all isKeptSql then .word w.length else .exact (.word w)
  | .number w => if w.all isKeptSql then .number w.length else .exact (.number w)
  | .string s => .exact (.string s)
  | .symbol c => if isKeptSql c then .symbol else .exact (.symbol c)

/-! ### The pieces of the tokens -/

/-- A string literal as it is written, with its quotes doubled. -/
def doubled (s : Bytes) : Bytes := s.flatMap fun c => if c = 39 then [39, 39] else [c]

/-- What a token leaves in the normalized text. -/
def piece : Token → Bytes
  | .word w | .number w => normalizeSql w
  | .string s => 39 :: normalizeSql (doubled s) ++ [39]
  | .symbol c => normalizeSql [c]

/-- What the bytes of a token that is still being read have left. -/
def openPiece : State → Bytes
  | .blank => []
  | .word w | .quoted _ w | .quotedEnd _ w => normalizeSql w
  | .string s => 39 :: normalizeSql (doubled s)
  | .stringEnd s => 39 :: normalizeSql (doubled s) ++ [39]

/-- A name is closed by a character that is dropped. -/
def DropsQuotes : State → Prop
  | .quoted close _ | .quotedEnd close _ => isKeptSql close = false
  | _ => True

theorem isKeptSql_toLower (c : UInt8) : isKeptSql (toLower c) = isKeptSql c := by
  unfold toLower
  split
  · rename_i hupper
    have hrange : 65 ≤ c.toNat ∧ c.toNat ≤ 90 := by
      simpa [isUpper, UInt8.le_iff_toNat_le] using hupper
    have hall : ∀ n, n ≤ 90 → 65 ≤ n →
        isKeptSql (UInt8.ofNat n + 32) = isKeptSql (UInt8.ofNat n) := by decide
    have hc := hall c.toNat hrange.2 hrange.1
    rwa [UInt8.ofNat_toNat] at hc
  · rfl

theorem toLower_toLower (c : UInt8) : toLower (toLower c) = toLower c := by
  unfold toLower
  split
  · rename_i hupper
    have hrange : 65 ≤ c.toNat ∧ c.toNat ≤ 90 := by
      simpa [isUpper, UInt8.le_iff_toNat_le] using hupper
    have hall : ∀ n, n ≤ 90 → 65 ≤ n → isUpper (UInt8.ofNat n + 32) = false := by decide
    have hc := hall c.toNat hrange.2 hrange.1
    rw [UInt8.ofNat_toNat] at hc
    rw [hc]
    rfl
  · rfl

theorem normalizeSql_map_toLower (s : Bytes) : normalizeSql (s.map toLower) = normalizeSql s := by
  have hkept : isKeptSql ∘ toLower = isKeptSql := funext isKeptSql_toLower
  have hlower : toLower ∘ toLower = toLower := funext toLower_toLower
  rw [normalizeSql, List.filter_map, List.map_map, hkept, hlower, normalizeSql]

theorem normalizeSql_dropped {c : UInt8} (h : isKeptSql c = false) : normalizeSql [c] = [] := by
  simp [normalizeSql, h]

@[simp] theorem piece_wordToken (w : Bytes) : piece (wordToken w) = normalizeSql w := by
  unfold wordToken
  split <;> exact normalizeSql_map_toLower w

@[simp] theorem doubled_append (a b : Bytes) : doubled (a ++ b) = doubled a ++ doubled b :=
  List.flatMap_append

/-- A byte that starts anew leaves its own piece. -/
theorem piece_start (c : UInt8) :
    normalizeSql [c] = (start c).1.flatMap piece ++ openPiece (start c).2 ∧
      DropsQuotes (start c).2 := by
  unfold start
  split
  · rename_i hspace
    have hdropped : isKeptSql c = false := by simp [isKeptSql, hspace]
    exact ⟨normalizeSql_dropped hdropped, trivial⟩
  · split
    · rename_i hquote
      subst hquote
      exact ⟨by decide, trivial⟩
    · split
      · rename_i hquote
        have hdropped : isKeptSql c = false := by
          have hc : c = 34 ∨ c = 96 := by simpa using hquote
          rcases hc with rfl | rfl <;> decide
        exact ⟨normalizeSql_dropped hdropped, hdropped⟩
      · split
        · rename_i hbracket
          subst hbracket
          have hdropped : isKeptSql 93 = false := by decide
          exact ⟨by decide, hdropped⟩
        · split
          · exact ⟨rfl, trivial⟩
          · refine ⟨?_, trivial⟩
            simp [piece, openPiece]

/-- A complete token that a byte ends. -/
theorem piece_restart {st : State} (h : (finish st).flatMap piece = openPiece st) (c : UInt8) :
    openPiece st ++ normalizeSql [c] =
        (restart st c).1.flatMap piece ++ openPiece (restart st c).2 ∧
      DropsQuotes (restart st c).2 := by
  obtain ⟨hstart, hquotes⟩ := piece_start c
  refine ⟨?_, hquotes⟩
  rw [restart, List.flatMap_append, h, hstart, List.append_assoc]

theorem piece_step {st : State} (hst : DropsQuotes st) (c : UInt8) :
    openPiece st ++ normalizeSql [c] = (step st c).1.flatMap piece ++ openPiece (step st c).2 ∧
      DropsQuotes (step st c).2 := by
  cases st with
  | blank => exact piece_start c
  | word w =>
      rw [step]
      split
      · exact ⟨(normalizeSql_append w [c]).symm, trivial⟩
      · apply piece_restart
        simp [finish, piece_wordToken, openPiece]
  | quoted close w =>
      rw [step]
      split
      · rename_i hclose
        subst hclose
        refine ⟨?_, hst⟩
        rw [normalizeSql_dropped hst]
        simp [openPiece]
      · exact ⟨(normalizeSql_append w [c]).symm, hst⟩
  | quotedEnd close w =>
      rw [step]
      split
      · exact ⟨(normalizeSql_append w [c]).symm, hst⟩
      · apply piece_restart
        simp [finish, piece, openPiece, normalizeSql_map_toLower]
  | string s =>
      rw [step]
      split
      · rename_i hclose
        subst hclose
        have hquote : normalizeSql [39] = [39] := by decide
        refine ⟨?_, trivial⟩
        simp [openPiece, hquote]
      · rename_i hother
        refine ⟨?_, trivial⟩
        have hdoubled : doubled (s ++ [c]) = doubled s ++ [c] := by
          rw [doubled_append]
          simp [doubled, hother]
        simp [openPiece, hdoubled, normalizeSql_append]
  | stringEnd s =>
      rw [step]
      split
      · rename_i hclose
        subst hclose
        refine ⟨?_, trivial⟩
        have hdoubled : doubled (s ++ [39]) = doubled s ++ [39, 39] := by
          rw [doubled_append]
          rfl
        have hquotes : normalizeSql [39, 39] = [39, 39] := by decide
        have hquote : normalizeSql [39] = [39] := by decide
        simp [openPiece, hdoubled, normalizeSql_append, hquotes, hquote]
      · apply piece_restart
        simp [finish, piece, openPiece]

/-- The normalized text is made of the pieces; a string literal that the text leaves open
lacks its quote. -/
theorem flatMap_piece_lexFrom {st : State} (hst : DropsQuotes st) (s : Bytes) :
    ∃ tail, (tail = [] ∨ tail = [39]) ∧
      openPiece st ++ normalizeSql s ++ tail = (lexFrom st s).flatMap piece := by
  induction s generalizing st with
  | nil =>
      have hnil : normalizeSql [] = [] := rfl
      rw [hnil, List.append_nil]
      cases st with
      | blank => exact ⟨[], .inl rfl, rfl⟩
      | word w =>
          refine ⟨[], .inl rfl, ?_⟩
          simp [lexFrom, SqlTokens.read, finish, piece_wordToken, openPiece]
      | quoted close w =>
          refine ⟨[], .inl rfl, ?_⟩
          simp [lexFrom, SqlTokens.read, finish, piece, openPiece, normalizeSql_map_toLower]
      | quotedEnd close w =>
          refine ⟨[], .inl rfl, ?_⟩
          simp [lexFrom, SqlTokens.read, finish, piece, openPiece, normalizeSql_map_toLower]
      | string s =>
          refine ⟨[39], .inr rfl, ?_⟩
          simp [lexFrom, SqlTokens.read, finish, piece, openPiece]
      | stringEnd s =>
          refine ⟨[], .inl rfl, ?_⟩
          simp [lexFrom, SqlTokens.read, finish, piece, openPiece]
  | cons c s ih =>
      obtain ⟨hpiece, hquotes⟩ := piece_step hst c
      obtain ⟨tail, htail, hrest⟩ := ih hquotes
      refine ⟨tail, htail, ?_⟩
      have hlex : lexFrom st (c :: s) = (step st c).1 ++ lexFrom (step st c).2 s := by
        simp [lexFrom, SqlTokens.read]
      have hsplit : normalizeSql (c :: s) = normalizeSql [c] ++ normalizeSql s :=
        normalizeSql_append [c] s
      rw [hlex, List.flatMap_append, ← hrest, hsplit, ← List.append_assoc, hpiece]
      simp only [List.append_assoc]

theorem flatMap_piece_tokens (sql : Bytes) :
    ∃ tail, (tail = [] ∨ tail = [39]) ∧ normalizeSql sql ++ tail = (tokens sql).flatMap piece :=
  flatMap_piece_lexFrom (show DropsQuotes .blank from trivial) sql

theorem flatMap_piece_statement (sql : Bytes) :
    ∃ tail, (tail = [] ∨ tail = [39]) ∧
      normalizeSql sql ++ tail = (statement sql).flatMap piece := by
  obtain ⟨tail, htail, hpieces⟩ := flatMap_piece_tokens sql
  refine ⟨tail, htail, ?_⟩
  rw [hpieces]
  unfold statement
  split
  · rename_i hlast
    have hsemicolon : piece (.symbol 59) = [] := by decide
    obtain ⟨init, hinit⟩ := List.getLast?_eq_some_iff.mp hlast
    rw [hinit, List.dropLast_concat, List.flatMap_append]
    simp [hsemicolon]
  · rfl

/-! ### Outlines -/

/-- The number of bytes that a token leaves in the normalized text. -/
def Outline.size : Outline → ℕ
  | .word length | .number length => length
  | .symbol => 1
  | .exact token => (piece token).length

theorem length_normalizeSql {w : Bytes} (h : w.all isKeptSql) :
    (normalizeSql w).length = w.length := by
  have hkept : w.filter isKeptSql = w := List.filter_eq_self.mpr (List.all_eq_true.mp h)
  rw [normalizeSql, hkept, List.length_map]

theorem length_piece (token : Token) : (piece token).length = (outline token).size := by
  cases token with
  | word w =>
      rw [outline]
      split
      · exact length_normalizeSql ‹_›
      · rfl
  | number w =>
      rw [outline]
      split
      · exact length_normalizeSql ‹_›
      · rfl
  | string s => rfl
  | symbol c =>
      rw [outline]
      split
      · rename_i hkept
        simp [piece, normalizeSql, hkept, Outline.size]
      · rfl

/-- A token as the lexer makes it: nothing in it but a string literal is in capitals. -/
def Folded : Token → Prop
  | .word w | .number w => w.map toLower = w
  | .string _ => True
  | .symbol c => toLower c = c

@[simp] theorem folded_map_toLower (w : Bytes) : (w.map toLower).map toLower = w.map toLower := by
  rw [List.map_map]
  exact List.map_congr_left fun c _ => toLower_toLower c

theorem folded_of_mem_finish {st : State} {token : Token} (h : token ∈ finish st) :
    Folded token := by
  cases st with
  | blank => cases h
  | word w =>
      obtain rfl := List.mem_singleton.mp h
      unfold wordToken
      split <;> exact folded_map_toLower w
  | quoted close w =>
      obtain rfl := List.mem_singleton.mp h
      exact folded_map_toLower w
  | quotedEnd close w =>
      obtain rfl := List.mem_singleton.mp h
      exact folded_map_toLower w
  | string s =>
      obtain rfl := List.mem_singleton.mp h
      trivial
  | stringEnd s =>
      obtain rfl := List.mem_singleton.mp h
      trivial

theorem toLower_of_not_isWordByte {c : UInt8} (h : ¬isWordByte c) : toLower c = c := by
  have hupper : isUpper c = false := by
    by_contra hc
    have hcapital : isUpper c = true := by simpa using hc
    apply h
    simp [isWordByte, isAlnum, hcapital]
  rw [toLower, hupper]
  rfl

theorem folded_of_mem_start {c : UInt8} {token : Token} (h : token ∈ (start c).1) :
    Folded token := by
  unfold start at h
  split at h
  · cases h
  · split at h
    · cases h
    · split at h
      · cases h
      · split at h
        · cases h
        · split at h
          · cases h
          · obtain rfl := List.mem_singleton.mp h
            exact toLower_of_not_isWordByte ‹_›

theorem folded_of_mem_step {st : State} {c : UInt8} {token : Token} (h : token ∈ (step st c).1) :
    Folded token := by
  have hrestart : ∀ {st : State}, token ∈ (restart st c).1 → Folded token := by
    intro st h
    rcases List.mem_append.mp h with h | h
    · exact folded_of_mem_finish h
    · exact folded_of_mem_start h
  cases st with
  | blank => exact folded_of_mem_start h
  | quoted close w =>
      rw [step] at h
      split at h <;> cases h
  | string s =>
      rw [step] at h
      split at h <;> cases h
  | word w | quotedEnd close w | stringEnd s =>
      rw [step] at h
      split at h
      · cases h
      · exact hrestart h

theorem folded_of_mem_lexFrom {st : State} {s : Bytes} {token : Token}
    (h : token ∈ lexFrom st s) : Folded token := by
  induction s generalizing st with
  | nil => exact folded_of_mem_finish h
  | cons c s ih =>
      have hlex : lexFrom st (c :: s) = (step st c).1 ++ lexFrom (step st c).2 s := by
        simp [lexFrom, SqlTokens.read]
      rw [hlex] at h
      rcases List.mem_append.mp h with h | h
      · exact folded_of_mem_step h
      · exact ih h

theorem folded_of_mem_statement {sql : Bytes} {token : Token} (h : token ∈ statement sql) :
    Folded token := by
  unfold statement at h
  split at h
  · exact folded_of_mem_lexFrom (List.mem_of_mem_dropLast h)
  · exact folded_of_mem_lexFrom h

/-- The token with a given outline that leaves a given piece. -/
def rebuild (piece : Bytes) : Outline → Token
  | .word _ => .word piece
  | .number _ => .number piece
  | .symbol => .symbol (piece.headD 0)
  | .exact token => token

theorem normalizeSql_of_folded {w : Bytes} (h : w.map toLower = w) (hkept : w.all isKeptSql) :
    normalizeSql w = w := by
  rw [normalizeSql, List.filter_eq_self.mpr (List.all_eq_true.mp hkept), h]

theorem rebuild_outline {token : Token} (h : Folded token) :
    rebuild (piece token) (outline token) = token := by
  cases token with
  | word w =>
      rw [outline]
      split
      · exact congrArg Token.word (normalizeSql_of_folded h ‹_›)
      · rfl
  | number w =>
      rw [outline]
      split
      · exact congrArg Token.number (normalizeSql_of_folded h ‹_›)
      · rfl
  | string s => rfl
  | symbol c =>
      have hlower : toLower c = c := h
      rw [outline]
      split
      · rename_i hkept
        simp [rebuild, piece, normalizeSql, hkept, hlower]
      · rfl

theorem eq_of_outlines {as bs : List Token} (ha : ∀ token ∈ as, Folded token)
    (hb : ∀ token ∈ bs, Folded token) (houtline : as.map outline = bs.map outline)
    (hpieces : as.flatMap piece = bs.flatMap piece) : as = bs := by
  induction as generalizing bs with
  | nil => exact (List.map_eq_nil_iff.mp houtline.symm).symm
  | cons a as ih =>
      cases bs with
      | nil => cases houtline
      | cons b bs =>
          obtain ⟨ha₁, ha₂⟩ := List.forall_mem_cons.mp ha
          obtain ⟨hb₁, hb₂⟩ := List.forall_mem_cons.mp hb
          obtain ⟨hhead, htail⟩ := List.cons.inj houtline
          have hlength : (piece a).length = (piece b).length := by
            rw [length_piece, length_piece, hhead]
          -- the outlines say where the first piece ends
          obtain ⟨hpiece, hrest⟩ := List.append_inj hpieces hlength
          have hab : a = b := by
            rw [← rebuild_outline ha₁, ← rebuild_outline hb₁, hpiece, hhead]
          rw [hab, ih ha₂ hb₂ htail hrest]

theorem length_flatMap_piece (ts : List Token) :
    (ts.flatMap piece).length = ((ts.map outline).map Outline.size).sum := by
  simp [List.length_flatMap, length_piece, Function.comp_def]

/-- What `NormalizeSql` loses of tokens is in their outlines. -/
theorem eq_of_kept {as bs : List Token} {kept tailA tailB : Bytes}
    (ha : ∀ token ∈ as, Folded token) (hb : ∀ token ∈ bs, Folded token)
    (htailA : tailA = [] ∨ tailA = [39]) (htailB : tailB = [] ∨ tailB = [39])
    (hpiecesA : kept ++ tailA = as.flatMap piece) (hpiecesB : kept ++ tailB = bs.flatMap piece)
    (houtline : as.map outline = bs.map outline) : as = bs := by
  have hlength : tailA.length = tailB.length := by
    have h : (kept ++ tailA).length = (kept ++ tailB).length := by
      rw [hpiecesA, hpiecesB, length_flatMap_piece, length_flatMap_piece, houtline]
    simpa using h
  have htail : tailA = tailB := by
    rcases htailA with rfl | rfl <;> rcases htailB with rfl | rfl <;> simp_all
  apply eq_of_outlines ha hb houtline
  rw [← hpiecesA, ← hpiecesB, htail]

section
variable {a b : Bytes}

theorem tokens_eq_of_outlines (hsame : normalizeSql a = normalizeSql b)
    (houtline : (tokens a).map outline = (tokens b).map outline) : tokens a = tokens b := by
  obtain ⟨tailA, htailA, hpiecesA⟩ := flatMap_piece_tokens a
  obtain ⟨tailB, htailB, hpiecesB⟩ := flatMap_piece_tokens b
  rw [hsame] at hpiecesA
  exact eq_of_kept (fun _ => folded_of_mem_lexFrom) (fun _ => folded_of_mem_lexFrom)
    htailA htailB hpiecesA hpiecesB houtline

theorem statement_eq_of_outlines (hsame : normalizeSql a = normalizeSql b)
    (houtline : (statement a).map outline = (statement b).map outline) :
    statement a = statement b := by
  obtain ⟨tailA, htailA, hpiecesA⟩ := flatMap_piece_statement a
  obtain ⟨tailB, htailB, hpiecesB⟩ := flatMap_piece_statement b
  rw [hsame] at hpiecesA
  exact eq_of_kept (fun _ => folded_of_mem_statement) (fun _ => folded_of_mem_statement)
    htailA htailB hpiecesA hpiecesB houtline

end

/-! ### Two texts that are accepted for the v1 text -/

/-- The v1 text with its start in other letters and blanks, and the name quoted. -/
def quotedItemsSql : Bytes := ascii "create table\n\"ITEMS\"(" ++ v1ItemsBody

def quotedFile : Database :=
  ⟨1, [Database.sequenceTable, v1Table itemsName quotedItemsSql], []⟩

/-- The v1 text with the type name of its first check in capitals. No value has
such a type, so the table it defines takes no row. -/
def shoutedItemsSql : Bytes := replaceFirst (ascii "'text'") (ascii "'TEXT'") createV1ItemsSql

def shoutedFile : Database where
  userVersion := 1
  tables := [Database.sequenceTable,
    { v1Table itemsName shoutedItemsSql with
      checks := .typeof deviceIdName (ascii "TEXT") :: v1Checks.tail }]
  others := []

theorem normalizeSql_shouted : normalizeSql shoutedItemsSql = normalizeSql createV1ItemsSql := by
  decide +kernel

theorem statement_shouted_ne : statement shoutedItemsSql ≠ statement createV1ItemsSql := by
  decide +kernel

/-! ### What the validation accepts -/

namespace SQLiteDatabase

variable {db : Database} {t : Table} {sql : Bytes}

theorem validateExactCreateSql_eq_ok {expected schemaName : Bytes} {w w' : World Database}
    {u : Unit} (h : validateExactCreateSql expected schemaName w = (.ok u, w')) :
    ∃ sql, (w.state.findTable itemsName).bind Table.sql = some sql ∧
      normalizeSql sql = normalizeSql expected := by
  obtain ⟨sql, w₁, hread, hsame⟩ := bind_eq_ok.mp h
  exact ⟨sql, readCreateSql_eq_ok hread, (require_eq_ok.mp hsame).1⟩

/-- The validation accepts a text with other tokens than the expected one just where
`NormalizeSql` makes the same text of both although the outlines of their tokens differ. -/
theorem validateExactCreateSql_tokens_iff (ht : db.findTable itemsName = some t)
    (hsql : t.sql = some sql) (expected schemaName : Bytes) :
    (∀ faults w, validateExactCreateSql expected schemaName ⟨db, faults⟩ = (.ok (), w) →
        statement sql = statement expected) ↔
      (normalizeSql sql = normalizeSql expected →
        (statement sql).map outline = (statement expected).map outline) := by
  constructor
  · intro haccepts hsame
    have hreturns : (validateExactCreateSql expected schemaName).Returns db () db :=
      (returns_readCreateSql ht hsql).bind (returns_require hsame _ db)
    rw [haccepts [] _ hreturns]
  · intro houtline faults w h
    obtain ⟨sql', hsql', hsame⟩ := validateExactCreateSql_eq_ok h
    have hsql'' : sql = sql' := by
      rw [ht, Option.bind_some, hsql] at hsql'
      exact Option.some.inj hsql'
    rw [← hsql''] at hsame
    exact statement_eq_of_outlines hsame (houtline hsame)

theorem validateExactCreateSql_tokens_iff_fresh :
    quotedItemsSql ≠ createV1ItemsSql ∧
      normalizeSql quotedItemsSql = normalizeSql createV1ItemsSql ∧
      ((∀ faults w, validateExactCreateSql createV1ItemsSql (ascii "schema v1")
          ⟨quotedFile, faults⟩ = (.ok (), w) →
        statement quotedItemsSql = statement createV1ItemsSql) ↔
      (normalizeSql quotedItemsSql = normalizeSql createV1ItemsSql →
        (statement quotedItemsSql).map outline = (statement createV1ItemsSql).map outline)) :=
  ⟨by decide +kernel, by decide +kernel,
    validateExactCreateSql_tokens_iff (t := v1Table itemsName quotedItemsSql) rfl rfl
      createV1ItemsSql (ascii "schema v1")⟩

/-- The text that asks for a type name in capitals is accepted for the v1 text. -/
theorem validateExactCreateSql_accepts_shouted :
    ¬∀ db t sql expected schemaName faults w, db.findTable itemsName = some t →
      t.sql = some sql →
      validateExactCreateSql expected schemaName ⟨db, faults⟩ = (.ok (), w) →
      statement sql = statement expected := by
  intro hclaim
  have hread : (readCreateSql itemsName).Returns shoutedFile shoutedItemsSql shoutedFile := rfl
  have haccepts : (validateExactCreateSql createV1ItemsSql (ascii "schema v1")).Returns
      shoutedFile () shoutedFile :=
    hread.bind (returns_require normalizeSql_shouted _ shoutedFile)
  exact statement_shouted_ne (hclaim shoutedFile _ shoutedItemsSql _ _ [] _ rfl rfl haccepts)

end SQLiteDatabase

end Watchlist.Storage
