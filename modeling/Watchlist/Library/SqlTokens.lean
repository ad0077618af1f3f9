import Watchlist.Library.Bytes

/-!
The tokens of an SQL text. Two texts with the same tokens are the same statement
to SQLite: blanks only separate, words are read in either case, and a quoted
name is the word it encloses. A string literal is the exact bytes between its
quotes, and a number is not the name with the same spelling.

The lexer is a machine that takes one byte at a time, so that the tokens of a
text with a known start are known up to the state that the start leaves.
-/

namespace SqlTokens

open Bytes

inductive Token
  | word (w : Bytes)
  | number (w : Bytes)
  | string (s : Bytes)
  | symbol (c : UInt8)
  deriving DecidableEq

/-- What the bytes read so far leave open. -/
inductive State
  | blank
  | word (read : Bytes)
  | quoted (close : UInt8) (read : Bytes)
  | quotedEnd (close : UInt8) (read : Bytes)
  | string (read : Bytes)
  | stringEnd (read : Bytes)
  deriving DecidableEq

def isWordByte (c : UInt8) : Bool := isAlnum c || c == 95 || c == 46 || c == 36 || 128 ≤ c

/-- An unquoted word; a leading digit makes it a number. -/
def wordToken (w : Bytes) : Token :=
  if w.head?.any isDigit then .number (w.map toLower) else .word (w.map toLower)

/-- The token that the end of the text, or any byte not part of it, completes. -/
def finish : State → List Token
  | .blank => []
  | .word read => [wordToken read]
  | .quoted _ read | .quotedEnd _ read => [.word (read.map toLower)]
  | .string read | .stringEnd read => [.string read]

/-- A byte that starts anew. -/
def start (c : UInt8) : List Token × State :=
  if isSpace c then ([], .blank)
  else if c = 39 then ([], .string [])
  else if c = 34 || c = 96 then ([], .quoted c [])
  else if c = 91 then ([], .quoted 93 [])
  else if isWordByte c then ([], .word [c])
  else ([.symbol c], .blank)

/-- A byte after a complete token. -/
def restart (st : State) (c : UInt8) : List Token × State :=
  (finish st ++ (start c).1, (start c).2)

def step : State → UInt8 → List Token × State
  | .blank, c => start c
  | .word read, c =>
      if isWordByte c then ([], .word (read ++ [c])) else restart (.word read) c
  | .quoted close read, c =>
      if c = close then ([], .quotedEnd close read) else ([], .quoted close (read ++ [c]))
  | .quotedEnd close read, c =>
      if c = close && c != 93 then ([], .quoted close (read ++ [c]))
      else restart (.quotedEnd close read) c
  | .string read, c => if c = 39 then ([], .stringEnd read) else ([], .string (read ++ [c]))
  | .stringEnd read, c =>
      if c = 39 then ([], .string (read ++ [c])) else restart (.stringEnd read) c

/-- The tokens completed while reading, and the state afterwards. -/
def read : State → Bytes → List Token × State
  | st, [] => ([], st)
  | st, c :: cs => ((step st c).1 ++ (read (step st c).2 cs).1, (read (step st c).2 cs).2)

def lexFrom (st : State) (s : Bytes) : List Token := (read st s).1 ++ finish (read st s).2

def tokens (s : Bytes) : List Token := lexFrom .blank s

theorem read_append (st : State) (a b : Bytes) :
    read st (a ++ b) = ((read st a).1 ++ (read (read st a).2 b).1, (read (read st a).2 b).2) := by
  induction a generalizing st with
  | nil => rfl
  | cons c a ih => simp [read, ih]

/-- The tokens of a text go on from what its start has read. -/
theorem lexFrom_append (st : State) (a b : Bytes) :
    lexFrom st (a ++ b) = (read st a).1 ++ lexFrom (read st a).2 b := by
  simp [lexFrom, read_append]

/-- Starts that are read alike can be exchanged. -/
theorem tokens_append_congr {a a' : Bytes} (h : read .blank a = read .blank a') (b : Bytes) :
    tokens (a ++ b) = tokens (a' ++ b) := by
  simp [tokens, lexFrom_append, h]

end SqlTokens
