import Watchlist.Library.Bytes
import Watchlist.Library.Transition

/-!
`Logger.cpp`, and the reader of `ApplicationLogWindow.cpp`. Every function of the
logger takes the mutex once, so what any number of threads do to it is a list of
such sections, in the order in which they get the mutex.

The clock and the text of a time point are given from outside. A record is lost
when it cannot be formatted or stored; storing is the last of these that can
fail. Fatal records, after which the process ends, are left out.
-/

namespace Watchlist.Logger

open Bytes Transition

inductive LogLevel
  | info
  | warning
  | error
  | debug
  | trace
  deriving DecidableEq

def LogLevel.toChar : LogLevel → UInt8
  | .info => 73
  | .warning => 87
  | .error => 69
  | .debug => 68
  | .trace => 84

structure LogEntry where
  sequence : ℕ
  level : LogLevel
  timestamp : ℤ
  source : Bytes
  message : Bytes
  deriving DecidableEq

def maxLogEntries : ℕ := 10000

/-- The fields of `State()`; a sequence number has 64 bits. -/
structure LoggerState where
  entries : List LogEntry
  nextSequence : ℕ
  output : Bytes

/-- The arguments of `EmitRecord`, and what it reads off the clock. -/
structure Record where
  level : LogLevel
  message : Bytes
  fileName : Bytes
  line : ℕ
  timestamp : ℤ

/-- What stands behind the last separator of a path. -/
def filename (path : Bytes) : Bytes := path.rtakeWhile fun c => c ≠ 47 && c ≠ 92

def Record.source (record : Record) : Bytes :=
  filename record.fileName ++ ascii ":" ++ ofNat record.line

def Record.entry (record : Record) (sequence : ℕ) : LogEntry where
  sequence := sequence
  level := record.level
  timestamp := record.timestamp
  source := record.source
  message := record.message

section
variable (timeText : ℤ → Bytes)

def Record.text (record : Record) : Bytes :=
  ascii "[" ++ [record.level.toChar] ++ ascii "] " ++ timeText record.timestamp ++ ascii " | " ++
    record.source ++ ascii " | " ++ record.message ++ [10]

def emitRecord (state : LoggerState) (record : Record) : LoggerState :=
  let entries := state.entries ++ [record.entry state.nextSequence]
  { entries := if maxLogEntries < entries.length then entries.tail else entries
    nextSequence := (state.nextSequence + 1) % 2 ^ 64
    output := state.output ++ record.text timeText }

def emitFormattingFailure (state : LoggerState) : LoggerState :=
  { state with output := state.output ++ ascii "[E] logger failed to format record" ++ [10] }

def getLogEntriesSince (state : LoggerState) (sequence : ℕ) : List LogEntry :=
  state.entries.filter fun entry => sequence < entry.sequence

def clearLogEntries (state : LoggerState) : LoggerState := { state with entries := [] }

/-! ### The reader -/

/-- The logger and `lastSequence` of its reader, with a history that no section reads. -/
structure Reading where
  logger : LoggerState
  lastSequence : ℕ
  /-- the results of the reader, one after the other -/
  received : List LogEntry
  /-- every record that was stored -/
  stored : List LogEntry

def Reading.initial : Reading where
  logger := ⟨[], 1, []⟩
  lastSequence := 0
  received := []
  stored := []

/-- What some thread does while it has the mutex. -/
inductive Section
  | emit (record : Record)
  | formattingFailure
  | clear
  /-- the reader gets the entries since its last one -/
  | poll

def Reading.poll (s : Reading) : Reading :=
  let newEntries := getLogEntriesSince s.logger s.lastSequence
  { s with
    lastSequence := (newEntries.getLast?.map LogEntry.sequence).getD s.lastSequence
    received := s.received ++ newEntries }

def Reading.enter (s : Reading) : Section → Reading
  | .emit record =>
      { s with
        logger := emitRecord timeText s.logger record
        stored := s.stored ++ [record.entry s.logger.nextSequence] }
  | .formattingFailure => { s with logger := emitFormattingFailure s.logger }
  | .clear => { s with logger := clearLogEntries s.logger }
  | .poll => s.poll

def machine : Machine Reading Section := ⟨fun s l => some (s.enter timeText l)⟩

end

end Watchlist.Logger
