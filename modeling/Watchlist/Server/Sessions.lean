import Watchlist.Dispatch.StoredValues
import Watchlist.Service.CommandLog
import Watchlist.Storage.InitializeScript

/-!
`Server::Run` as far as its file is concerned. A session has two users of the file: the
thread of `DeviceStorageService::Run`, which calls `Initialize` and then executes device
commands, and the workers of the dispatcher, which store values. A step is one statement
of either, or a step of the dispatcher that touches no file; SQLite does not fail. A
session may end anywhere, and the next one opens the same file.
-/

namespace Watchlist

open Bytes Transition Messaging Sqlite Faulty Storage KeyValueStore Gui Dispatch

/-- Where the thread of `DeviceStorageService::Run` is. -/
inductive StoragePc
  | notStarted
  | initializing (rest : SqlScript Unit)
  /-- `Initialize` has returned, and commands are executed -/
  | serving
  /-- `Initialize` has thrown -/
  | failed (error : StorageError)

structure Server (n k : ℕ) where
  storage : StoragePc
  /-- the dispatcher, and the file that both use -/
  dispatcher : StoringDispatcher n k
  session : ℕ
  /-- the device commands that returned, in order -/
  commands : List DeviceCommand
  /-- the values stored in earlier sessions, in order -/
  storedBefore : List (Bytes × Bytes)
  /-- the values that earlier sessions acknowledged with `ok` -/
  acknowledgedBefore : List (Bytes × Bytes)

namespace Server

variable {n k : ℕ}

/-- A server that has not run yet, and whose file is not there. -/
def initial (n k : ℕ) : Server n k where
  storage := .notStarted
  dispatcher := .initial n k .empty
  session := 0
  commands := []
  storedBefore := []
  acknowledgedBefore := []

def file (s : Server n k) : Database := s.dispatcher.database

def setFile (s : Server n k) (db : Database) : Server n k :=
  { s with dispatcher := { s.dispatcher with database := db } }

/-- The values stored so far, in order. -/
def stored (s : Server n k) : List (Bytes × Bytes) :=
  s.storedBefore ++ s.dispatcher.dispatcher.stored

/-- The value that a payload asks to store. -/
def storeEntry (parse : Bytes → Document) (payload : Bytes) : Option (Bytes × Bytes) :=
  match (parseRequest parse payload).request with
  | none => none
  | some request =>
      if request.type = .storeDatabaseValue then some (StoringDispatcher.entry request) else none

/-- The values that a dispatcher has acknowledged with `ok`. -/
def acknowledgedBy (parse : Bytes → Document) (payloads : Fin k → Bytes)
    (d : RequestDispatcher n k) : List (Bytes × Bytes) :=
  (d.acks.filter fun a => a.ack.status = ascii "ok").filterMap fun a =>
    storeEntry parse (payloads a.call)

/-- The values acknowledged with `ok` so far. -/
def acknowledged (parse : Bytes → Document) (payloads : ℕ → Fin k → Bytes) (s : Server n k) :
    List (Bytes × Bytes) :=
  s.acknowledgedBefore ++ acknowledgedBy parse (payloads s.session) s.dispatcher.dispatcher

/-- How `Run` goes on when this is left of `Initialize`. -/
def settle : SqlScript Unit → StoragePc
  | .ret _ => .serving
  | .throw e => .failed e
  | rest => .initializing rest

/-- The next statement of `Initialize`. -/
def query (s : Server n k) (rest : SqlScript Unit) : Server n k :=
  { s.setFile (rest.step SchemaQuery.answer ⟨s.file, []⟩).2.state with
    storage := settle (rest.step SchemaQuery.answer ⟨s.file, []⟩).1 }

/-- One device command. -/
def command (s : Server n k) (c : DeviceCommand) : Server n k :=
  match executeCommand sqliteDatabase c ⟨⟨s.file, true⟩, []⟩ with
  | (.ok _, w) => { s.setFile w.state.database with commands := s.commands ++ [c] }
  | (.error _, w) => s.setFile w.state.database

/-- The next session, on the same file. -/
def restart (parse : Bytes → Document) (payloads : ℕ → Fin k → Bytes) (s : Server n k) :
    Server n k where
  storage := .notStarted
  dispatcher := .initial n k s.file
  session := s.session + 1
  commands := s.commands
  storedBefore := s.stored
  acknowledgedBefore := s.acknowledged parse payloads

inductive Label (n k : ℕ)
  /-- `Run` calls `Initialize` -/
  | run
  | query
  | command (c : DeviceCommand)
  | dispatch (step : RequestDispatcher.Label n k) (clock : Bytes)
  | restart

def step (parse : Bytes → Document) (payloads : ℕ → Fin k → Bytes) (s : Server n k) :
    Label n k → Option (Server n k)
  | .run =>
      match s.storage with
      | .notStarted => some { s with storage := .initializing InitializeScript.initializeFile }
      | _ => none
  | .query =>
      match s.storage with
      | .initializing rest => some (s.query rest)
      | _ => none
  | .command c =>
      match s.storage with
      | .serving => some (s.command c)
      | _ => none
  | .dispatch l clock =>
      (s.dispatcher.step parse (payloads s.session) ⟨l, clock, []⟩).map fun d =>
        { s with dispatcher := d }
  | .restart => some (s.restart parse payloads)

def machine (n k : ℕ) (parse : Bytes → Document) (payloads : ℕ → Fin k → Bytes) :
    Machine (Server n k) (Label n k) :=
  ⟨step parse payloads⟩

/-- `Initialize` reads the objects of the file before the store has made its table. -/
def ObjectsReadFirst (s : Server n k) (l : Label n k) : Prop :=
  match l, s.storage with
  | .query, .initializing (.ask q _) => BeforeStore _ q s.file
  | _, _ => True

end Server

end Watchlist
