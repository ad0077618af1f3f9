import Watchlist.Library.Faulty
import Watchlist.Library.PragmaText
import Watchlist.Storage.DatabaseItem

/-!
`SQLiteDatabase.cpp`: the device storage on an SQLite file.

A method is a program on the file whose statements may each fail. What is read
row by row is one statement here, since nothing is written between two rows. The
text of a `CREATE TABLE` stands beside what it means, because the code compares
the text and SQLite enforces the meaning.
-/

namespace Watchlist.Storage

open Bytes Sqlite Faulty Faulty.Program

/-- A program on an SQLite file. -/
abbrev Sql (α : Type) := Program Database StorageError α

def interrupted : StorageError := .sqliteException .interrupted

/-- A `SELECT` or a reading `PRAGMA`. -/
def select {α : Type} (f : Database → α) : Sql α := query interrupted f

/-- A `SELECT` on a table, which must exist. -/
def selectFrom {α : Type} (table : Bytes) (f : Table → α) : Sql α :=
  statement interrupted fun db =>
    match db.findTable table with
    | none => .error (.sqliteException .noSuchTable)
    | some t => .ok (f t, db)

/-- A statement that writes. -/
def execute (f : Database → Except Failure Database) : Sql Unit :=
  command interrupted fun db => (f db).mapError .sqliteException

/-! ### The schema -/

def currentSchemaVersion : ℤ := 1

def itemsName : Bytes := ascii "items"

def itemsV1Name : Bytes := ascii "items_v1"

def deviceIdName : Bytes := ascii "device_id"

def canonicalProjection : List Bytes :=
  [deviceIdName, ascii "name", ascii "ip_address", ascii "port", ascii "alive"]

/-- What all three definitions start with. -/
def createItemsHead : Bytes := ascii "CREATE TABLE items ("

def createUnversionedItemsSql : Bytes :=
  createItemsHead ++
  ascii "id INTEGER PRIMARY KEY AUTOINCREMENT," ++
  ascii "device_id TEXT NOT NULL UNIQUE," ++
  ascii "name TEXT NOT NULL," ++
  ascii "ip_address TEXT NOT NULL," ++
  ascii "port INTEGER NOT NULL," ++
  ascii "alive INTEGER NOT NULL" ++
  ascii ")"

def createLegacyItemsSql : Bytes :=
  createItemsHead ++
  ascii "id INTEGER PRIMARY KEY AUTOINCREMENT," ++
  ascii "item_key TEXT NOT NULL UNIQUE," ++
  ascii "item_value TEXT NOT NULL" ++
  ascii ")"

/-- The definitions of the v1 columns, up to the closing parenthesis. -/
def v1ItemsBody : Bytes :=
  ascii "id INTEGER PRIMARY KEY AUTOINCREMENT," ++
  (ascii "device_id TEXT NOT NULL UNIQUE CHECK(typeof(device_id) = 'text' AND length(CAST(device_id AS BLOB)) BETWEEN 1 AND 128)," ++
  (ascii "name TEXT NOT NULL CHECK(typeof(name) = 'text' AND length(CAST(name AS BLOB)) BETWEEN 1 AND 256)," ++
  (ascii "ip_address TEXT NOT NULL CHECK(typeof(ip_address) = 'text' AND length(CAST(ip_address AS BLOB)) BETWEEN 1 AND 253)," ++
  (ascii "port INTEGER NOT NULL CHECK(typeof(port) = 'integer' AND port BETWEEN 0 AND 65535)," ++
  (ascii "alive INTEGER NOT NULL CHECK(typeof(alive) = 'integer' AND alive IN (0, 1))" ++
  ascii ")")))))

def createV1ItemsSql : Bytes := createItemsHead ++ v1ItemsBody

def deviceColumns : List Column :=
  [⟨ascii "id", ascii "INTEGER", false, 1⟩,
   ⟨deviceIdName, ascii "TEXT", true, 0⟩,
   ⟨ascii "name", ascii "TEXT", true, 0⟩,
   ⟨ascii "ip_address", ascii "TEXT", true, 0⟩,
   ⟨ascii "port", ascii "INTEGER", true, 0⟩,
   ⟨ascii "alive", ascii "INTEGER", true, 0⟩]

def legacyKeyValueColumns : List Column :=
  [⟨ascii "id", ascii "INTEGER", false, 1⟩,
   ⟨ascii "item_key", ascii "TEXT", true, 0⟩,
   ⟨ascii "item_value", ascii "TEXT", true, 0⟩]

/-- The `CHECK` constraints of `createV1ItemsSql`. -/
def v1Checks : List Check :=
  [.typeof deviceIdName (ascii "text"), .textBytes deviceIdName 1 128,
   .typeof (ascii "name") (ascii "text"), .textBytes (ascii "name") 1 256,
   .typeof (ascii "ip_address") (ascii "text"), .textBytes (ascii "ip_address") 1 253,
   .typeof (ascii "port") (ascii "integer"), .integerBetween (ascii "port") 0 65535,
   .typeof (ascii "alive") (ascii "integer"), .integerIn (ascii "alive") [0, 1]]

/-- The table that `createV1ItemsSql` makes under the given name, with the index
SQLite adds for the `UNIQUE` column. -/
def v1Table (name sql : Bytes) : Table where
  name := name
  sql := some sql
  columns := deviceColumns
  indexes := [⟨ascii "sqlite_autoindex_" ++ name ++ ascii "_1", true, false, [some deviceIdName]⟩]
  checks := v1Checks
  autoincrement := true
  withoutRowid := false
  rows := []
  sequence := 0

/-! ### Reading and validating the schema -/

def requireSchema (c : Prop) [Decidable c] (message : String) : Sql Unit :=
  require c (.databaseSchemaError (ascii message))

def readUserVersion : Sql ℤ := select Database.userVersion

def writeUserVersion (version : ℤ) : Sql Unit :=
  execute fun db => .ok (db.setUserVersion version)

def readColumns (table : Bytes) : Sql (List Column) :=
  select fun db => ((db.findTable table).map Table.columns).getD []

def tableExists (table : Bytes) : Sql Bool := select fun db => (db.findTable table).isSome

/-- The `type:name` texts of the objects a user made, in ascending order. -/
def userObjects (db : Database) : List Bytes :=
  (((db.master.filter fun o => !like (ascii "sqlite_%") o.2).map
    fun o => o.1 ++ ascii ":" ++ o.2).insertionSort fun a b => a ≤ b)

def readUserObjects : Sql (List Bytes) := select userObjects

def readCreateSql (table : Bytes) : Sql Bytes := do
  match ← select fun db => (db.findTable table).bind Table.sql with
  | none => fail (.databaseSchemaError (ascii "items table has no CREATE TABLE definition"))
  | some sql => pure sql

/-- The characters that `NormalizeSql` keeps. -/
def isKeptSql (c : UInt8) : Bool :=
  !isSpace c && c != 34 && c != 96 && c != 91 && c != 93 && c != 59

def normalizeSql (sql : Bytes) : Bytes := (sql.filter isKeptSql).map toLower

def validateOnlyItemsObject : Sql Unit := do
  let objects ← readUserObjects
  requireSchema (objects = [ascii "table:items"])
    "database contains an unexpected table, view, or trigger"

def readIndexes (table : Bytes) : Sql (List Index) :=
  select fun db => ((db.findTable table).map Table.indexes).getD []

/-- The columns of the index with a name, which is one of the table's own as a rule. A
table's only index that is read as another is not that of a `UNIQUE` constraint, so that
`ValidateExactCreateSql` refuses the table's text; here it is refused with its columns. -/
def indexColumns (db : Database) (table name : Bytes) : List (Option Bytes) :=
  match db.findTable table with
  | none => []
  | some t =>
      match t.findIndex name with
      | some ix => ix.columns
      | none => if t.indexes.length = 1 then [] else db.indexColumns name

/-- `PRAGMA index_info('index')` for an index of the table. The name is put between the
quotes as it stands, so SQLite may read another name, or no statement at all. -/
def readIndexInfo (table index : Bytes) : Sql (List (Option Bytes)) :=
  statement interrupted fun db =>
    match pragmaArgument index with
    | none => .error (.sqliteException .syntaxError)
    | some name => .ok (indexColumns db table name, db)

/-- The loop over the indexes of `items`. -/
def validateIndexes : List Index → Sql Unit
  | [] => pure ()
  | index :: rest => do
      requireSchema (index.unique ∧ ¬index.isPartial)
        "items has an unexpected non-unique or partial index"
      let columns ← readIndexInfo itemsName index.name
      requireSchema (columns = [some deviceIdName])
        "items unique index must contain only device_id"
      validateIndexes rest

def validateUniqueDeviceId : Sql Unit := do
  let indexes ← readIndexes itemsName
  validateIndexes indexes
  requireSchema (indexes.length = 1) "items must have exactly one unique device_id index"

def validateDeviceColumns : Sql Unit := do
  let columns ← readColumns itemsName
  requireSchema (columns = deviceColumns)
    "items columns, types, nullability, or primary key do not match the device schema"
  validateUniqueDeviceId

def validateExactCreateSql (expected schemaName : Bytes) : Sql Unit := do
  let sql ← readCreateSql itemsName
  require (normalizeSql sql = normalizeSql expected) (.databaseSchemaError
    (ascii "items CREATE TABLE definition does not exactly match " ++ schemaName))

def validateV1Schema : Sql Unit := do
  validateOnlyItemsObject
  validateDeviceColumns
  validateExactCreateSql createV1ItemsSql (ascii "schema v1")

/-! ### Rows -/

def decodeText (row : List Value) (index : ℕ) (field : DatabaseField) :
    Except StorageError Bytes :=
  match row.getD index .null with
  | .text b => .ok b
  | _ => .error (.databaseValidationError field
      (ascii "persisted device text field has an invalid SQLite type"))

def decodeInteger (row : List Value) (index : ℕ) (field : DatabaseField) (message : String) :
    Except StorageError ℤ :=
  match row.getD index .null with
  | .integer i => .ok i
  | _ => .error (.databaseValidationError field (ascii message))

def decodeDatabaseItem (row : List Value) : Except StorageError DatabaseItem := do
  let id ← decodeText row 0 .id
  let name ← decodeText row 1 .name
  let ipAddress ← decodeText row 2 .address
  let port ← decodeInteger row 3 .port "persisted port is not an integer"
  let alive ← decodeInteger row 4 .alive "persisted alive value is not an integer"
  if port < 0 ∨ 65535 < port then
    .error (.databaseValidationError .port (ascii "persisted port is outside 0-65535"))
  else if alive ≠ 0 ∧ alive ≠ 1 then
    .error (.databaseValidationError .alive (ascii "persisted alive value is not 0 or 1"))
  else do
    let item : DatabaseItem := ⟨id, name, ipAddress, UInt16.ofNat port.toNat, alive = 1⟩
    validateItem item
    pure item

/-- The values bound to the five parameters. -/
def bindItem (item : DatabaseItem) : List Value :=
  [.text item.id, .text item.name, .text item.ipAddress, .integer item.port.toNat,
   .integer (if item.alive then 1 else 0)]

def insertItem (table : Bytes) (item : DatabaseItem) : Sql Unit :=
  execute fun db => db.onTable table fun t => t.insert (bindItem item)

/-- `DELETE FROM items WHERE device_id = ?`; returns whether a row was changed. -/
def deleteItem (id : Bytes) : Sql Bool :=
  statement interrupted fun db =>
    match db.findTable itemsName with
    | none => .error (.sqliteException .noSuchTable)
    | some t =>
        .ok (!(t.rowsWhere deviceIdName (.text id)).isEmpty,
          db.setTable itemsName (t.deleteWhere deviceIdName (.text id)))

/-- Read the canonical projection of the rows that `rows` selects, and decode them. -/
def readItems (rows : Table → List Row) : Sql (List DatabaseItem) := do
  let found ← selectFrom itemsName fun t => t.project canonicalProjection (rows t)
  ofExcept (found.mapM decodeDatabaseItem)

/-! ### Initialization -/

/-- The part of `MigrateUnversionedDeviceSchema` inside the transaction. -/
def migrateItems : Sql Unit := do
  let items ← readItems Table.rows
  execute fun db => db.createTable (v1Table itemsV1Name
    (replaceFirst itemsName itemsV1Name createV1ItemsSql))
  items.forM (insertItem itemsV1Name)
  let count ← selectFrom itemsV1Name fun t => t.rows.length
  requireSchema (count = items.length) "v1 migration row-count verification failed"
  execute fun db => db.dropTable itemsName
  execute fun db => db.renameTable itemsV1Name itemsName
  writeUserVersion 1
  validateV1Schema

def migrateUnversionedDeviceSchema : Sql Unit := do
  validateOnlyItemsObject
  validateDeviceColumns
  validateExactCreateSql createUnversionedItemsSql
    (ascii "the supported unversioned device schema")
  transaction interrupted migrateItems

/-- The part of `Initialize` inside the transaction, for a file without `items`. -/
def createV1Items : Sql Unit := do
  execute fun db => db.createTable (v1Table itemsName createV1ItemsSql)
  writeUserVersion 1
  validateV1Schema

def createV1Schema : Sql Unit := do
  let objects ← readUserObjects
  requireSchema (objects = []) "unversioned database contains unexpected objects"
  transaction interrupted createV1Items

/-- Refuse the former key/value table. -/
def rejectLegacyItems : Sql Unit := do
  let columns ← readColumns itemsName
  if columns = legacyKeyValueColumns then do
    let sql ← readCreateSql itemsName
    requireSchema (normalizeSql sql ≠ normalizeSql createLegacyItemsSql)
      "legacy key/value items schema is unsupported and was left unchanged"
  else pure ()

/-- The branches of `Initialize` after the version has been read. -/
def initializeVersion (version : ℤ) : Sql Unit :=
  if version = currentSchemaVersion then validateV1Schema
  else if version ≠ 0 then
    fail (.databaseSchemaError (ascii "unsupported database schema version: "
      ++ ascii (toString version)))
  else do
    let exists' ← tableExists itemsName
    if !exists' then createV1Schema
    else do
      rejectLegacyItems
      migrateUnversionedDeviceSchema

/-- What `Initialize` does to the file. -/
def initializeFile : Sql Unit := do
  let version ← readUserVersion
  initializeVersion version

/-- The object: its connection's file and the flag `initialized_`. -/
structure SQLiteDatabase where
  database : Database
  initialized : Bool

namespace SQLiteDatabase

abbrev Method (α : Type) := Program SQLiteDatabase StorageError α

/-- Run statements on the file. -/
def onFile {α : Type} (p : Sql α) : Method α :=
  zoom SQLiteDatabase.database (fun s db => { s with database := db }) p

def setInitialized (b : Bool) : Method Unit := modify fun s => { s with initialized := b }

/-- `Initialize`. -/
def initializeDatabase : Method Unit := do
  setInitialized false
  onFile initializeFile
  setInitialized true

def notInitialized : StorageError :=
  .logicError (ascii "SQLiteDatabase::Initialize must succeed before storage operations")

def ensureInitialized : Method Unit := do
  let initialized ← inspect SQLiteDatabase.initialized
  require initialized notInitialized

/-- A storage operation: nothing of it runs before `Initialize` has succeeded. -/
def operation {α : Type} (p : Sql α) : Method α := do
  ensureInitialized
  onFile p

def addItem (item : DatabaseItem) : Method Unit :=
  operation do
    ofExcept (validateItem item)
    insertItem itemsName item

def upsertItem (item : DatabaseItem) : Method Unit :=
  operation do
    ofExcept (validateItem item)
    execute fun db => db.onTable itemsName fun t => t.upsert deviceIdName (bindItem item)

def getItem (id : Bytes) : Method (Option DatabaseItem) :=
  operation do
    let rows ← readItems fun t => (t.rowsWhere deviceIdName (.text id)).take 1
    pure rows.head?

def getAllItems : Method (List DatabaseItem) := operation (readItems Table.rows)

def replaceAll (items : List DatabaseItem) : Method Unit :=
  operation do
    ofExcept (validateItems items)
    transaction interrupted do
      execute fun db => db.onTable itemsName fun t => .ok t.deleteAll
      items.forM (insertItem itemsName)

def getAllSortedById : Method (List DatabaseItem) :=
  operation (readItems fun t => t.rowsBy deviceIdName)

def containsItem (id : Bytes) : Method Bool :=
  operation (selectFrom itemsName fun t => !(t.rowsWhere deviceIdName (.text id)).isEmpty)

def countItems : Method ℤ := operation (selectFrom itemsName fun t => t.rows.length)

def removeItem (id : Bytes) : Method Bool := operation (deleteItem id)

def clear : Method Unit :=
  operation (execute fun db => db.onTable itemsName fun t => .ok t.deleteAll)

end SQLiteDatabase

/-- The operations of `IDatabase`. -/
inductive Call
  | initializeDatabase
  | addItem (item : DatabaseItem)
  | upsertItem (item : DatabaseItem)
  | getItem (id : Bytes)
  | getAllItems
  | replaceAll (items : List DatabaseItem)
  | getAllSortedById
  | containsItem (id : Bytes)
  | countItems
  | removeItem (id : Bytes)
  | clear
  deriving DecidableEq

/-- What an operation returns. -/
inductive Reply
  | done
  | item (found : Option DatabaseItem)
  | items (all : List DatabaseItem)
  | flag (b : Bool)
  | count (n : ℤ)
  deriving DecidableEq

namespace SQLiteDatabase

def call : Call → Method Reply
  | .initializeDatabase => (fun _ => Reply.done) <$> initializeDatabase
  | .addItem d => (fun _ => Reply.done) <$> addItem d
  | .upsertItem d => (fun _ => Reply.done) <$> upsertItem d
  | .getItem id => Reply.item <$> getItem id
  | .getAllItems => Reply.items <$> getAllItems
  | .replaceAll ds => (fun _ => Reply.done) <$> replaceAll ds
  | .getAllSortedById => Reply.items <$> getAllSortedById
  | .containsItem id => Reply.flag <$> containsItem id
  | .countItems => Reply.count <$> countItems
  | .removeItem id => Reply.flag <$> removeItem id
  | .clear => (fun _ => Reply.done) <$> clear

/-- A client's calls in order, each with its outcome; a throw is caught. -/
def callAll (w : World SQLiteDatabase) :
    List Call → List (Call × Except StorageError Reply) × World SQLiteDatabase
  | [] => ([], w)
  | c :: calls =>
      ((c, (call c w).1) :: (callAll (call c w).2 calls).1, (callAll (call c w).2 calls).2)

end SQLiteDatabase

end Watchlist.Storage
