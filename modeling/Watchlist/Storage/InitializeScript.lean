import Watchlist.Library.Script
import Watchlist.Storage.KeyValueStore
import Watchlist.Storage.IDatabase

/-!
`SQLiteDatabase::Initialize` query by query, for a file that others use at the same
time. A transaction is one query here, since SQLite isolates it. Without interruption
the script is `initializeFile`.

Beside the device storage a file may have a key/value store. What that store does is
nothing to the version and to the items table, and until its table is there it does
nothing at all. So `Initialize` succeeds next to it, on the files that it knows, when it
looks at the objects of the file before the store has made its table.
-/

namespace Watchlist.Storage

open Bytes Sqlite Faulty Faulty.Program KeyValueStore

/-- What `Initialize` asks SQLite for. -/
inductive SchemaQuery : Type → Type
  | userVersion : SchemaQuery ℤ
  | tableExists (table : Bytes) : SchemaQuery Bool
  | columns (table : Bytes) : SchemaQuery (List Column)
  | userObjects : SchemaQuery (List Bytes)
  | createSql (table : Bytes) : SchemaQuery Bytes
  | indexes (table : Bytes) : SchemaQuery (List Index)
  | indexInfo (table index : Bytes) : SchemaQuery (List (Option Bytes))
  /-- the transaction for a file without `items` -/
  | createV1Items : SchemaQuery Unit
  /-- the transaction of `MigrateUnversionedDeviceSchema` -/
  | migrateItems : SchemaQuery Unit

namespace SchemaQuery

def answer : (α : Type) → SchemaQuery α → Sql α
  | _, .userVersion => readUserVersion
  | _, .tableExists table => Storage.tableExists table
  | _, .columns table => readColumns table
  | _, .userObjects => readUserObjects
  | _, .createSql table => readCreateSql table
  | _, .indexes table => readIndexes table
  | _, .indexInfo table index => readIndexInfo table index
  | _, .createV1Items => transaction interrupted Storage.createV1Items
  | _, .migrateItems => transaction interrupted Storage.migrateItems

/-- The query runs `ReadUserObjects`, alone or in its transaction. -/
def readsObjects : (α : Type) → SchemaQuery α → Bool
  | _, .userObjects | _, .createV1Items | _, .migrateItems => true
  | _, _ => false

end SchemaQuery

/-! ### The script -/

abbrev SqlScript (α : Type) := Script SchemaQuery StorageError α

namespace InitializeScript

open Script

def requireSchema (c : Prop) [Decidable c] (message : String) : SqlScript Unit :=
  require c (.databaseSchemaError (ascii message))

def validateOnlyItemsObject : SqlScript Unit := do
  let objects ← query .userObjects
  requireSchema (objects = [ascii "table:items"])
    "database contains an unexpected table, view, or trigger"

def validateIndexes : List Index → SqlScript Unit
  | [] => pure ()
  | index :: rest => do
      requireSchema (index.unique ∧ ¬index.isPartial)
        "items has an unexpected non-unique or partial index"
      let columns ← query (.indexInfo itemsName index.name)
      requireSchema (columns = [some deviceIdName])
        "items unique index must contain only device_id"
      validateIndexes rest

def validateUniqueDeviceId : SqlScript Unit := do
  let indexes ← query (.indexes itemsName)
  validateIndexes indexes
  requireSchema (indexes.length = 1) "items must have exactly one unique device_id index"

def validateDeviceColumns : SqlScript Unit := do
  let columns ← query (.columns itemsName)
  requireSchema (columns = deviceColumns)
    "items columns, types, nullability, or primary key do not match the device schema"
  validateUniqueDeviceId

def validateExactCreateSql (expected schemaName : Bytes) : SqlScript Unit := do
  let sql ← query (.createSql itemsName)
  require (normalizeSql sql = normalizeSql expected) (.databaseSchemaError
    (ascii "items CREATE TABLE definition does not exactly match " ++ schemaName))

def validateV1Schema : SqlScript Unit := do
  validateOnlyItemsObject
  validateDeviceColumns
  validateExactCreateSql createV1ItemsSql (ascii "schema v1")

def migrateUnversionedDeviceSchema : SqlScript Unit := do
  validateOnlyItemsObject
  validateDeviceColumns
  validateExactCreateSql createUnversionedItemsSql
    (ascii "the supported unversioned device schema")
  query .migrateItems

def createV1Schema : SqlScript Unit := do
  let objects ← query .userObjects
  requireSchema (objects = []) "unversioned database contains unexpected objects"
  query .createV1Items

def rejectLegacyItems : SqlScript Unit := do
  let columns ← query (.columns itemsName)
  if columns = legacyKeyValueColumns then do
    let sql ← query (.createSql itemsName)
    requireSchema (normalizeSql sql ≠ normalizeSql createLegacyItemsSql)
      "legacy key/value items schema is unsupported and was left unchanged"
  else pure ()

def initializeVersion (version : ℤ) : SqlScript Unit :=
  if version = currentSchemaVersion then validateV1Schema
  else if version ≠ 0 then
    .throw (.databaseSchemaError (ascii "unsupported database schema version: "
      ++ ascii (toString version)))
  else do
    let exists' ← query (.tableExists itemsName)
    if !exists' then createV1Schema
    else do
      rejectLegacyItems
      migrateUnversionedDeviceSchema

def initializeFile : SqlScript Unit := do
  let version ← query .userVersion
  initializeVersion version

/-! ### Without interruption -/

theorem run_validateIndexes (indexes : List Index) :
    (validateIndexes indexes).run SchemaQuery.answer = Storage.validateIndexes indexes := by
  induction indexes with
  | nil => rfl
  | cons index rest ih =>
      simp only [validateIndexes, requireSchema, run_bind, run_require, run_query, ih]
      rfl

theorem run_validateDeviceColumns :
    validateDeviceColumns.run SchemaQuery.answer = Storage.validateDeviceColumns := by
  simp only [validateDeviceColumns, validateUniqueDeviceId, requireSchema, run_bind, run_require,
    run_query, run_validateIndexes]
  rfl

theorem run_validateOnlyItemsObject :
    validateOnlyItemsObject.run SchemaQuery.answer = Storage.validateOnlyItemsObject := by
  simp only [validateOnlyItemsObject, requireSchema, run_bind, run_require, run_query]
  rfl

theorem run_validateExactCreateSql (expected schemaName : Bytes) :
    (validateExactCreateSql expected schemaName).run SchemaQuery.answer =
      Storage.validateExactCreateSql expected schemaName := by
  simp only [validateExactCreateSql, run_bind, run_require, run_query]
  rfl

theorem run_rejectLegacyItems :
    rejectLegacyItems.run SchemaQuery.answer = Storage.rejectLegacyItems := by
  simp only [rejectLegacyItems, requireSchema, run_bind, run_require, run_query, run_ite, run_pure]
  rfl

/-- The queries of the script, one right after the other, are `Initialize`. -/
theorem run_initializeFile :
    initializeFile.run SchemaQuery.answer = Storage.initializeFile := by
  simp only [initializeFile, initializeVersion, validateV1Schema, createV1Schema,
    migrateUnversionedDeviceSchema, requireSchema, run_bind, run_require, run_query, run_ite,
    run_throw, run_validateDeviceColumns, run_validateOnlyItemsObject, run_validateExactCreateSql,
    run_rejectLegacyItems]
  rfl

end InitializeScript

/-! ### The file beside a key/value store -/

/-- What the key/value store may have done to the file. -/
structure StoreOnly (db db' : Database) : Prop where
  version : db'.userVersion = db.userVersion
  items : db'.findTable itemsName = db.findTable itemsName
  absent : db'.findTable kvStoreName = none → db' = db

theorem StoreOnly.refl (db : Database) : StoreOnly db db := ⟨rfl, rfl, fun _ => rfl⟩

theorem StoreOnly.trans {db db' db'' : Database} (h : StoreOnly db db') (h' : StoreOnly db' db'') :
    StoreOnly db db'' where
  version := h'.version.trans h.version
  items := h'.items.trans h.items
  absent := by
    intro hnone
    obtain rfl := h'.absent hnone
    exact h.absent hnone

/-- No device has been stored in the file. -/
structure FreshFile (db : Database) : Prop where
  version : db.userVersion = 0
  free : db.findTable itemsName = none
  empty : db.findTable kvStoreName = none → db = .empty

/-- The file holds the devices of `m` in the v1 table. -/
structure CurrentFile (db : Database) (m : DeviceMap) : Prop where
  holds : Represents db m
  definition : ∃ t sql, db.findTable itemsName = some t ∧ QuotableIndexes t ∧
    t.sql = some sql ∧ normalizeSql sql = normalizeSql createV1ItemsSql
  objects : db.findTable kvStoreName = none → userObjects db = [ascii "table:items"]

/-- The devices of a file that the server has made. -/
inductive DeviceFile (db : Database) : DeviceMap → Prop
  | fresh (h : FreshFile db) : DeviceFile db .empty
  | current {m : DeviceMap} (h : CurrentFile db m) : DeviceFile db m

section
variable {db db' : Database} {m : DeviceMap}

theorem FreshFile.stable (h : FreshFile db) (hstore : StoreOnly db db') : FreshFile db' where
  version := hstore.version.trans h.version
  free := hstore.items.trans h.free
  empty := by
    intro hnone
    obtain rfl := hstore.absent hnone
    exact h.empty hnone

theorem CurrentFile.stable (h : CurrentFile db m) (hstore : StoreOnly db db') :
    CurrentFile db' m where
  holds := by
    obtain ⟨hversion, t, items, ht, hitems, hlists⟩ := h.holds
    exact ⟨hstore.version.trans hversion, t, items, hstore.items.trans ht, hitems, hlists⟩
  definition := by
    rw [hstore.items]
    exact h.definition
  objects := by
    intro hnone
    obtain rfl := hstore.absent hnone
    exact h.objects hnone

theorem DeviceFile.stable (h : DeviceFile db m) (hstore : StoreOnly db db') :
    DeviceFile db' m := by
  cases h with
  | fresh h => exact .fresh (h.stable hstore)
  | current h => exact .current (h.stable hstore)

/-- What the device storage may do to the file: nothing to the table of the store, and
nothing that the store's table does not stand. -/
structure ItemsOnly (db db' : Database) : Prop where
  store : db'.findTable kvStoreName = db.findTable kvStoreName
  others : db'.others = db.others

theorem ItemsOnly.refl (db : Database) : ItemsOnly db db := ⟨rfl, rfl⟩

theorem ItemsOnly.storeFile (h : ItemsOnly db db') (hfile : StoreFile db) : StoreFile db' where
  table := by
    rw [h.store]
    exact hfile.table
  free := by
    rw [h.others]
    exact hfile.free

theorem ItemsOnly.values (h : ItemsOnly db db') : values db' = values db := by
  funext key
  rw [KeyValueStore.values, h.store, KeyValueStore.values]

end

/-- What a query of `Initialize` does: it keeps the devices. -/
structure KeepsDevices (db db' : Database) : Prop where
  items : ItemsOnly db db'
  devices : ∀ m, DeviceFile db m → DeviceFile db' m

theorem KeepsDevices.refl (db : Database) : KeepsDevices db db := ⟨.refl db, fun _ => id⟩

/-- A query that reads the objects is asked before the store has made its table. -/
def BeforeStore (α : Type) (q : SchemaQuery α) (db : Database) : Prop :=
  q.readsObjects = true → db.findTable kvStoreName = none

namespace InitializeScript

open Script

/-- Whatever a key/value store does in between, the script returns `a` and does nothing. -/
def Gives {α : Type} (p : SqlScript α) (db : Database) (a : α) : Prop :=
  p.Ends SchemaQuery.answer StoreOnly KeepsDevices BeforeStore
    (fun b db' => b = a ∧ StoreOnly db db') db

variable {α β : Type} {db : Database} {m : DeviceMap}

theorem Gives.bind {p : SqlScript α} {f : α → SqlScript β} {a : α} {b : β} (h : Gives p db a)
    (hf : ∀ db', StoreOnly db db' → Gives (f a) db' b) : Gives (p >>= f) db b := by
  apply Ends.bind StoreOnly.refl h
  rintro _ db' ⟨rfl, hstore⟩
  exact (hf db' hstore).mono fun _ _ h => ⟨h.1, hstore.trans h.2⟩

theorem gives_pure (a : α) : Gives (pure a) db a := ends_pure fun _ hstore => ⟨rfl, hstore⟩

theorem gives_require {c : Prop} [Decidable c] (hc : c) (e : StorageError) :
    Gives (require c e) db () := ends_require hc fun _ hstore => ⟨rfl, hstore⟩

/-- A query that only reads what the store leaves alone. -/
theorem gives_query {q : SchemaQuery α} {a : α} (hanswer : ∀ db', StoreOnly db db' →
    BeforeStore α q db' → (q.answer α).Returns db' a db') : Gives (query q) db a := by
  apply ends_query
  intro db' hstore hbefore
  exact ⟨a, db', hanswer db' hstore hbefore, .refl db', fun _ hstore' =>
    ⟨rfl, hstore.trans hstore'⟩⟩

theorem gives_userObjects {objects : List Bytes}
    (h : db.findTable kvStoreName = none → userObjects db = objects) :
    Gives (query .userObjects) db objects := by
  apply gives_query
  intro db' hstore hbefore
  obtain rfl := hstore.absent (hbefore rfl)
  rw [← h (hbefore rfl)]
  exact returns_query _ _ _

/-! ### A current file -/

theorem gives_validateOnlyItemsObject (h : CurrentFile db m) :
    Gives validateOnlyItemsObject db () := by
  refine (gives_userObjects h.objects).bind fun db' _ => ?_
  exact gives_require rfl _

theorem gives_validateDeviceColumns {t : Table} (ht : db.findTable itemsName = some t)
    (hdevice : DeviceTable t) (hnamed : QuotableIndexes t) :
    Gives validateDeviceColumns db () := by
  obtain ⟨hcolumns, ix, hix, hunique, hwhole, hinfo⟩ := hdevice
  have hread : Gives (query (.columns itemsName)) db deviceColumns := by
    apply gives_query
    intro db' hstore _
    have hreturns := returns_readColumns db' itemsName
    rwa [hstore.items, ht, Option.map_some, Option.getD_some, hcolumns] at hreturns
  refine hread.bind fun db₁ h₁ => ?_
  refine (gives_require rfl _).bind fun db₂ h₂ => ?_
  have hitems₂ : db₂.findTable itemsName = some t := h₂.items.trans (h₁.items.trans ht)
  have hindexes : Gives (query (.indexes itemsName)) db₂ [ix] := by
    apply gives_query
    intro db' hstore _
    have hreturns := returns_readIndexes db' itemsName
    rwa [hstore.items, hitems₂, Option.map_some, Option.getD_some, hix] at hreturns
  refine hindexes.bind fun db₃ h₃ => ?_
  -- the loop has one round
  have hloop : Gives (validateIndexes [ix]) db₃ () := by
    refine (gives_require ⟨hunique, by simp [hwhole]⟩ _).bind fun db₄ h₄ => ?_
    have hitems₄ : db₄.findTable itemsName = some t := h₄.items.trans (h₃.items.trans hitems₂)
    have hcolumns₄ : Gives (query (.indexInfo itemsName ix.name)) db₄ [some deviceIdName] := by
      apply gives_query
      intro db' hstore _
      have hname : Quotable ix.name := hnamed ix (hix ▸ List.mem_singleton_self ix)
      exact hinfo ▸ returns_readIndexInfo (hstore.items.trans hitems₄) hix hname
    refine hcolumns₄.bind fun db₅ _ => ?_
    exact (gives_require rfl _).bind fun _ _ => gives_pure ()
  exact hloop.bind fun _ _ => gives_require rfl _

theorem gives_validateExactCreateSql {expected schemaName sql : Bytes} {t : Table}
    (ht : db.findTable itemsName = some t) (hsql : t.sql = some sql)
    (hsame : normalizeSql sql = normalizeSql expected) :
    Gives (validateExactCreateSql expected schemaName) db () := by
  have hread : Gives (query (.createSql itemsName)) db sql := by
    apply gives_query
    intro db' hstore _
    exact returns_readCreateSql (hstore.items.trans ht) hsql
  exact hread.bind fun _ _ => gives_require hsame _

theorem gives_validateV1Schema (h : CurrentFile db m) : Gives validateV1Schema db () := by
  obtain ⟨t, sql, ht, hnamed, hsql, hsame⟩ := h.definition
  obtain ⟨t', items, ht', hitems, -⟩ := h.holds.table
  obtain rfl := Option.some.inj (ht.symm.trans ht')
  refine (gives_validateOnlyItemsObject h).bind fun db₁ h₁ => ?_
  have hcolumns := gives_validateDeviceColumns (h₁.items.trans ht) hitems.device hnamed
  refine hcolumns.bind fun db₂ h₂ => ?_
  exact gives_validateExactCreateSql (h₂.items.trans (h₁.items.trans ht)) hsql hsame

/-! ### A fresh file -/

theorem findTable_freshDatabase :
    freshDatabase.findTable itemsName = some (v1Table itemsName createV1ItemsSql) := rfl

theorem currentFile_freshDatabase : CurrentFile freshDatabase .empty where
  holds :=
    ⟨rfl, _, [], findTable_freshDatabase, SQLiteDatabase.itemsTable_v1Table _ _, Lists.nil⟩
  definition := by
    obtain ⟨t, sql, ht, -, hsql, hsame⟩ := accepted_freshDatabase.table
    exact ⟨t, sql, ht, accepted_freshDatabase.named t ht, hsql, hsame⟩
  objects := fun _ => accepted_freshDatabase.objects

theorem returns_createV1Items_empty : createV1Items.Returns Database.empty () freshDatabase := by
  have hcreate : Database.empty.createTable (v1Table itemsName createV1ItemsSql) =
      .ok ⟨0, [Database.sequenceTable, v1Table itemsName createV1ItemsSql], []⟩ := rfl
  exact returns_createV1Items hcreate accepted_freshDatabase

theorem keepsDevices_created : KeepsDevices Database.empty freshDatabase where
  items := ⟨rfl, rfl⟩
  devices := by
    intro m h
    cases h with
    | fresh => exact .current currentFile_freshDatabase
    | current h => exact absurd h.holds.version (by decide)

/-- On a file of the server the script ends, and has made it current, if it reads the
objects before the store has made its table. -/
theorem ends_initializeFile (h : DeviceFile db m) :
    initializeFile.Ends SchemaQuery.answer StoreOnly KeepsDevices BeforeStore
      (fun _ db' => db'.userVersion = 1) db := by
  have hversion : Gives (query .userVersion) db db.userVersion := by
    apply gives_query
    intro db' hstore _
    rw [← hstore.version]
    exact returns_query _ _ _
  apply Ends.bind StoreOnly.refl hversion
  rintro _ db₁ ⟨rfl, h₁⟩
  cases h with
  | current h =>
      have hone : db.userVersion = currentSchemaVersion := h.holds.version
      rw [initializeVersion, if_pos hone]
      refine (gives_validateV1Schema (h.stable h₁)).mono fun _ db' h' => ?_
      exact h'.2.version.trans (h₁.version.trans hone)
  | fresh h =>
      have h' : FreshFile db₁ := h.stable h₁
      rw [initializeVersion, h.version, if_neg (by decide), if_neg (by decide)]
      have hexists : Gives (query (.tableExists itemsName)) db₁ false := by
        apply gives_query
        intro db' hstore _
        have hreturns : (tableExists itemsName).Returns db'
            (db'.findTable itemsName).isSome db' := rfl
        rwa [hstore.items, h'.free] at hreturns
      apply Ends.bind StoreOnly.refl hexists
      rintro _ db₂ ⟨rfl, h₂⟩
      have h'' : FreshFile db₂ := h'.stable h₂
      have hobjects : Gives (query .userObjects) db₂ [] := by
        apply gives_userObjects
        intro hnone
        rw [h''.empty hnone]
        rfl
      apply Ends.bind StoreOnly.refl hobjects
      rintro _ db₃ ⟨rfl, h₃⟩
      have hrequire : Gives (requireSchema (([] : List Bytes) = [])
          "unversioned database contains unexpected objects") db₃ () := gives_require rfl _
      apply Ends.bind StoreOnly.refl hrequire
      rintro _ db₄ ⟨-, h₄⟩
      apply ends_query
      intro db' hstore hbefore
      -- nothing has been stored, so the file is still empty
      obtain rfl := ((h''.stable h₃).stable h₄).stable hstore |>.empty (hbefore rfl)
      refine ⟨(), freshDatabase, returns_createV1Items_empty.transaction, keepsDevices_created, ?_⟩
      intro db'' hstore''
      exact hstore''.version

end InitializeScript

end Watchlist.Storage
