import Watchlist.Storage.Rows

/-!
`KeyValueStore.cpp`: one table of texts under text keys. Each method is one
statement. The clock that `CURRENT_TIMESTAMP` reads is an argument.

What the store is for is a map from keys to values: `get` reads it, `upsert`
changes it at one key.
-/

namespace Watchlist.Storage

open Bytes Sqlite Faulty Faulty.Program

namespace KeyValueStore

def kvStoreName : Bytes := ascii "kv_store"

def keyName : Bytes := ascii "key"

def valueName : Bytes := ascii "value"

def kvColumns : List Column :=
  [⟨keyName, ascii "TEXT", false, 1⟩,
   ⟨valueName, ascii "TEXT", true, 0⟩,
   ⟨ascii "updated_utc", ascii "TEXT", true, 0⟩]

/-- The text that `sqlite_master` keeps, without `IF NOT EXISTS`. -/
def createKvStoreSql : Bytes :=
  ascii "CREATE TABLE kv_store (" ++
  ascii "key TEXT PRIMARY KEY," ++
  ascii "value TEXT NOT NULL," ++
  ascii "updated_utc TEXT NOT NULL DEFAULT CURRENT_TIMESTAMP" ++
  ascii ")"

/-- The index that SQLite adds for the primary key. -/
def keyIndex : Index := ⟨ascii "sqlite_autoindex_kv_store_1", true, false, [some keyName]⟩

/-- The table that `createKvStoreSql` makes. -/
def kvStoreTable : Table where
  name := kvStoreName
  sql := some createKvStoreSql
  columns := kvColumns
  indexes := [keyIndex]
  checks := []
  autoincrement := false
  withoutRowid := false
  rows := []
  sequence := 0

/-- The constructor opens the file. -/
def construct : Sql Unit := select fun _ => ()

/-- `CREATE TABLE IF NOT EXISTS` does nothing when a table or a view has the name. -/
def hasStore (db : Database) : Bool :=
  (db.findTable kvStoreName).isSome ||
    db.others.any fun o => o.kind = .view && o.name = kvStoreName

def initializeStore : Sql Unit :=
  execute fun db => if hasStore db then .ok db else db.createTable kvStoreTable

/-- The cells of the row that `Upsert` inserts. -/
def row (key value now : Bytes) : List Value := [.text key, .text value, .text now]

def upsert (key value now : Bytes) : Sql Unit :=
  execute fun db => db.onTable kvStoreName fun t => t.upsert keyName (row key value now)

/-- `getString` of a column of type `TEXT`, which holds texts and blobs. -/
def getString : Value → Bytes
  | .text b | .blob b => b
  | _ => []

/-- What the table says about a key: the first row found. -/
def valueIn (t : Table) (key : Bytes) : Option Bytes :=
  (t.rowsWhere keyName (.text key)).head?.map fun r => getString (t.cell r.cells valueName)

def get (key : Bytes) : Sql (Option Bytes) := selectFrom kvStoreName fun t => valueIn t key

/-! ### The map that the table stands for -/

/-- What the file stores under every key. -/
def values (db : Database) (key : Bytes) : Option Bytes :=
  (db.findTable kvStoreName).bind fun t => valueIn t key

/-- Store one value. -/
def store (m : Bytes → Option Bytes) (entry : Bytes × Bytes) : Bytes → Option Bytes :=
  Function.update m entry.1 (some entry.2)

theorem foldl_store_of_notMem {entries : List (Bytes × Bytes)} {key : Bytes}
    (h : ∀ e ∈ entries, e.1 ≠ key) (m : Bytes → Option Bytes) :
    entries.foldl store m key = m key := by
  induction entries generalizing m with
  | nil => rfl
  | cons e entries ih =>
      obtain ⟨he, hentries⟩ := List.forall_mem_cons.mp h
      rw [List.foldl_cons, ih hentries, store, Function.update_of_ne he.symm]

/-- The last entry of a key decides. -/
theorem foldl_store_append {entries later : List (Bytes × Bytes)} {e : Bytes × Bytes}
    (h : ∀ e' ∈ later, e'.1 ≠ e.1) (m : Bytes → Option Bytes) :
    (entries ++ e :: later).foldl store m e.1 = some e.2 := by
  rw [List.foldl_append, List.foldl_cons, foldl_store_of_notMem h, store, Function.update_self]

/-- The definition that `initializeStore` gives the table. -/
structure KvTable (t : Table) : Prop where
  columns : t.columns = kvColumns
  indexes : t.indexes = [keyIndex]
  checks : t.checks = []

theorem kvTable_kvStoreTable : KvTable kvStoreTable := ⟨rfl, rfl, rfl⟩

namespace KvTable

variable {t t' : Table} {key value now : Bytes}

theorem cellNames (h : KvTable t) : t.cellNames = kvColumns.map Column.name := by
  rw [Table.cellNames, h.columns]
  decide

theorem cell (h : KvTable t) :
    t.cell (row key value now) keyName = .text key ∧
      t.cell (row key value now) valueName = .text value := by
  have hkey : (kvColumns.map Column.name).idxOf keyName = 0 := by decide
  have hvalue : (kvColumns.map Column.name).idxOf valueName = 1 := by decide
  rw [Table.cell, Table.cell, h.cellNames, hkey, hvalue]
  exact ⟨rfl, rfl⟩

theorem hasUniqueKey (h : KvTable t) : t.hasUniqueKey keyName = true := by
  simp [Table.hasUniqueKey, h.indexes, keyIndex]

theorem meetsNotNull (h : KvTable t) : t.meetsNotNull (row key value now) = true := by
  have hupdated : (kvColumns.map Column.name).idxOf (ascii "updated_utc") = 2 := by decide
  have hcell : t.cell (row key value now) (ascii "updated_utc") = .text now := by
    rw [Table.cell, h.cellNames, hupdated]
    rfl
  simp [Table.meetsNotNull, h.columns, kvColumns, h.cell.2, hcell]

theorem meetsChecks (h : KvTable t) : t.meetsChecks (row key value now) = true := by
  simp [Table.meetsChecks, h.checks]

/-- A row clashes with a new one when it has its key. -/
theorem clash (h : KvTable t) (cells : List Value) :
    t.clash cells (row key value now) = (t.cell cells keyName == .text key) := by
  simp only [Table.clash, h.indexes, keyIndex, List.any_cons, List.any_nil, List.all_cons,
    List.all_nil, h.cell.1, Bool.not_false, Bool.true_and, Bool.and_true, Bool.or_false]
  by_cases hkey : t.cell cells keyName = .text key <;> simp [hkey]

/-- A store always has a place for the value: the row of its key, or a new one. -/
theorem upsert_eq (h : KvTable t) (key value now : Bytes) :
    t.upsert keyName (row key value now) =
      .ok (if t.rows.any fun r => t.cell r.cells keyName == .text key
        then t.overwrite keyName (row key value now) else t.appendRow (row key value now)) := by
  simp only [Table.upsert, h.hasUniqueKey, h.meetsNotNull, h.meetsChecks, h.cell.1, Bool.not_true,
    Bool.false_eq_true, if_false]
  split
  · rfl
  · rename_i hfree
    simp only [Table.insert, h.meetsNotNull, h.meetsChecks, h.clash, Bool.not_true,
      Bool.false_eq_true, if_false, if_neg hfree]

theorem upsert (h : KvTable t) (hupsert : t.upsert keyName (row key value now) = .ok t') :
    t'.name = t.name ∧ KvTable t' := by
  rw [h.upsert_eq] at hupsert
  obtain rfl := Except.ok.inj hupsert
  split <;> exact ⟨rfl, h.columns, h.indexes, h.checks⟩

end KvTable

theorem valueIn_eq (t : Table) (key : Bytes) :
    valueIn t key = (t.rows.find? fun r => t.cell r.cells keyName == .text key).map
      fun r => getString (t.cell r.cells valueName) := by
  rw [valueIn, Table.rowsWhere, List.head?_filter]

/-- Overwriting the row of a key changes what the table says about that key alone. -/
theorem KvTable.valueIn_overwrite {t : Table} (h : KvTable t) {key value now : Bytes}
    (hany : t.rows.any (fun r => t.cell r.cells keyName == .text key) = true) (other : Bytes) :
    valueIn (t.overwrite keyName (row key value now)) other =
      store (valueIn t) (key, value) other := by
  have hcell : ∀ cells column,
      (t.overwrite keyName (row key value now)).cell cells column = t.cell cells column :=
    fun _ _ => rfl
  have hsame : ∀ r : Row, t.cell (if t.cell r.cells keyName == .text key
      then { r with cells := row key value now } else r).cells keyName =
      t.cell r.cells keyName := by
    intro r
    split
    · rename_i hr
      exact h.cell.1.trans (eq_of_beq hr).symm
    · rfl
  rw [valueIn_eq]
  simp only [hcell]
  simp only [Table.overwrite, h.cell.1, List.find?_map, Function.comp_def, hsame, Option.map_map]
  by_cases hother : other = key
  · -- the key itself: its row is there, and now has the value
    subst hother
    rw [store, Function.update_self]
    cases hfind : t.rows.find? fun r => t.cell r.cells keyName == .text other with
    | none =>
        obtain ⟨r, hr, hkey⟩ := List.any_eq_true.mp hany
        exact absurd hkey (List.find?_eq_none.mp hfind r hr)
    | some r =>
        have hr : (t.cell r.cells keyName == .text other) = true := by
          simpa using List.find?_some hfind
        rw [Option.map_some, if_pos hr, h.cell.2]
        rfl
  · rw [store, Function.update_of_ne hother, valueIn_eq]
    cases hfind : t.rows.find? fun r => t.cell r.cells keyName == .text other with
    | none => rfl
    | some r =>
        have hr : t.cell r.cells keyName = .text other := by simpa using List.find?_some hfind
        rw [Option.map_some, Option.map_some, if_neg]
        rw [hr]
        simpa using hother

/-- So does a new row, when the key had none. -/
theorem KvTable.valueIn_appendRow {t : Table} (h : KvTable t) {key value now : Bytes}
    (hfree : ¬t.rows.any (fun r => t.cell r.cells keyName == .text key) = true) (other : Bytes) :
    valueIn (t.appendRow (row key value now)) other = store (valueIn t) (key, value) other := by
  have hcell : ∀ cells column,
      (t.appendRow (row key value now)).cell cells column = t.cell cells column :=
    fun _ _ => rfl
  rw [valueIn_eq]
  simp only [hcell]
  simp only [Table.appendRow, List.find?_append, List.find?_cons, List.find?_nil, h.cell.1]
  by_cases hother : other = key
  · subst hother
    have hnone : t.rows.find? (fun r => t.cell r.cells keyName == .text other) = none := by
      rw [List.find?_eq_none]
      intro r hr hkey
      exact hfree (List.any_eq_true.mpr ⟨r, hr, hkey⟩)
    simp [hnone, store, h.cell.2, getString]
  · have hne : (Value.text key == .text other) = false := by simp [Ne.symm hother]
    rw [store, Function.update_of_ne hother, valueIn_eq, hne]
    simp

/-- One `Upsert` is one store in the map. -/
theorem KvTable.valueIn_upsert {t t' : Table} (h : KvTable t) {key value now : Bytes}
    (hupsert : t.upsert keyName (row key value now) = .ok t') :
    valueIn t' = store (valueIn t) (key, value) := by
  rw [h.upsert_eq] at hupsert
  obtain rfl := Except.ok.inj hupsert
  funext other
  split
  · rename_i hany
    exact h.valueIn_overwrite hany other
  · rename_i hfree
    exact h.valueIn_appendRow hfree other

/-! ### The file -/

/-- A file in which the name of the store stands for its own table, or for nothing
yet, and nothing reacts to what is written there. -/
structure StoreFile (db : Database) : Prop where
  table : ∀ t, db.findTable kvStoreName = some t → KvTable t
  free : ∀ o ∈ db.others, o.name ≠ kvStoreName ∧ o.tableName ≠ kvStoreName

theorem values_of_find {db : Database} {t : Table} (h : db.findTable kvStoreName = some t) :
    values db = valueIn t := by
  funext key
  rw [values, h, Option.bind_some]

theorem findTable_append_self {tables : List Table} {t : Table}
    (h : tables.find? (fun u => u.name = t.name) = none) :
    (tables ++ [t]).find? (fun u => u.name = t.name) = some t := by
  rw [List.find?_append, h]
  simp

/-- What `initializeStore` did: nothing, or a new empty table at the end. -/
theorem StoreFile.initialized {db db' : Database} (h : StoreFile db)
    (hinit : (if hasStore db then .ok db else db.createTable kvStoreTable) = Except.ok db') :
    (db' = db ∧ (db.findTable kvStoreName).isSome = true) ∨
    (db.findTable kvStoreName = none ∧
      db' = { db with tables := db.tables ++ [kvStoreTable] }) := by
  have hviews : db.others.any (fun o => o.kind = .view && o.name = kvStoreName) = false := by
    rw [List.any_eq_false]
    intro o ho
    simp [(h.free o ho).1]
  rw [hasStore, hviews, Bool.or_false] at hinit
  cases hfind : db.findTable kvStoreName with
  | some t =>
      rw [hfind] at hinit
      exact Or.inl ⟨(Except.ok.inj hinit).symm, rfl⟩
  | none =>
      rw [hfind, Option.isSome_none, if_neg Bool.false_ne_true, Database.createTable] at hinit
      split at hinit
      · cases hinit
      · refine Or.inr ⟨rfl, ?_⟩
        simpa [kvStoreTable] using (Except.ok.inj hinit).symm

theorem readOnly_construct : construct.ReadOnly := by
  unfold construct select
  exact readOnly_query _ _

theorem atomic_initializeStore : KeyValueStore.initializeStore.Atomic := by
  unfold KeyValueStore.initializeStore execute
  exact atomic_command _ _

theorem atomic_upsert (key value now : Bytes) : (upsert key value now).Atomic := by
  unfold upsert execute
  exact atomic_command _ _

theorem construct_eq_ok {w w' : World Database} {u : Unit} (h : construct w = (.ok u, w')) :
    w'.state = w.state :=
  (select_eq_ok (f := fun _ => ()) h).2

theorem StoreFile.initializeStore {w w' : World Database} {u : Unit} (h : StoreFile w.state)
    (hrun : initializeStore w = (.ok u, w')) :
    StoreFile w'.state ∧ values w'.state = values w.state ∧
      (w'.state.findTable kvStoreName).isSome = true := by
  rcases h.initialized (execute_eq_ok hrun) with ⟨hstate, hsome⟩ | ⟨hnone, hstate⟩
  · rw [hstate]
    exact ⟨h, rfl, hsome⟩
  · have hfind : w'.state.findTable kvStoreName = some kvStoreTable := by
      rw [hstate]
      exact findTable_append_self (t := kvStoreTable) hnone
    refine ⟨⟨fun t ht => ?_, by rw [hstate]; exact h.free⟩, ?_, by rw [hfind]; rfl⟩
    · rw [hfind] at ht
      exact Option.some.inj ht ▸ kvTable_kvStoreTable
    · funext key
      rw [values, values, hfind, hnone]
      rfl

theorem StoreFile.upsert {key value now : Bytes} {w w' : World Database} {u : Unit}
    (h : StoreFile w.state) (hrun : upsert key value now w = (.ok u, w')) :
    StoreFile w'.state ∧ values w'.state = store (values w.state) (key, value) ∧
      (w'.state.findTable kvStoreName).isSome = true := by
  obtain ⟨t, t', ht, hupsert, hstate⟩ := Database.onTable_eq_ok (execute_eq_ok hrun)
  have htable := h.table t ht
  obtain ⟨hname, htable'⟩ := htable.upsert hupsert
  have hfind : w'.state.findTable kvStoreName = some t' := by
    rw [hstate]
    exact Database.findTable_setTable_self ht (hname.trans (Database.findTable_name ht))
  refine ⟨⟨fun u hu => ?_, by rw [hstate]; exact h.free⟩, ?_, by rw [hfind]; rfl⟩
  · rw [hfind] at hu
    exact Option.some.inj hu ▸ htable'
  · rw [values_of_find hfind, values_of_find ht, htable.valueIn_upsert hupsert]

/-- `Get` returns what the file stores under the key. -/
theorem get_eq_ok {key : Bytes} {w w' : World Database} {found : Option Bytes}
    (hrun : get key w = (.ok found, w')) : found = values w.state key ∧ w'.state = w.state := by
  obtain ⟨t, ht, rfl, hstate⟩ := selectFrom_eq_ok hrun
  exact ⟨(congrFun (values_of_find ht) key).symm, hstate⟩

theorem returns_get {db : Database} (h : (db.findTable kvStoreName).isSome = true) (key : Bytes) :
    (get key).Returns db (values db key) db := by
  obtain ⟨t, ht⟩ := Option.isSome_iff_exists.mp h
  rw [values_of_find ht]
  simp [Returns, get, selectFrom, statement, ht]

end KeyValueStore

end Watchlist.Storage
