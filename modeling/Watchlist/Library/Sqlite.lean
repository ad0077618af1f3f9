import Watchlist.Library.Bytes

/-!
The fragment of an SQLite file that a client using plain tables sees: the
version number, the tables with their constraints and rows, and the rows of
`sqlite_master`. A table carries the text of its `CREATE TABLE` statement beside
what the statement means (columns, indexes, checks); `rows` is in row-id order.

Each function here is one statement: it returns the file after it, or the
constraint that refused it, in which case nothing has changed.
-/

namespace Sqlite

open Bytes

inductive Value
  | null
  | integer (i : ℤ)
  | real (bits : UInt64)
  | text (b : Bytes)
  | blob (b : Bytes)
  deriving DecidableEq

def Value.rank : Value → ℕ
  | .null => 0
  | .integer _ | .real _ => 1
  | .text _ => 2
  | .blob _ => 3

/-- The order of `ORDER BY`: storage classes first, text and blobs by bytes. -/
def Value.le : Value → Value → Bool
  | .integer a, .integer b => decide (a ≤ b)
  | .text a, .text b => decide (a ≤ b)
  | .blob a, .blob b => decide (a ≤ b)
  | a, b => decide (a.rank ≤ b.rank)

/-- A row of `PRAGMA table_info`: columns 1, 2, 3 and 5 of it. -/
structure Column where
  name : Bytes
  type : Bytes
  notNull : Bool
  primaryKey : ℤ
  deriving DecidableEq

/-- An `INTEGER PRIMARY KEY` column is another name of the row id. -/
def Column.isRowidAlias (c : Column) : Bool :=
  c.type == ascii "INTEGER" && c.primaryKey == 1

/-- A row of `PRAGMA index_list` with the column names of its
`PRAGMA index_info`; an expression has no name. -/
structure Index where
  name : Bytes
  unique : Bool
  isPartial : Bool
  columns : List (Option Bytes)
  deriving DecidableEq

/-- The name that `typeof` gives. -/
def Value.typeName : Value → Bytes
  | .null => ascii "null"
  | .integer _ => ascii "integer"
  | .real _ => ascii "real"
  | .text _ => ascii "text"
  | .blob _ => ascii "blob"

/-- The conjuncts of `CHECK` constraints. -/
inductive Check
  /-- `typeof(column) = 'type'` -/
  | typeof (column type : Bytes)
  /-- `length(CAST(column AS BLOB)) BETWEEN low AND high`, of a text -/
  | textBytes (column : Bytes) (low high : ℕ)
  /-- `column BETWEEN low AND high`, of an integer -/
  | integerBetween (column : Bytes) (low high : ℤ)
  /-- `column IN (choices)`, of an integer -/
  | integerIn (column : Bytes) (choices : List ℤ)
  deriving DecidableEq

def Check.holds (cell : Bytes → Value) : Check → Bool
  | .typeof c type => (cell c).typeName == type
  | .textBytes c low high =>
      match cell c with
      | .text b => decide (low ≤ b.length ∧ b.length ≤ high)
      | _ => false
  | .integerBetween c low high =>
      match cell c with
      | .integer i => decide (low ≤ i ∧ i ≤ high)
      | _ => false
  | .integerIn c choices =>
      match cell c with
      | .integer i => decide (i ∈ choices)
      | _ => false

/-- A row: its id, and the cells of the columns that are not the row id. -/
structure Row where
  rowid : ℤ
  cells : List Value
  deriving DecidableEq

structure Table where
  name : Bytes
  sql : Option Bytes
  columns : List Column
  indexes : List Index
  checks : List Check
  autoincrement : Bool
  /-- declared `WITHOUT ROWID` -/
  withoutRowid : Bool
  rows : List Row
  sequence : ℤ
  deriving DecidableEq

/-- What can keep a statement from having its effect. -/
inductive Failure
  | notNull
  | check
  | unique
  | noSuchTable
  | alreadyExists
  | syntaxError
  | interrupted
  deriving DecidableEq

/-- The kind of the text SQLite reports; the name of the table or column it adds is left
off. -/
def Failure.message : Failure → Bytes
  | .notNull => ascii "NOT NULL constraint failed"
  | .check => ascii "CHECK constraint failed"
  | .unique => ascii "UNIQUE constraint failed"
  | .noSuchTable => ascii "no such table"
  | .alreadyExists => ascii "table already exists"
  | .syntaxError => ascii "syntax error"
  | .interrupted => ascii "disk I/O error"

namespace Table

def cellNames (t : Table) : List Bytes :=
  (t.columns.filter fun c => !c.isRowidAlias).map Column.name

/-- The value of a column in a row with these cells. -/
def cell (t : Table) (cells : List Value) (column : Bytes) : Value :=
  cells.getD (t.cellNames.idxOf column) .null

def nextRowid (t : Table) : ℤ := (t.rows.map Row.rowid).foldl max t.sequence + 1

/-- `NOT NULL` of every column. -/
def meetsNotNull (t : Table) (cells : List Value) : Bool :=
  t.columns.all fun c => !c.notNull || t.cell cells c.name != .null

def meetsChecks (t : Table) (cells : List Value) : Bool :=
  t.checks.all (Check.holds (t.cell cells))

/-- Two rows that a unique index does not let stand together. -/
def clash (t : Table) (a b : List Value) : Bool :=
  t.indexes.any fun ix => ix.unique && !ix.isPartial && ix.columns.all fun
    | some c => t.cell a c != .null && t.cell a c == t.cell b c
    | none => false

/-- `ON CONFLICT(key)` needs a unique index on that column alone. -/
def hasUniqueKey (t : Table) (key : Bytes) : Bool :=
  t.indexes.any fun ix => ix.unique && !ix.isPartial && ix.columns == [some key]

def appendRow (t : Table) (cells : List Value) : Table :=
  { t with
    rows := t.rows ++ [⟨t.nextRowid, cells⟩]
    sequence := if t.autoincrement then t.nextRowid else t.sequence }

/-- Give the rows with the key of `cells` these cells. -/
def overwrite (t : Table) (key : Bytes) (cells : List Value) : Table :=
  { t with
    rows := t.rows.map fun r =>
      if t.cell r.cells key == t.cell cells key then { r with cells := cells } else r }

/-- `INSERT INTO t (..) VALUES (cells)`, the columns named in the table's order. -/
def insert (t : Table) (cells : List Value) : Except Failure Table :=
  if !t.meetsNotNull cells then .error .notNull
  else if !t.meetsChecks cells then .error .check
  else if t.rows.any (fun r => t.clash r.cells cells) then .error .unique
  else .ok (t.appendRow cells)

/-- `INSERT INTO t (..) VALUES (cells) ON CONFLICT(key) DO UPDATE` of every other
column to its new value. -/
def upsert (t : Table) (key : Bytes) (cells : List Value) : Except Failure Table :=
  if !t.hasUniqueKey key then .error .syntaxError
  else if !t.meetsNotNull cells then .error .notNull
  else if !t.meetsChecks cells then .error .check
  else if t.rows.any (fun r => t.cell r.cells key == t.cell cells key) then
    .ok (t.overwrite key cells)
  else t.insert cells

/-- `DELETE FROM t WHERE column = value`. -/
def deleteWhere (t : Table) (column : Bytes) (value : Value) : Table :=
  { t with rows := t.rows.filter fun r => t.cell r.cells column != value }

def deleteAll (t : Table) : Table := { t with rows := [] }

/-- The index with a name; names are the same in either case. -/
def findIndex (t : Table) (name : Bytes) : Option Index :=
  t.indexes.find? fun ix => ix.name.map toLower = name.map toLower

/-- The columns of the primary key, in its order. -/
def keyColumns (t : Table) : List (Option Bytes) :=
  ((t.columns.filter fun c => 0 < c.primaryKey).insertionSort fun c d =>
    c.primaryKey ≤ d.primaryKey).map fun c => some c.name

/-- The selected columns of the rows, in row-id order. -/
def project (t : Table) (projection : List Bytes) (rows : List Row) : List (List Value) :=
  rows.map fun r => projection.map (t.cell r.cells)

/-- The rows of `WHERE column = value`. -/
def rowsWhere (t : Table) (column : Bytes) (value : Value) : List Row :=
  t.rows.filter fun r => t.cell r.cells column == value

/-- The rows of `ORDER BY column`. -/
def rowsBy (t : Table) (column : Bytes) : List Row :=
  t.rows.insertionSort fun r r' => (t.cell r.cells column).le (t.cell r'.cells column) = true

end Table

inductive ObjectKind
  | view
  | trigger
  deriving DecidableEq

/-- A view, or a trigger on the table it names. -/
structure Object where
  kind : ObjectKind
  name : Bytes
  tableName : Bytes
  sql : Bytes
  deriving DecidableEq

structure Database where
  userVersion : ℤ
  tables : List Table
  others : List Object
  deriving DecidableEq

/-- `LIKE`: `%` is any sequence, `_` any one character, letters of either case. -/
def like : Bytes → Bytes → Bool
  | [], s => s.isEmpty
  | p :: ps, s =>
      if p = 37 then s.tails.any (like ps)
      else
        match s with
        | [] => false
        | c :: cs => (p = 95 || toLower p == toLower c) && like ps cs

/-- A pattern that starts with letters asks for these, in either case. -/
theorem like_append {letters pattern s : Bytes} (h : ∀ p ∈ letters, p ≠ 37 ∧ p ≠ 95) :
    like (letters ++ pattern) s = true ↔
      letters.length ≤ s.length ∧ (s.take letters.length).map toLower = letters.map toLower ∧
        like pattern (s.drop letters.length) = true := by
  induction letters generalizing s with
  | nil => simp
  | cons p letters ih =>
      obtain ⟨⟨hany, hone⟩, hletters⟩ := List.forall_mem_cons.mp h
      rw [List.cons_append, like.eq_def]
      simp only [if_neg hany]
      cases s with
      | nil => simp
      | cons c cs =>
          simp only [hone, decide_false, Bool.false_or, Bool.and_eq_true, beq_iff_eq, ih hletters,
            List.length_cons, List.take_succ_cons, List.map_cons, List.cons.injEq,
            List.drop_succ_cons, Nat.add_le_add_iff_right, eq_comm (a := toLower p)]
          tauto

/-- One character of any kind, and then anything. -/
theorem like_any {s : Bytes} : like [95, 37] s = true ↔ s ≠ [] := by
  cases s <;> simp [like]

namespace Database

/-- A file that has just been created. -/
def empty : Database := ⟨0, [], []⟩

/-- The `type`, `name` rows of `sqlite_master` for tables, views and triggers. -/
def master (db : Database) : List (Bytes × Bytes) :=
  db.tables.map (fun t => (ascii "table", t.name)) ++
    db.others.map fun o =>
      (match o.kind with | .view => ascii "view" | .trigger => ascii "trigger", o.name)

def findTable (db : Database) (name : Bytes) : Option Table :=
  db.tables.find? fun t => t.name = name

/-- The columns of the index with a name, of whichever table; or of the primary key of a
table with that name, if it is declared `WITHOUT ROWID`. -/
def indexColumns (db : Database) (name : Bytes) : List (Option Bytes) :=
  match db.tables.findSome? fun t => t.findIndex name with
  | some ix => ix.columns
  | none =>
      match db.tables.find? fun t => t.withoutRowid && t.name.map toLower = name.map toLower with
      | some t => t.keyColumns
      | none => []

/-- Put `t` in the place of the table called `name`. -/
def setTable (db : Database) (name : Bytes) (t : Table) : Database :=
  { db with tables := db.tables.map fun t' => if t'.name = name then t else t' }

/-- A statement on one table. -/
def onTable (db : Database) (name : Bytes) (f : Table → Except Failure Table) :
    Except Failure Database :=
  match db.findTable name with
  | none => .error .noSuchTable
  | some t => (f t).map (db.setTable name)

/-- The bookkeeping table that the first `AUTOINCREMENT` table brings along. The
counters themselves are kept with their tables. -/
def sequenceTable : Table where
  name := ascii "sqlite_sequence"
  sql := some (ascii "CREATE TABLE sqlite_sequence(name,seq)")
  columns := [⟨ascii "name", [], false, 0⟩, ⟨ascii "seq", [], false, 0⟩]
  indexes := []
  checks := []
  autoincrement := false
  withoutRowid := false
  rows := []
  sequence := 0

def createTable (db : Database) (t : Table) : Except Failure Database :=
  if db.master.any (fun o => o.2 == t.name) then .error .alreadyExists
  else
    let bookkeeping :=
      if t.autoincrement && (db.findTable sequenceTable.name).isNone then [sequenceTable] else []
    .ok { db with tables := db.tables ++ bookkeeping ++ [t] }

/-- A dropped table takes its triggers with it. -/
def dropTable (db : Database) (name : Bytes) : Except Failure Database :=
  if (db.findTable name).isNone then .error .noSuchTable
  else .ok { db with
    tables := db.tables.filter fun t => t.name ≠ name
    others := db.others.filter fun o => ¬(o.kind = .trigger ∧ o.tableName = name) }

/-- How `ALTER TABLE .. RENAME` edits the stored text: the name becomes the new
one, quoted. -/
def renameSql (old new sql : Bytes) : Bytes :=
  let head := ascii "CREATE TABLE " ++ old
  if head.isPrefixOf sql then
    ascii "CREATE TABLE " ++ (34 :: new ++ [34]) ++ sql.drop head.length
  else sql

/-- The automatic indexes follow the name of their table. -/
def renameIndex (old new : Bytes) (ix : Index) : Index :=
  let head := ascii "sqlite_autoindex_" ++ old
  if head.isPrefixOf ix.name then
    { ix with name := ascii "sqlite_autoindex_" ++ new ++ ix.name.drop head.length }
  else ix

/-- The table under its new name; its text and automatic indexes follow. -/
def renamed (old new : Bytes) (t : Table) : Table :=
  { t with
    name := new
    sql := t.sql.map (renameSql old new)
    indexes := t.indexes.map (renameIndex old new) }

def renameTable (db : Database) (old new : Bytes) : Except Failure Database :=
  match db.findTable old with
  | none => .error .noSuchTable
  | some t =>
      if db.master.any (fun o => o.2 == new) then .error .alreadyExists
      else .ok (db.setTable old (renamed old new t))

def setUserVersion (db : Database) (version : ℤ) : Database :=
  { db with userVersion := version }

/-! ### Reading back what a statement wrote -/

theorem findTable_name {db : Database} {name : Bytes} {t : Table}
    (h : db.findTable name = some t) : t.name = name := by
  simpa using List.find?_some h

@[simp] theorem userVersion_setTable (db : Database) (name : Bytes) (t : Table) :
    (db.setTable name t).userVersion = db.userVersion := rfl

@[simp] theorem others_setTable (db : Database) (name : Bytes) (t : Table) :
    (db.setTable name t).others = db.others := rfl

theorem findTable_map {tables : List Table} {f : Table → Table} {name : Bytes}
    (h : ∀ t ∈ tables, (f t).name = name ↔ t.name = name) :
    (tables.map f).find? (fun t => t.name = name) =
      (tables.find? fun t => t.name = name).map f := by
  induction tables with
  | nil => rfl
  | cons t tables ih =>
      have ht := h t List.mem_cons_self
      have hrest := ih fun t' ht' => h t' (List.mem_cons_of_mem _ ht')
      by_cases hname : t.name = name
      · simp [hname, ht.mpr hname]
      · simp [hname, mt ht.mp hname, hrest]

theorem findTable_setTable {name : Bytes} {t' : Table} (hname : t'.name = name) (db : Database)
    (other : Bytes) :
    (db.tables.map fun u => if u.name = name then t' else u).find? (fun t => t.name = other) =
      (db.tables.find? fun t => t.name = other).map fun u => if u.name = name then t' else u := by
  refine findTable_map fun u _ => ?_
  split
  · rename_i hu
    rw [hname, hu]
  · rfl

theorem findTable_setTable_self {db : Database} {name : Bytes} {t t' : Table}
    (h : db.findTable name = some t) (hname : t'.name = name) :
    (db.setTable name t').findTable name = some t' := by
  have hmap := findTable_setTable hname db name
  unfold findTable at h ⊢
  rw [setTable, hmap, h, Option.map_some, if_pos (by simpa using List.find?_some h)]

theorem findTable_setTable_of_ne {db : Database} {name other : Bytes} {t' : Table}
    (hne : other ≠ name) (hname : t'.name = name) :
    (db.setTable name t').findTable other = db.findTable other := by
  have hmap := findTable_setTable hname db other
  unfold findTable
  rw [setTable, hmap]
  cases hf : db.tables.find? (fun t => t.name = other) with
  | none => rfl
  | some u =>
      have hu : u.name = other := by simpa using List.find?_some hf
      rw [Option.map_some, if_neg (by simpa [hu] using hne)]

theorem master_setTable {db : Database} {name : Bytes} {t' : Table} (hname : t'.name = name) :
    (db.setTable name t').master = db.master := by
  have hnames : (db.tables.map fun u => if u.name = name then t' else u).map
      (fun t => (ascii "table", t.name)) = db.tables.map fun t => (ascii "table", t.name) := by
    rw [List.map_map]
    apply List.map_congr_left
    intro u _
    simp only [Function.comp]
    split
    · rename_i hu
      rw [hname, hu]
    · rfl
  simp [master, setTable, hnames]

theorem onTable_eq_ok {db db' : Database} {name : Bytes} {f : Table → Except Failure Table}
    (h : db.onTable name f = .ok db') :
    ∃ t t', db.findTable name = some t ∧ f t = .ok t' ∧ db' = db.setTable name t' := by
  unfold onTable at h
  split at h
  · simp at h
  · rename_i t ht
    cases hf : f t with
    | error e => simp [hf, Except.map] at h
    | ok t' =>
        simp only [hf, Except.map, Except.ok.injEq] at h
        exact ⟨t, t', ht, hf, h.symm⟩

/-- A statement on a table that is there fails as its effect on the table does. -/
theorem eq_error_of_onTable {db : Database} {name : Bytes} {f : Table → Except Failure Table}
    {t : Table} {failure : Failure} (ht : db.findTable name = some t)
    (h : db.onTable name f = .error failure) : f t = .error failure := by
  simp only [onTable, ht] at h
  cases hf : f t with
  | ok t' => simp [hf, Except.map] at h
  | error failure' =>
      rw [hf] at h
      exact congrArg Except.error (Except.error.inj h)

/-! ### Definitions of tables -/

@[simp] theorem findTable_setUserVersion (db : Database) (version : ℤ) (name : Bytes) :
    (db.setUserVersion version).findTable name = db.findTable name := rfl

theorem findTable_eq_none_of_fresh {db : Database} {name : Bytes}
    (h : ¬db.master.any (fun o => o.2 == name) = true) : db.findTable name = none := by
  rw [findTable, List.find?_eq_none]
  intro t ht hname
  have hmem : (ascii "table", t.name) ∈ db.master :=
    List.mem_append_left _ (List.mem_map.mpr ⟨t, ht, rfl⟩)
  exact h (List.any_eq_true.mpr ⟨_, hmem, by simpa using hname⟩)

/-- A created table is there, and was not before. -/
theorem createTable_eq_ok {db db' : Database} {t : Table} (h : db.createTable t = .ok db') :
    db.findTable t.name = none ∧
    db' = { db with tables := db.tables ++
      (if t.autoincrement && (db.findTable sequenceTable.name).isNone then [sequenceTable] else [])
      ++ [t] } := by
  unfold createTable at h
  split at h
  · cases h
  · rename_i hfresh
    exact ⟨findTable_eq_none_of_fresh hfresh, (Except.ok.inj h).symm⟩

theorem findTable_createTable_self {db db' : Database} {t : Table}
    (h : db.createTable t = .ok db') (hname : t.name ≠ sequenceTable.name) :
    db'.findTable t.name = some t := by
  obtain ⟨hfresh, rfl⟩ := createTable_eq_ok h
  have hbook : (if t.autoincrement && (db.findTable sequenceTable.name).isNone
      then [sequenceTable] else []).find? (fun u => u.name = t.name) = none := by
    split
    · simp [Ne.symm hname]
    · rfl
  rw [findTable] at hfresh
  rw [findTable, List.find?_append, List.find?_append, hfresh, hbook]
  simp

theorem dropTable_eq_ok {db db' : Database} {name : Bytes} (h : db.dropTable name = .ok db') :
    db'.userVersion = db.userVersion ∧ db'.tables = db.tables.filter (fun t => t.name ≠ name) := by
  unfold dropTable at h
  split at h
  · cases h
  · have hdb := (Except.ok.inj h).symm
    subst hdb
    exact ⟨rfl, rfl⟩

theorem findTable_dropTable_of_ne {db db' : Database} {name other : Bytes}
    (h : db.dropTable name = .ok db') (hne : other ≠ name) :
    db'.findTable other = db.findTable other := by
  rw [findTable, findTable, (dropTable_eq_ok h).2, List.find?_filter]
  congr 1
  funext t
  by_cases ht : t.name = other <;> simp [ht, hne]

/-- A table that takes the place of the one called `old` is found under its own
new name, when nothing else has that name. -/
theorem findTable_map_rename {tables : List Table} {old new : Bytes} {t u : Table}
    (ht : tables.find? (fun s => s.name = old) = some t)
    (hfree : tables.find? (fun s => s.name = new) = none) (hname : u.name = new) :
    (tables.map fun s => if s.name = old then u else s).find? (fun s => s.name = new) =
      some u := by
  induction tables with
  | nil => simp at ht
  | cons s tables ih =>
      rw [List.find?_eq_none, List.forall_mem_cons] at hfree
      rw [List.map_cons]
      by_cases hs : s.name = old
      · simp [hs, hname]
      · rw [if_neg hs, List.find?_cons_of_neg (by simpa using hfree.1)]
        rw [List.find?_cons_of_neg (by simpa using hs)] at ht
        exact ih ht (List.find?_eq_none.mpr hfree.2)

theorem findTable_renameTable {db db' : Database} {old new : Bytes} {t : Table}
    (ht : db.findTable old = some t) (h : db.renameTable old new = .ok db') :
    db'.findTable new = some (renamed old new t) := by
  unfold renameTable at h
  rw [ht] at h
  simp only at h
  split at h
  · cases h
  · rename_i hfresh
    rw [← Except.ok.inj h]
    exact findTable_map_rename ht (findTable_eq_none_of_fresh hfresh) rfl

@[simp] theorem userVersion_setUserVersion (db : Database) (version : ℤ) :
    (db.setUserVersion version).userVersion = version := rfl

end Database

end Sqlite
