import Watchlist.Library.SqlTokens
import Watchlist.Storage.SQLiteDatabase

/-!
What the schema validation of `SQLiteDatabase.cpp` accepts, and what the
definition it is meant to accept is. The validation only reads, so it is its
set of accepted files; those are described here once, and everything about
`Initialize` is proved from the description.
-/

namespace Watchlist.Storage

open Bytes Sqlite Faulty Faulty.Program

/-- The only index of the table is a unique one on `device_id` alone. -/
def UniqueDeviceId (t : Table) : Prop :=
  ∃ ix, t.indexes = [ix] ∧ ix.unique = true ∧ ix.isPartial = false ∧
    ix.columns = [some deviceIdName]

/-- Columns, types, nullability, primary key and index of a device table. -/
structure DeviceTable (t : Table) : Prop where
  columns : t.columns = deviceColumns
  index : UniqueDeviceId t

/-- No name of an index has a quote in it. -/
def QuotableIndexes (t : Table) : Prop := ∀ ix ∈ t.indexes, Quotable ix.name

/-- What the validation against the `CREATE TABLE` text `expected` accepts:
nothing but a device table called `items`, whose text is `expected` up to what
`NormalizeSql` drops, and whose index has a name that can be asked for. -/
structure Accepted (expected : Bytes) (db : Database) : Prop where
  objects : userObjects db = [ascii "table:items"]
  named : ∀ t, db.findTable itemsName = some t → QuotableIndexes t
  table : ∃ t sql, db.findTable itemsName = some t ∧ DeviceTable t ∧ t.sql = some sql ∧
    normalizeSql sql = normalizeSql expected

/-- The items table is the v1 table: its columns and index are, and its text is
the v1 statement token for token. -/
def HasV1Definition (db : Database) : Prop :=
  ∃ t sql, db.findTable itemsName = some t ∧ DeviceTable t ∧ t.sql = some sql ∧
    SqlTokens.tokens sql = SqlTokens.tokens createV1ItemsSql

/-- The canonical columns of the stored devices, in row-id order. -/
def deviceRows (db : Database) : List (List Value) :=
  ((db.findTable itemsName).map fun t => t.project canonicalProjection t.rows).getD []

@[simp] theorem normalizeSql_append (a b : Bytes) :
    normalizeSql (a ++ b) = normalizeSql a ++ normalizeSql b := by
  simp [normalizeSql]

/-! ### The reading programs -/

theorem steady_select {α : Type} (f : Database → α) : (select f).Steady := steady_query _ _

theorem steady_requireSchema (c : Prop) [Decidable c] (message : String) :
    (requireSchema c message).Steady := steady_require _ _

theorem steady_readCreateSql (table : Bytes) : (readCreateSql table).Steady := by
  refine steady_bind (steady_select _) fun sql => ?_
  cases sql with
  | none => exact steady_fail _
  | some sql => exact steady_pure sql

theorem steady_validateOnlyItemsObject : validateOnlyItemsObject.Steady :=
  steady_bind (steady_select _) fun _ => steady_requireSchema _ _

theorem steady_readIndexInfo (table index : Bytes) : (readIndexInfo table index).Steady := by
  refine steady_statement fun db columns db' h => ?_
  split at h
  · cases h
  · exact (Prod.mk.inj (Except.ok.inj h)).2.symm

theorem steady_validateIndexes (indexes : List Index) : (validateIndexes indexes).Steady := by
  induction indexes with
  | nil => exact steady_pure ()
  | cons index rest ih =>
      refine steady_bind (steady_requireSchema _ _) fun _ => ?_
      refine steady_bind (steady_readIndexInfo _ _) fun _ => ?_
      exact steady_bind (steady_requireSchema _ _) fun _ => ih

theorem steady_validateDeviceColumns : validateDeviceColumns.Steady := by
  refine steady_bind (steady_select _) fun _ => ?_
  refine steady_bind (steady_requireSchema _ _) fun _ => ?_
  refine steady_bind (steady_select _) fun indexes => ?_
  exact steady_bind (steady_validateIndexes indexes) fun _ => steady_requireSchema _ _

theorem steady_validateExactCreateSql (expected schemaName : Bytes) :
    (validateExactCreateSql expected schemaName).Steady :=
  steady_bind (steady_readCreateSql _) fun _ => steady_require _ _

theorem steady_validateV1Schema : validateV1Schema.Steady := by
  refine steady_bind steady_validateOnlyItemsObject fun _ => ?_
  refine steady_bind steady_validateDeviceColumns fun _ => ?_
  exact steady_validateExactCreateSql _ _

/-! ### What a validation that returned has seen -/

theorem validateOnlyItemsObject_eq_ok {w w' : World Database} {u : Unit}
    (h : validateOnlyItemsObject w = (.ok u, w')) :
    userObjects w.state = [ascii "table:items"] := by
  obtain ⟨objects, w₁, hread, hcheck⟩ := bind_eq_ok.mp h
  rw [← (query_eq_ok hread).1]
  exact (require_eq_ok.mp hcheck).1

theorem select_eq_ok {α : Type} {f : Database → α} {w w' : World Database} {a : α}
    (h : select f w = (.ok a, w')) : a = f w.state ∧ w'.state = w.state := query_eq_ok h

theorem readColumns_eq_ok {table : Bytes} {w w' : World Database} {columns : List Column}
    (h : readColumns table w = (.ok columns, w')) :
    columns = ((w.state.findTable table).map Table.columns).getD [] ∧ w'.state = w.state := by
  unfold readColumns at h
  exact select_eq_ok h

theorem readIndexes_eq_ok {table : Bytes} {w w' : World Database} {indexes : List Index}
    (h : readIndexes table w = (.ok indexes, w')) :
    indexes = ((w.state.findTable table).map Table.indexes).getD [] ∧ w'.state = w.state := by
  unfold readIndexes at h
  exact select_eq_ok h

theorem readIndexInfo_eq_ok {table index : Bytes} {w w' : World Database}
    {columns : List (Option Bytes)} (h : readIndexInfo table index w = (.ok columns, w')) :
    ∃ name, pragmaArgument index = some name ∧ columns = indexColumns w.state table name := by
  have hrun := statement_eq_ok h
  cases hname : pragmaArgument index with
  | none => simp [hname] at hrun
  | some name =>
      simp only [hname, Except.ok.injEq, Prod.mk.injEq] at hrun
      exact ⟨name, rfl, hrun.1.symm⟩

theorem readCreateSql_eq_ok {table sql : Bytes} {w w' : World Database}
    (h : readCreateSql table w = (.ok sql, w')) :
    (w.state.findTable table).bind Table.sql = some sql := by
  obtain ⟨found, w₁, hread, hrest⟩ := bind_eq_ok.mp h
  rw [← (query_eq_ok hread).1]
  cases found with
  | none => simp at hrest
  | some text =>
      simp only [pure_apply, Prod.mk.injEq, Except.ok.injEq] at hrest
      rw [hrest.1]

theorem validateIndexes_eq_ok {index : Index} {w w' : World Database} {u : Unit}
    (h : validateIndexes [index] w = (.ok u, w')) :
    index.unique = true ∧ index.isPartial = false ∧
    ∃ name, pragmaArgument index.name = some name ∧
      indexColumns w.state itemsName name = [some deviceIdName] := by
  obtain ⟨_, w₁, hflags, h⟩ := bind_eq_ok.mp h
  obtain ⟨columns, w₂, hread, h⟩ := bind_eq_ok.mp h
  obtain ⟨_, w₃, hcolumns, _⟩ := bind_eq_ok.mp h
  obtain ⟨⟨hunique, hwhole⟩, rfl⟩ := require_eq_ok.mp hflags
  obtain ⟨name, hname, rfl⟩ := readIndexInfo_eq_ok hread
  exact ⟨hunique, by simpa using hwhole, name, hname, (require_eq_ok.mp hcolumns).1⟩

/-- The only index of a table, found under the name that SQLite reads. -/
theorem indexColumns_singleton {db : Database} {table name : Bytes} {t : Table} {ix : Index}
    (ht : db.findTable table = some t) (hix : t.indexes = [ix]) :
    indexColumns db table name =
      if ix.name.map toLower = name.map toLower then ix.columns else [] := by
  by_cases h : ix.name.map toLower = name.map toLower <;>
    simp [indexColumns, ht, Table.findIndex, hix, h]

/-- It is found under its own name only, since no other is read as it. -/
theorem quotable_of_found {ix : Index} {name : Bytes} (hname : pragmaArgument ix.name = some name)
    (hsame : ix.name.map toLower = name.map toLower) : Quotable ix.name := by
  by_contra hquote
  have hshorter := pragmaArgument_shorter hname hquote
  have hlength := congrArg List.length hsame
  rw [List.length_map, List.length_map] at hlength
  omega

theorem validateDeviceColumns_eq_ok {w w' : World Database} {u : Unit}
    (h : validateDeviceColumns w = (.ok u, w')) :
    ∃ t, w.state.findTable itemsName = some t ∧ DeviceTable t ∧ QuotableIndexes t := by
  obtain ⟨columns, w₁, hread, h⟩ := bind_eq_ok.mp h
  obtain ⟨_, w₂, hcolumns, h⟩ := bind_eq_ok.mp h
  obtain ⟨indexes, w₃, hlist, h⟩ := bind_eq_ok.mp h
  obtain ⟨_, w₄, hindexes, hcount⟩ := bind_eq_ok.mp h
  obtain ⟨hmatch, rfl⟩ := require_eq_ok.mp hcolumns
  obtain ⟨hread, hstate₁⟩ := readColumns_eq_ok hread
  obtain ⟨hlist, hstate₃⟩ := readIndexes_eq_ok hlist
  rw [hstate₁] at hlist hstate₃
  cases ht : w.state.findTable itemsName with
  | none =>
      rw [hread, ht] at hmatch
      exact absurd hmatch (by decide)
  | some t =>
      rw [ht] at hread hlist
      change columns = t.columns at hread
      change indexes = t.indexes at hlist
      obtain ⟨index, hindex⟩ := List.length_eq_one_iff.mp (require_eq_ok.mp hcount).1
      rw [hindex] at hindexes hlist
      obtain ⟨hunique, hwhole, name, hname, hinfo⟩ := validateIndexes_eq_ok hindexes
      rw [hstate₃, indexColumns_singleton ht hlist.symm] at hinfo
      split at hinfo
      · rename_i hsame
        refine ⟨t, rfl, ⟨hread ▸ hmatch, index, hlist.symm, hunique, hwhole, hinfo⟩, ?_⟩
        intro ix hix
        rw [← hlist, List.mem_singleton] at hix
        exact hix ▸ quotable_of_found hname hsame
      · cases hinfo

theorem accepted_of_validate {expected schemaName : Bytes} {w w₁ w₂ w' : World Database}
    {u₁ u₂ u₃ : Unit} (h₁ : validateOnlyItemsObject w = (.ok u₁, w₁))
    (h₂ : validateDeviceColumns w₁ = (.ok u₂, w₂))
    (h₃ : validateExactCreateSql expected schemaName w₂ = (.ok u₃, w')) :
    Accepted expected w.state := by
  have hstate₁ : w₁.state = w.state := steady_validateOnlyItemsObject.readOnly.of_eq h₁
  have hstate₂ : w₂.state = w₁.state := steady_validateDeviceColumns.readOnly.of_eq h₂
  obtain ⟨t, ht, hdevice, hnamed⟩ := validateDeviceColumns_eq_ok h₂
  obtain ⟨sql, w₃, hread, hsame⟩ := bind_eq_ok.mp h₃
  have hsql := readCreateSql_eq_ok hread
  rw [hstate₁] at ht
  rw [hstate₂, hstate₁, ht] at hsql
  exact {
    objects := validateOnlyItemsObject_eq_ok h₁
    named := fun t' ht' => Option.some.inj (ht.symm.trans ht') ▸ hnamed
    table := ⟨t, sql, ht, hdevice, hsql, (require_eq_ok.mp hsame).1⟩ }

theorem validateV1Schema_eq_ok {w w' : World Database} {u : Unit}
    (h : validateV1Schema w = (.ok u, w')) : Accepted createV1ItemsSql w.state := by
  obtain ⟨_, w₁, h₁, h⟩ := bind_eq_ok.mp h
  obtain ⟨_, w₂, h₂, h₃⟩ := bind_eq_ok.mp h
  exact accepted_of_validate h₁ h₂ h₃

/-! ### What the validation returns on -/

theorem returns_requireSchema {c : Prop} [Decidable c] (h : c) (message : String) (db : Database) :
    (requireSchema c message).Returns db () db := returns_require h _ db

theorem returns_readColumns (db : Database) (table : Bytes) :
    (readColumns table).Returns db (((db.findTable table).map Table.columns).getD []) db := rfl

theorem returns_readIndexes (db : Database) (table : Bytes) :
    (readIndexes table).Returns db (((db.findTable table).map Table.indexes).getD []) db := rfl

theorem returns_readIndexInfo {db : Database} {t : Table} {table : Bytes} {ix : Index}
    (ht : db.findTable table = some t) (hix : t.indexes = [ix]) (hname : Quotable ix.name) :
    (readIndexInfo table ix.name).Returns db ix.columns db := by
  have hcolumns : indexColumns db table ix.name = ix.columns := by
    rw [indexColumns_singleton ht hix, if_pos rfl]
  simp [Returns, readIndexInfo, statement, pragmaArgument_quotable hname, hcolumns]

theorem returns_readCreateSql {db : Database} {table sql : Bytes} {t : Table}
    (ht : db.findTable table = some t) (hsql : t.sql = some sql) :
    (readCreateSql table).Returns db sql db := by
  refine Returns.bind (returns_query _ _ db) ?_
  rw [ht, Option.bind_some, hsql]
  exact returns_pure sql db

theorem returns_validateDeviceColumns {db : Database} {t : Table}
    (ht : db.findTable itemsName = some t) (hdevice : DeviceTable t)
    (hnamed : QuotableIndexes t) : validateDeviceColumns.Returns db () db := by
  obtain ⟨hcolumns, ix, hix, hunique, hwhole, hinfo⟩ := hdevice
  refine Returns.bind (returns_readColumns db itemsName) ?_
  refine Returns.bind (returns_requireSchema (by simpa [ht] using hcolumns) _ db) ?_
  have hread : (readIndexes itemsName).Returns db [ix] db := by
    simpa [ht, hix] using returns_readIndexes db itemsName
  have hindexes : (validateIndexes [ix]).Returns db () db := by
    refine Returns.bind (returns_requireSchema ⟨hunique, by simp [hwhole]⟩ _ db) ?_
    have hname : Quotable ix.name := hnamed ix (hix ▸ List.mem_singleton_self ix)
    refine Returns.bind (returns_readIndexInfo ht hix hname) ?_
    exact Returns.bind (returns_requireSchema hinfo _ db) (returns_pure () db)
  exact hread.bind (hindexes.bind (returns_requireSchema rfl _ db))

/-- The validation returns exactly on the files it accepts. -/
theorem returns_validateV1Schema_iff {db : Database} :
    validateV1Schema.Returns db () db ↔ Accepted createV1ItemsSql db := by
  constructor
  · intro h
    exact validateV1Schema_eq_ok h
  · rintro ⟨hobjects, hnamed, t, sql, ht, hdevice, hsql, hsame⟩
    have honly : validateOnlyItemsObject.Returns db () db :=
      Returns.bind (returns_query _ _ db) (returns_requireSchema hobjects _ db)
    have hexact : (validateExactCreateSql createV1ItemsSql (ascii "schema v1")).Returns db () db :=
      Returns.bind (returns_readCreateSql ht hsql) (returns_require hsame _ db)
    exact honly.bind ((returns_validateDeviceColumns ht hdevice (hnamed t ht)).bind hexact)

end Watchlist.Storage
