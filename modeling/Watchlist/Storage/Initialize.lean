import Watchlist.Storage.Rows

/-!
`SQLiteDatabase::Initialize` as a program on the file: what it makes of a file when it
returns, that it is all or nothing, that it accepts again what it has accepted, and that
every operation throws until it has succeeded.
-/

namespace Watchlist.Storage

open Bytes Sqlite Faulty Faulty.Program

/-! ### The definition of the migrated table -/

/-- Renaming the migration's table back leaves the v1 text with its name quoted. -/
theorem renameSql_migrated (body : Bytes) :
    Database.renameSql itemsV1Name itemsName
      (replaceFirst itemsName itemsV1Name (createItemsHead ++ body)) =
      ascii "CREATE TABLE \"items\" (" ++ body := by
  rfl

theorem tokens_migrated :
    SqlTokens.tokens (Database.renameSql itemsV1Name itemsName
      (replaceFirst itemsName itemsV1Name createV1ItemsSql)) =
      SqlTokens.tokens createV1ItemsSql := by
  rw [createV1ItemsSql, renameSql_migrated]
  exact SqlTokens.tokens_append_congr (by decide) v1ItemsBody

/-! ### What `Initialize` does to the file -/

/-- What a file that is not at version 1 yet becomes. -/
structure Upgraded (db db' : Database) : Prop where
  version : db'.userVersion = 1
  accepted : Accepted createV1ItemsSql db'
  definition : HasV1Definition db'
  rows : deviceRows db' = deviceRows db

/-- What the migration makes of a file: its v1 table holds valid devices. -/
structure Migrated (db db' : Database) : Prop extends Upgraded db db' where
  filled : ∃ (t : Table) (items : List DatabaseItem), db'.findTable itemsName = some t ∧ t.checks = v1Checks ∧
    t.rows.map Row.cells = items.map bindItem ∧ (∀ d ∈ items, ValidItem d) ∧
    (items.map DatabaseItem.id).Nodup

theorem deviceTable_v1Table (name sql : Bytes) : DeviceTable (v1Table name sql) :=
  ⟨rfl, _, rfl, rfl, rfl, rfl⟩

theorem quotableIndexes_v1Table {name : Bytes} (h : Quotable name) (sql : Bytes) :
    QuotableIndexes (v1Table name sql) := by
  intro ix hix
  obtain rfl := List.mem_singleton.mp hix
  have hhead : Quotable (ascii "sqlite_autoindex_") := by decide +kernel
  have htail : Quotable (ascii "_1") := by decide +kernel
  exact (hhead.append h).append htail

theorem quotable_items : Quotable itemsName ∧ Quotable itemsV1Name := by decide +kernel

theorem quotableIndexes_items (sql : Bytes) : QuotableIndexes (v1Table itemsName sql) :=
  quotableIndexes_v1Table quotable_items.1 sql

theorem deviceRows_of_find {db : Database} {t : Table} {items : List DatabaseItem}
    (ht : db.findTable itemsName = some t) (hdevice : DeviceTable t)
    (hrows : t.rows.map Row.cells = items.map bindItem) :
    deviceRows db = items.map bindItem := by
  rw [deviceRows, ht]
  exact hdevice.project hrows

theorem writeUserVersion_eq_ok {version : ℤ} {w w' : World Database} {u : Unit}
    (h : writeUserVersion version w = (.ok u, w')) :
    w'.state = w.state.setUserVersion version := by
  unfold writeUserVersion at h
  exact (Except.ok.inj
    (execute_eq_ok (f := fun db => .ok (db.setUserVersion version)) h)).symm

/-- What a file without an items table becomes. -/
structure Created (db db' : Database) : Prop where
  created : ∃ db₁, db.createTable (v1Table itemsName createV1ItemsSql) = .ok db₁ ∧
    db' = db₁.setUserVersion 1
  accepted : Accepted createV1ItemsSql db'

theorem Created.find {db db' : Database} (h : Created db db') :
    db'.findTable itemsName = some (v1Table itemsName createV1ItemsSql) := by
  obtain ⟨db₁, hcreate, rfl⟩ := h.created
  rw [Database.findTable_setUserVersion]
  exact Database.findTable_createTable_self hcreate (by decide)

theorem Created.upgraded {db db' : Database} (h : Created db db')
    (hfree : db.findTable itemsName = none) : Upgraded db db' where
  version := by
    obtain ⟨db₁, _, rfl⟩ := h.created
    rfl
  accepted := h.accepted
  definition := ⟨_, _, h.find, deviceTable_v1Table _ _, rfl, rfl⟩
  rows := by
    have hcreated : deviceRows db' = List.map bindItem [] :=
      deviceRows_of_find h.find (deviceTable_v1Table _ _) rfl
    rw [hcreated, deviceRows, hfree]
    rfl

theorem createV1Items_eq_ok {w w' : World Database} {u : Unit}
    (h : createV1Items w = (.ok u, w')) : Created w.state w'.state := by
  obtain ⟨_, w₁, hcreate, h₁⟩ := bind_eq_ok.mp h
  obtain ⟨_, w₂, hversion, hvalidate⟩ := bind_eq_ok.mp h₁
  have hstate : w'.state = w₂.state := steady_validateV1Schema.readOnly.of_eq hvalidate
  exact {
    created := ⟨w₁.state, execute_eq_ok hcreate, hstate.trans (writeUserVersion_eq_ok hversion)⟩
    accepted := hstate ▸ validateV1Schema_eq_ok hvalidate }

theorem migrateItems_eq_ok {w w' : World Database} {u : Unit}
    (h : migrateItems w = (.ok u, w')) : Migrated w.state w'.state := by
  obtain ⟨items, w₁, hread, h₁⟩ := bind_eq_ok.mp h
  obtain ⟨_, w₂, hcreate, h₂⟩ := bind_eq_ok.mp h₁
  obtain ⟨_, w₃, hinsert, h₃⟩ := bind_eq_ok.mp h₂
  obtain ⟨count, w₄, hcount, h₄⟩ := bind_eq_ok.mp h₃
  obtain ⟨_, w₅, hverify, h₅⟩ := bind_eq_ok.mp h₄
  obtain ⟨_, w₆, hdrop, h₆⟩ := bind_eq_ok.mp h₅
  obtain ⟨_, w₇, hrename, h₇⟩ := bind_eq_ok.mp h₆
  obtain ⟨_, w₈, hversion, hvalidate⟩ := bind_eq_ok.mp h₇
  -- the rows read are the bound items
  obtain ⟨source, hsource, hstate₁, hdecode⟩ := readItems_eq_ok hread
  have hold : deviceRows w.state = items.map bindItem := by
    rw [deviceRows, hsource]
    exact eq_map_bindItem_of_mapM_decode (fun row hrow => length_of_mem_project hrow) hdecode
  -- the table created under the other name receives them
  have hfind₂ : w₂.state.findTable itemsV1Name = some (v1Table itemsV1Name
      (replaceFirst itemsName itemsV1Name createV1ItemsSql)) :=
    Database.findTable_createTable_self (execute_eq_ok hcreate) (by decide)
  obtain ⟨_, _, t, hfind₃, hsame, hrows⟩ := forM_insertItem_eq_ok hinsert hfind₂
  have hdistinct : (([] ++ items).map DatabaseItem.id).Nodup :=
    nodup_of_forM_insertItem hinsert hfind₂ (deviceTable_v1Table _ _) rfl List.nodup_nil
  have hstate₄ : w₄.state = w₃.state := by
    obtain ⟨_, _, _, hstate⟩ := selectFrom_eq_ok hcount
    exact hstate
  have hstate₅ : w₅.state = w₃.state := by
    rw [(require_eq_ok.mp hverify).2, hstate₄]
  -- and takes the place of the old one
  have hfind₆ : w₆.state.findTable itemsV1Name = some t := by
    rw [Database.findTable_dropTable_of_ne (execute_eq_ok hdrop) (by decide), hstate₅, hfind₃]
  have hfind₇ := Database.findTable_renameTable hfind₆ (execute_eq_ok hrename)
  have hstate₈ : w₈.state = w₇.state.setUserVersion 1 :=
    writeUserVersion_eq_ok hversion
  have hstate : w'.state = w₈.state := steady_validateV1Schema.readOnly.of_eq hvalidate
  have hfind : w'.state.findTable itemsName =
      some (Database.renamed itemsV1Name itemsName t) := by
    rw [hstate, hstate₈, Database.findTable_setUserVersion, hfind₇]
  have haccepted : Accepted createV1ItemsSql w'.state := hstate ▸ validateV1Schema_eq_ok hvalidate
  obtain ⟨t', sql, ht', hdevice, _, _⟩ := haccepted.table
  obtain rfl := Option.some.inj (hfind.symm.trans ht')
  exact {
    version := by rw [hstate, hstate₈, Database.userVersion_setUserVersion]
    accepted := haccepted
    definition := ⟨_, _, hfind, hdevice,
      congrArg (Option.map (Database.renameSql itemsV1Name itemsName)) hsame.sql, tokens_migrated⟩
    rows := by
      rw [hold]
      exact deviceRows_of_find hfind hdevice hrows
    filled := ⟨_, items, hfind, hsame.checks, hrows, validItem_of_readItems hread, hdistinct⟩ }

theorem createV1Schema_eq_ok {w w' : World Database} {u : Unit}
    (h : createV1Schema w = (.ok u, w')) : Created w.state w'.state := by
  obtain ⟨objects, w₁, hread, h₁⟩ := bind_eq_ok.mp h
  obtain ⟨_, w₂, hcheck, htransaction⟩ := bind_eq_ok.mp h₁
  obtain ⟨w₃, w₄, hstate₃, hbody, hstate⟩ := transaction_eq_ok htransaction
  have hsame : w₃.state = w.state := by
    rw [hstate₃, (require_eq_ok.mp hcheck).2, (select_eq_ok hread).2]
  rw [hstate, ← hsame]
  exact createV1Items_eq_ok hbody

theorem migrateUnversionedDeviceSchema_eq_ok {w w' : World Database} {u : Unit}
    (h : migrateUnversionedDeviceSchema w = (.ok u, w')) : Migrated w.state w'.state := by
  obtain ⟨_, w₁, hobjects, h₁⟩ := bind_eq_ok.mp h
  obtain ⟨_, w₂, hcolumns, h₂⟩ := bind_eq_ok.mp h₁
  obtain ⟨_, w₃, hsql, htransaction⟩ := bind_eq_ok.mp h₂
  obtain ⟨w₄, w₅, hstate₄, hbody, hstate⟩ := transaction_eq_ok htransaction
  have hsame : w₄.state = w.state := by
    rw [hstate₄, (steady_validateExactCreateSql _ _).readOnly.of_eq hsql,
      steady_validateDeviceColumns.readOnly.of_eq hcolumns,
      steady_validateOnlyItemsObject.readOnly.of_eq hobjects]
  rw [hstate, ← hsame]
  exact migrateItems_eq_ok hbody

theorem steady_rejectLegacyItems : rejectLegacyItems.Steady := by
  refine steady_bind (steady_select _) fun columns => ?_
  split
  · exact steady_bind (steady_readCreateSql _) fun _ => steady_requireSchema _ _
  · exact steady_pure ()

theorem tableExists_eq_ok {table : Bytes} {w w' : World Database} {b : Bool}
    (h : tableExists table w = (.ok b, w')) :
    b = (w.state.findTable table).isSome ∧ w'.state = w.state := by
  unfold tableExists at h
  exact select_eq_ok h

/-- Every way `Initialize` can end well. -/
inductive Initialized (db db' : Database) : Prop
  | accepted (version : db.userVersion = 1) (same : db' = db)
      (accepted : Accepted createV1ItemsSql db)
  | created (version : db.userVersion = 0) (free : db.findTable itemsName = none)
      (created : Created db db')
  | migrated (version : db.userVersion = 0) (found : db.findTable itemsName ≠ none)
      (migrated : Migrated db db')

theorem initializeFile_eq_ok {w w' : World Database} {u : Unit}
    (h : initializeFile w = (.ok u, w')) : Initialized w.state w'.state := by
  obtain ⟨version, w₁, hread, h₁⟩ := bind_eq_ok.mp h
  obtain ⟨rfl, hstate₁⟩ := select_eq_ok hread
  rw [← hstate₁] at h₁ ⊢
  unfold initializeVersion at h₁
  split at h₁
  · rename_i hversion
    exact .accepted hversion (steady_validateV1Schema.readOnly.of_eq h₁)
      (validateV1Schema_eq_ok h₁)
  · split at h₁
    · simp at h₁
    · rename_i hzero
      obtain ⟨found, w₂, hexists, h₂⟩ := bind_eq_ok.mp h₁
      obtain ⟨hfound, hstate₂⟩ := tableExists_eq_ok hexists
      rw [← hstate₂] at hzero hfound ⊢
      split at h₂
      · rename_i hmissing
        exact .created (not_not.mp hzero) (by simpa [hfound] using hmissing)
          (createV1Schema_eq_ok h₂)
      · rename_i hpresent
        obtain ⟨_, w₃, hlegacy, hmigrate⟩ := bind_eq_ok.mp h₂
        have hstate₃ := steady_rejectLegacyItems.readOnly.of_eq hlegacy
        exact .migrated (not_not.mp hzero) (by simpa [hfound] using hpresent)
          (hstate₃ ▸ migrateUnversionedDeviceSchema_eq_ok hmigrate)

theorem atomic_initializeFile : initializeFile.Atomic := by
  refine atomic_bind (readOnly_query _ _) fun version => ?_
  refine atomic_ite steady_validateV1Schema.readOnly.atomic ?_
  refine atomic_ite (readOnly_fail _).atomic ?_
  refine atomic_bind (readOnly_query _ _) fun found => ?_
  refine atomic_ite ?_ ?_
  · refine atomic_bind (readOnly_query _ _) fun objects => ?_
    exact atomic_bind (readOnly_require _ _) fun _ => atomic_transaction _ _
  · refine atomic_bind steady_rejectLegacyItems.readOnly fun _ => ?_
    refine atomic_bind steady_validateOnlyItemsObject.readOnly fun _ => ?_
    refine atomic_bind steady_validateDeviceColumns.readOnly fun _ => ?_
    exact atomic_bind (steady_validateExactCreateSql _ _).readOnly fun _ => atomic_transaction _ _

theorem returns_initializeFile_v1 {db : Database} (hversion : db.userVersion = 1)
    (haccepted : Accepted createV1ItemsSql db) : initializeFile.Returns db () db := by
  refine Returns.bind (returns_query _ _ db) ?_
  rw [initializeVersion, if_pos (show db.userVersion = currentSchemaVersion from hversion)]
  exact returns_validateV1Schema_iff.mpr haccepted

/-! ### A fresh file -/

theorem returns_execute {f : Database → Except Failure Database} {db db' : Database}
    (h : f db = .ok db') : (execute f).Returns db () db' :=
  returns_command (by rw [h]; rfl)

theorem returns_createV1Items {db db₁ : Database}
    (hcreate : db.createTable (v1Table itemsName createV1ItemsSql) = .ok db₁)
    (haccepted : Accepted createV1ItemsSql (db₁.setUserVersion 1)) :
    createV1Items.Returns db () (db₁.setUserVersion 1) := by
  have hversion : (writeUserVersion 1).Returns db₁ () (db₁.setUserVersion 1) :=
    returns_execute rfl
  exact (returns_execute hcreate).bind
    (hversion.bind (returns_validateV1Schema_iff.mpr haccepted))

/-- A file with no objects of a user becomes a v1 file. -/
theorem returns_createV1Schema {db db₁ : Database} (hobjects : userObjects db = [])
    (hcreate : db.createTable (v1Table itemsName createV1ItemsSql) = .ok db₁)
    (haccepted : Accepted createV1ItemsSql (db₁.setUserVersion 1)) :
    createV1Schema.Returns db () (db₁.setUserVersion 1) := by
  have hread : readUserObjects.Returns db (userObjects db) db := returns_query _ _ db
  exact hread.bind ((returns_requireSchema hobjects _ db).bind
    (returns_createV1Items hcreate haccepted).transaction)

/-- A fresh file after `Initialize`. -/
def freshDatabase : Database :=
  ⟨1, [Database.sequenceTable, v1Table itemsName createV1ItemsSql], []⟩

theorem accepted_freshDatabase : Accepted createV1ItemsSql freshDatabase where
  objects := by decide +kernel
  named := fun t ht => Option.some.inj ht ▸ quotableIndexes_items createV1ItemsSql
  table := ⟨_, createV1ItemsSql, rfl, deviceTable_v1Table _ _, rfl, rfl⟩

theorem returns_initializeFile_empty : initializeFile.Returns Database.empty () freshDatabase := by
  have hexists : (tableExists itemsName).Returns Database.empty false Database.empty := rfl
  have hcreate : Database.empty.createTable (v1Table itemsName createV1ItemsSql) =
      .ok ⟨0, [Database.sequenceTable, v1Table itemsName createV1ItemsSql], []⟩ := rfl
  refine Returns.bind (returns_query _ _ Database.empty) ?_
  exact hexists.bind (returns_createV1Schema rfl hcreate accepted_freshDatabase)

/-! ### The method -/

namespace SQLiteDatabase

theorem initializeDatabase_eq_ok {w w' : World SQLiteDatabase} {u : Unit}
    (h : initializeDatabase w = (.ok u, w')) :
    ∃ v, initializeFile ⟨w.state.database, w.faults⟩ = (.ok (), v) ∧
      w' = ⟨⟨v.state, true⟩, v.faults⟩ := by
  obtain ⟨_, w₁, hreset, h₁⟩ := bind_eq_ok.mp h
  obtain ⟨_, w₂, hfile, hset⟩ := bind_eq_ok.mp h₁
  obtain ⟨_, rfl⟩ := Prod.mk.inj hreset
  obtain ⟨v, hv, rfl⟩ := zoom_eq hfile
  exact ⟨v, hv, (Prod.mk.inj hset).2.symm⟩

theorem initializeDatabase_eq_error {w w' : World SQLiteDatabase} {e : StorageError}
    (h : initializeDatabase w = (.error e, w')) : w'.state = ⟨w.state.database, false⟩ := by
  rcases bind_eq_error.mp h with hreset | ⟨_, w₁, hreset, h₁⟩
  · cases hreset
  · obtain ⟨_, rfl⟩ := Prod.mk.inj hreset
    rcases bind_eq_error.mp h₁ with hfile | ⟨_, w₂, _, hset⟩
    · obtain ⟨v, hv, rfl⟩ := zoom_eq hfile
      have hstate : v.state = w.state.database := atomic_initializeFile _ _ _ hv
      rw [hstate]
    · cases hset

theorem returns_onFile {α : Type} {p : Sql α} {s : SQLiteDatabase} {a : α} {db' : Database}
    (h : p.Returns s.database a db') :
    (onFile p).Returns s a { s with database := db' } := by
  unfold onFile
  exact Returns.zoom h

theorem initializeDatabase_of_returns {db db' : Database} (h : initializeFile.Returns db () db')
    (initialized : Bool) :
    initializeDatabase.Returns ⟨db, initialized⟩ () ⟨db', true⟩ := by
  have hfile : (onFile initializeFile).Returns ⟨db, false⟩ () ⟨db', false⟩ := returns_onFile h
  exact (returns_modify _ _).bind (hfile.bind (returns_modify _ _))

theorem ensureInitialized_of_not {w : World SQLiteDatabase} (h : w.state.initialized = false) :
    ensureInitialized w = (.error notInitialized, w) := by
  refine (bind_of_ok (inspect_apply _ w)).trans ?_
  rw [h]
  rfl

/-- Before a successful `Initialize` an operation throws and touches nothing. -/
theorem operation_of_not_initialized {α : Type} {p : Sql α} {w : World SQLiteDatabase}
    (h : w.state.initialized = false) : operation p w = (.error notInitialized, w) :=
  bind_of_error (ensureInitialized_of_not h)

theorem call_of_not_initialized {c : Call} {w : World SQLiteDatabase}
    (hc : c ≠ .initializeDatabase) (h : w.state.initialized = false) :
    call c w = (.error notInitialized, w) := by
  cases c with
  | initializeDatabase => exact absurd rfl hc
  | addItem | upsertItem | getItem | getAllItems | replaceAll | getAllSortedById
  | containsItem | countItems | removeItem | clear =>
      exact bind_of_error (operation_of_not_initialized h)

/-- A call in an object that is not initialized either is a successful
`Initialize` or throws, leaving the file and the flag. -/
theorem call_error_of_not_initialized {c : Call} {w : World SQLiteDatabase}
    (h : w.state.initialized = false)
    (hfailed : c = .initializeDatabase → ∃ e, (call c w).1 = .error e) :
    (∃ e, (call c w).1 = .error e) ∧ (call c w).2.state = w.state := by
  by_cases hc : c = .initializeDatabase
  · subst hc
    obtain ⟨e, he⟩ := hfailed rfl
    refine ⟨⟨e, he⟩, ?_⟩
    rcases hcall : call .initializeDatabase w with ⟨r, w'⟩
    rw [hcall] at he
    subst he
    rcases bind_eq_error.mp hcall with hinit | ⟨_, _, _, hpure⟩
    · rw [initializeDatabase_eq_error hinit, ← h]
    · cases hpure
  · rw [call_of_not_initialized hc h]
    exact ⟨⟨_, rfl⟩, rfl⟩

/-- As long as no `Initialize` succeeds, every call throws. -/
theorem callAll_error_of_not_initialized {calls : List Call} {w : World SQLiteDatabase}
    (h : w.state.initialized = false)
    (hfailed : ∀ x ∈ (callAll w calls).1, x.1 = .initializeDatabase → ∃ e, x.2 = .error e) :
    ∀ x ∈ (callAll w calls).1, ∃ e, x.2 = .error e := by
  induction calls generalizing w with
  | nil => simp [callAll]
  | cons c calls ih =>
      have hfirst := call_error_of_not_initialized h (hfailed (c, (call c w).1) List.mem_cons_self)
      intro x hx
      rcases List.mem_cons.mp hx with rfl | hx
      · exact hfirst.1
      · exact ih (hfirst.2 ▸ h) (fun y hy => hfailed y (List.mem_cons_of_mem _ hy)) x hx

end SQLiteDatabase

end Watchlist.Storage
