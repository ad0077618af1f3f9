import Watchlist.Storage.Refinement
import Watchlist.Storage.ThrownErrors

/-!
What can refuse a device that the validators have accepted. The constraints of
the v1 table follow from them, so of its constraints only the unique index is
left; and what is bound is what is read back.
-/

namespace Watchlist.Storage

open Bytes Sqlite Faulty Faulty.Program

/-! ### One row -/

section Rows

variable {t : Table} {item : DatabaseItem}

/-- Only a row with the same id clashes with a device. -/
theorem DeviceTable.clash_bindItem (h : DeviceTable t) {cells : List Value}
    (hclash : t.clash cells (bindItem item) = true) :
    t.cell cells deviceIdName = .text item.id := by
  obtain ⟨ix, hix, hunique, hwhole, hcolumns⟩ := h.index
  have hcells : t.cell cells deviceIdName ≠ .null ∧
      t.cell cells deviceIdName = t.cell (bindItem item) deviceIdName := by
    simpa [Table.clash, hix, hunique, hwhole, hcolumns] using hclash
  rw [hcells.2, h.cell_deviceId]

theorem DeviceTable.insert_eq_error (h : DeviceTable t) (hchecks : t.checks = v1Checks)
    (hvalid : ValidItem item) {failure : Failure}
    (herror : t.insert (bindItem item) = .error failure) :
    failure = .unique ∧ ∃ r ∈ t.rows, t.cell r.cells deviceIdName = .text item.id := by
  unfold Table.insert at herror
  rw [h.meetsNotNull item, h.meetsChecks hchecks hvalid] at herror
  simp only [Bool.not_true, Bool.false_eq_true, if_false] at herror
  split at herror
  · rename_i hclash
    obtain ⟨r, hr, hclash⟩ := List.any_eq_true.mp hclash
    exact ⟨(Except.error.inj herror).symm, r, hr, h.clash_bindItem hclash⟩
  · cases herror

theorem DeviceTable.upsert_ne_error (h : DeviceTable t) (hchecks : t.checks = v1Checks)
    (hvalid : ValidItem item) (failure : Failure) :
    t.upsert deviceIdName (bindItem item) ≠ .error failure := by
  obtain ⟨ix, hix, hunique, hwhole, hcolumns⟩ := h.index
  have hkey : t.hasUniqueKey deviceIdName = true := by
    simp [Table.hasUniqueKey, hix, hunique, hwhole, hcolumns]
  intro herror
  unfold Table.upsert at herror
  rw [hkey, h.meetsNotNull item, h.meetsChecks hchecks hvalid] at herror
  simp only [Bool.not_true, Bool.false_eq_true, if_false] at herror
  split at herror
  · cases herror
  · rename_i hfree
    -- an insertion would clash with a row that the upsert overwrites
    obtain ⟨-, r, hr, hid⟩ := h.insert_eq_error hchecks hvalid herror
    apply hfree
    refine List.any_eq_true.mpr ⟨r, hr, ?_⟩
    rw [hid, h.cell_deviceId]
    exact beq_self_eq_true _

end Rows

/-! ### The operations -/

/-- The table is there, with the columns, the index and the checks of `CreateV1ItemsSql`. -/
def HasV1Constraints (table : Bytes) (db : Database) : Prop :=
  ∃ t, db.findTable table = some t ∧ DeviceTable t ∧ t.checks = v1Checks

/-- The table has a row with the device id. -/
def HasDeviceId (table : Bytes) (db : Database) (id : Bytes) : Prop :=
  ∃ t r, db.findTable table = some t ∧ r ∈ t.rows ∧ t.cell r.cells deviceIdName = .text id

/-- The unique index refuses a row. -/
def uniqueViolated : StorageError := .sqliteException .unique

section Operations

variable {table : Bytes} {w : World Database} {item : DatabaseItem}

theorem HasV1Constraints.setTable {db : Database} {t t' : Table} (ht : db.findTable table = some t)
    (hsame : SameDefinition t t') (h : HasV1Constraints table db) :
    HasV1Constraints table (db.setTable table t') := by
  obtain ⟨t₀, ht₀, hdevice, hchecks⟩ := h
  obtain rfl := Option.some.inj (ht.symm.trans ht₀)
  have hname : t'.name = table := hsame.name.trans (Database.findTable_name ht)
  exact ⟨t', Database.findTable_setTable_self ht hname, hsame.deviceTable hdevice,
    hsame.checks.trans hchecks⟩

theorem onlyThrows_insertItem (h : HasV1Constraints table w.state) (hvalid : ValidItem item) :
    OnlyThrows (fun e => e = interrupted ∨
      e = uniqueViolated ∧ HasDeviceId table w.state item.id) (insertItem table item) w := by
  obtain ⟨t, ht, hdevice, hchecks⟩ := h
  refine onlyThrows_execute (.inl rfl) fun failure hfailure => .inr ?_
  have hinsert := Database.eq_error_of_onTable ht hfailure
  obtain ⟨hunique, r, hr, hid⟩ := hdevice.insert_eq_error hchecks hvalid hinsert
  exact ⟨congrArg StorageError.sqliteException hunique, t, r, ht, hr, hid⟩

/-- Inserting leaves the definition of the table alone. -/
theorem HasV1Constraints.insertItem {w' : World Database} {u : Unit}
    (h : HasV1Constraints table w.state) (hrun : insertItem table item w = (.ok u, w')) :
    HasV1Constraints table w'.state := by
  obtain ⟨t, t', ht, hinsert, hstate⟩ := insertItem_eq_ok hrun
  rw [hstate]
  exact h.setTable ht (insert_eq_ok hinsert).1

theorem onlyThrows_forM_insertItem {items : List DatabaseItem}
    (h : HasV1Constraints table w.state) (hvalid : ∀ item ∈ items, ValidItem item) :
    OnlyThrows (fun e => e = interrupted ∨ e = uniqueViolated)
      (items.forM (insertItem table)) w := by
  induction items generalizing w with
  | nil => exact onlyThrows_pure _ w
  | cons item items ih =>
      obtain ⟨hitem, hitems⟩ := List.forall_mem_cons.mp hvalid
      show OnlyThrows _ (insertItem table item >>= fun _ => items.forM (insertItem table)) w
      refine OnlyThrows.bind ?_ fun _ w₁ hrun => ih (h.insertItem hrun) hitems
      exact (onlyThrows_insertItem h hitem).mono fun e he => he.imp_right And.left

theorem onlyThrows_upsert (h : HasV1Constraints itemsName w.state) (hvalid : ValidItem item) :
    OnlyThrows (fun e => e = interrupted)
      (execute fun db => db.onTable itemsName fun t => t.upsert deviceIdName (bindItem item)) w := by
  obtain ⟨t, ht, hdevice, hchecks⟩ := h
  refine onlyThrows_execute rfl fun failure hfailure => ?_
  exact absurd (Database.eq_error_of_onTable ht hfailure)
    (hdevice.upsert_ne_error hchecks hvalid failure)

theorem onlyThrows_deleteAll (h : HasV1Constraints itemsName w.state) :
    OnlyThrows (fun e => e = interrupted)
      (execute fun db => db.onTable itemsName fun t => .ok t.deleteAll) w := by
  obtain ⟨t, ht, -, -⟩ := h
  refine onlyThrows_execute rfl fun failure hfailure => ?_
  cases Database.eq_error_of_onTable ht hfailure

theorem HasV1Constraints.deleteAll {w' : World Database} {u : Unit}
    (h : HasV1Constraints itemsName w.state)
    (hrun : execute (fun db => db.onTable itemsName fun t => .ok t.deleteAll) w = (.ok u, w')) :
    HasV1Constraints itemsName w'.state := by
  obtain ⟨t, t', ht, hclear, hstate⟩ := Database.onTable_eq_ok (execute_eq_ok hrun)
  obtain rfl := Except.ok.inj hclear
  rw [hstate]
  exact h.setTable ht ⟨rfl, rfl, rfl, rfl, rfl⟩

end Operations

/-! ### The migration -/

/-- What a failing `CHECK` or `NOT NULL` throws. -/
def ConstraintFailed (e : StorageError) : Prop :=
  e = .sqliteException .check ∨ e = .sqliteException .notNull

section Migration

variable {w : World Database}

theorem not_constraintFailed_interrupted : ¬ConstraintFailed interrupted := by
  rintro (h | h) <;> cases h

theorem not_constraintFailed_syntaxError :
    ¬ConstraintFailed (.sqliteException .syntaxError) := by
  rintro (h | h) <;> cases h

theorem not_constraintFailed_schema (message : Bytes) :
    ¬ConstraintFailed (.databaseSchemaError message) := by
  rintro (h | h) <;> cases h

/-- A statement that fails in another way than by a constraint on a column. -/
theorem onlyThrows_execute_of {f : Database → Except Failure Database}
    (hcheck : f w.state ≠ .error .check) (hnull : f w.state ≠ .error .notNull) :
    OnlyThrows (fun e => ¬ConstraintFailed e) (execute f) w := by
  refine onlyThrows_execute not_constraintFailed_interrupted fun failure hfailure => ?_
  rintro (h | h)
  · cases h
    exact hcheck hfailure
  · cases h
    exact hnull hfailure

theorem createTable_ne_error (db : Database) (t : Table) :
    db.createTable t ≠ .error .check ∧ db.createTable t ≠ .error .notNull := by
  unfold Database.createTable
  split
  · exact ⟨nofun, nofun⟩
  · exact ⟨nofun, nofun⟩

theorem dropTable_ne_error (db : Database) (name : Bytes) :
    db.dropTable name ≠ .error .check ∧ db.dropTable name ≠ .error .notNull := by
  unfold Database.dropTable
  split
  · exact ⟨nofun, nofun⟩
  · exact ⟨nofun, nofun⟩

theorem renameTable_ne_error (db : Database) (old new : Bytes) :
    db.renameTable old new ≠ .error .check ∧ db.renameTable old new ≠ .error .notNull := by
  unfold Database.renameTable
  split
  · exact ⟨nofun, nofun⟩
  · split
    · exact ⟨nofun, nofun⟩
    · exact ⟨nofun, nofun⟩

/-- The table that the migration creates has the constraints. -/
theorem hasV1Constraints_of_createTable {db db' : Database} {name sql : Bytes}
    (hname : name ≠ Database.sequenceTable.name)
    (h : db.createTable (v1Table name sql) = .ok db') : HasV1Constraints name db' :=
  ⟨v1Table name sql, Database.findTable_createTable_self h hname, deviceTable_v1Table name sql, rfl⟩

theorem not_constraintFailed_migrateItems :
    OnlyThrows (fun e => ¬ConstraintFailed e) migrateItems w := by
  have hmissing : ¬ConstraintFailed (.sqliteException .noSuchTable) := by
    rintro (h | h) <;> cases h
  have hvalidation : ∀ field message,
      ¬ConstraintFailed (.databaseValidationError field message) := by
    rintro field message (h | h) <;> cases h
  refine (onlyThrows_readItems not_constraintFailed_interrupted hmissing hvalidation _ w).bind
    fun items w₁ hread => ?_
  obtain ⟨hcheck, hnull⟩ := createTable_ne_error w₁.state
    (v1Table itemsV1Name (replaceFirst itemsName itemsV1Name createV1ItemsSql))
  refine (onlyThrows_execute_of hcheck hnull).bind fun _ w₂ hcreate => ?_
  have hconstraints := hasV1Constraints_of_createTable (by decide) (execute_eq_ok hcreate)
  refine OnlyThrows.bind ?_ fun _ w₃ _ => ?_
  · refine (onlyThrows_forM_insertItem hconstraints (validItem_of_readItems hread)).mono ?_
    rintro e (rfl | rfl)
    · exact not_constraintFailed_interrupted
    · rintro (h | h) <;> cases h
  refine (onlyThrows_selectFrom not_constraintFailed_interrupted hmissing _ _ w₃).bind
    fun count w₄ _ => ?_
  refine (onlyThrows_requireSchema not_constraintFailed_schema _ _ w₄).bind fun _ w₅ _ => ?_
  obtain ⟨hcheck, hnull⟩ := dropTable_ne_error w₅.state itemsName
  refine (onlyThrows_execute_of hcheck hnull).bind fun _ w₆ _ => ?_
  obtain ⟨hcheck, hnull⟩ := renameTable_ne_error w₆.state itemsV1Name itemsName
  refine (onlyThrows_execute_of hcheck hnull).bind fun _ w₇ _ => ?_
  refine (onlyThrows_execute_of (f := fun db => .ok (db.setUserVersion 1)) nofun nofun).bind
    fun _ w₈ _ => ?_
  exact onlyThrows_validateV1Schema not_constraintFailed_interrupted not_constraintFailed_schema
    not_constraintFailed_syntaxError w₈

theorem not_constraintFailed_migrate :
    OnlyThrows (fun e => ¬ConstraintFailed e) migrateUnversionedDeviceSchema w := by
  refine (onlyThrows_validateOnlyItemsObject not_constraintFailed_interrupted
    not_constraintFailed_schema w).bind fun _ w₁ _ => ?_
  refine (onlyThrows_validateDeviceColumns not_constraintFailed_interrupted
    not_constraintFailed_schema not_constraintFailed_syntaxError w₁).bind fun _ w₂ _ => ?_
  refine (onlyThrows_validateExactCreateSql not_constraintFailed_interrupted
    not_constraintFailed_schema _ _ w₂).bind fun _ w₃ _ => ?_
  exact onlyThrows_transaction not_constraintFailed_interrupted
    fun _ _ => not_constraintFailed_migrateItems

end Migration

/-! ### Accepted devices -/

namespace SQLiteDatabase

/-- An operation of an initialized database throws what its program throws. -/
theorem onlyThrows_operation {α : Type} {E : StorageError → Prop} {p : Sql α}
    {w : World SQLiteDatabase} (hinitialized : w.state.initialized = true)
    (h : OnlyThrows E p ⟨w.state.database, w.faults⟩) : OnlyThrows E (operation p) w := by
  have hready : ensureInitialized w = (.ok ⟨⟩, w) := by
    refine (bind_of_ok (inspect_apply _ w)).trans ?_
    rw [hinitialized]
    rfl
  intro e w' hrun
  rw [operation, bind_of_ok hready] at hrun
  exact onlyThrows_zoom h e w' hrun

/-- A device that the validators accept meets every constraint on a column and is read back
as it is; in an initialized database only the unique index or SQLite itself refuses it, and
the migration meets no such constraint either. -/
theorem accepted_items_fit :
    (∀ item, ValidItem item → ∀ t, DeviceTable t → t.checks = v1Checks →
      t.meetsNotNull (bindItem item) = true ∧ t.meetsChecks (bindItem item) = true ∧
      decodeDatabaseItem (canonicalProjection.map (t.cell (bindItem item))) = .ok item) ∧
    (∀ w : World SQLiteDatabase, w.state.initialized = true →
      HasV1Constraints itemsName w.state.database →
      (∀ item, OnlyThrows (fun e => validateItem item = .error e ∨ e = interrupted ∨
        e = uniqueViolated ∧ HasDeviceId itemsName w.state.database item.id) (addItem item) w) ∧
      (∀ item, OnlyThrows (fun e => validateItem item = .error e ∨ e = interrupted)
        (upsertItem item) w) ∧
      ∀ items, OnlyThrows (fun e => validateItems items = .error e ∨ e = interrupted ∨
        e = uniqueViolated) (replaceAll items) w) ∧
    (∀ w : World Database,
      OnlyThrows (fun e => ¬ConstraintFailed e) migrateUnversionedDeviceSchema w) ∧
    ∀ (w : World Database) (items : List DatabaseItem), (∀ item ∈ items, ValidItem item) →
      HasV1Constraints itemsV1Name w.state →
      OnlyThrows (fun e => e = interrupted ∨ e = uniqueViolated)
        (items.forM (insertItem itemsV1Name)) w := by
  refine ⟨fun item hvalid t hdevice hchecks => ?_, fun w hinitialized hconstraints => ?_,
    fun w => not_constraintFailed_migrate, fun w items hvalid hconstraints => ?_⟩
  · refine ⟨hdevice.meetsNotNull item, hdevice.meetsChecks hchecks hvalid, ?_⟩
    rw [hdevice.projection item, decodeDatabaseItem_bindItem hvalid]
  · refine ⟨fun item => ?_, fun item => ?_, fun items => ?_⟩
    · refine onlyThrows_operation hinitialized ?_
      refine (onlyThrows_ofExcept (fun e he => .inl he) _).bind fun _ w₁ hcheck => ?_
      obtain ⟨hvalid, rfl⟩ := ofExcept_eq_ok.mp hcheck
      exact (onlyThrows_insertItem hconstraints hvalid).mono fun e he => .inr he
    · refine onlyThrows_operation hinitialized ?_
      refine (onlyThrows_ofExcept (fun e he => .inl he) _).bind fun _ w₁ hcheck => ?_
      obtain ⟨hvalid, rfl⟩ := ofExcept_eq_ok.mp hcheck
      exact (onlyThrows_upsert hconstraints hvalid).mono fun e he => .inr he
    · refine onlyThrows_operation hinitialized ?_
      refine (onlyThrows_ofExcept (fun e he => .inl he) _).bind fun _ w₁ hcheck => ?_
      obtain ⟨hvalid, rfl⟩ := ofExcept_eq_ok.mp hcheck
      refine onlyThrows_transaction (.inr (.inl rfl)) fun w₂ hstate => ?_
      have hconstraints : HasV1Constraints itemsName w₂.state := hstate ▸ hconstraints
      refine OnlyThrows.bind ?_ fun _ w₃ hclear => ?_
      · exact (onlyThrows_deleteAll hconstraints).mono fun e he => .inr (.inl he)
      · exact (onlyThrows_forM_insertItem (hconstraints.deleteAll hclear)
          (validateItems_eq_ok hvalid).1).mono fun e he => .inr he
  · exact onlyThrows_forM_insertItem hconstraints hvalid

end SQLiteDatabase

end Watchlist.Storage
