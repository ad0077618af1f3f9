import Watchlist.Library.FailStop
import Watchlist.Storage.Refinement

/-!
What a caller of the storage sees. Without failures of SQLite an initialized object
answers every call as the map of devices does, and throws only what the map refuses a
call with. Its programs stop at the first statement that fails, so with failures a call
does the same or throws SQLite's error, and then has done nothing. So the outcomes of
any calls are a run of the map, in which every answer is the map's and every throw has
its reason.
-/

namespace Watchlist.Storage

open Bytes Sqlite Faulty Faulty.Program

/-! ### What the map refuses -/

/-- Why the map refuses a call, and what it says. -/
inductive MapRefuses : DeviceMap → Call → StorageError → Prop
  | addItem {m : DeviceMap} {item : DatabaseItem} {e : StorageError}
      (h : m.addItem item = .error e) : MapRefuses m (.addItem item) e
  | upsertItem {m : DeviceMap} {item : DatabaseItem} {e : StorageError}
      (h : m.upsertItem item = .error e) : MapRefuses m (.upsertItem item) e
  | replaceAll (m : DeviceMap) {items : List DatabaseItem} {e : StorageError}
      (h : validateItems items = .error e) : MapRefuses m (.replaceAll items) e

/-- A refused `AddItem` is of an invalid item or of a taken id. -/
theorem addItem_eq_error {m : DeviceMap} {item : DatabaseItem} {e : StorageError}
    (h : m.addItem item = .error e) :
    validateItem item = .error e ∨
      ValidItem item ∧ m.containsItem item.id = true ∧ e = .sqliteException .unique := by
  unfold DeviceMap.addItem at h
  split at h
  · rename_i hinvalid
    exact .inl (Except.error.inj h ▸ hinvalid)
  · rename_i hvalid
    split at h
    · rename_i htaken
      exact .inr ⟨hvalid, htaken, (Except.error.inj h).symm⟩
    · cases h

theorem upsertItem_eq_error {m : DeviceMap} {item : DatabaseItem} {e : StorageError}
    (h : m.upsertItem item = .error e) : validateItem item = .error e := by
  unfold DeviceMap.upsertItem at h
  split at h
  · rename_i hinvalid
    exact Except.error.inj h ▸ hinvalid
  · cases h

/-! ### The programs without failures -/

section Programs

variable {db : Database} {m : DeviceMap} {item : DatabaseItem}

theorem throws_execute {f : Database → Except Failure Database} {failure : Failure}
    (h : f db = .error failure) : (execute f).Throws db (.sqliteException failure) :=
  throws_command (by rw [h]; rfl)

/-- A statement on the items table returns when it accepts the table of the devices. -/
theorem returns_onTable {f : Table → Except Failure Table} (hm : Represents db m)
    (hf : ∀ t items, ItemsTable t items → Lists items m → ∃ t', f t = .ok t') :
    ∃ db', (execute fun db => db.onTable itemsName f).Returns db () db' := by
  obtain ⟨t, items, ht, hitems, hlists⟩ := hm.table
  obtain ⟨t', ht'⟩ := hf t items hitems hlists
  refine ⟨db.setTable itemsName t', returns_command ?_⟩
  simp only [Database.onTable, ht, ht']
  rfl

theorem returns_insertItem (hm : Represents db m) (hvalid : ValidItem item)
    (hfree : m.containsItem item.id = false) :
    ∃ db', (insertItem itemsName item).Returns db () db' :=
  returns_onTable hm fun _ _ hitems hlists =>
    ⟨_, hitems.insert_ok hvalid (by rw [hlists.any_id, hfree])⟩

/-- The unique index refuses a device with a taken id. -/
theorem throws_insertItem (hm : Represents db m) (hvalid : ValidItem item)
    (htaken : m.containsItem item.id = true) :
    (insertItem itemsName item).Throws db (.sqliteException .unique) := by
  obtain ⟨t, items, ht, hitems, hlists⟩ := hm.table
  have hinsert : t.insert (bindItem item) = .error .unique :=
    hitems.insert_taken hvalid (by rw [hlists.any_id, htaken])
  refine throws_execute ?_
  simp only [Database.onTable, ht, hinsert]
  rfl

/-- The loop over valid devices whose ids are free and distinct. -/
theorem returns_forM_insertItem {items : List DatabaseItem} (hm : Represents db m)
    (hvalid : ∀ d ∈ items, ValidItem d) (hnodup : (items.map DatabaseItem.id).Nodup)
    (hfree : ∀ d ∈ items, m.containsItem d.id = false) :
    ∃ db', (items.forM (insertItem itemsName)).Returns db ⟨⟩ db' := by
  induction items generalizing db m with
  | nil => exact ⟨db, returns_pure _ _⟩
  | cons item items ih =>
      obtain ⟨hitem, hvalid⟩ := List.forall_mem_cons.mp hvalid
      obtain ⟨hfirst, hfree⟩ := List.forall_mem_cons.mp hfree
      obtain ⟨hnew, hnodup⟩ := List.nodup_cons.mp hnodup
      obtain ⟨db₁, hinsert⟩ := returns_insertItem hm hitem hfirst
      obtain ⟨-, hm₁⟩ := insertItem_represents (w := ⟨db, []⟩) hm hitem hinsert
      obtain ⟨db₂, hrest⟩ := ih hm₁ hvalid hnodup fun d hd => by
        have hne : d.id ≠ item.id := fun heq => hnew (heq ▸ List.mem_map_of_mem hd)
        rw [DeviceMap.containsItem_eq, DeviceMap.getItem_put, if_neg hne]
        exact hfree d hd
      exact ⟨db₂, hinsert.bind hrest⟩

theorem returns_deleteAll (hm : Represents db m) :
    ∃ db', (execute fun db => db.onTable itemsName fun t => .ok t.deleteAll).Returns db () db' :=
  returns_onTable (f := fun t => .ok t.deleteAll) hm fun _ _ _ _ => ⟨_, rfl⟩

theorem returns_selectFrom {α : Type} (f : Table → α) (hm : Represents db m) :
    ∃ a, (selectFrom itemsName f).Returns db a db := by
  obtain ⟨t, _, ht, _, _⟩ := hm.table
  exact ⟨f t, by simp [Returns, selectFrom, statement, ht]⟩

/-- Decoding accepts whatever the storage has written. -/
theorem returns_readItems {rows : Table → List Row} (hm : Represents db m)
    {g : List DatabaseItem → List DatabaseItem}
    (hselect : ∀ t items, ItemsTable t items → (rows t).map Row.cells = (g items).map bindItem)
    (hsub : ∀ items, ∀ d ∈ g items, d ∈ items) :
    ∃ items, (readItems rows).Returns db items db := by
  obtain ⟨t, items, ht, hitems, hlists⟩ := hm.table
  refine ⟨g items, ?_⟩
  have hfound : (selectFrom itemsName fun t => t.project canonicalProjection (rows t)).Returns db
      (t.project canonicalProjection (rows t)) db := by
    simp [Returns, selectFrom, statement, ht]
  refine hfound.bind (returns_ofExcept ?_ db)
  rw [hitems.device.project (hselect t items hitems)]
  exact mapM_decode_bindItem fun d hd => hlists.valid d (hsub items d hd)

theorem returns_deleteItem (id : Bytes) (hm : Represents db m) :
    ∃ found db', (deleteItem id).Returns db found db' := by
  obtain ⟨t, _, ht, _, _⟩ := hm.table
  refine ⟨!(t.rowsWhere deviceIdName (.text id)).isEmpty,
    db.setTable itemsName (t.deleteWhere deviceIdName (.text id)), ?_⟩
  simp [Returns, deleteItem, statement, ht]

end Programs

namespace SQLiteDatabase

/-! ### The calls without failures -/

section Answers

variable {s : SQLiteDatabase} {m : DeviceMap} {c : Call}

theorem ensureInitialized_returns (hs : s.initialized = true) :
    ensureInitialized.Returns s ⟨⟩ s :=
  (returns_inspect _ s).bind (returns_require hs _ s)

theorem returns_operation {α : Type} {p : Sql α} {a : α} {db : Database}
    (hs : s.initialized = true) (h : p.Returns s.database a db) :
    (operation p).Returns s a { s with database := db } :=
  (ensureInitialized_returns hs).bind h.zoom

theorem throws_operation {α : Type} {p : Sql α} {e : StorageError} (hs : s.initialized = true)
    (h : p.Throws s.database e) : (operation p).Throws s e :=
  (ensureInitialized_returns hs).throws (h.zoom fun _ => rfl)

/-- Without failures the call returns, or throws what the map refuses it with. -/
inductive Answered (s : SQLiteDatabase) (m : DeviceMap) (c : Call) : Prop
  | returns {reply : Reply} {s' : SQLiteDatabase} (h : (call c).Returns s reply s')
      (initialized : s'.initialized = true)
  | throws {e : StorageError} (h : (call c).Throws s e) (refuses : MapRefuses m c e)

/-- An operation answers when its program returns. -/
theorem answered_of_returns {α : Type} {p : Sql α} {f : α → Reply} {a : α} {db : Database}
    (hc : call c = f <$> operation p) (hs : s.initialized = true)
    (h : p.Returns s.database a db) : Answered s m c := by
  have hcall : (call c).Returns s (f a) { s with database := db } :=
    hc ▸ (returns_operation hs h).map f
  exact .returns hcall hs

theorem answered_of_throws {α : Type} {p : Sql α} {f : α → Reply} {e : StorageError}
    (hc : call c = f <$> operation p) (hs : s.initialized = true)
    (h : p.Throws s.database e) (hrefuses : MapRefuses m c e) : Answered s m c :=
  .throws (hc ▸ (throws_operation hs h).map f) hrefuses

variable (hs : s.initialized = true) (hm : Represents s.database m)

include hs hm

theorem addItem_answered (item : DatabaseItem) : Answered s m (.addItem item) := by
  cases hadd : m.addItem item with
  | ok m' =>
      obtain ⟨hvalid, hfree, -⟩ := DeviceMap.addItem_eq_ok hadd
      obtain ⟨db, hinsert⟩ := returns_insertItem hm hvalid
        (by rw [DeviceMap.containsItem_eq, hfree]; rfl)
      exact answered_of_returns rfl hs ((returns_ofExcept hvalid _).bind hinsert)
  | error e =>
      refine answered_of_throws rfl hs ?_ (.addItem hadd)
      rcases addItem_eq_error hadd with hinvalid | ⟨hvalid, htaken, rfl⟩
      · exact (throws_ofExcept hinvalid _).bind _
      · exact (returns_ofExcept hvalid _).throws (throws_insertItem hm hvalid htaken)

theorem upsertItem_answered (item : DatabaseItem) : Answered s m (.upsertItem item) := by
  cases hupsert : m.upsertItem item with
  | ok m' =>
      obtain ⟨hvalid, -⟩ := DeviceMap.upsertItem_eq_ok hupsert
      obtain ⟨db, hexecute⟩ := returns_onTable
        (f := fun t => t.upsert deviceIdName (bindItem item)) hm
        fun t items hitems _ => hitems.upsert_ok hvalid
      exact answered_of_returns rfl hs ((returns_ofExcept hvalid _).bind hexecute)
  | error e =>
      refine answered_of_throws rfl hs ?_ (.upsertItem hupsert)
      exact (throws_ofExcept (upsertItem_eq_error hupsert) _).bind _

theorem replaceAll_answered (items : List DatabaseItem) : Answered s m (.replaceAll items) := by
  cases hcheck : validateItems items with
  | ok u =>
      obtain ⟨hvalid, hnodup⟩ := validateItems_eq_ok hcheck
      obtain ⟨db₁, hclear⟩ := returns_deleteAll hm
      have hempty : Represents db₁ .empty := clear_represents (w := ⟨s.database, []⟩) hm hclear
      obtain ⟨db₂, hinsert⟩ := returns_forM_insertItem hempty hvalid hnodup fun _ _ => rfl
      exact answered_of_returns rfl hs
        ((returns_ofExcept hcheck _).bind (hclear.bind hinsert).transaction)
  | error e =>
      exact answered_of_throws rfl hs ((throws_ofExcept hcheck _).bind _) (.replaceAll m hcheck)

theorem getItem_answered (id : Bytes) : Answered s m (.getItem id) := by
  have hselect : ∀ t items, ItemsTable t items →
      ((t.rowsWhere deviceIdName (.text id)).take 1).map Row.cells =
        ((items.filter fun d => d.id = id).take 1).map bindItem := fun t items hitems => by
    rw [List.map_take, hitems.rowsWhere, ← List.map_take]
  obtain ⟨items, hread⟩ := returns_readItems hm hselect fun items d hd =>
    List.mem_of_mem_filter (List.mem_of_mem_take hd)
  exact answered_of_returns rfl hs (hread.bind (returns_pure _ _))

theorem getAllItems_answered : Answered s m .getAllItems := by
  obtain ⟨items, hread⟩ := returns_readItems (g := fun items => items) hm
    (fun t items hitems => hitems.rows) (fun items d hd => hd)
  exact answered_of_returns rfl hs hread

theorem getAllSortedById_answered : Answered s m .getAllSortedById := by
  obtain ⟨items, hread⟩ := returns_readItems
    (g := List.insertionSort fun a b => a.id ≤ b.id) hm
    (fun t items hitems => hitems.rowsBy)
    (fun items d hd => (List.perm_insertionSort _ items).mem_iff.mp hd)
  exact answered_of_returns rfl hs hread

/-- Without failures every operation of an initialized object is answered. -/
theorem call_answered (hc : c ≠ .initializeDatabase) : Answered s m c := by
  cases c with
  | initializeDatabase => exact absurd rfl hc
  | addItem item => exact addItem_answered hs hm item
  | upsertItem item => exact upsertItem_answered hs hm item
  | replaceAll items => exact replaceAll_answered hs hm items
  | getItem id => exact getItem_answered hs hm id
  | getAllItems => exact getAllItems_answered hs hm
  | getAllSortedById => exact getAllSortedById_answered hs hm
  | containsItem id | countItems =>
      obtain ⟨a, hread⟩ := returns_selectFrom _ hm
      exact answered_of_returns rfl hs hread
  | removeItem id =>
      obtain ⟨found, db, hdelete⟩ := returns_deleteItem id hm
      exact answered_of_returns rfl hs hdelete
  | clear =>
      obtain ⟨db, hclear⟩ := returns_deleteAll hm
      exact answered_of_returns rfl hs hclear

end Answers

end SQLiteDatabase

/-! ### The programs stop at the first statement that fails -/

theorem failStop_select {α : Type} (f : Database → α) : FailStop interrupted (select f) :=
  failStop_query f

theorem failStop_selectFrom {α : Type} (table : Bytes) (f : Table → α) :
    FailStop interrupted (selectFrom table f) := failStop_statement _

theorem failStop_execute (f : Database → Except Failure Database) :
    FailStop interrupted (execute f) := failStop_command _

theorem failStop_requireSchema (c : Prop) [Decidable c] (message : String) :
    FailStop interrupted (requireSchema c message) := failStop_require _ _

theorem failStop_readItems (rows : Table → List Row) : FailStop interrupted (readItems rows) :=
  (failStop_selectFrom _ _).bind fun _ => failStop_ofExcept _

theorem failStop_readCreateSql (table : Bytes) : FailStop interrupted (readCreateSql table) := by
  refine (failStop_select _).bind fun sql => ?_
  cases sql with
  | none => exact failStop_fail _
  | some sql => exact failStop_pure sql

theorem failStop_validateOnlyItemsObject : FailStop interrupted validateOnlyItemsObject :=
  (failStop_select _).bind fun _ => failStop_requireSchema _ _

theorem failStop_validateIndexes (indexes : List Index) :
    FailStop interrupted (validateIndexes indexes) := by
  induction indexes with
  | nil => exact failStop_pure ()
  | cons index rest ih =>
      refine (failStop_requireSchema _ _).bind fun _ => ?_
      refine FailStop.bind (failStop_statement _) fun _ => ?_
      exact (failStop_requireSchema _ _).bind fun _ => ih

theorem failStop_validateDeviceColumns : FailStop interrupted validateDeviceColumns := by
  refine (failStop_select _).bind fun _ => (failStop_requireSchema _ _).bind fun _ => ?_
  refine (failStop_select _).bind fun indexes => ?_
  exact (failStop_validateIndexes indexes).bind fun _ => failStop_requireSchema _ _

theorem failStop_validateExactCreateSql (expected schemaName : Bytes) :
    FailStop interrupted (validateExactCreateSql expected schemaName) :=
  (failStop_readCreateSql _).bind fun _ => failStop_require _ _

theorem failStop_validateV1Schema : FailStop interrupted validateV1Schema := by
  refine failStop_validateOnlyItemsObject.bind fun _ => ?_
  exact failStop_validateDeviceColumns.bind fun _ => failStop_validateExactCreateSql _ _

theorem failStop_createV1Schema : FailStop interrupted createV1Schema := by
  refine (failStop_select _).bind fun _ => (failStop_requireSchema _ _).bind fun _ => ?_
  apply FailStop.transaction
  refine (failStop_execute _).bind fun _ => (failStop_execute _).bind fun _ => ?_
  exact failStop_validateV1Schema

theorem failStop_migrateItems : FailStop interrupted migrateItems := by
  refine (failStop_readItems _).bind fun _ => (failStop_execute _).bind fun _ => ?_
  refine (FailStop.forM (fun _ => failStop_execute _) _).bind fun _ => ?_
  refine (failStop_selectFrom _ _).bind fun _ => (failStop_requireSchema _ _).bind fun _ => ?_
  refine (failStop_execute _).bind fun _ => (failStop_execute _).bind fun _ => ?_
  exact (failStop_execute _).bind fun _ => failStop_validateV1Schema

theorem failStop_migrateUnversionedDeviceSchema :
    FailStop interrupted migrateUnversionedDeviceSchema := by
  refine failStop_validateOnlyItemsObject.bind fun _ => ?_
  refine failStop_validateDeviceColumns.bind fun _ => ?_
  exact (failStop_validateExactCreateSql _ _).bind fun _ => failStop_migrateItems.transaction

theorem failStop_rejectLegacyItems : FailStop interrupted rejectLegacyItems := by
  refine (failStop_select _).bind fun columns => FailStop.ite ?_ (failStop_pure ())
  exact (failStop_readCreateSql _).bind fun _ => failStop_requireSchema _ _

theorem failStop_initializeFile : FailStop interrupted initializeFile := by
  refine (failStop_select _).bind fun version => ?_
  refine FailStop.ite failStop_validateV1Schema (FailStop.ite (failStop_fail _) ?_)
  refine (failStop_select _).bind fun found => FailStop.ite failStop_createV1Schema ?_
  exact failStop_rejectLegacyItems.bind fun _ => failStop_migrateUnversionedDeviceSchema

namespace SQLiteDatabase

theorem failStop_operation {α : Type} {p : Sql α} (hp : FailStop interrupted p) :
    FailStop interrupted (operation p) :=
  ((failStop_inspect _).bind fun _ => failStop_require _ _).bind fun _ => hp.zoom

theorem failStop_initializeDatabase : FailStop interrupted initializeDatabase :=
  (failStop_modify _).bind fun _ => failStop_initializeFile.zoom.bind fun _ => failStop_modify _

theorem failStop_call (c : Call) : FailStop interrupted (call c) := by
  have hinsert : ∀ d, FailStop interrupted (insertItem itemsName d) := fun _ => failStop_execute _
  cases c with
  | initializeDatabase => exact failStop_initializeDatabase.map _
  | addItem item | upsertItem item =>
      refine (failStop_operation ?_).map _
      exact (failStop_ofExcept _).bind fun _ => failStop_execute _
  | replaceAll items =>
      refine (failStop_operation ?_).map _
      refine (failStop_ofExcept _).bind fun _ => FailStop.transaction ?_
      exact (failStop_execute _).bind fun _ => FailStop.forM hinsert _
  | getItem id =>
      refine (failStop_operation ?_).map _
      exact (failStop_readItems _).bind fun _ => failStop_pure _
  | getAllItems | getAllSortedById => exact (failStop_operation (failStop_readItems _)).map _
  | containsItem id | countItems => exact (failStop_operation (failStop_selectFrom _ _)).map _
  | removeItem id => exact (failStop_operation (failStop_statement _)).map _
  | clear => exact (failStop_operation (failStop_execute _)).map _

/-! ### What a call leaves of the object -/

section Leaves

variable {w w' : World SQLiteDatabase} {c : Call} {r : Except StorageError Reply}

theorem operation_leaves {α : Type} {p : Sql α} {f : α → Reply} (hp : p.Atomic)
    (hrows : ChangesRows p) (h : (f <$> operation p) w = (r, w')) :
    w'.state.initialized = w.state.initialized ∧
      RowsOnly w.state.database w'.state.database := by
  rcases operation_cases hp h with ⟨e, -, hstate⟩ | ⟨a, v, -, hv, hstate⟩
  · rw [hstate]
    exact ⟨rfl, .refl _⟩
  · rw [hstate]
    exact ⟨rfl, hrows _ _ _ hv⟩

/-- An operation leaves the flag, and of the file everything but the rows of the table. -/
theorem call_leaves (hc : c ≠ .initializeDatabase) (h : call c w = (r, w')) :
    w'.state.initialized = w.state.initialized ∧
      RowsOnly w.state.database w'.state.database := by
  have hchecked {r : Except StorageError Unit} {p : Sql Unit} (hp : ChangesRows p) :
      ChangesRows (do ofExcept r; p) :=
    (changesRows_of_readOnly (readOnly_ofExcept r)).bind fun _ => hp
  have hreads {α : Type} {p : Sql α} {f : α → Reply} (hp : p.ReadOnly)
      (h : (f <$> operation p) w = (r, w')) :=
    operation_leaves hp.atomic (changesRows_of_readOnly hp) h
  cases c with
  | initializeDatabase => exact absurd rfl hc
  | addItem item =>
      exact operation_leaves (atomic_bind (readOnly_ofExcept _) fun _ => atomic_execute _)
        (hchecked (changesRows_insertItem item)) h
  | upsertItem item =>
      exact operation_leaves (atomic_bind (readOnly_ofExcept _) fun _ => atomic_execute _)
        (hchecked (changesRows_onTable fun _ _ => sameDefinition_upsert)) h
  | replaceAll items =>
      refine operation_leaves (atomic_bind (readOnly_ofExcept _) fun _ => atomic_transaction _ _)
        (hchecked ?_) h
      exact (changesRows_deleteAll.bind fun _ => .forM changesRows_insertItem items).transaction
  | getItem id => exact hreads (readOnly_bind (readOnly_readItems _) fun _ => readOnly_pure _) h
  | getAllItems | getAllSortedById => exact hreads (readOnly_readItems _) h
  | containsItem id | countItems => exact hreads (readOnly_selectFrom _ _) h
  | removeItem id => exact operation_leaves (atomic_statement _ _) (changesRows_deleteItem id) h
  | clear => exact operation_leaves (atomic_execute _) changesRows_deleteAll h

end Leaves

end SQLiteDatabase

/-! ### The outcomes of calls -/

/-- What the object is to its callers: whether `Initialize` has succeeded, and the devices. -/
structure DeviceStore where
  ready : Bool
  map : DeviceMap

/-- The store takes the call. -/
def DeviceStore.Takes (d : DeviceStore) (c : Call) : Prop :=
  d.ready = true ∨ c = .initializeDatabase

/-- The outcome of a call, and the store after it; `failed` says whether a statement of
the call has failed. -/
inductive Outcome :
    Bool → DeviceStore → Call → Except StorageError Reply → DeviceStore → Prop
  | returned {d : DeviceStore} {c : Call} {reply : Reply} {m : DeviceMap} (takes : d.Takes c)
      (step : MapStep d.map c reply m) : Outcome false d c (.ok reply) ⟨true, m⟩
  | refused {d : DeviceStore} {c : Call} {e : StorageError} (ready : d.ready = true)
      (refuses : MapRefuses d.map c e) : Outcome false d c (.error e) d
  | notInitialized {d : DeviceStore} {c : Call} (takes : ¬d.Takes c) :
      Outcome false d c (.error SQLiteDatabase.notInitialized) d
  /-- an `Initialize` that fails leaves the object without its operations -/
  | failed {d : DeviceStore} {c : Call} (takes : d.Takes c) :
      Outcome true d c (.error interrupted) ⟨c ≠ .initializeDatabase, d.map⟩

/-- The outcomes of calls in order, with the flags of the statements they issue. -/
inductive MapRun : DeviceStore → List Bool → List (Call × Except StorageError Reply) →
    DeviceStore → List Bool → Prop
  | nil (d : DeviceStore) (faults : List Bool) : MapRun d faults [] d faults
  | cons {d d' d'' : DeviceStore} {faults rest rest' : List Bool} {failed : Bool} {c : Call}
      {r : Except StorageError Reply} {outcomes : List (Call × Except StorageError Reply)}
      (issued : Issued failed faults rest) (outcome : Outcome failed d c r d')
      (run : MapRun d' rest outcomes d'' rest') :
      MapRun d faults ((c, r) :: outcomes) d'' rest'

namespace SQLiteDatabase

/-- The object is the store: its file holds the devices in a table that `Initialize` accepts. -/
structure Stores (s : SQLiteDatabase) (d : DeviceStore) : Prop where
  initialized : s.initialized = d.ready
  holds : Represents s.database d.map
  accepted : Accepted createV1ItemsSql s.database

variable {w w' : World SQLiteDatabase} {d : DeviceStore} {c : Call}
  {r : Except StorageError Reply}

/-- A call has an outcome of the store, and leaves it as the outcome says. -/
def HasOutcome (w : World SQLiteDatabase) (d : DeviceStore) (c : Call)
    (r : Except StorageError Reply) (w' : World SQLiteDatabase) : Prop :=
  ∃ failed d', Issued failed w.faults w'.faults ∧ Outcome failed d c r d' ∧ Stores w'.state d'

theorem initializeDatabase_outcome (h : Stores w.state d)
    (hcall : call .initializeDatabase w = (r, w')) :
    HasOutcome w d .initializeDatabase r w' := by
  have hreturns : (call .initializeDatabase).Returns w.state .done ⟨w.state.database, true⟩ :=
    (initializeDatabase_of_returns (returns_initializeFile_v1 h.holds.version h.accepted)
      w.state.initialized).map _
  rcases (failStop_call .initializeDatabase).of_returns hreturns with
    ⟨rest, hrun, hissued⟩ | ⟨w₁, hrun, hissued⟩
  · obtain ⟨rfl, rfl⟩ := Prod.mk.inj (hcall.symm.trans hrun)
    exact ⟨false, ⟨true, d.map⟩, hissued, .returned (.inr rfl) (.initializeDatabase _),
      rfl, h.holds, h.accepted⟩
  · obtain ⟨rfl, rfl⟩ := Prod.mk.inj (hcall.symm.trans hrun)
    have hstate : w'.state = ⟨w.state.database, false⟩ := by
      rcases bind_eq_error.mp hcall with hinit | ⟨_, _, _, hpure⟩
      · exact initializeDatabase_eq_error hinit
      · cases hpure
    refine ⟨true, _, hissued, .failed (.inr rfl), ?_⟩
    rw [hstate]
    exact ⟨rfl, h.holds, h.accepted⟩

/-- A failing statement leaves the operation undone. -/
theorem failed_outcome (h : Stores w.state d) (hready : d.ready = true)
    (hc : c ≠ .initializeDatabase) (hcall : call c w = (.error interrupted, w'))
    (hissued : Issued true w.faults w'.faults) : HasOutcome w d c (.error interrupted) w' := by
  obtain ⟨hinitialized, hrows⟩ := call_leaves hc hcall
  have hholds : Represents w'.state.database d.map := by
    rcases call_refined h.holds hcall with ⟨_, _, hholds⟩ | ⟨_, _, hok, _⟩
    · exact hholds
    · cases hok
  refine ⟨true, _, hissued, .failed (.inl hready), ?_, hholds, h.accepted.of_rowsOnly hrows⟩
  rw [hinitialized, h.initialized, hready]
  simp [hc]

theorem operation_outcome (h : Stores w.state d) (hready : d.ready = true)
    (hc : c ≠ .initializeDatabase) (hcall : call c w = (r, w')) : HasOutcome w d c r w' := by
  cases call_answered (h.initialized.trans hready) h.holds hc with
  | @returns reply s' hreturns hinitialized =>
      rcases (failStop_call c).of_returns hreturns with ⟨rest, hrun, hissued⟩ | ⟨w₁, hrun, hissued⟩
      · obtain ⟨rfl, rfl⟩ := Prod.mk.inj (hcall.symm.trans hrun)
        rcases call_refined h.holds hcall with ⟨_, herror, _⟩ | ⟨reply', m', hok, hstep, hholds⟩
        · cases herror
        · obtain rfl := Except.ok.inj hok
          exact ⟨false, ⟨true, m'⟩, hissued, .returned (.inl hready) hstep, hinitialized, hholds,
            h.accepted.of_rowsOnly (call_leaves hc hcall).2⟩
      · obtain ⟨rfl, rfl⟩ := Prod.mk.inj (hcall.symm.trans hrun)
        exact failed_outcome h hready hc hcall hissued
  | throws hthrows hrefuses =>
      rcases (failStop_call c).of_throws hthrows with ⟨rest, hrun, hissued⟩ | ⟨w₁, hrun, hissued⟩
      · obtain ⟨rfl, rfl⟩ := Prod.mk.inj (hcall.symm.trans hrun)
        exact ⟨false, d, hissued, .refused hready hrefuses, h⟩
      · obtain ⟨rfl, rfl⟩ := Prod.mk.inj (hcall.symm.trans hrun)
        exact failed_outcome h hready hc hcall hissued

/-- The step lemma of the refinement. -/
theorem call_outcome (h : Stores w.state d) (hcall : call c w = (r, w')) :
    HasOutcome w d c r w' := by
  by_cases hc : c = .initializeDatabase
  · subst hc
    exact initializeDatabase_outcome h hcall
  · cases hready : d.ready with
    | true => exact operation_outcome h hready hc hcall
    | false =>
        have hnot : ¬d.Takes c := by
          rintro (htakes | htakes)
          · rw [hready] at htakes
            cases htakes
          · exact hc htakes
        obtain ⟨rfl, rfl⟩ := Prod.mk.inj
          (hcall.symm.trans (call_of_not_initialized hc (h.initialized.trans hready)))
        exact ⟨false, d, .refl _, .notInitialized hnot, h⟩

/-- The run lemma: the outcomes of any calls are a run of the map. -/
theorem callAll_outcomes {calls : List Call} (h : Stores w.state d) :
    ∃ d', MapRun d w.faults (callAll w calls).1 d' (callAll w calls).2.faults ∧
      Stores (callAll w calls).2.state d' := by
  induction calls generalizing w d with
  | nil => exact ⟨d, .nil d w.faults, h⟩
  | cons c calls ih =>
      rcases hcall : call c w with ⟨r, w₁⟩
      have hall : callAll w (c :: calls) =
          ((c, r) :: (callAll w₁ calls).1, (callAll w₁ calls).2) := by simp [callAll, hcall]
      rw [hall]
      obtain ⟨failed, d₁, hissued, houtcome, hd₁⟩ := call_outcome h hcall
      obtain ⟨d', hrun, hd'⟩ := ih hd₁
      exact ⟨d', .cons hissued houtcome hrun, hd'⟩

theorem stores_of_initialized_empty {db : Database} (h : Initialized Database.empty db) :
    Stores ⟨db, true⟩ ⟨true, .empty⟩ := by
  refine ⟨rfl, represents_of_initialized_empty h, ?_⟩
  cases h with
  | accepted _ hsame haccepted => exact hsame ▸ haccepted
  | created _ _ hcreated => exact hcreated.accepted
  | migrated _ _ hmigrated => exact hmigrated.accepted

/-- After a successful `Initialize` of a fresh file, whatever statements fail, any calls
behave as the operations of a map that starts empty: each answers as the map does, or
throws because the map refuses it, because one of its own statements has failed, or
because a later `Initialize` has. -/
theorem sqliteDatabase_refines_deviceMap {initialized : Bool} {faults : List Bool} {u : Unit}
    (h : initializeDatabase ⟨⟨Database.empty, initialized⟩, faults⟩ = (.ok u, w))
    (calls : List Call) :
    ∃ d, MapRun ⟨true, .empty⟩ w.faults (callAll w calls).1 d (callAll w calls).2.faults ∧
      Stores (callAll w calls).2.state d := by
  obtain ⟨v, hv, rfl⟩ := initializeDatabase_eq_ok h
  exact callAll_outcomes (stores_of_initialized_empty (initializeFile_eq_ok hv))

theorem sqliteDatabase_refines_deviceMap_fresh :
    ∃ d, MapRun ⟨true, .empty⟩ [] (callAll ⟨⟨freshDatabase, true⟩, []⟩
        [.addItem ⟨ascii "a", ascii "A", ascii "10.0.0.1", 80, true⟩, .removeItem (ascii "b")]).1 d
        (callAll ⟨⟨freshDatabase, true⟩, []⟩
          [.addItem ⟨ascii "a", ascii "A", ascii "10.0.0.1", 80, true⟩,
            .removeItem (ascii "b")]).2.faults ∧
      Stores (callAll ⟨⟨freshDatabase, true⟩, []⟩
        [.addItem ⟨ascii "a", ascii "A", ascii "10.0.0.1", 80, true⟩,
          .removeItem (ascii "b")]).2.state d :=
  sqliteDatabase_refines_deviceMap
    (initializeDatabase_of_returns returns_initializeFile_empty false) _

end SQLiteDatabase

end Watchlist.Storage
