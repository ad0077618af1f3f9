import Watchlist.Storage.SchemaErrors

/-!
The objects that `Initialize` sees and those that it should see. It looks at the
names that are not `LIKE 'sqlite_%'`, where the underscore stands for any
character, so the names that start with `sqlite` and some other character escape
it. Nothing else does: with no such object in the file, `Initialize` returns only
on a file of the contract and refuses every other one. With one, it returns if the
file passes the checks, and lets SQLite's own error out if they come to an index
whose name does not stand between quotes.
-/

namespace Watchlist.Storage

open Bytes Sqlite Faulty Faulty.Program

/-! ### Names -/

/-- The name is one that SQLite keeps for itself. -/
def reserved (name : Bytes) : Bool := (name.take 7).map toLower = ascii "sqlite_"

/-- The name is not one that `ReadUserObjects` lists. -/
def skipped (name : Bytes) : Bool := like (ascii "sqlite_%") name

/-- The pattern asks for six letters and any one character. -/
theorem skipped_iff {name : Bytes} :
    skipped name = true ↔ (name.take 6).map toLower = ascii "sqlite" ∧ 7 ≤ name.length := by
  have hpattern : ascii "sqlite_%" = ascii "sqlite" ++ [95, 37] := by decide
  have hletters : (ascii "sqlite").length = 6 ∧ (ascii "sqlite").map toLower = ascii "sqlite" := by
    decide
  have hplain : ∀ p ∈ ascii "sqlite", p ≠ 37 ∧ p ≠ 95 := by decide +kernel
  rw [skipped, hpattern, like_append hplain, like_any, hletters.1, hletters.2,
    ← List.length_pos_iff, List.length_drop]
  constructor
  · rintro ⟨-, hsame, hlength⟩
    exact ⟨hsame, by omega⟩
  · rintro ⟨hsame, hlength⟩
    exact ⟨by omega, hsame, by omega⟩

/-- What SQLite keeps for itself is skipped. -/
theorem skipped_of_reserved {name : Bytes} (h : reserved name = true) : skipped name = true := by
  have hname := of_decide_eq_true h
  have htake : (name.take 7).length = 7 := by
    rw [← List.length_map (f := toLower), hname]
    decide
  rw [List.length_take] at htake
  refine skipped_iff.mpr ⟨?_, by omega⟩
  have hsix : name.take 6 = (name.take 7).take 6 := by rw [List.take_take]; rfl
  rw [hsix, List.map_take, hname]
  decide

/-- An object of a user that `ReadUserObjects` does not list. -/
def Hidden (db : Database) : Prop :=
  ∃ o ∈ db.master, skipped o.2 = true ∧ reserved o.2 = false

/-- The tables, views and triggers with names that are not reserved. -/
def contractObjects (db : Database) : List (Bytes × Bytes) :=
  db.master.filter fun o => !reserved o.2

/-- Fresh, or nothing but the items table. -/
def OfContract (db : Database) : Prop :=
  contractObjects db = [] ∧ db.userVersion = 0 ∨
    contractObjects db = [(ascii "table", itemsName)]

/-! ### What is listed -/

/-- The objects that are listed, in the order of the file. -/
def listed (db : Database) : List (Bytes × Bytes) := db.master.filter fun o => !skipped o.2

def listedTables (db : Database) : List Bytes :=
  (db.tables.map Table.name).filter fun name => !skipped name

def listedOthers (db : Database) : List Object := db.others.filter fun o => !skipped o.name

theorem kind_of_mem_master {db : Database} {o : Bytes × Bytes} (h : o ∈ db.master) :
    o.1 = ascii "table" ∨ o.1 = ascii "view" ∨ o.1 = ascii "trigger" := by
  rcases List.mem_append.mp h with h | h
  · obtain ⟨t, -, rfl⟩ := List.mem_map.mp h
    exact .inl rfl
  · obtain ⟨x, -, rfl⟩ := List.mem_map.mp h
    cases hkind : x.kind with
    | view => exact .inr (.inl rfl)
    | trigger => exact .inr (.inr rfl)

theorem userObjects_eq_nil {db : Database} : userObjects db = [] ↔ listed db = [] := by
  rw [userObjects, ← List.length_eq_zero_iff, List.length_insertionSort, List.length_map,
    List.length_eq_zero_iff]
  rfl

theorem userObjects_eq_items {db : Database} :
    userObjects db = [ascii "table:items"] ↔ listed db = [(ascii "table", itemsName)] := by
  have hperm : (userObjects db).Perm ((listed db).map fun o => o.1 ++ ascii ":" ++ o.2) :=
    List.perm_insertionSort _ _
  constructor
  · intro h
    rw [h] at hperm
    have hmap := List.singleton_perm.mp hperm
    obtain ⟨o, rest, hlisted⟩ : ∃ o rest, listed db = o :: rest := by
      cases hl : listed db with
      | nil => rw [hl] at hmap; cases hmap
      | cons o rest => exact ⟨o, rest, rfl⟩
    rw [hlisted, List.map_cons, List.cons.injEq] at hmap
    obtain ⟨htext, hrest⟩ := hmap
    obtain rfl := List.map_eq_nil_iff.mp hrest.symm
    have hmem : o ∈ db.master := (List.mem_filter.mp (hlisted ▸ List.mem_cons_self)).1
    rw [hlisted]
    obtain ⟨kind, name⟩ := o
    -- the second character tells the three kinds apart
    have hsecond : (kind ++ ascii ":" ++ name)[1]? = some 97 := by
      rw [← htext]
      decide
    rcases kind_of_mem_master hmem with hkind | hkind | hkind
    · change kind = ascii "table" at hkind
      subst hkind
      have hname : itemsName = name := by
        have : ascii "table:" ++ itemsName = ascii "table:" ++ name := htext
        exact List.append_cancel_left this
      rw [hname]
    · change kind = ascii "view" at hkind
      subst hkind
      exact absurd hsecond (by rw [List.append_assoc, List.getElem?_append_left] <;> decide)
    · change kind = ascii "trigger" at hkind
      subst hkind
      exact absurd hsecond (by rw [List.append_assoc, List.getElem?_append_left] <;> decide)
  · intro h
    rw [userObjects]
    show (((listed db).map fun o => o.1 ++ ascii ":" ++ o.2).insertionSort fun a b => a ≤ b) = _
    rw [h]
    rfl

/-! ### What the statements of `Initialize` do to the listed objects -/

/-- The names of the listed tables, and the other listed objects. -/
structure ListsTables (db : Database) (names : List Bytes) : Prop where
  tables : listedTables db = names
  others : listedOthers db = []

/-- The type of an object that is no table, as `sqlite_master` has it. -/
def objectType (o : Object) : Bytes :=
  match o.kind with
  | .view => ascii "view"
  | .trigger => ascii "trigger"

theorem listed_eq (db : Database) :
    ∃ kind : Object → Bytes, (∀ o, kind o ≠ ascii "table") ∧ listed db =
      (listedTables db).map (Prod.mk (ascii "table")) ++
        (listedOthers db).map fun o => (kind o, o.name) := by
  refine ⟨objectType, ?_, ?_⟩
  · intro o
    unfold objectType
    cases o.kind <;> decide
  · rw [listed, Database.master, List.filter_append, listedTables, listedOthers, List.filter_map,
      List.filter_map, List.filter_map, List.map_map]
    rfl

theorem listed_eq_nil {db : Database} : listed db = [] ↔ ListsTables db [] := by
  obtain ⟨kind, -, hlisted⟩ := listed_eq db
  rw [hlisted, List.append_eq_nil_iff, List.map_eq_nil_iff, List.map_eq_nil_iff]
  exact ⟨fun h => ⟨h.1, h.2⟩, fun h => ⟨h.tables, h.others⟩⟩

theorem listed_eq_items {db : Database} :
    listed db = [(ascii "table", itemsName)] ↔ ListsTables db [itemsName] := by
  obtain ⟨kind, hkind, hlisted⟩ := listed_eq db
  rw [hlisted]
  constructor
  · intro h
    cases htables : listedTables db with
    | nil =>
        rw [htables, List.map_nil, List.nil_append] at h
        obtain ⟨o, -, ho⟩ := List.mem_map.mp (h ▸ List.mem_cons_self)
        exact absurd (Prod.mk.inj ho).1 (hkind o)
    | cons name rest =>
        rw [htables, List.map_cons, List.cons_append, List.cons.injEq, List.append_eq_nil_iff,
          List.map_eq_nil_iff, List.map_eq_nil_iff] at h
        obtain ⟨hname, rfl, hothers⟩ := h
        exact ⟨by rw [htables, (Prod.mk.inj hname).2], hothers⟩
  · rintro ⟨htables, hothers⟩
    rw [htables, hothers]
    rfl

section
variable {db db' : Database} {names : List Bytes}

theorem ListsTables.setUserVersion (h : ListsTables db names) (version : ℤ) :
    ListsTables (db.setUserVersion version) names := ⟨h.tables, h.others⟩

theorem ListsTables.setTable (h : ListsTables db names) {name : Bytes} {t : Table} (ht : t.name = name) :
    ListsTables (db.setTable name t) names := by
  refine ⟨?_, h.others⟩
  rw [← h.tables, listedTables, listedTables, Database.setTable, List.map_map]
  congr 1
  refine List.map_congr_left fun u _ => ?_
  simp only [Function.comp]
  split
  · rename_i hu
    rw [ht, hu]
  · rfl

theorem ListsTables.createTable (h : ListsTables db names) {t : Table} (ht : skipped t.name = false)
    (hcreate : db.createTable t = .ok db') : ListsTables db' (names ++ [t.name]) := by
  obtain ⟨-, rfl⟩ := Database.createTable_eq_ok hcreate
  refine ⟨?_, h.others⟩
  have hsequence : skipped Database.sequenceTable.name = true := by decide +kernel
  rw [listedTables, List.map_append, List.map_append, List.filter_append, List.filter_append,
    ← listedTables, h.tables]
  split <;> simp [hsequence, ht]

theorem ListsTables.dropTable (h : ListsTables db names) {name : Bytes} (hdrop : db.dropTable name = .ok db') :
    ListsTables db' (names.filter (· ≠ name)) := by
  unfold Database.dropTable at hdrop
  split at hdrop
  · cases hdrop
  · obtain rfl := Except.ok.inj hdrop
    constructor
    · rw [← h.tables, listedTables, listedTables, List.filter_filter, List.filter_map,
        List.filter_filter, List.filter_map]
      congr 1
      refine List.filter_congr fun t _ => ?_
      simp only [Function.comp, Bool.and_comm]
    · have hothers := h.others
      rw [listedOthers, List.filter_eq_nil_iff] at hothers ⊢
      exact fun o ho => hothers o (List.mem_filter.mp ho).1

theorem ListsTables.renameTable (h : ListsTables db names) {old new : Bytes} (hold : skipped old = false)
    (hnew : skipped new = false) (hrename : db.renameTable old new = .ok db') :
    ListsTables db' (names.map fun name => if name = old then new else name) := by
  unfold Database.renameTable at hrename
  cases hfind : db.findTable old with
  | none =>
      rw [hfind] at hrename
      cases hrename
  | some t =>
      rw [hfind] at hrename
      simp only at hrename
      split at hrename
      · cases hrename
      · obtain rfl := Except.ok.inj hrename
        refine ⟨?_, h.others⟩
        have hnames : (db.setTable old (Database.renamed old new t)).tables.map Table.name =
            (db.tables.map Table.name).map fun name => if name = old then new else name := by
          rw [Database.setTable, List.map_map, List.map_map]
          refine List.map_congr_left fun u _ => ?_
          simp only [Function.comp]
          split <;> rfl
        rw [← h.tables, listedTables, listedTables, hnames, List.filter_map]
        congr 1
        refine List.filter_congr fun name _ => ?_
        simp only [Function.comp]
        split
        · rename_i hname
          rw [hname, hold, hnew]
        · rfl

end

/-- The items table is the only listed object. -/
theorem Accepted.lists {expected : Bytes} {db : Database} (h : Accepted expected db) :
    ListsTables db [itemsName] := listed_eq_items.mp (userObjects_eq_items.mp h.objects)

theorem userObjects_of_lists {db : Database} (h : ListsTables db [itemsName]) :
    userObjects db = [ascii "table:items"] := userObjects_eq_items.mpr (listed_eq_items.mpr h)

theorem skipped_items : skipped itemsName = false ∧ skipped itemsV1Name = false := by
  decide +kernel

/-! ### What passes -/

/-- A file that every check of `Initialize` passes. -/
inductive Passes (db : Database) : Prop
  | current (version : db.userVersion = 1) (accepted : Accepted createV1ItemsSql db)
  | fresh (version : db.userVersion = 0) (free : db.findTable itemsName = none)
      (objects : userObjects db = [])
  | unversioned (version : db.userVersion = 0) (found : db.findTable itemsName ≠ none)
      (accepted : Accepted createUnversionedItemsSql db)

theorem passes_of_initializeFile {w w' : World Database} {u : Unit}
    (h : initializeFile w = (.ok u, w')) : Passes w.state := by
  obtain ⟨version, w₁, hread, h₁⟩ := bind_eq_ok.mp h
  obtain ⟨rfl, hstate₁⟩ := select_eq_ok hread
  rw [← hstate₁] at h₁ ⊢
  unfold initializeVersion at h₁
  split at h₁
  · rename_i hversion
    exact .current hversion (validateV1Schema_eq_ok h₁)
  split at h₁
  · cases h₁
  rename_i hzero
  obtain ⟨found, w₂, hexists, h₂⟩ := bind_eq_ok.mp h₁
  obtain ⟨hfound, hstate₂⟩ := tableExists_eq_ok hexists
  rw [← hstate₂] at hzero hfound ⊢
  split at h₂
  · rename_i hmissing
    obtain ⟨objects, w₃, hobjects, h₃⟩ := bind_eq_ok.mp h₂
    obtain ⟨_, w₄, hcheck, _⟩ := bind_eq_ok.mp h₃
    refine .fresh (not_not.mp hzero) (by simpa [hfound] using hmissing) ?_
    rw [← (select_eq_ok hobjects).1]
    exact (require_eq_ok.mp hcheck).1
  · rename_i hpresent
    obtain ⟨_, w₃, hlegacy, hmigrate⟩ := bind_eq_ok.mp h₂
    have hstate₃ := steady_rejectLegacyItems.readOnly.of_eq hlegacy
    obtain ⟨_, w₄, h₁', h₄⟩ := bind_eq_ok.mp hmigrate
    obtain ⟨_, w₅, h₂', h₅⟩ := bind_eq_ok.mp h₄
    obtain ⟨_, w₆, h₃', _⟩ := bind_eq_ok.mp h₅
    exact .unversioned (not_not.mp hzero) (by simpa [hfound] using hpresent)
      (hstate₃ ▸ accepted_of_validate h₁' h₂' h₃')

/-- The checks come to an index of the items table with a name that SQLite cannot read. -/
structure MisreadIndex (db : Database) : Prop where
  version : db.userVersion = 1 ∨ db.userVersion = 0
  objects : userObjects db = [ascii "table:items"]
  items : MisreadItems db

/-- The first two checks of a schema return, refuse, or are stopped by the name of an index. -/
theorem validateItems_cases {db : Database} (hversion : db.userVersion = 1 ∨ db.userVersion = 0)
    (hmisread : ¬MisreadIndex db) :
    (validateOnlyItemsObject.Returns db () db ∧ validateDeviceColumns.Returns db () db) ∨
      ∀ rest : Sql Unit, Refuses (do validateOnlyItemsObject; validateDeviceColumns; rest) db := by
  rcases decides_validateOnlyItemsObject.decides db with ⟨_, honly⟩ | hrefuses
  swap
  · exact .inr fun _ => hrefuses.bind
  rcases validateDeviceColumns_cases db with hcolumns | hrefuses | hitems
  · exact .inl ⟨honly, hcolumns⟩
  · exact .inr fun _ => refuses_bind_of_returns honly hrefuses.bind
  · exact absurd ⟨hversion, validateOnlyItemsObject_eq_ok honly, hitems⟩ hmisread

/-- A file that does not pass is refused for its schema, or for the name of an index. -/
theorem refuses_of_not_passes {db : Database} (h : ¬Passes db) (hmisread : ¬MisreadIndex db) :
    Refuses initializeFile db := by
  have hversion : readUserVersion.Returns db db.userVersion db := returns_query _ _ db
  refine refuses_bind_of_returns hversion ?_
  unfold initializeVersion
  split
  · rename_i hcurrent
    rcases validateItems_cases (.inl hcurrent) hmisread with ⟨honly, hcolumns⟩ | hrefuses
    swap
    · exact hrefuses _
    refine refuses_bind_of_returns honly (refuses_bind_of_returns hcolumns ?_)
    rcases (decides_validateExactCreateSql createV1ItemsSql (ascii "schema v1")).decides db with
      ⟨_, hexact⟩ | hrefuses
    · exact absurd (.current hcurrent (accepted_of_validate honly hcolumns hexact)) h
    · exact hrefuses
  split
  · exact ⟨_, rfl⟩
  rename_i hzero
  have hexists : (tableExists itemsName).Returns db (db.findTable itemsName).isSome db := rfl
  refine refuses_bind_of_returns hexists ?_
  split
  · rename_i hmissing
    have hobjects : readUserObjects.Returns db (userObjects db) db := returns_query _ _ db
    refine refuses_bind_of_returns hobjects (Refuses.bind ?_)
    rcases (decides_require (userObjects db = []) _).decides db with ⟨_, hreturns⟩ | hrefuses
    · exact absurd (.fresh (not_not.mp hzero) (by simpa using hmissing)
        (require_eq_ok.mp hreturns).1) h
    · exact hrefuses
  · rename_i hpresent
    rcases decides_rejectLegacyItems.decides db with ⟨_, hlegacy⟩ | hrefuses
    swap
    · exact hrefuses.bind
    refine refuses_bind_of_returns hlegacy ?_
    rcases validateItems_cases (.inr (not_not.mp hzero)) hmisread with ⟨honly, hcolumns⟩ | hrefuses
    swap
    · exact hrefuses _
    refine refuses_bind_of_returns honly (refuses_bind_of_returns hcolumns (Refuses.bind ?_))
    rcases (decides_validateExactCreateSql createUnversionedItemsSql
      (ascii "the supported unversioned device schema")).decides db with ⟨_, hexact⟩ | hrefuses
    · exact absurd (.unversioned (not_not.mp hzero) (by simpa using hpresent)
        (accepted_of_validate honly hcolumns hexact)) h
    · exact hrefuses

theorem returns_validateOnlyItemsObject {db : Database}
    (h : userObjects db = [ascii "table:items"]) : validateOnlyItemsObject.Returns db () db :=
  Returns.bind (returns_query _ _ db) (returns_requireSchema h _ db)

/-- A table with the columns of a device table is no legacy table. -/
theorem returns_rejectLegacyItems {db : Database} {t : Table}
    (ht : db.findTable itemsName = some t) (hcolumns : t.columns = deviceColumns) :
    rejectLegacyItems.Returns db () db := by
  refine Returns.bind (returns_readColumns db itemsName) ?_
  rw [ht, if_neg (by rw [Option.map_some, Option.getD_some, hcolumns]; decide)]
  exact returns_pure () db

/-- What stops the checks is an error of SQLite's, which refuses nothing. -/
theorem breaks_initializeFile {db : Database} (h : MisreadIndex db) : Breaks initializeFile db := by
  have hversion : readUserVersion.Returns db db.userVersion db := returns_query _ _ db
  have honly := returns_validateOnlyItemsObject h.objects
  have hbreaks := breaks_validateDeviceColumns h.items
  refine breaks_bind_of_returns hversion ?_
  unfold initializeVersion
  rcases h.version with hcurrent | hzero
  · rw [if_pos (show db.userVersion = currentSchemaVersion from hcurrent)]
    exact breaks_bind_of_returns honly hbreaks.bind
  · rw [if_neg (by rw [hzero]; decide), if_neg (by simpa using hzero)]
    obtain ⟨t, ht, hcolumns, -⟩ := h.items
    have hexists : (tableExists itemsName).Returns db true db := by
      simp [Returns, tableExists, select, Faulty.Program.query, Program.statement, ht]
    refine breaks_bind_of_returns hexists ?_
    refine breaks_bind_of_returns (returns_rejectLegacyItems ht hcolumns) ?_
    exact breaks_bind_of_returns honly hbreaks.bind

/-! ### A file that passes is not refused -/

theorem noSchemaError_createV1Items {w : World Database} (hobjects : userObjects w.state = []) :
    NoSchemaError createV1Items w := by
  have hlists : ListsTables w.state [] := listed_eq_nil.mp (userObjects_eq_nil.mp hobjects)
  refine (noSchemaError_execute _ w).bind fun _ w₁ hcreate => ?_
  refine (noSchemaError_execute _ w₁).bind fun _ w₂ hversion => ?_
  have hcreated := execute_eq_ok hcreate
  have hstate : w₂.state = w₁.state.setUserVersion 1 := writeUserVersion_eq_ok hversion
  have hfind : w₂.state.findTable itemsName = some (v1Table itemsName createV1ItemsSql) := by
    rw [hstate, Database.findTable_setUserVersion]
    exact Database.findTable_createTable_self hcreated (by decide)
  have hlists₂ : ListsTables w₂.state [itemsName] := by
    rw [hstate]
    exact (hlists.createTable skipped_items.1 hcreated).setUserVersion 1
  refine quiet_validateV1Schema.quiet w₂ ⟨(), returns_validateV1Schema_iff.mpr ?_⟩
  exact {
    objects := userObjects_of_lists hlists₂
    named := fun t ht => Option.some.inj (hfind.symm.trans ht) ▸ quotableIndexes_items _
    table := ⟨_, _, hfind, deviceTable_v1Table _ _, rfl, rfl⟩ }

/-- Inserting devices leaves the list of objects alone. -/
theorem lists_forM_insertItem {items : List DatabaseItem} {table : Bytes} {w w' : World Database}
    {u : PUnit} {names : List Bytes} (hrun : items.forM (insertItem table) w = (.ok u, w'))
    (h : ListsTables w.state names) : ListsTables w'.state names := by
  induction items generalizing w with
  | nil =>
      obtain ⟨-, rfl⟩ := Prod.mk.inj hrun
      exact h
  | cons item items ih =>
      change (insertItem table item >>= fun _ => items.forM (insertItem table)) w = _ at hrun
      obtain ⟨_, w₁, hfirst, hrest⟩ := bind_eq_ok.mp hrun
      obtain ⟨t, t', ht, hinsert, hstate⟩ := insertItem_eq_ok hfirst
      refine ih hrest ?_
      rw [hstate]
      exact h.setTable ((insert_eq_ok hinsert).1.name.trans (Database.findTable_name ht))

/-- The renamed table has the v1 text, up to what the comparison drops. -/
theorem normalizeSql_migrated :
    normalizeSql (Database.renameSql itemsV1Name itemsName
      (replaceFirst itemsName itemsV1Name createV1ItemsSql)) = normalizeSql createV1ItemsSql := by
  have hhead : normalizeSql (ascii "CREATE TABLE \"items\" (") = normalizeSql createItemsHead := by
    decide
  rw [createV1ItemsSql, renameSql_migrated, normalizeSql_append,
    normalizeSql_append, hhead]

theorem deviceTable_renamed {old new : Bytes} {t : Table} (h : DeviceTable t) :
    DeviceTable (Database.renamed old new t) := by
  obtain ⟨hcolumns, ix, hix, hunique, hwhole, hinfo⟩ := h
  have hrename : (Database.renameIndex old new ix).unique = ix.unique ∧
      (Database.renameIndex old new ix).isPartial = ix.isPartial ∧
      (Database.renameIndex old new ix).columns = ix.columns := by
    unfold Database.renameIndex
    simp only
    split <;> exact ⟨rfl, rfl, rfl⟩
  refine ⟨hcolumns, Database.renameIndex old new ix, ?_, hrename.1.trans hunique,
    hrename.2.1.trans hwhole, hrename.2.2.trans hinfo⟩
  show t.indexes.map (Database.renameIndex old new) = _
  rw [hix]
  rfl

theorem quotableIndexes_renamed {old new : Bytes} {t : Table} (hnew : Quotable new)
    (h : QuotableIndexes t) : QuotableIndexes (Database.renamed old new t) := by
  intro ix hix
  obtain ⟨ix', hix', rfl⟩ := List.mem_map.mp hix
  have hname := h ix' hix'
  unfold Database.renameIndex
  simp only
  split
  · have hhead : Quotable (ascii "sqlite_autoindex_") := by decide +kernel
    exact (hhead.append hnew).append fun c hc => hname c (List.mem_of_mem_drop hc)
  · exact hname

theorem noSchemaError_migrateItems {w : World Database} (hlists : ListsTables w.state [itemsName]) :
    NoSchemaError migrateItems w := by
  refine (noSchemaError_readItems _ w).bind fun items w₁ hread => ?_
  refine (noSchemaError_execute _ w₁).bind fun _ w₂ hcreate => ?_
  refine (noSchemaError_forM (fun _ _ => noSchemaError_execute _ _) w₂).bind fun _ w₃ hinsert => ?_
  refine (noSchemaError_selectFrom _ _ w₃).bind fun count w₄ hcount => ?_
  obtain ⟨_, _, hstate₁, _⟩ := readItems_eq_ok hread
  have hcreated := execute_eq_ok hcreate
  have hlists₂ : ListsTables w₂.state [itemsName, itemsV1Name] := by
    rw [← hstate₁] at hlists
    exact hlists.createTable skipped_items.2 hcreated
  have hlists₃ := lists_forM_insertItem hinsert hlists₂
  -- every item has become a row of the new table
  have hfind₂ : w₂.state.findTable itemsV1Name = some (v1Table itemsV1Name
      (replaceFirst itemsName itemsV1Name createV1ItemsSql)) :=
    Database.findTable_createTable_self hcreated (by decide)
  obtain ⟨_, _, t, hfind₃, hsame, hrows⟩ := forM_insertItem_eq_ok hinsert hfind₂
  obtain ⟨t', ht', hcounted, hstate₄⟩ := selectFrom_eq_ok hcount
  obtain rfl : t = t' := Option.some.inj (hfind₃.symm.trans ht')
  have hnumber : count = items.length := by
    have hlength := congrArg List.length hrows
    rw [List.length_map] at hlength
    rw [hcounted, hlength]
    simp [v1Table]
  refine (noSchemaError_require hnumber _ w₄).bind fun _ w₅ hverify => ?_
  refine (noSchemaError_execute _ w₅).bind fun _ w₆ hdrop => ?_
  refine (noSchemaError_execute _ w₆).bind fun _ w₇ hrename => ?_
  refine (noSchemaError_execute _ w₇).bind fun _ w₈ hversion => ?_
  have hstate₅ : w₅.state = w₃.state := by rw [(require_eq_ok.mp hverify).2, hstate₄]
  have hstate₈ : w₈.state = w₇.state.setUserVersion 1 := writeUserVersion_eq_ok hversion
  -- and the new table takes the place of the old one
  have hfind₆ : w₆.state.findTable itemsV1Name = some t := by
    rw [Database.findTable_dropTable_of_ne (execute_eq_ok hdrop) (by decide), hstate₅, hfind₃]
  have hfind : w₈.state.findTable itemsName =
      some (Database.renamed itemsV1Name itemsName t) := by
    rw [hstate₈, Database.findTable_setUserVersion]
    exact Database.findTable_renameTable hfind₆ (execute_eq_ok hrename)
  have hlists₈ : ListsTables w₈.state [itemsName] := by
    rw [← hstate₅] at hlists₃
    have hlists₆ := hlists₃.dropTable (execute_eq_ok hdrop)
    rw [hstate₈]
    exact (hlists₆.renameTable skipped_items.2 skipped_items.1
      (execute_eq_ok hrename)).setUserVersion 1
  refine quiet_validateV1Schema.quiet w₈ ⟨(), returns_validateV1Schema_iff.mpr ?_⟩
  exact {
    objects := userObjects_of_lists hlists₈
    named := fun t' ht' => Option.some.inj (hfind.symm.trans ht') ▸
      quotableIndexes_renamed quotable_items.1
        (hsame.quotableIndexes (quotableIndexes_v1Table quotable_items.2 _))
    table := ⟨_, _, hfind, deviceTable_renamed (hsame.deviceTable (deviceTable_v1Table _ _)),
      congrArg (Option.map (Database.renameSql itemsV1Name itemsName)) hsame.sql,
      normalizeSql_migrated⟩ }

/-- With or without failures of SQLite, a file that passes is not refused for its schema. -/
theorem noSchemaError_initializeFile {w : World Database} (h : Passes w.state) :
    NoSchemaError initializeFile w := by
  refine (noSchemaError_select _ w).bind fun version w₁ hread => ?_
  obtain ⟨rfl, hstate₁⟩ := select_eq_ok hread
  rw [← hstate₁] at h ⊢
  unfold initializeVersion
  cases h with
  | current hversion haccepted =>
      rw [if_pos (show w₁.state.userVersion = currentSchemaVersion from hversion)]
      exact quiet_validateV1Schema.quiet w₁ ⟨(), returns_validateV1Schema_iff.mpr haccepted⟩
  | fresh hversion hfree hobjects =>
      rw [if_neg (by rw [hversion]; decide), if_neg (by simpa using hversion)]
      refine (noSchemaError_select _ w₁).bind fun found w₂ hexists => ?_
      obtain ⟨rfl, hstate₂⟩ := tableExists_eq_ok hexists
      rw [hfree]
      refine (noSchemaError_select _ w₂).bind fun objects w₃ hlist => ?_
      obtain ⟨rfl, hstate₃⟩ := select_eq_ok hlist
      rw [hstate₂, hobjects]
      refine (noSchemaError_require rfl _ w₃).bind fun _ w₄ hcheck => ?_
      refine noSchemaError_transaction fun w₅ hstate₅ => noSchemaError_createV1Items ?_
      rw [hstate₅, (require_eq_ok.mp hcheck).2, hstate₃, hstate₂, hobjects]
  | unversioned hversion hfound haccepted =>
      rw [if_neg (by rw [hversion]; decide), if_neg (by simpa using hversion)]
      refine (noSchemaError_select _ w₁).bind fun found w₂ hexists => ?_
      obtain ⟨rfl, hstate₂⟩ := tableExists_eq_ok hexists
      obtain ⟨t, ht⟩ := Option.ne_none_iff_exists'.mp hfound
      rw [ht]
      obtain ⟨t', sql, ht', hdevice, hsql, hsame⟩ := haccepted.table
      obtain rfl := Option.some.inj (ht.symm.trans ht')
      -- no check before the transaction fails on this file
      have hlegacy := returns_rejectLegacyItems ht hdevice.columns
      have honly := returns_validateOnlyItemsObject haccepted.objects
      have hcolumns := returns_validateDeviceColumns ht hdevice (haccepted.named t ht)
      have hexact : (validateExactCreateSql createUnversionedItemsSql
          (ascii "the supported unversioned device schema")).Returns w₁.state () w₁.state :=
        Returns.bind (returns_readCreateSql ht hsql) (returns_require hsame _ _)
      rw [← hstate₂] at hlegacy honly hcolumns hexact
      refine (decides_rejectLegacyItems.quiet w₂ ⟨_, hlegacy⟩).bind fun _ w₃ h₃ => ?_
      have hstate₃ : w₃.state = w₂.state := steady_rejectLegacyItems.readOnly.of_eq h₃
      rw [← hstate₃] at honly hcolumns hexact
      refine (decides_validateOnlyItemsObject.quiet w₃ ⟨_, honly⟩).bind fun _ w₄ h₄ => ?_
      have hstate₄ : w₄.state = w₃.state := steady_validateOnlyItemsObject.readOnly.of_eq h₄
      rw [← hstate₄] at hcolumns hexact
      refine (quiet_validateDeviceColumns.quiet w₄ ⟨_, hcolumns⟩).bind fun _ w₅ h₅ => ?_
      have hstate₅ : w₅.state = w₄.state := steady_validateDeviceColumns.readOnly.of_eq h₅
      rw [← hstate₅] at hexact
      refine ((decides_validateExactCreateSql _ _).quiet w₅ ⟨_, hexact⟩).bind fun _ w₆ h₆ => ?_
      have hstate₆ := (steady_validateExactCreateSql _ _).readOnly.of_eq h₆
      refine noSchemaError_transaction fun w₇ hstate₇ => noSchemaError_migrateItems ?_
      rw [hstate₇, hstate₆, hstate₅, hstate₄, hstate₃, hstate₂]
      exact haccepted.lists

/-! ### The contract -/

theorem filter_master_of_not_hidden {db : Database} (h : ¬Hidden db) :
    listed db = contractObjects db := by
  refine List.filter_congr fun o ho => ?_
  cases hreserved : reserved o.2 with
  | true => rw [skipped_of_reserved hreserved]
  | false =>
      cases hskipped : skipped o.2 with
      | true => exact absurd ⟨o, ho, hskipped, hreserved⟩ h
      | false => rfl

/-- What passes and hides nothing is of the contract. -/
theorem ofContract_of_passes {db : Database} (h : Passes db) (hhidden : ¬Hidden db) :
    OfContract db := by
  rw [OfContract, ← filter_master_of_not_hidden hhidden]
  cases h with
  | current _ haccepted => exact .inr (userObjects_eq_items.mp haccepted.objects)
  | fresh hversion _ hobjects => exact .inl ⟨userObjects_eq_nil.mp hobjects, hversion⟩
  | unversioned _ _ haccepted => exact .inr (userObjects_eq_items.mp haccepted.objects)

theorem ofContract_of_misread {db : Database} (h : MisreadIndex db) (hhidden : ¬Hidden db) :
    OfContract db := by
  rw [OfContract, ← filter_master_of_not_hidden hhidden]
  exact .inr (userObjects_eq_items.mp h.objects)

theorem not_ofContract_of_hidden {db : Database} (h : Hidden db) : ¬OfContract db := by
  obtain ⟨o, ho, hskipped, hreserved⟩ := h
  have hmem : o ∈ contractObjects db := List.mem_filter.mpr ⟨ho, by rw [hreserved]; rfl⟩
  rintro (⟨hnone, -⟩ | hitems)
  · rw [hnone] at hmem
    cases hmem
  · rw [hitems, List.mem_singleton] at hmem
    rw [hmem] at hskipped
    exact Bool.false_ne_true (skipped_items.1.symm.trans hskipped)

namespace SQLiteDatabase

theorem initializeDatabase_of_refuses {db : Database} {initialized : Bool} {message : Bytes}
    (h : initializeFile ⟨db, []⟩ = (.error (.databaseSchemaError message), ⟨db, []⟩)) :
    initializeDatabase ⟨⟨db, initialized⟩, []⟩ =
      (.error (.databaseSchemaError message), ⟨⟨db, false⟩, []⟩) := by
  have hfile : onFile initializeFile ⟨⟨db, false⟩, []⟩ =
      (.error (.databaseSchemaError message), ⟨⟨db, false⟩, []⟩) := by
    unfold onFile
    exact @zoom_of_eq _ _ _ _ SQLiteDatabase.database _ initializeFile ⟨⟨db, false⟩, []⟩ _ _ h
  exact (bind_of_ok (modify_apply _ _)).trans (bind_of_error hfile)

/-- `Initialize` returns only on a file of the contract; when it throws it changes nothing and
leaves the storage disabled; and on any other file, unless SQLite itself fails, what it throws
is a `DatabaseSchemaError`. -/
structure EnablesContractOnly (db : Database) : Prop where
  returns : ∀ initialized faults u w',
    initializeDatabase ⟨⟨db, initialized⟩, faults⟩ = (.ok u, w') → OfContract db
  unchanged : ∀ initialized faults e w',
    initializeDatabase ⟨⟨db, initialized⟩, faults⟩ = (.error e, w') → w'.state = ⟨db, false⟩
  refuses : ¬OfContract db → ∀ initialized, ∃ message,
    initializeDatabase ⟨⟨db, initialized⟩, []⟩ =
      (.error (.databaseSchemaError message), ⟨⟨db, false⟩, []⟩)

/-- This is so of every file but those that hide an object and pass every check, or pass them
up to an index with a name that SQLite cannot read. -/
theorem enables_contract_only_iff (db : Database) :
    EnablesContractOnly db ↔ ¬(Hidden db ∧ (Passes db ∨ MisreadIndex db)) := by
  constructor
  · rintro h ⟨hhidden, hpasses⟩
    obtain ⟨message, hrefuses⟩ := h.refuses (not_ofContract_of_hidden hhidden) false
    -- what the method throws, the statements on the file have thrown
    rcases bind_eq_error.mp hrefuses with hreset | ⟨_, w₁, hreset, hrest⟩
    · cases hreset
    · obtain ⟨_, rfl⟩ := Prod.mk.inj hreset
      rcases bind_eq_error.mp hrest with hfile | ⟨_, w₂, _, hset⟩
      · obtain ⟨v, hv, -⟩ := zoom_eq hfile
        rcases hpasses with hpasses | hmisread
        · exact noSchemaError_initializeFile (w := ⟨db, []⟩) hpasses message v hv
        · have hbreaks := (breaks_initializeFile hmisread).symm.trans hv
          cases hbreaks
      · cases hset
  · intro h
    refine ⟨fun initialized faults u w' hrun => ?_, fun initialized faults e w' hrun => ?_,
      fun hcontract initialized => ?_⟩
    · obtain ⟨v, hv, -⟩ := initializeDatabase_eq_ok hrun
      have hpasses : Passes db := passes_of_initializeFile hv
      exact ofContract_of_passes hpasses fun hhidden => h ⟨hhidden, .inl hpasses⟩
    · exact initializeDatabase_eq_error hrun
    · obtain ⟨message, hrefuses⟩ : Refuses initializeFile db := by
        apply refuses_of_not_passes
        · exact fun hpasses => hcontract
            (ofContract_of_passes hpasses fun hhidden => h ⟨hhidden, .inl hpasses⟩)
        · exact fun hmisread => hcontract
            (ofContract_of_misread hmisread fun hhidden => h ⟨hhidden, .inr hmisread⟩)
      exact ⟨message, initializeDatabase_of_refuses hrefuses⟩

/-- The second kind: beside the trigger `sqliteX` there is an index `a'b` on the devices. -/
example : ∃ db, Hidden db ∧ MisreadIndex db := by
  let named : Index := ⟨ascii "a'b", true, false, [some deviceIdName]⟩
  let items := v1Table itemsName createV1ItemsSql
  refine ⟨⟨1, [{ items with indexes := named :: items.indexes }],
    [⟨.trigger, ascii "sqliteX", itemsName, []⟩]⟩, ?_, .inl rfl, by decide +kernel, ?_⟩
  · exact ⟨(ascii "trigger", ascii "sqliteX"), by decide +kernel, by decide +kernel,
      by decide +kernel⟩
  · exact ⟨_, rfl, rfl, .here rfl rfl (by decide +kernel)⟩

/-- A file at version 0 with a single table, called `sqliteX`. -/
def escapedFile : Database := ⟨0, [{ Database.sequenceTable with name := ascii "sqliteX" }], []⟩

/-- `Initialize` makes its table next to one that it does not know. -/
theorem initialize_accepts_escapedFile :
    contractObjects escapedFile = [(ascii "table", ascii "sqliteX")] ∧
      (∃ db', initializeDatabase.Returns ⟨escapedFile, false⟩ () ⟨db', true⟩) ∧
      ¬EnablesContractOnly escapedFile := by
  let created : Database := { escapedFile with
    tables := escapedFile.tables ++ [Database.sequenceTable] ++
      [v1Table itemsName createV1ItemsSql] }
  have hcreate : escapedFile.createTable (v1Table itemsName createV1ItemsSql) = .ok created := by
    rfl
  have hexists : (tableExists itemsName).Returns escapedFile false escapedFile := rfl
  have hfile : initializeFile.Returns escapedFile () (created.setUserVersion 1) := by
    refine Returns.bind (returns_query _ _ escapedFile) ?_
    refine hexists.bind (returns_createV1Schema (by decide +kernel) hcreate ?_)
    exact {
      objects := by decide +kernel
      named := fun t ht => Option.some.inj ht ▸ quotableIndexes_items createV1ItemsSql
      table := ⟨_, createV1ItemsSql, rfl, deviceTable_v1Table _ _, rfl, rfl⟩ }
  have hreturns := initializeDatabase_of_returns hfile false
  refine ⟨by decide +kernel, ⟨_, hreturns⟩, fun h => ?_⟩
  refine not_ofContract_of_hidden ?_ (h.returns false [] () _ hreturns)
  exact ⟨(ascii "table", ascii "sqliteX"), by decide +kernel, by decide +kernel, by decide +kernel⟩

end SQLiteDatabase

end Watchlist.Storage
