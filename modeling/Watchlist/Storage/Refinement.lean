import Watchlist.Storage.DeviceMap
import Watchlist.Storage.Initialize

/-!
How a call of `SQLiteDatabase` acts on the device map. The items table of an
initialized file holds the bound devices of the map in some order, and every call
either takes the map's own step or throws and leaves the map alone. When a call throws
is the subject of `CallOutcomes`.
-/

namespace Watchlist.Storage

open Bytes Sqlite Faulty Faulty.Program

/-! ### The table as a list of devices -/

/-- The rows of the v1 table are the bindings of `items`. -/
structure ItemsTable (t : Table) (items : List DatabaseItem) : Prop where
  device : DeviceTable t
  checks : t.checks = v1Checks
  rows : t.rows.map Row.cells = items.map bindItem

/-- The devices after an upsert. -/
def upserted (items : List DatabaseItem) (item : DatabaseItem) : List DatabaseItem :=
  if items.any (fun d => d.id = item.id) then
    items.map fun d => if d.id = item.id then item else d
  else items ++ [item]

namespace ItemsTable

variable {t t' : Table} {items : List DatabaseItem} {item : DatabaseItem}

theorem of_same (h : ItemsTable t items) (hsame : SameDefinition t t') {items' : List DatabaseItem}
    (hrows : t'.rows.map Row.cells = items'.map bindItem) : ItemsTable t' items' :=
  ⟨hsame.deviceTable h.device, hsame.checks.trans h.checks, hrows⟩

/-- A property of the cells of some row is one of the binding of some device. -/
theorem any_rows (h : ItemsTable t items) (p : List Value → Bool) :
    t.rows.any (fun r => p r.cells) = items.any fun d => p (bindItem d) := by
  have hrows := congrArg (fun l => l.any p) h.rows
  simpa [List.any_map, Function.comp_def] using hrows

/-- Selecting rows by their cells selects devices by their bindings. -/
theorem filter_rows (h : ItemsTable t items) (p : List Value → Bool) :
    (t.rows.filter fun r => p r.cells).map Row.cells =
      (items.filter fun d => p (bindItem d)).map bindItem := by
  have hrows := congrArg (List.filter p) h.rows
  simpa [List.filter_map, Function.comp_def] using hrows

theorem meetsNotNull (h : ItemsTable t items) : t.meetsNotNull (bindItem item) = true :=
  h.device.meetsNotNull item

theorem meetsChecks (h : ItemsTable t items) (hvalid : ValidItem item) :
    t.meetsChecks (bindItem item) = true :=
  h.device.meetsChecks h.checks hvalid

theorem insert (h : ItemsTable t items) (hinsert : t.insert (bindItem item) = .ok t') :
    ItemsTable t' (items ++ [item]) ∧ items.any (fun d => d.id = item.id) = false := by
  obtain ⟨hsame, hrows, hclash⟩ := insert_eq_ok hinsert
  refine ⟨h.of_same hsame (by rw [hrows, h.rows, List.map_append]; rfl), ?_⟩
  have hany : t.rows.any (fun r => t.clash r.cells (bindItem item)) = false :=
    List.any_eq_false.mpr fun r hr => by simp [hclash r hr]
  rw [h.any_rows fun cells => t.clash cells (bindItem item)] at hany
  simpa [h.device.clash] using hany

/-- A device with a free id is inserted. -/
theorem insert_ok (h : ItemsTable t items) (hvalid : ValidItem item)
    (hfree : items.any (fun d => d.id = item.id) = false) :
    t.insert (bindItem item) = .ok (t.appendRow (bindItem item)) := by
  have hclash : t.rows.any (fun r => t.clash r.cells (bindItem item)) = false := by
    rw [h.any_rows fun cells => t.clash cells (bindItem item)]
    simpa [h.device.clash] using hfree
  simp [Table.insert, h.meetsNotNull, h.meetsChecks hvalid, hclash]

/-- A device with a taken id is not. -/
theorem insert_taken (h : ItemsTable t items) (hvalid : ValidItem item)
    (htaken : items.any (fun d => d.id = item.id) = true) :
    t.insert (bindItem item) = .error .unique := by
  have hclash : t.rows.any (fun r => t.clash r.cells (bindItem item)) = true := by
    rw [h.any_rows fun cells => t.clash cells (bindItem item)]
    simpa [h.device.clash] using htaken
  simp [Table.insert, h.meetsNotNull, h.meetsChecks hvalid, hclash]

theorem hasUniqueKey (h : ItemsTable t items) : t.hasUniqueKey deviceIdName = true := by
  obtain ⟨ix, hix, hunique, hwhole, hcolumns⟩ := h.device.index
  simp [Table.hasUniqueKey, hix, hunique, hwhole, hcolumns]

/-- The rows that an upsert of the device overwrites. -/
theorem any_key (h : ItemsTable t items) :
    t.rows.any (fun r => t.cell r.cells deviceIdName == t.cell (bindItem item) deviceIdName) =
      items.any fun d => d.id = item.id := by
  rw [h.any_rows fun cells => t.cell cells deviceIdName == t.cell (bindItem item) deviceIdName]
  congr 1
  funext d
  rw [h.device.cell_deviceId, h.device.cell_deviceId]
  by_cases hid : d.id = item.id <;> simp [hid]

theorem overwrite (h : ItemsTable t items) :
    ItemsTable (t.overwrite deviceIdName (bindItem item))
      (items.map fun d => if d.id = item.id then item else d) := by
  have hsame : SameDefinition t (t.overwrite deviceIdName (bindItem item)) :=
    ⟨rfl, rfl, rfl, rfl, rfl⟩
  refine h.of_same hsame ?_
  have hrows := congrArg (List.map fun cells =>
    if t.cell cells deviceIdName == t.cell (bindItem item) deviceIdName
    then bindItem item else cells) h.rows
  rw [List.map_map, List.map_map] at hrows
  rw [Table.overwrite, List.map_map, List.map_map]
  refine (List.map_congr_left fun r _ => ?_).trans (hrows.trans (List.map_congr_left fun d _ => ?_))
  · simp only [Function.comp]
    split <;> rfl
  · simp only [Function.comp, h.device.cell_deviceId]
    by_cases hid : d.id = item.id <;> simp [hid]

theorem upsert (h : ItemsTable t items) (hupsert : t.upsert deviceIdName (bindItem item) = .ok t') :
    ItemsTable t' (upserted items item) ∧ t'.name = t.name := by
  unfold Table.upsert at hupsert
  split at hupsert
  · cases hupsert
  · split at hupsert
    · cases hupsert
    · split at hupsert
      · cases hupsert
      · rw [h.any_key] at hupsert
        unfold upserted
        split at hupsert
        · rename_i htaken
          rw [if_pos htaken]
          obtain rfl := Except.ok.inj hupsert
          exact ⟨h.overwrite, rfl⟩
        · rename_i hfree
          rw [if_neg hfree]
          exact ⟨(h.insert hupsert).1, (insert_eq_ok hupsert).1.name⟩

/-- An accepted device is always upserted. -/
theorem upsert_ok (h : ItemsTable t items) (hvalid : ValidItem item) :
    ∃ t', t.upsert deviceIdName (bindItem item) = .ok t' := by
  unfold Table.upsert
  rw [h.hasUniqueKey, h.meetsNotNull, h.meetsChecks hvalid, h.any_key]
  by_cases htaken : (items.any fun d => decide (d.id = item.id)) = true
  · exact ⟨_, by simp only [htaken]; rfl⟩
  · exact ⟨_, by
      simp only [htaken, h.insert_ok hvalid (by simpa using htaken)]
      rfl⟩

theorem rowsWhere (h : ItemsTable t items) (id : Bytes) :
    (t.rowsWhere deviceIdName (.text id)).map Row.cells =
      (items.filter fun d => d.id = id).map bindItem := by
  rw [Table.rowsWhere, h.filter_rows fun cells => t.cell cells deviceIdName == .text id]
  congr 2
  funext d
  rw [h.device.cell_deviceId]
  by_cases hid : d.id = id <;> simp [hid]

theorem deleteWhere (h : ItemsTable t items) (id : Bytes) :
    ItemsTable (t.deleteWhere deviceIdName (.text id)) (items.filter fun d => d.id ≠ id) := by
  have hsame : SameDefinition t (t.deleteWhere deviceIdName (.text id)) :=
    ⟨rfl, rfl, rfl, rfl, rfl⟩
  refine h.of_same hsame ?_
  change (t.rows.filter fun r => t.cell r.cells deviceIdName != .text id).map Row.cells = _
  rw [h.filter_rows fun cells => t.cell cells deviceIdName != .text id]
  congr 2
  funext d
  rw [h.device.cell_deviceId]
  by_cases hid : d.id = id <;> simp [hid]

theorem deleteAll (h : ItemsTable t items) : ItemsTable t.deleteAll [] := by
  have hsame : SameDefinition t t.deleteAll := ⟨rfl, rfl, rfl, rfl, rfl⟩
  exact h.of_same hsame rfl

/-- `ORDER BY device_id` sorts by the bytes of the id. -/
theorem rowsBy (h : ItemsTable t items) :
    (t.rowsBy deviceIdName).map Row.cells =
      (items.insertionSort fun a b => a.id ≤ b.id).map bindItem := by
  rw [Table.rowsBy]
  have hrows := List.map_insertionSort (fun r r' : Row =>
      (t.cell r.cells deviceIdName).le (t.cell r'.cells deviceIdName) = true)
    (fun a b : List Value => (t.cell a deviceIdName).le (t.cell b deviceIdName) = true)
    Row.cells t.rows (fun _ _ _ _ => Iff.rfl)
  have hitems := List.map_insertionSort (fun a b : DatabaseItem => a.id ≤ b.id)
    (fun a b : List Value => (t.cell a deviceIdName).le (t.cell b deviceIdName) = true)
    bindItem items (fun a _ b _ => by simp [h.device.cell_deviceId, Value.le])
  rw [hrows, h.rows, hitems]

end ItemsTable

/-! ### The list of devices as the map -/

/-- `items` are the devices of `m`, each once, in some order. -/
structure Lists (items : List DatabaseItem) (m : DeviceMap) : Prop where
  nodup : (items.map DatabaseItem.id).Nodup
  mem : ∀ d, d ∈ items ↔ d ∈ m.items

namespace Lists

variable {items : List DatabaseItem} {m : DeviceMap} {item : DatabaseItem}

theorem valid (h : Lists items m) : ∀ d ∈ items, ValidItem d :=
  fun d hd => m.valid d ((h.mem d).mp hd)

theorem perm (h : Lists items m) : items.Perm m.getAllSortedById :=
  (List.perm_ext_iff_of_nodup h.nodup.of_map m.items.nodup).mpr h.mem

theorem any_id (h : Lists items m) (id : Bytes) :
    items.any (fun d => d.id = id) = m.containsItem id := by
  rw [Bool.eq_iff_iff, DeviceMap.containsItem, KeyedMap.contains_iff]
  simp [h.mem]

theorem nil : Lists [] DeviceMap.empty := ⟨List.nodup_nil, fun d => by
  simp [DeviceMap.empty]⟩

theorem add (h : Lists items m) (hvalid : ValidItem item)
    (hfree : items.any (fun d => d.id = item.id) = false) :
    Lists (items ++ [item]) (m.put item hvalid) := by
  have hne : ∀ d ∈ items, d.id ≠ item.id := by simpa using hfree
  constructor
  · rw [List.map_append, List.map_singleton, List.nodup_append]
    refine ⟨h.nodup, List.nodup_singleton _, ?_⟩
    simpa using hne
  · intro d
    rw [List.mem_append, List.mem_singleton, DeviceMap.put, KeyedMap.mem_insert, h.mem]
    constructor
    · rintro (hd | rfl)
      · exact Or.inr ⟨hd, hne d ((h.mem d).mpr hd)⟩
      · exact Or.inl rfl
    · rintro (rfl | ⟨hd, _⟩)
      · exact Or.inr rfl
      · exact Or.inl hd

theorem overwrite (h : Lists items m) (hvalid : ValidItem item)
    (htaken : items.any (fun d => d.id = item.id) = true) :
    Lists (items.map fun d => if d.id = item.id then item else d) (m.put item hvalid) := by
  obtain ⟨old, hold, hid⟩ : ∃ d ∈ items, d.id = item.id := by simpa using htaken
  constructor
  · have hids : (items.map fun d => if d.id = item.id then item else d).map DatabaseItem.id =
        items.map DatabaseItem.id := by
      rw [List.map_map]
      refine List.map_congr_left fun d _ => ?_
      by_cases hd : d.id = item.id <;> simp [hd]
    rw [hids]
    exact h.nodup
  · intro d
    rw [List.mem_map, DeviceMap.put, KeyedMap.mem_insert, ← h.mem]
    constructor
    · rintro ⟨e, he, rfl⟩
      by_cases heq : e.id = item.id
      · simp [heq]
      · simpa [heq] using Or.inr he
    · rintro (rfl | ⟨hd, hne⟩)
      · exact ⟨old, hold, by simp [hid]⟩
      · exact ⟨d, hd, by simp [hne]⟩

theorem upserted (h : Lists items m) (hvalid : ValidItem item) :
    Lists (upserted items item) (m.put item hvalid) := by
  unfold Storage.upserted
  split
  · rename_i htaken
    exact h.overwrite hvalid htaken
  · rename_i hfree
    exact h.add hvalid (by simpa using hfree)

theorem remove (h : Lists items m) (id : Bytes) :
    Lists (items.filter fun d => d.id ≠ id) (m.remove id) := by
  constructor
  · exact (List.filter_sublist.map DatabaseItem.id).nodup h.nodup
  · intro d
    simp [DeviceMap.remove, h.mem]

theorem ofItems (hvalid : ∀ d ∈ items, ValidItem d) (hnodup : (items.map DatabaseItem.id).Nodup) :
    Lists items (DeviceMap.ofItems items hvalid) :=
  ⟨hnodup, fun d => by rw [DeviceMap.items_ofItems, KeyedMap.mem_ofList hnodup]⟩

theorem head_filter (h : Lists items m) (id : Bytes) :
    (items.filter fun d => d.id = id).head? = m.getItem id := by
  rw [List.head?_filter]
  apply Option.ext
  intro d
  rw [DeviceMap.getItem, KeyedMap.lookup_eq_some_iff, ← h.mem]
  constructor
  · intro hd
    exact ⟨List.mem_of_find?_eq_some hd, by simpa using List.find?_some hd⟩
  · rintro ⟨hd, rfl⟩
    cases hfind : items.find? (fun e => e.id = d.id) with
    | none => simpa using List.find?_eq_none.mp hfind d hd
    | some e =>
        have he := List.mem_of_find?_eq_some hfind
        have hid : e.id = d.id := by simpa using List.find?_some hfind
        rw [List.inj_on_of_nodup_map h.nodup he hd hid]

theorem length (h : Lists items m) : (items.length : ℤ) = m.countItems := by
  rw [h.perm.length_eq]
  rfl

theorem sorted (h : Lists items m) :
    items.insertionSort (fun a b => a.id ≤ b.id) = m.getAllSortedById := by
  have : Std.Total fun a b : DatabaseItem => a.id ≤ b.id := ⟨fun a b => le_total a.id b.id⟩
  have : IsTrans DatabaseItem fun a b => a.id ≤ b.id := ⟨fun _ _ _ => le_trans⟩
  exact KeyedMap.toList_eq_of_perm ((List.perm_insertionSort _ items).trans h.perm)
    (List.pairwise_insertionSort _ items)

end Lists

/-- The file holds the map: it is at version 1, and its items table is the v1
table of the map's devices. -/
structure Represents (db : Database) (m : DeviceMap) : Prop where
  version : db.userVersion = 1
  table : ∃ t items, db.findTable itemsName = some t ∧ ItemsTable t items ∧ Lists items m

/-- A file holds one map. -/
theorem Represents.unique {db : Database} {m m' : DeviceMap} (h : Represents db m)
    (h' : Represents db m') : m = m' := by
  obtain ⟨t, items, ht, hitems, hlists⟩ := h.table
  obtain ⟨t', items', ht', hitems', hlists'⟩ := h'.table
  obtain rfl := Option.some.inj (ht.symm.trans ht')
  have hdecode := mapM_decode_bindItem hlists.valid
  rw [← hitems.rows, hitems'.rows, mapM_decode_bindItem hlists'.valid] at hdecode
  obtain rfl := Except.ok.inj hdecode
  exact DeviceMap.ext_items (KeyedMap.ext_mem fun d => (hlists.mem d).symm.trans (hlists'.mem d))

/-! ### The steps of the map -/

/-- What a call that returns may answer, and the map it leaves. `GetAllItems`
promises no order. -/
inductive MapStep : DeviceMap → Call → Reply → DeviceMap → Prop
  | initializeDatabase (m : DeviceMap) : MapStep m .initializeDatabase .done m
  | addItem {m m' : DeviceMap} {item : DatabaseItem} (h : m.addItem item = .ok m') :
      MapStep m (.addItem item) .done m'
  | upsertItem {m m' : DeviceMap} {item : DatabaseItem} (h : m.upsertItem item = .ok m') :
      MapStep m (.upsertItem item) .done m'
  | getItem (m : DeviceMap) (id : Bytes) : MapStep m (.getItem id) (.item (m.getItem id)) m
  | getAllItems {m : DeviceMap} {items : List DatabaseItem}
      (h : items.Perm m.getAllSortedById) : MapStep m .getAllItems (.items items) m
  | replaceAll (m : DeviceMap) {items : List DatabaseItem}
      (hvalid : ∀ d ∈ items, ValidItem d) (hnodup : (items.map DatabaseItem.id).Nodup) :
      MapStep m (.replaceAll items) .done (.ofItems items hvalid)
  | getAllSortedById (m : DeviceMap) :
      MapStep m .getAllSortedById (.items m.getAllSortedById) m
  | containsItem (m : DeviceMap) (id : Bytes) :
      MapStep m (.containsItem id) (.flag (m.containsItem id)) m
  | countItems (m : DeviceMap) : MapStep m .countItems (.count m.countItems) m
  | removeItem (m : DeviceMap) (id : Bytes) :
      MapStep m (.removeItem id) (.flag (m.containsItem id)) (m.remove id)
  | clear (m : DeviceMap) : MapStep m .clear .done .empty

/-! ### The programs on the file -/

section Programs

variable {w w' : World Database} {m : DeviceMap} {item : DatabaseItem}

theorem Represents.setTable {db : Database} {m' : DeviceMap} {t t' : Table}
    {items : List DatabaseItem} (h : Represents db m)
    (ht : db.findTable itemsName = some t) (hname : t'.name = t.name)
    (hitems : ItemsTable t' items) (hlists : Lists items m') :
    Represents (db.setTable itemsName t') m' where
  version := h.version
  table := ⟨t', items, Database.findTable_setTable_self ht
    (hname.trans (Database.findTable_name ht)), hitems, hlists⟩

theorem validated_eq_ok {α : Type} {p : Sql α} {r : Except StorageError Unit} {a : α}
    (h : (ofExcept r >>= fun _ => p) w = (.ok a, w')) : r = .ok () ∧ p w = (.ok a, w') := by
  obtain ⟨_, w₁, hcheck, hp⟩ := bind_eq_ok.mp h
  obtain ⟨hr, rfl⟩ := ofExcept_eq_ok.mp hcheck
  exact ⟨hr, hp⟩

theorem insertItem_represents {u : Unit} (hm : Represents w.state m) (hvalid : ValidItem item)
    (h : insertItem itemsName item w = (.ok u, w')) :
    m.containsItem item.id = false ∧ Represents w'.state (m.put item hvalid) := by
  obtain ⟨t, items, ht, hitems, hlists⟩ := hm.table
  obtain ⟨t₀, t', ht₀, hinsert, hstate⟩ := insertItem_eq_ok h
  obtain rfl := Option.some.inj (ht.symm.trans ht₀)
  obtain ⟨hitems', hfree⟩ := hitems.insert hinsert
  refine ⟨by rw [← hlists.any_id, hfree], ?_⟩
  rw [hstate]
  exact hm.setTable ht (insert_eq_ok hinsert).1.name hitems' (hlists.add hvalid hfree)

theorem forM_insertItem_represents {u : PUnit} {items : List DatabaseItem}
    (hm : Represents w.state .empty) (hvalid : ∀ d ∈ items, ValidItem d)
    (hnodup : (items.map DatabaseItem.id).Nodup)
    (h : items.forM (insertItem itemsName) w = (.ok u, w')) :
    Represents w'.state (.ofItems items hvalid) := by
  obtain ⟨t, found, ht, hitems, hlists⟩ := hm.table
  obtain rfl : found = [] := List.eq_nil_iff_forall_not_mem.mpr fun d hd =>
    KeyedMap.not_mem_empty d ((hlists.mem d).mp hd)
  obtain ⟨hversion, _, t', ht', hsame, hrows⟩ := forM_insertItem_eq_ok h ht
  exact {
    version := hversion.trans hm.version
    table := ⟨t', items, ht', hitems.of_same hsame (by rw [hrows, hitems.rows]; rfl),
      Lists.ofItems hvalid hnodup⟩ }

/-- A decoding read returns the devices of the rows it selects. -/
theorem readItems_represents {rows : Table → List Row} {result : List DatabaseItem}
    {g : List DatabaseItem → List DatabaseItem} (hm : Represents w.state m)
    (hselect : ∀ t items, ItemsTable t items →
      (rows t).map Row.cells = (g items).map bindItem)
    (hsub : ∀ items, ∀ d ∈ g items, d ∈ items)
    (h : readItems rows w = (.ok result, w')) :
    w'.state = w.state ∧ ∃ items, Lists items m ∧ result = g items := by
  obtain ⟨t, items, ht, hitems, hlists⟩ := hm.table
  obtain ⟨t₀, ht₀, hstate, hdecode⟩ := readItems_eq_ok h
  obtain rfl := Option.some.inj (ht.symm.trans ht₀)
  rw [hitems.device.project (hselect t items hitems),
    mapM_decode_bindItem fun d hd => hlists.valid d (hsub items d hd)] at hdecode
  exact ⟨hstate, items, hlists, (Except.ok.inj hdecode).symm⟩

theorem selectFrom_represents {α : Type} {f : Table → α} {a : α} (hm : Represents w.state m)
    (h : selectFrom itemsName f w = (.ok a, w')) :
    w'.state = w.state ∧ ∃ t items, ItemsTable t items ∧ Lists items m ∧ a = f t := by
  obtain ⟨t, items, ht, hitems, hlists⟩ := hm.table
  obtain ⟨t₀, ht₀, hresult, hstate⟩ := selectFrom_eq_ok h
  obtain rfl := Option.some.inj (ht.symm.trans ht₀)
  exact ⟨hstate, t, items, hitems, hlists, hresult⟩

/-- A statement on the items table is a step of the map when it is one of the
listed devices. -/
theorem onTable_represents {f : Table → Except Failure Table} {m' : DeviceMap} {u : Unit}
    (hm : Represents w.state m)
    (hf : ∀ t items t', ItemsTable t items → Lists items m → f t = .ok t' →
      t'.name = t.name ∧ ∃ items', ItemsTable t' items' ∧ Lists items' m')
    (h : execute (fun db => db.onTable itemsName f) w = (.ok u, w')) :
    Represents w'.state m' := by
  obtain ⟨t, items, ht, hitems, hlists⟩ := hm.table
  obtain ⟨t₀, t', ht₀, hstep, hstate⟩ := Database.onTable_eq_ok (execute_eq_ok h)
  obtain rfl := Option.some.inj (ht.symm.trans ht₀)
  obtain ⟨hname, items', hitems', hlists'⟩ := hf t items t' hitems hlists hstep
  rw [hstate]
  exact hm.setTable ht hname hitems' hlists'

theorem clear_represents {u : Unit} (hm : Represents w.state m)
    (h : execute (fun db => db.onTable itemsName fun t => .ok t.deleteAll) w = (.ok u, w')) :
    Represents w'.state .empty := by
  refine onTable_represents (f := fun t => .ok t.deleteAll) hm ?_ h
  intro t items t' hitems _ hstep
  obtain rfl := Except.ok.inj hstep
  exact ⟨rfl, [], hitems.deleteAll, Lists.nil⟩

theorem upsert_represents {u : Unit} (hm : Represents w.state m) (hvalid : ValidItem item)
    (h : execute (fun db => db.onTable itemsName fun t =>
      t.upsert deviceIdName (bindItem item)) w = (.ok u, w')) :
    Represents w'.state (m.put item hvalid) := by
  refine onTable_represents (f := fun t => t.upsert deviceIdName (bindItem item)) hm ?_ h
  intro t items t' hitems hlists hstep
  obtain ⟨hitems', hname⟩ := hitems.upsert hstep
  exact ⟨hname, _, hitems', hlists.upserted hvalid⟩

theorem isEmpty_filter_id {items : List DatabaseItem} (hlists : Lists items m) (id : Bytes) :
    (!(items.filter fun d => d.id = id).isEmpty) = m.containsItem id := by
  rw [← hlists.any_id, Bool.eq_iff_iff]
  simp

theorem isEmpty_rowsWhere {t : Table} {items : List DatabaseItem} (hitems : ItemsTable t items)
    (hlists : Lists items m) (id : Bytes) :
    (!(t.rowsWhere deviceIdName (.text id)).isEmpty) = m.containsItem id := by
  rw [← isEmpty_filter_id hlists, ← List.isEmpty_map (f := Row.cells), hitems.rowsWhere,
    List.isEmpty_map]

theorem deleteItem_represents {id : Bytes} {b : Bool} (hm : Represents w.state m)
    (h : deleteItem id w = (.ok b, w')) :
    b = m.containsItem id ∧ Represents w'.state (m.remove id) := by
  obtain ⟨t, items, ht, hitems, hlists⟩ := hm.table
  have hrun := statement_eq_ok h
  simp only [ht, Except.ok.injEq, Prod.mk.injEq] at hrun
  obtain ⟨rfl, hstate⟩ := hrun
  refine ⟨isEmpty_rowsWhere hitems hlists id, ?_⟩
  rw [← hstate]
  exact hm.setTable ht rfl (hitems.deleteWhere id) (hlists.remove id)

theorem replaceAll_represents {items : List DatabaseItem} {u : PUnit} (hm : Represents w.state m)
    (hvalid : ∀ d ∈ items, ValidItem d) (hnodup : (items.map DatabaseItem.id).Nodup)
    (h : transaction interrupted (do
      execute fun db => db.onTable itemsName fun t => .ok t.deleteAll
      items.forM (insertItem itemsName)) w = (.ok u, w')) :
    Represents w'.state (.ofItems items hvalid) := by
  obtain ⟨w₁, w₂, hstate₁, hbody, hstate⟩ := transaction_eq_ok h
  obtain ⟨_, w₃, hclear, hinsert⟩ := bind_eq_ok.mp hbody
  rw [hstate]
  rw [← hstate₁] at hm
  exact forM_insertItem_represents (clear_represents hm hclear) hvalid hnodup hinsert

end Programs

/-! ### The calls -/

namespace SQLiteDatabase

theorem readOnly_selectFrom {α : Type} (table : Bytes) (f : Table → α) :
    (selectFrom table f).ReadOnly := by
  refine readOnly_statement fun db a db' h => ?_
  cases ht : db.findTable table with
  | none => simp [ht] at h
  | some t =>
      simp only [ht, Except.ok.injEq, Prod.mk.injEq] at h
      exact h.2.symm

theorem readOnly_readItems (rows : Table → List Row) : (readItems rows).ReadOnly :=
  readOnly_bind (readOnly_selectFrom _ _) fun _ => readOnly_ofExcept _

/-- A call of an operation that is all or nothing throws and changes nothing, or
is its program on the file. -/
theorem operation_cases {α : Type} {p : Sql α} (hp : p.Atomic) {f : α → Reply}
    {w w' : World SQLiteDatabase} {r : Except StorageError Reply}
    (h : (f <$> operation p) w = (r, w')) :
    (∃ e, r = .error e ∧ w'.state = w.state) ∨
    ∃ a v, r = .ok (f a) ∧ p ⟨w.state.database, w.faults⟩ = (.ok a, v) ∧
      w'.state = { w.state with database := v.state } := by
  have hready : ensureInitialized.ReadOnly :=
    readOnly_bind (readOnly_inspect _) fun _ => readOnly_require _ _
  cases r with
  | error e =>
      refine Or.inl ⟨e, rfl, ?_⟩
      rcases bind_eq_error.mp h with hop | ⟨_, _, _, hpure⟩
      · rcases bind_eq_error.mp hop with hcheck | ⟨_, w₁, hcheck, hfile⟩
        · exact hready.of_eq hcheck
        · rw [← hready.of_eq hcheck]
          exact atomic_zoom (fun _ => rfl) hp _ _ _ hfile
      · cases hpure
  | ok reply =>
      obtain ⟨a, w₂, hop, hpure⟩ := bind_eq_ok.mp h
      obtain ⟨_, w₁, hcheck, hfile⟩ := bind_eq_ok.mp hop
      obtain ⟨v, hv, rfl⟩ := zoom_eq hfile
      obtain ⟨hreply, rfl⟩ := Prod.mk.inj hpure
      obtain rfl := Except.ok.inj hreply
      have hw₁ : w₁ = w := by
        obtain ⟨b, w₀, hinspect, hrequire⟩ := bind_eq_ok.mp hcheck
        rw [(require_eq_ok.mp hrequire).2]
        exact (Prod.mk.inj hinspect).2.symm
      subst hw₁
      exact Or.inr ⟨a, v, rfl, hv, rfl⟩

theorem atomic_execute (f : Database → Except Failure Database) : (execute f).Atomic :=
  atomic_command _ _

/-- What a call may do to a file that holds `m`: throw and leave it holding `m`, or
answer and leave it as a step of the map allows. -/
def Refined (m : DeviceMap) (c : Call) (r : Except StorageError Reply) (db' : Database) : Prop :=
  (∃ e, r = .error e ∧ Represents db' m) ∨
  ∃ reply m', r = .ok reply ∧ MapStep m c reply m' ∧ Represents db' m'

variable {w w' : World SQLiteDatabase} {m : DeviceMap} {c : Call} {r : Except StorageError Reply}

/-- An operation refines the map when its program, as far as it returns, does. -/
theorem refined_of_program {α : Type} {p : Sql α} {f : α → Reply} (hp : p.Atomic)
    (hm : Represents w.state.database m)
    (hstep : ∀ a v, p ⟨w.state.database, w.faults⟩ = (.ok a, v) →
      ∃ m', MapStep m c (f a) m' ∧ Represents v.state m')
    (h : (f <$> operation p) w = (r, w')) : Refined m c r w'.state.database := by
  rcases operation_cases hp h with ⟨e, rfl, hstate⟩ | ⟨a, v, rfl, hv, hstate⟩
  · exact Or.inl ⟨e, rfl, hstate ▸ hm⟩
  · obtain ⟨m', hmap, hrep⟩ := hstep a v hv
    exact Or.inr ⟨f a, m', rfl, hmap, hstate ▸ hrep⟩

/-- On a file at version 1 `Initialize` changes nothing. -/
theorem initializeDatabase_refined (hm : Represents w.state.database m)
    (h : call .initializeDatabase w = (r, w')) :
    Refined m .initializeDatabase r w'.state.database := by
  cases r with
  | error e =>
      rcases bind_eq_error.mp h with hinit | ⟨_, _, _, hpure⟩
      · exact Or.inl ⟨e, rfl, initializeDatabase_eq_error hinit ▸ hm⟩
      · cases hpure
  | ok reply =>
      obtain ⟨_, w₁, hinit, hpure⟩ := bind_eq_ok.mp h
      obtain ⟨hreply, rfl⟩ := Prod.mk.inj hpure
      obtain rfl := Except.ok.inj hreply
      obtain ⟨v, hv, rfl⟩ := initializeDatabase_eq_ok hinit
      refine Or.inr ⟨.done, m, rfl, .initializeDatabase m, ?_⟩
      have hone := hm.version
      cases initializeFile_eq_ok hv with
      | accepted _ hsame _ => exact hsame ▸ hm
      | created hzero _ _ => simp [hone] at hzero
      | migrated hzero _ _ => simp [hone] at hzero

theorem addItem_refined {item : DatabaseItem} (hm : Represents w.state.database m)
    (h : call (.addItem item) w = (r, w')) : Refined m (.addItem item) r w'.state.database := by
  refine refined_of_program (atomic_bind (readOnly_ofExcept _) fun _ => atomic_execute _) hm ?_ h
  intro _ v hv
  obtain ⟨hvalid, hinsert⟩ := validated_eq_ok hv
  obtain ⟨hfree, hrep⟩ := insertItem_represents hm hvalid hinsert
  exact ⟨m.put item hvalid, .addItem (by simp [DeviceMap.addItem_of_valid hvalid, hfree]), hrep⟩

theorem upsertItem_refined {item : DatabaseItem} (hm : Represents w.state.database m)
    (h : call (.upsertItem item) w = (r, w')) :
    Refined m (.upsertItem item) r w'.state.database := by
  refine refined_of_program (atomic_bind (readOnly_ofExcept _) fun _ => atomic_execute _) hm ?_ h
  intro _ v hv
  obtain ⟨hvalid, hupsert⟩ := validated_eq_ok hv
  exact ⟨m.put item hvalid, .upsertItem (DeviceMap.upsertItem_of_valid hvalid),
    upsert_represents hm hvalid hupsert⟩

theorem getItem_refined {id : Bytes} (hm : Represents w.state.database m)
    (h : call (.getItem id) w = (r, w')) : Refined m (.getItem id) r w'.state.database := by
  refine refined_of_program
    (readOnly_bind (readOnly_readItems _) fun _ => readOnly_pure _).atomic hm ?_ h
  intro found v hv
  obtain ⟨rows, v₁, hread, hpure⟩ := bind_eq_ok.mp hv
  obtain ⟨hfound, rfl⟩ := Prod.mk.inj hpure
  obtain rfl := Except.ok.inj hfound
  obtain ⟨hstate, items, hlists, rfl⟩ := readItems_represents
    (g := fun items => (items.filter fun d => d.id = id).take 1) hm
    (fun t items hitems => by rw [List.map_take, hitems.rowsWhere, ← List.map_take])
    (fun items d hd => List.mem_of_mem_filter (List.mem_of_mem_take hd)) hread
  refine ⟨m, ?_, hstate ▸ hm⟩
  rw [List.head?_take, if_neg one_ne_zero, hlists.head_filter]
  exact .getItem m id

theorem getAllItems_refined (hm : Represents w.state.database m)
    (h : call .getAllItems w = (r, w')) : Refined m .getAllItems r w'.state.database := by
  refine refined_of_program (readOnly_readItems _).atomic hm ?_ h
  intro found v hv
  obtain ⟨hstate, items, hlists, rfl⟩ := readItems_represents (g := fun items => items) hm
    (fun t items hitems => hitems.rows) (fun items d hd => hd) hv
  exact ⟨m, .getAllItems hlists.perm, hstate ▸ hm⟩

theorem replaceAll_refined {items : List DatabaseItem} (hm : Represents w.state.database m)
    (h : call (.replaceAll items) w = (r, w')) :
    Refined m (.replaceAll items) r w'.state.database := by
  refine refined_of_program
    (atomic_bind (readOnly_ofExcept _) fun _ => atomic_transaction _ _) hm ?_ h
  intro _ v hv
  obtain ⟨hcheck, hreplace⟩ := validated_eq_ok hv
  obtain ⟨hvalid, hnodup⟩ := validateItems_eq_ok hcheck
  exact ⟨_, .replaceAll m hvalid hnodup, replaceAll_represents hm hvalid hnodup hreplace⟩

theorem getAllSortedById_refined (hm : Represents w.state.database m)
    (h : call .getAllSortedById w = (r, w')) :
    Refined m .getAllSortedById r w'.state.database := by
  refine refined_of_program (readOnly_readItems _).atomic hm ?_ h
  intro found v hv
  obtain ⟨hstate, items, hlists, rfl⟩ := readItems_represents
    (g := List.insertionSort fun a b => a.id ≤ b.id) hm
    (fun t items hitems => hitems.rowsBy)
    (fun items d hd => (List.perm_insertionSort _ items).mem_iff.mp hd) hv
  refine ⟨m, ?_, hstate ▸ hm⟩
  rw [hlists.sorted]
  exact .getAllSortedById m

theorem containsItem_refined {id : Bytes} (hm : Represents w.state.database m)
    (h : call (.containsItem id) w = (r, w')) :
    Refined m (.containsItem id) r w'.state.database := by
  refine refined_of_program (readOnly_selectFrom _ _).atomic hm ?_ h
  intro b v hv
  obtain ⟨hstate, t, items, hitems, hlists, rfl⟩ := selectFrom_represents hm hv
  refine ⟨m, ?_, hstate ▸ hm⟩
  rw [isEmpty_rowsWhere hitems hlists]
  exact .containsItem m id

theorem countItems_refined (hm : Represents w.state.database m)
    (h : call .countItems w = (r, w')) : Refined m .countItems r w'.state.database := by
  refine refined_of_program (readOnly_selectFrom _ _).atomic hm ?_ h
  intro n v hv
  obtain ⟨hstate, t, items, hitems, hlists, rfl⟩ := selectFrom_represents hm hv
  refine ⟨m, ?_, hstate ▸ hm⟩
  rw [← List.length_map (f := Row.cells), hitems.rows, List.length_map, hlists.length]
  exact .countItems m

theorem removeItem_refined {id : Bytes} (hm : Represents w.state.database m)
    (h : call (.removeItem id) w = (r, w')) :
    Refined m (.removeItem id) r w'.state.database := by
  refine refined_of_program (atomic_statement _ _) hm ?_ h
  intro b v hv
  obtain ⟨rfl, hrep⟩ := deleteItem_represents hm hv
  exact ⟨m.remove id, .removeItem m id, hrep⟩

theorem clear_refined (hm : Represents w.state.database m)
    (h : call .clear w = (r, w')) : Refined m .clear r w'.state.database := by
  refine refined_of_program (atomic_execute _) hm ?_ h
  intro _ v hv
  exact ⟨.empty, .clear m, clear_represents hm hv⟩

/-- The step lemma of the refinement. -/
theorem call_refined (hm : Represents w.state.database m) (h : call c w = (r, w')) :
    Refined m c r w'.state.database := by
  cases c with
  | initializeDatabase => exact initializeDatabase_refined hm h
  | addItem item => exact addItem_refined hm h
  | upsertItem item => exact upsertItem_refined hm h
  | getItem id => exact getItem_refined hm h
  | getAllItems => exact getAllItems_refined hm h
  | replaceAll items => exact replaceAll_refined hm h
  | getAllSortedById => exact getAllSortedById_refined hm h
  | containsItem id => exact containsItem_refined hm h
  | countItems => exact countItems_refined hm h
  | removeItem id => exact removeItem_refined hm h
  | clear => exact clear_refined hm h

/-! ### From a fresh file -/

theorem itemsTable_v1Table (name sql : Bytes) : ItemsTable (v1Table name sql) [] :=
  ⟨deviceTable_v1Table name sql, rfl, rfl⟩

theorem represents_of_created {db db' : Database} (h : Created db db') :
    Represents db' .empty where
  version := by
    obtain ⟨db₁, _, rfl⟩ := h.created
    rfl
  table := ⟨_, [], h.find, itemsTable_v1Table _ _, Lists.nil⟩

theorem represents_of_initialized_empty {db' : Database} (h : Initialized Database.empty db') :
    Represents db' .empty := by
  cases h with
  | accepted hversion _ _ => simp [Database.empty] at hversion
  | created _ _ hcreated => exact represents_of_created hcreated
  | migrated _ hfound _ => exact absurd rfl hfound

end SQLiteDatabase

end Watchlist.Storage
