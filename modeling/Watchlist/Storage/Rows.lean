import Watchlist.Storage.Schema

/-!
Rows of a device table and the devices they stand for. `BindItem` and
`DecodeDatabaseItem` are inverse to each other on accepted devices, and a device
table that holds bound devices keeps doing so under every statement the storage
issues.
-/

namespace Watchlist.Storage

open Bytes Sqlite Faulty Faulty.Program

/-! ### Binding and decoding -/

theorem ofNat_toNat_port {i : ℤ} (h : ¬(i < 0 ∨ 65535 < i)) :
    ((UInt16.ofNat i.toNat).toNat : ℤ) = i := by
  rw [UInt16.toNat_ofNat']
  omega

theorem decodeDatabaseItem_bindItem {item : DatabaseItem} (h : ValidItem item) :
    decodeDatabaseItem (bindItem item) = .ok item := by
  have hport : ¬((item.port.toNat : ℤ) < 0 ∨ (65535 : ℤ) < item.port.toNat) := by
    have := item.port.toNat_lt
    omega
  have halive : ¬((if item.alive then (1 : ℤ) else 0) ≠ 0 ∧
      (if item.alive then (1 : ℤ) else 0) ≠ 1) := by
    cases item.alive <;> simp
  have hitem : (⟨item.id, item.name, item.ipAddress, UInt16.ofNat (item.port.toNat : ℤ).toNat,
      decide ((if item.alive then (1 : ℤ) else 0) = 1)⟩ : DatabaseItem) = item := by
    cases item with
    | mk id name ipAddress port alive => cases alive <;> simp
  change (if _ then _ else _) = _
  rw [if_neg hport, if_neg halive]
  change (validateItem _ >>= fun _ => pure _) = _
  rw [hitem, show validateItem item = .ok () from h]
  rfl

theorem decodeText_eq_ok {row : List Value} {index : ℕ} {field : DatabaseField} {b : Bytes}
    (h : decodeText row index field = .ok b) : row.getD index .null = .text b := by
  unfold decodeText at h
  split at h
  · rename_i b' hb
    rw [hb, Except.ok.inj h]
  · cases h

theorem decodeInteger_eq_ok {row : List Value} {index : ℕ} {field : DatabaseField}
    {message : String} {i : ℤ} (h : decodeInteger row index field message = .ok i) :
    row.getD index .null = .integer i := by
  unfold decodeInteger at h
  split at h
  · rename_i i' hi
    rw [hi, Except.ok.inj h]
  · cases h

theorem bind_eq_ok_iff {ε α β : Type} {r : Except ε α} {f : α → Except ε β} {b : β} :
    (r >>= f) = .ok b ↔ ∃ a, r = .ok a ∧ f a = .ok b := by
  cases r with
  | ok a =>
      refine ⟨fun h => ⟨a, rfl, h⟩, ?_⟩
      rintro ⟨a', ha, h⟩
      rwa [Except.ok.inj ha]
  | error e =>
      constructor
      · intro h
        cases h
      · rintro ⟨_, ha, _⟩
        cases ha

/-- A decoded row is the binding of the device it decodes to, and the device is
one the storage accepts. -/
theorem eq_bindItem_of_decode {row : List Value} {item : DatabaseItem} (hlength : row.length = 5)
    (h : decodeDatabaseItem row = .ok item) : row = bindItem item ∧ ValidItem item := by
  match row, hlength with
  | [v₀, v₁, v₂, v₃, v₄], _ =>
      obtain ⟨id, hid, h₁⟩ := bind_eq_ok_iff.mp h
      obtain ⟨name, hname, h₂⟩ := bind_eq_ok_iff.mp h₁
      obtain ⟨address, haddress, h₃⟩ := bind_eq_ok_iff.mp h₂
      obtain ⟨port, hport, h₄⟩ := bind_eq_ok_iff.mp h₃
      obtain ⟨alive, halive, h₅⟩ := bind_eq_ok_iff.mp h₄
      obtain rfl : v₀ = .text id := decodeText_eq_ok hid
      obtain rfl : v₁ = .text name := decodeText_eq_ok hname
      obtain rfl : v₂ = .text address := decodeText_eq_ok haddress
      obtain rfl : v₃ = .integer port := decodeInteger_eq_ok hport
      obtain rfl : v₄ = .integer alive := decodeInteger_eq_ok halive
      split at h₅
      · cases h₅
      · rename_i hrange
        split at h₅
        · cases h₅
        · rename_i hflag
          obtain ⟨u, hvalid, h₆⟩ := bind_eq_ok_iff.mp h₅
          obtain rfl := Except.ok.inj h₆
          refine ⟨?_, hvalid⟩
          have hbit : (if decide (alive = 1) then (1 : ℤ) else 0) = alive := by
            by_cases h₁ : alive = 1
            · simp [h₁]
            · simp only [h₁, decide_false, Bool.false_eq_true, if_false]
              exact (not_not.mp fun h₀ => hflag ⟨Ne.symm h₀, h₁⟩)
          simp only [bindItem, ofNat_toNat_port hrange, hbit]

theorem mapM_decode_bindItem {items : List DatabaseItem} (h : ∀ item ∈ items, ValidItem item) :
    (items.map bindItem).mapM decodeDatabaseItem = .ok items := by
  induction items with
  | nil => rfl
  | cons item items ih =>
      rw [List.map_cons, List.mapM_cons, decodeDatabaseItem_bindItem (h item List.mem_cons_self)]
      change ((items.map bindItem).mapM decodeDatabaseItem >>= _) = _
      rw [ih fun d hd => h d (List.mem_cons_of_mem _ hd)]
      rfl

theorem eq_map_bindItem_of_mapM_decode {rows : List (List Value)} {items : List DatabaseItem}
    (hlength : ∀ row ∈ rows, row.length = 5)
    (h : rows.mapM decodeDatabaseItem = .ok items) : rows = items.map bindItem := by
  induction rows generalizing items with
  | nil =>
      rw [List.mapM_nil] at h
      rw [← Except.ok.inj h]
      rfl
  | cons row rows ih =>
      rw [List.mapM_cons] at h
      obtain ⟨item, hitem, h⟩ := bind_eq_ok_iff.mp h
      obtain ⟨rest, hrest, h⟩ := bind_eq_ok_iff.mp h
      rw [← Except.ok.inj h, List.map_cons,
        ← (eq_bindItem_of_decode (hlength row List.mem_cons_self) hitem).1,
        ← ih (fun r hr => hlength r (List.mem_cons_of_mem _ hr)) hrest]

/-! ### Device tables -/

theorem DeviceTable.cellNames {t : Table} (h : DeviceTable t) :
    t.cellNames = canonicalProjection := by
  rw [Table.cellNames, h.columns]
  decide

theorem DeviceTable.cell {t : Table} (h : DeviceTable t) (cells : List Value) (column : Bytes) :
    t.cell cells column = cells.getD (canonicalProjection.idxOf column) .null := by
  rw [Table.cell, h.cellNames]

theorem DeviceTable.cell_deviceId {t : Table} (h : DeviceTable t) (item : DatabaseItem) :
    t.cell (bindItem item) deviceIdName = .text item.id := by
  rw [h.cell, show canonicalProjection.idxOf deviceIdName = 0 by decide]
  rfl

/-- The canonical projection of a row is its cells. -/
theorem DeviceTable.projection {t : Table} (h : DeviceTable t) (item : DatabaseItem) :
    canonicalProjection.map (t.cell (bindItem item)) = bindItem item := by
  have hcell : t.cell (bindItem item) =
      fun column => (bindItem item).getD (canonicalProjection.idxOf column) .null :=
    funext (h.cell _)
  have hindex : canonicalProjection.map canonicalProjection.idxOf = [0, 1, 2, 3, 4] := by decide
  rw [hcell, ← Function.comp_def (fun i => (bindItem item).getD i .null), ← List.map_map, hindex]
  rfl

theorem DeviceTable.project {t : Table} (h : DeviceTable t) {rows : List Row}
    {items : List DatabaseItem} (hrows : rows.map Row.cells = items.map bindItem) :
    t.project canonicalProjection rows = items.map bindItem := by
  have hmap : t.project canonicalProjection rows =
      (rows.map Row.cells).map fun cells => canonicalProjection.map (t.cell cells) := by
    rw [List.map_map]
    rfl
  rw [hmap, hrows, List.map_map]
  exact List.map_congr_left fun item _ => h.projection item

theorem length_of_mem_project {t : Table} {rows : List Row} {row : List Value}
    (h : row ∈ t.project canonicalProjection rows) : row.length = 5 := by
  obtain ⟨r, _, rfl⟩ := List.mem_map.mp h
  rw [List.length_map]
  rfl

/-! ### The constraints of the v1 table -/

theorem DeviceTable.cell_bindItem {t : Table} (h : DeviceTable t) (item : DatabaseItem)
    {column : Bytes} {i : ℕ} (hi : canonicalProjection.idxOf column = i) :
    t.cell (bindItem item) column = (bindItem item).getD i .null := by
  rw [h.cell, hi]

theorem DeviceTable.meetsNotNull {t : Table} (h : DeviceTable t) (item : DatabaseItem) :
    t.meetsNotNull (bindItem item) = true := by
  have hindex : ∀ c ∈ deviceColumns, c.notNull = true →
      canonicalProjection.idxOf c.name < 5 := by decide
  have hcell : ∀ i < 5, (bindItem item).getD i .null ≠ .null := by
    intro i hi
    interval_cases i <;> simp [bindItem]
  rw [Table.meetsNotNull, h.columns, List.all_eq_true]
  intro c hc
  cases hnull : c.notNull with
  | false => rfl
  | true => simpa [h.cell_bindItem item rfl] using hcell _ (hindex c hc hnull)

/-- The constraints of the table are weaker than the validators. -/
theorem DeviceTable.meetsChecks {t : Table} (h : DeviceTable t) (hchecks : t.checks = v1Checks)
    {item : DatabaseItem} (hvalid : ValidItem item) : t.meetsChecks (bindItem item) = true := by
  obtain ⟨hid, hname, haddress⟩ := hvalid.lengths
  have hport := item.port.toNat_lt
  have hcell : ∀ column i, canonicalProjection.idxOf column = i →
      t.cell (bindItem item) column = (bindItem item).getD i .null :=
    fun _ _ hi => h.cell_bindItem item hi
  have h₀ := hcell deviceIdName 0 (by decide)
  have h₁ := hcell (ascii "name") 1 (by decide)
  have h₂ := hcell (ascii "ip_address") 2 (by decide)
  have h₃ := hcell (ascii "port") 3 (by decide)
  have h₄ := hcell (ascii "alive") 4 (by decide)
  have halive : (if item.alive then (1 : ℤ) else 0) ∈ [(0 : ℤ), 1] := by
    cases item.alive <;> simp
  rw [Table.meetsChecks, hchecks]
  simp only [v1Checks, List.all_cons, List.all_nil, Check.holds, h₀, h₁, h₂, h₃, h₄]
  simp only [bindItem, List.getD_cons_zero, List.getD_cons_succ, Value.typeName]
  simp only [hid, hname, haddress, halive, and_self, decide_true, beq_self_eq_true, Bool.and_true,
    Bool.true_and, decide_eq_true_eq]
  omega

/-- Two tables with one definition: only the rows may differ. -/
structure SameDefinition (t t' : Table) : Prop where
  name : t'.name = t.name
  sql : t'.sql = t.sql
  columns : t'.columns = t.columns
  indexes : t'.indexes = t.indexes
  checks : t'.checks = t.checks

theorem SameDefinition.refl (t : Table) : SameDefinition t t := ⟨rfl, rfl, rfl, rfl, rfl⟩

theorem SameDefinition.trans {t t' t'' : Table} (h : SameDefinition t t')
    (h' : SameDefinition t' t'') : SameDefinition t t'' :=
  ⟨h'.name.trans h.name, h'.sql.trans h.sql, h'.columns.trans h.columns,
    h'.indexes.trans h.indexes, h'.checks.trans h.checks⟩

theorem SameDefinition.deviceTable {t t' : Table} (h : SameDefinition t t')
    (ht : DeviceTable t) : DeviceTable t' :=
  ⟨h.columns.trans ht.columns, by
    obtain ⟨ix, hix, hrest⟩ := ht.index
    exact ⟨ix, h.indexes.trans hix, hrest⟩⟩

theorem SameDefinition.quotableIndexes {t t' : Table} (h : SameDefinition t t')
    (ht : QuotableIndexes t) : QuotableIndexes t' := by
  rw [QuotableIndexes, h.indexes]
  exact ht

/-! ### Inserting devices -/

/-- Two rows clash when they carry one device id. -/
theorem DeviceTable.clash {t : Table} (h : DeviceTable t) (d item : DatabaseItem) :
    t.clash (bindItem d) (bindItem item) = decide (d.id = item.id) := by
  obtain ⟨ix, hix, hunique, hwhole, hcolumns⟩ := h.index
  by_cases hid : d.id = item.id <;>
    simp [Table.clash, hix, hunique, hwhole, hcolumns, h.cell_deviceId, hid]

theorem insert_eq_ok {t t' : Table} {cells : List Value} (h : t.insert cells = .ok t') :
    SameDefinition t t' ∧ t'.rows.map Row.cells = t.rows.map Row.cells ++ [cells] ∧
    ∀ r ∈ t.rows, t.clash r.cells cells = false := by
  unfold Table.insert at h
  split at h
  · cases h
  · split at h
    · cases h
    · split at h
      · cases h
      · rename_i hclash
        obtain rfl := Except.ok.inj h
        refine ⟨⟨rfl, rfl, rfl, rfl, rfl⟩, by simp [Table.appendRow], ?_⟩
        simpa using hclash

theorem execute_eq_ok {f : Database → Except Failure Database} {w w' : World Database} {u : Unit}
    (h : execute f w = (.ok u, w')) : f w.state = .ok w'.state := by
  have hrun := command_eq_ok h
  cases hf : f w.state with
  | error e => simp [hf, Except.mapError] at hrun
  | ok db => simpa [hf, Except.mapError] using hrun

theorem selectFrom_eq_ok {α : Type} {table : Bytes} {f : Table → α} {w w' : World Database} {a : α}
    (h : selectFrom table f w = (.ok a, w')) :
    ∃ t, w.state.findTable table = some t ∧ a = f t ∧ w'.state = w.state := by
  have hrun := statement_eq_ok h
  cases ht : w.state.findTable table with
  | none => simp [ht] at hrun
  | some t =>
      simp only [ht, Except.ok.injEq, Prod.mk.injEq] at hrun
      exact ⟨t, rfl, hrun.1.symm, hrun.2.symm⟩

theorem insertItem_eq_ok {table : Bytes} {item : DatabaseItem} {w w' : World Database} {u : Unit}
    (h : insertItem table item w = (.ok u, w')) :
    ∃ t t', w.state.findTable table = some t ∧ t.insert (bindItem item) = .ok t' ∧
      w'.state = w.state.setTable table t' :=
  Database.onTable_eq_ok (execute_eq_ok h)

/-- The table after inserting devices: the same, with their rows at the end. -/
theorem forM_insertItem_eq_ok {table : Bytes} {items : List DatabaseItem} {w w' : World Database}
    {u : PUnit} {t : Table} (h : items.forM (insertItem table) w = (.ok u, w'))
    (ht : w.state.findTable table = some t) :
    w'.state.userVersion = w.state.userVersion ∧
    (∀ other ≠ table, w'.state.findTable other = w.state.findTable other) ∧
    ∃ t', w'.state.findTable table = some t' ∧ SameDefinition t t' ∧
      t'.rows.map Row.cells = t.rows.map Row.cells ++ items.map bindItem := by
  induction items generalizing w t with
  | nil =>
      obtain ⟨_, rfl⟩ := Prod.mk.inj h
      exact ⟨rfl, fun _ _ => rfl, t, ht, SameDefinition.refl t, by simp⟩
  | cons item items ih =>
      change (insertItem table item >>= fun _ => items.forM (insertItem table)) w = _ at h
      obtain ⟨_, w₁, hfirst, hrest⟩ := bind_eq_ok.mp h
      obtain ⟨t₀, t₁, ht₀, hinsert, hstate⟩ := insertItem_eq_ok hfirst
      obtain rfl : t = t₀ := Option.some.inj (ht.symm.trans ht₀)
      obtain ⟨hsame₁, hrows₁, _⟩ := insert_eq_ok hinsert
      have hname : t₁.name = table := hsame₁.name.trans (Database.findTable_name ht)
      have ht₁ : w₁.state.findTable table = some t₁ :=
        hstate ▸ Database.findTable_setTable_self ht hname
      obtain ⟨hversion, hothers, t', ht', hsame, hrows⟩ := ih hrest ht₁
      refine ⟨by rw [hversion, hstate, Database.userVersion_setTable], fun other hne => ?_,
        t', ht', hsame₁.trans hsame, by simp [hrows, hrows₁]⟩
      rw [hothers other hne, hstate, Database.findTable_setTable_of_ne hne hname]

/-- Devices that have been inserted one after the other have distinct ids. -/
theorem nodup_of_forM_insertItem {table : Bytes} {items found : List DatabaseItem}
    {w w' : World Database} {u : PUnit} {t : Table}
    (h : items.forM (insertItem table) w = (.ok u, w')) (ht : w.state.findTable table = some t)
    (hdevice : DeviceTable t) (hrows : t.rows.map Row.cells = found.map bindItem)
    (hfound : (found.map DatabaseItem.id).Nodup) :
    ((found ++ items).map DatabaseItem.id).Nodup := by
  induction items generalizing w t found with
  | nil => rwa [List.append_nil]
  | cons item items ih =>
      change (insertItem table item >>= fun _ => items.forM (insertItem table)) w = _ at h
      obtain ⟨_, w₁, hfirst, hrest⟩ := bind_eq_ok.mp h
      obtain ⟨t₀, t₁, ht₀, hinsert, hstate⟩ := insertItem_eq_ok hfirst
      obtain rfl : t = t₀ := Option.some.inj (ht.symm.trans ht₀)
      obtain ⟨hsame, hrows₁, hclash⟩ := insert_eq_ok hinsert
      have ht₁ : w₁.state.findTable table = some t₁ :=
        hstate ▸ Database.findTable_setTable_self ht (hsame.name.trans (Database.findTable_name ht))
      have hnew : ∀ d ∈ found, d.id ≠ item.id := by
        intro d hd
        obtain ⟨r, hr, hcells⟩ := List.mem_map.mp (hrows ▸ List.mem_map_of_mem hd)
        have hfree := hclash r hr
        rw [hcells, hdevice.clash] at hfree
        simpa using hfree
      have happend : ((found ++ [item]).map DatabaseItem.id).Nodup := by
        rw [List.map_append, List.map_singleton, List.nodup_append]
        refine ⟨hfound, List.nodup_singleton _, ?_⟩
        simpa using hnew
      have hall := ih hrest ht₁ (hsame.deviceTable hdevice) (by rw [hrows₁, hrows]; simp) happend
      rwa [List.append_assoc] at hall

/-- What a decoding read returned. -/
theorem readItems_eq_ok {rows : Table → List Row} {w w' : World Database}
    {items : List DatabaseItem} (h : readItems rows w = (.ok items, w')) :
    ∃ t, w.state.findTable itemsName = some t ∧ w'.state = w.state ∧
      (t.project canonicalProjection (rows t)).mapM decodeDatabaseItem = .ok items := by
  obtain ⟨found, w₁, hread, hdecode⟩ := bind_eq_ok.mp h
  obtain ⟨t, ht, rfl, hstate⟩ := selectFrom_eq_ok hread
  obtain ⟨hitems, rfl⟩ := ofExcept_eq_ok.mp hdecode
  exact ⟨t, ht, hstate, hitems⟩

/-- Decoding returns accepted devices only. -/
theorem validItem_of_readItems {rows : Table → List Row} {w w' : World Database}
    {items : List DatabaseItem} (h : readItems rows w = (.ok items, w')) :
    ∀ item ∈ items, ValidItem item := by
  obtain ⟨t, -, -, hdecode⟩ := readItems_eq_ok h
  have hlength : ∀ row ∈ t.project canonicalProjection (rows t), row.length = 5 :=
    fun row hrow => length_of_mem_project hrow
  generalize t.project canonicalProjection (rows t) = found at hdecode hlength
  clear h
  induction found generalizing items with
  | nil =>
      rw [List.mapM_nil] at hdecode
      obtain rfl := Except.ok.inj hdecode
      exact fun item hitem => absurd hitem List.not_mem_nil
  | cons row found ih =>
      obtain ⟨hrow, hfound⟩ := List.forall_mem_cons.mp hlength
      rw [List.mapM_cons] at hdecode
      obtain ⟨item, hitem, hdecode⟩ := bind_eq_ok_iff.mp hdecode
      obtain ⟨rest, hrest, hdecode⟩ := bind_eq_ok_iff.mp hdecode
      obtain rfl := Except.ok.inj hdecode
      exact List.forall_mem_cons.mpr
        ⟨(eq_bindItem_of_decode hrow hitem).2, ih hrest hfound⟩

/-! ### What the operations leave alone -/

/-- Of the file, the rows of the items table have changed, at most. -/
structure RowsOnly (db db' : Database) : Prop where
  master : db'.master = db.master
  others : db'.others = db.others
  tables : ∀ other ≠ itemsName, db'.findTable other = db.findTable other
  items : ∀ t, db.findTable itemsName = some t →
    ∃ t', db'.findTable itemsName = some t' ∧ SameDefinition t t'

section
variable {db db' db'' : Database} {t t' : Table} {α β : Type}

theorem RowsOnly.refl (db : Database) : RowsOnly db db :=
  ⟨rfl, rfl, fun _ _ => rfl, fun t ht => ⟨t, ht, .refl t⟩⟩

theorem RowsOnly.trans (h : RowsOnly db db') (h' : RowsOnly db' db'') : RowsOnly db db'' where
  master := h'.master.trans h.master
  others := h'.others.trans h.others
  tables other hne := (h'.tables other hne).trans (h.tables other hne)
  items t ht := by
    obtain ⟨t', ht', hsame⟩ := h.items t ht
    obtain ⟨t'', ht'', hsame'⟩ := h'.items t' ht'
    exact ⟨t'', ht'', hsame.trans hsame'⟩

theorem RowsOnly.setTable (ht : db.findTable itemsName = some t) (hsame : SameDefinition t t') :
    RowsOnly db (db.setTable itemsName t') := by
  have hname : t'.name = itemsName := hsame.name.trans (Database.findTable_name ht)
  refine ⟨Database.master_setTable hname, rfl,
    fun other hne => Database.findTable_setTable_of_ne hne hname, fun t₀ ht₀ => ?_⟩
  obtain rfl := Option.some.inj (ht.symm.trans ht₀)
  exact ⟨t', Database.findTable_setTable_self ht hname, hsame⟩

/-- The schema is accepted as before. -/
theorem Accepted.of_rowsOnly {expected : Bytes} (h : Accepted expected db)
    (hrows : RowsOnly db db') : Accepted expected db' := by
  obtain ⟨t, sql, ht, hdevice, hsql, hsame⟩ := h.table
  obtain ⟨t', ht', hdefinition⟩ := hrows.items t ht
  refine ⟨?_, fun u hu => ?_, t', sql, ht', hdefinition.deviceTable hdevice,
    hdefinition.sql.trans hsql, hsame⟩
  · rw [userObjects, hrows.master]
    exact h.objects
  · obtain rfl := Option.some.inj (ht'.symm.trans hu)
    exact hdefinition.quotableIndexes (h.named t ht)

/-- When it returns, the program has changed the rows of the items table, at most. -/
def ChangesRows (p : Sql α) : Prop :=
  ∀ w a w', p w = (.ok a, w') → RowsOnly w.state w'.state

theorem changesRows_of_readOnly {p : Sql α} (hp : p.ReadOnly) : ChangesRows p := by
  intro w a w' h
  rw [hp.of_eq h]
  exact .refl _

theorem ChangesRows.bind {p : Sql α} {f : α → Sql β} (hp : ChangesRows p)
    (hf : ∀ a, ChangesRows (f a)) : ChangesRows (p >>= f) := by
  intro w b w' h
  obtain ⟨a, w₁, ha, hb⟩ := bind_eq_ok.mp h
  exact (hp w a w₁ ha).trans (hf a w₁ b w' hb)

theorem ChangesRows.forM {γ : Type} {f : γ → Sql PUnit} (hf : ∀ c, ChangesRows (f c))
    (l : List γ) : ChangesRows (l.forM f) := by
  induction l with
  | nil => exact changesRows_of_readOnly (readOnly_pure _)
  | cons c l ih => exact (hf c).bind fun _ => ih

theorem ChangesRows.transaction {body : Sql α} (h : ChangesRows body) :
    ChangesRows (transaction interrupted body) := by
  intro w a w' hrun
  obtain ⟨w₁, w₂, hstate₁, hbody, hstate⟩ := transaction_eq_ok hrun
  rw [hstate, ← hstate₁]
  exact h w₁ a w₂ hbody

theorem changesRows_onTable {f : Table → Except Failure Table}
    (hf : ∀ t t', f t = .ok t' → SameDefinition t t') :
    ChangesRows (execute fun db => db.onTable itemsName f) := by
  intro w u w' h
  obtain ⟨t, t', ht, hstep, hstate⟩ := Database.onTable_eq_ok (execute_eq_ok h)
  rw [hstate]
  exact .setTable ht (hf t t' hstep)

theorem changesRows_insertItem (item : DatabaseItem) : ChangesRows (insertItem itemsName item) :=
  changesRows_onTable fun _ _ h => (insert_eq_ok h).1

theorem sameDefinition_upsert {key : Bytes} {cells : List Value}
    (h : t.upsert key cells = .ok t') : SameDefinition t t' := by
  unfold Table.upsert at h
  split at h
  · cases h
  · split at h
    · cases h
    · split at h
      · cases h
      · split at h
        · obtain rfl := Except.ok.inj h
          exact ⟨rfl, rfl, rfl, rfl, rfl⟩
        · exact (insert_eq_ok h).1

theorem changesRows_deleteAll :
    ChangesRows (execute fun db => db.onTable itemsName fun t => .ok t.deleteAll) := by
  refine changesRows_onTable (f := fun t => .ok t.deleteAll) fun t t' h => ?_
  obtain rfl := Except.ok.inj h
  exact ⟨rfl, rfl, rfl, rfl, rfl⟩

theorem changesRows_deleteItem (id : Bytes) : ChangesRows (deleteItem id) := by
  intro w b w' h
  have hrun := statement_eq_ok h
  cases ht : w.state.findTable itemsName with
  | none => simp [ht] at hrun
  | some t =>
      simp only [ht, Except.ok.injEq, Prod.mk.injEq] at hrun
      rw [← hrun.2]
      exact .setTable ht ⟨rfl, rfl, rfl, rfl, rfl⟩

end

end Watchlist.Storage
