import Watchlist.Library.KeyedMap
import Watchlist.Storage.DatabaseItem

/-!
What the storage is for: a finite map from device id to device, every device of
which the validators accept. This is the abstract state that `SQLiteDatabase`
refines and that everything above the storage is stated on. The operations are
those of `IDatabase`, with the two reasons they have of their own to refuse: an
item that does not validate, and an id that is taken.
-/

namespace Watchlist.Storage

open Bytes

structure DeviceMap where
  items : KeyedMap DatabaseItem.id
  valid : ∀ item ∈ items, ValidItem item

namespace DeviceMap

theorem ext_items {m m' : DeviceMap} (h : m.items = m'.items) : m = m' := by
  cases m
  cases m'
  subst h
  rfl

def empty : DeviceMap := ⟨KeyedMap.empty, fun _ h => absurd h (KeyedMap.not_mem_empty _)⟩

def getItem (m : DeviceMap) (id : Bytes) : Option DatabaseItem := m.items.lookup id

def containsItem (m : DeviceMap) (id : Bytes) : Bool := m.items.contains id

def countItems (m : DeviceMap) : ℤ := m.items.toList.length

/-- The devices by ascending id. -/
def getAllSortedById (m : DeviceMap) : List DatabaseItem := m.items.toList

/-- Two maps that answer every lookup alike are equal. -/
theorem ext {m m' : DeviceMap} (h : ∀ id, m.getItem id = m'.getItem id) : m = m' :=
  ext_items (KeyedMap.ext_lookup h)

theorem id_of_getItem {m : DeviceMap} {id : Bytes} {item : DatabaseItem}
    (h : m.getItem id = some item) : item.id = id := KeyedMap.key_of_lookup h

theorem containsItem_eq (m : DeviceMap) (id : Bytes) :
    m.containsItem id = (m.getItem id).isSome := rfl

/-- Store an accepted item under its id. -/
def put (m : DeviceMap) (item : DatabaseItem) (h : ValidItem item) : DeviceMap where
  items := m.items.insert item
  valid := by
    intro d hd
    rcases KeyedMap.mem_insert.mp hd with rfl | ⟨hd, _⟩
    · exact h
    · exact m.valid d hd

def remove (m : DeviceMap) (id : Bytes) : DeviceMap where
  items := m.items.erase id
  valid := fun d hd => m.valid d (KeyedMap.mem_erase.mp hd).1

@[simp] theorem getItem_empty (id : Bytes) : empty.getItem id = none := rfl

theorem getItem_put (m : DeviceMap) (item : DatabaseItem) (h : ValidItem item) (id : Bytes) :
    (m.put item h).getItem id = if id = item.id then some item else m.getItem id := by
  rw [getItem, put, KeyedMap.lookup_insert]
  split_ifs <;> rfl

@[simp] theorem getItem_remove (m : DeviceMap) (id id' : Bytes) :
    (m.remove id).getItem id' = if id' = id then none else m.getItem id' := by
  rw [getItem, remove, KeyedMap.lookup_erase]
  split_ifs <;> rfl

/-- The map of a list of accepted items; callers give distinct ids. -/
def ofItems (items : List DatabaseItem) (h : ∀ item ∈ items, ValidItem item) : DeviceMap :=
  items.attach.foldl (fun m item => m.put item.1 (h item.1 item.2)) empty

theorem items_foldl_put {items : List DatabaseItem} (h : ∀ item ∈ items, ValidItem item)
    (l : List { item // item ∈ items }) (m : DeviceMap) :
    (l.foldl (fun m item => m.put item.1 (h item.1 item.2)) m).items =
      (l.map Subtype.val).foldl KeyedMap.insert m.items := by
  induction l generalizing m with
  | nil => rfl
  | cons item l ih => exact ih _

@[simp] theorem items_ofItems (items : List DatabaseItem) (h : ∀ item ∈ items, ValidItem item) :
    (ofItems items h).items = KeyedMap.ofList items := by
  refine (items_foldl_put h items.attach empty).trans ?_
  rw [List.attach_map_subtype_val]
  rfl

/-- `AddItem`: refuses an invalid item, then a taken id. -/
def addItem (m : DeviceMap) (item : DatabaseItem) : Except StorageError DeviceMap :=
  match h : validateItem item with
  | .error e => .error e
  | .ok () =>
      if m.containsItem item.id then .error (.sqliteException .unique)
      else .ok (m.put item h)

/-- `UpsertItem`: refuses an invalid item only. -/
def upsertItem (m : DeviceMap) (item : DatabaseItem) : Except StorageError DeviceMap :=
  match h : validateItem item with
  | .error e => .error e
  | .ok () => .ok (m.put item h)

theorem addItem_of_valid {m : DeviceMap} {item : DatabaseItem} (h : ValidItem item) :
    m.addItem item = if m.containsItem item.id then .error (.sqliteException .unique)
      else .ok (m.put item h) := by
  unfold addItem
  split
  · rename_i e he
    rw [ValidItem, he] at h
    cases h
  · rfl

theorem upsertItem_of_valid {m : DeviceMap} {item : DatabaseItem} (h : ValidItem item) :
    m.upsertItem item = .ok (m.put item h) := by
  unfold upsertItem
  split
  · rename_i e he
    rw [ValidItem, he] at h
    cases h
  · rfl

theorem addItem_eq_ok {m m' : DeviceMap} {item : DatabaseItem} (h : m.addItem item = .ok m') :
    ∃ hvalid : ValidItem item, m.getItem item.id = none ∧ m' = m.put item hvalid := by
  unfold addItem at h
  split at h
  · cases h
  · rename_i hvalid
    split at h
    · cases h
    · rename_i hfree
      refine ⟨hvalid, ?_, (Except.ok.inj h).symm⟩
      simpa [containsItem_eq] using hfree

theorem upsertItem_eq_ok {m m' : DeviceMap} {item : DatabaseItem}
    (h : m.upsertItem item = .ok m') : ∃ hvalid : ValidItem item, m' = m.put item hvalid := by
  unfold upsertItem at h
  split at h
  · cases h
  · rename_i hvalid
    exact ⟨hvalid, (Except.ok.inj h).symm⟩

end DeviceMap

end Watchlist.Storage
