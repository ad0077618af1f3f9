import Watchlist.Storage.CallOutcomes

/-!
`IDatabase.hpp`, as far as the layers above the storage use it. An
implementation refines the map of devices when each of its operations either
throws and leaves the map alone, or returns and takes the map's step. The file
storage does, and without failures it returns whenever the map does not refuse.
-/

namespace Watchlist.Storage

open Bytes Faulty Faulty.Program

structure IDatabase (σ : Type) where
  initializeDatabase : Program σ StorageError Unit
  addItem (item : DatabaseItem) : Program σ StorageError Unit
  upsertItem (item : DatabaseItem) : Program σ StorageError Unit
  removeItem (id : Bytes) : Program σ StorageError Bool
  getAllSortedById : Program σ StorageError (List DatabaseItem)

/-- The outcome of an operation on a database that holds `m`: it threw and the
database still holds `m`, or it returned and the step `P` has been taken. -/
def Keeps {σ α : Type} (R : σ → DeviceMap → Prop) (m : DeviceMap) (P : α → DeviceMap → Prop)
    (outcome : Except StorageError α × World σ) : Prop :=
  match outcome.1 with
  | .error _ => R outcome.2.state m
  | .ok a => ∃ m', P a m' ∧ R outcome.2.state m'

namespace IDatabase

variable {σ : Type}

/-- The contract of the interface, for databases that hold a map in the sense of `R`. -/
structure Refines (D : IDatabase σ) (R : σ → DeviceMap → Prop) : Prop where
  addItem : ∀ (w : World σ) m item, R w.state m →
    Keeps R m (fun _ m' => m.addItem item = .ok m') (D.addItem item w)
  upsertItem : ∀ (w : World σ) m item, R w.state m →
    Keeps R m (fun _ m' => m.upsertItem item = .ok m') (D.upsertItem item w)
  removeItem : ∀ (w : World σ) m id, R w.state m →
    Keeps R m (fun _ m' => m' = m.remove id) (D.removeItem id w)
  getAllSortedById : ∀ (w : World σ) m, R w.state m →
    Keeps R m (fun items m' => items = m.getAllSortedById ∧ m' = m) (D.getAllSortedById w)

end IDatabase

/-! ### The file -/

/-- The file storage behind the interface. -/
def sqliteDatabase : IDatabase SQLiteDatabase where
  initializeDatabase := SQLiteDatabase.initializeDatabase
  addItem := SQLiteDatabase.addItem
  upsertItem := SQLiteDatabase.upsertItem
  removeItem := SQLiteDatabase.removeItem
  getAllSortedById := SQLiteDatabase.getAllSortedById

/-- The file of the object holds the map. -/
def Holds (s : SQLiteDatabase) (m : DeviceMap) : Prop := Represents s.database m

theorem keeps_call {α : Type} {c : Call} {p : SQLiteDatabase.Method α} {f : α → Reply}
    (hc : SQLiteDatabase.call c = f <$> p) {w : World SQLiteDatabase} {m : DeviceMap}
    {P : α → DeviceMap → Prop} (hm : Holds w.state m)
    (hP : ∀ a m', MapStep m c (f a) m' → P a m') : Keeps Holds m P (p w) := by
  rcases hp : p w with ⟨e | a, w'⟩
  · have hcall : SQLiteDatabase.call c w = (.error e, w') := by
      rw [hc]
      exact bind_of_error hp
    rcases SQLiteDatabase.call_refined hm hcall with ⟨_, _, hrep⟩ | ⟨_, _, hok, _⟩
    · exact hrep
    · cases hok
  · have hcall : SQLiteDatabase.call c w = (.ok (f a), w') := by
      rw [hc]
      exact bind_of_ok hp
    rcases SQLiteDatabase.call_refined hm hcall with ⟨_, herr, _⟩ | ⟨_, m', hok, hstep, hrep⟩
    · cases herr
    · obtain rfl := Except.ok.inj hok
      exact ⟨m', hP a m' hstep, hrep⟩

theorem sqliteDatabase_refines : sqliteDatabase.Refines Holds where
  addItem _ _ item hm := by
    apply keeps_call (c := .addItem item) rfl hm
    intro _ m' hstep
    cases hstep with
    | addItem h => exact h
  upsertItem _ _ item hm := by
    apply keeps_call (c := .upsertItem item) rfl hm
    intro _ m' hstep
    cases hstep with
    | upsertItem h => exact h
  removeItem _ _ id hm := by
    apply keeps_call (c := .removeItem id) rfl hm
    intro _ m' hstep
    cases hstep
    rfl
  getAllSortedById _ _ hm := by
    apply keeps_call (c := .getAllSortedById) rfl hm
    intro _ m' hstep
    cases hstep
    exact ⟨rfl, rfl⟩

/-! ### Without failures -/

/-- What the interface promises when no statement fails: an operation that the map
does not refuse returns. -/
structure IDatabase.Answers {σ : Type} (D : IDatabase σ) (R : σ → DeviceMap → Prop) : Prop where
  addItem : ∀ s m m' item, R s m → m.addItem item = .ok m' →
    ∃ s', (D.addItem item).Returns s () s'
  upsertItem : ∀ s m m' item, R s m → m.upsertItem item = .ok m' →
    ∃ s', (D.upsertItem item).Returns s () s'
  removeItem : ∀ s m id, R s m → ∃ found s', (D.removeItem id).Returns s found s'
  getAllSortedById : ∀ s m, R s m → ∃ items s', D.getAllSortedById.Returns s items s'

/-- The object is initialized, and its file holds the map. -/
structure Serves (s : SQLiteDatabase) (m : DeviceMap) : Prop where
  initialized : s.initialized = true
  holds : Holds s m

theorem operation_initialized {α : Type} {p : Sql α} {w w' : World SQLiteDatabase}
    {r : Except StorageError α} (h : SQLiteDatabase.operation p w = (r, w')) :
    w'.state.initialized = w.state.initialized := by
  have hready : SQLiteDatabase.ensureInitialized.ReadOnly :=
    readOnly_bind (readOnly_inspect _) fun _ => readOnly_require _ _
  rcases hcheck : SQLiteDatabase.ensureInitialized w with ⟨e | u, w₁⟩
  · have hop : SQLiteDatabase.operation p w = (.error e, w₁) := bind_of_error hcheck
    obtain ⟨_, rfl⟩ := Prod.mk.inj (hop.symm.trans h)
    rw [hready.of_eq hcheck]
  · have hop : SQLiteDatabase.operation p w = SQLiteDatabase.onFile p w₁ := bind_of_ok hcheck
    obtain ⟨v, _, rfl⟩ := zoom_eq (hop.symm.trans h)
    change w₁.state.initialized = _
    rw [hready.of_eq hcheck]

theorem Keeps.serves {α : Type} {p : Sql α} {w : World SQLiteDatabase} {m : DeviceMap}
    {P : α → DeviceMap → Prop} (hinitialized : w.state.initialized = true)
    (h : Keeps Holds m P (SQLiteDatabase.operation p w)) :
    Keeps Serves m P (SQLiteDatabase.operation p w) := by
  rcases hop : SQLiteDatabase.operation p w with ⟨e | a, w'⟩
  · rw [hop] at h
    exact ⟨(operation_initialized hop).trans hinitialized, h⟩
  · rw [hop] at h
    obtain ⟨m', hstep, hm'⟩ := h
    exact ⟨m', hstep, (operation_initialized hop).trans hinitialized, hm'⟩

theorem sqliteDatabase_refines_serves : sqliteDatabase.Refines Serves where
  addItem w m item hm := (sqliteDatabase_refines.addItem w m item hm.holds).serves hm.initialized
  upsertItem w m item hm :=
    (sqliteDatabase_refines.upsertItem w m item hm.holds).serves hm.initialized
  removeItem w m id hm :=
    (sqliteDatabase_refines.removeItem w m id hm.holds).serves hm.initialized
  getAllSortedById w m hm :=
    (sqliteDatabase_refines.getAllSortedById w m hm.holds).serves hm.initialized

/-- A call that the map does not refuse returns. -/
theorem returns_of_call {α : Type} {c : Call} {p : SQLiteDatabase.Method α} {f : α → Reply}
    (hcall : SQLiteDatabase.call c = f <$> p) (hc : c ≠ .initializeDatabase)
    {s : SQLiteDatabase} {m : DeviceMap} (hm : Serves s m)
    (haccepts : ∀ e, ¬MapRefuses m c e) : ∃ a s', p.Returns s a s' := by
  cases SQLiteDatabase.call_answered hm.initialized hm.holds hc with
  | returns h =>
      obtain ⟨a, w, hp, hpure⟩ := bind_eq_ok.mp (hcall ▸ h)
      obtain ⟨-, rfl⟩ := Prod.mk.inj hpure
      exact ⟨a, _, hp⟩
  | throws _ hrefuses => exact absurd hrefuses (haccepts _)

theorem sqliteDatabase_answers : sqliteDatabase.Answers Serves where
  addItem s m m' item hm hadd := by
    obtain ⟨_, s', h⟩ := returns_of_call (c := .addItem item) rfl nofun hm fun e hrefuses => by
      cases hrefuses with
      | addItem h => cases h.symm.trans hadd
    exact ⟨s', h⟩
  upsertItem s m m' item hm hupsert := by
    obtain ⟨_, s', h⟩ := returns_of_call (c := .upsertItem item) rfl nofun hm fun e hrefuses => by
      cases hrefuses with
      | upsertItem h => cases h.symm.trans hupsert
    exact ⟨s', h⟩
  removeItem s m id hm := returns_of_call (c := .removeItem id) rfl nofun hm nofun
  getAllSortedById s m hm := returns_of_call (c := .getAllSortedById) rfl nofun hm nofun

end Watchlist.Storage
