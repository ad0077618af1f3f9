import Watchlist.Storage.IDatabase

/-!
The devices that a file has when the object is made: those of its v1 table, or those that
the migration takes over. Whatever statements fail, a successful `Initialize` leaves a
file that holds just these, so that what is proved of a map which the initialized file
holds is proved for every file.
-/

namespace Watchlist.Storage

open Bytes Sqlite Faulty Faulty.Program

/-- The devices of a file that has not been initialized yet. -/
structure InitialDevices (db : Database) (m : DeviceMap) : Prop where
  current : db.userVersion = 1 → Represents db m
  unversioned : db.userVersion = 0 →
    ∃ items, Lists items m ∧ deviceRows db = items.map bindItem

variable {db db' : Database} {m : DeviceMap}

theorem initialDevices_empty : InitialDevices Database.empty .empty where
  current h := by cases h
  unversioned _ := ⟨[], Lists.nil, rfl⟩

/-- The devices of a v1 table are found in its rows. -/
theorem Represents.deviceRows (h : Represents db m) :
    ∃ items, Lists items m ∧ Storage.deviceRows db = items.map bindItem := by
  obtain ⟨t, items, ht, hitems, hlists⟩ := h.table
  exact ⟨items, hlists, deviceRows_of_find ht hitems.device hitems.rows⟩

theorem Migrated.represents (h : Migrated db db') : ∃ m, Represents db' m := by
  obtain ⟨t, items, ht, hchecks, hrows, hvalid, hnodup⟩ := h.filled
  obtain ⟨t', _, ht', hdevice, _, _⟩ := h.definition
  obtain rfl := Option.some.inj (ht.symm.trans ht')
  exact ⟨_, h.version, t, items, ht, ⟨hdevice, hchecks, hrows⟩, Lists.ofItems hvalid hnodup⟩

/-- The rows determine the devices. -/
theorem lists_of_rows {items items' : List DatabaseItem} {m' : DeviceMap} (h : Lists items m)
    (h' : Lists items' m') (hrows : items.map bindItem = items'.map bindItem) : m = m' := by
  have hdecode := mapM_decode_bindItem h.valid
  rw [hrows, mapM_decode_bindItem h'.valid] at hdecode
  obtain rfl := Except.ok.inj hdecode
  exact DeviceMap.ext_items (KeyedMap.ext_mem fun d => (h.mem d).symm.trans (h'.mem d))

theorem Initialized.represents (h : Initialized db db') (hdevices : InitialDevices db m) :
    Represents db' m := by
  cases h with
  | accepted hversion hsame _ => exact hsame ▸ hdevices.current hversion
  | created hversion hfree hcreated =>
      obtain ⟨items, hlists, hrows⟩ := hdevices.unversioned hversion
      have hnone : Storage.deviceRows db = List.map bindItem [] := by
        rw [deviceRows, hfree]
        rfl
      obtain rfl := lists_of_rows Lists.nil hlists (hnone.symm.trans hrows)
      exact SQLiteDatabase.represents_of_created hcreated
  | migrated hversion _ hmigrated =>
      obtain ⟨items, hlists, hrows⟩ := hdevices.unversioned hversion
      obtain ⟨m', hm'⟩ := hmigrated.represents
      obtain ⟨items', hlists', hrows'⟩ := hm'.deviceRows
      have hsame : items'.map bindItem = items.map bindItem := by
        rw [← hrows', hmigrated.rows, hrows]
      exact lists_of_rows hlists' hlists hsame ▸ hm'

/-- After a successful `Initialize` the file holds the devices that it had. -/
theorem holds_of_initialDevices (h : InitialDevices db m) {initialized : Bool}
    {faults : List Bool} {u : Unit} {w : World SQLiteDatabase}
    (hrun : sqliteDatabase.initializeDatabase ⟨⟨db, initialized⟩, faults⟩ = (.ok u, w)) :
    Holds w.state m := by
  obtain ⟨v, hv, rfl⟩ := SQLiteDatabase.initializeDatabase_eq_ok hrun
  exact (initializeFile_eq_ok hv).represents h

/-- A file has devices when `Initialize` can succeed on it, and its v1 table, if it is at
version 1, holds valid devices under the checks. -/
theorem exists_initialDevices (hcurrent : db.userVersion = 1 → ∃ m, Represents db m)
    {initialized : Bool} {faults : List Bool} {u : Unit} {w : World SQLiteDatabase}
    (hrun : sqliteDatabase.initializeDatabase ⟨⟨db, initialized⟩, faults⟩ = (.ok u, w)) :
    ∃ m, InitialDevices db m := by
  obtain ⟨v, hv, -⟩ := SQLiteDatabase.initializeDatabase_eq_ok hrun
  cases initializeFile_eq_ok hv with
  | accepted hversion _ _ =>
      obtain ⟨m, hm⟩ := hcurrent hversion
      exact ⟨m, fun _ => hm, fun hzero => absurd (hversion.symm.trans hzero) (by decide)⟩
  | created hversion hfree _ =>
      refine ⟨.empty, fun hone => absurd (hversion.symm.trans hone) (by decide), fun _ => ⟨[], Lists.nil, ?_⟩⟩
      rw [deviceRows, hfree]
      rfl
  | migrated hversion _ hmigrated =>
      obtain ⟨m, hm⟩ := hmigrated.represents
      obtain ⟨items, hlists, hrows⟩ := hm.deviceRows
      exact ⟨m, fun hone => absurd (hversion.symm.trans hone) (by decide),
        fun _ => ⟨items, hlists, hmigrated.rows.symm.trans hrows⟩⟩

/-- Whichever file the storage is opened on, there is one map that the file holds after
every successful `Initialize`. -/
theorem exists_initial_map (hcurrent : db.userVersion = 1 → ∃ m, Represents db m) :
    ∃ m₀, ∀ initialized faults u w,
      sqliteDatabase.initializeDatabase ⟨⟨db, initialized⟩, faults⟩ = (.ok u, w) →
        Holds w.state m₀ := by
  by_cases hsucceeds : ∃ initialized faults u w,
      sqliteDatabase.initializeDatabase ⟨⟨db, initialized⟩, faults⟩ = (.ok u, w)
  · obtain ⟨initialized, faults, u, w, hrun⟩ := hsucceeds
    obtain ⟨m, hm⟩ := exists_initialDevices hcurrent hrun
    exact ⟨m, fun _ _ _ _ => holds_of_initialDevices hm⟩
  · exact ⟨.empty, fun initialized faults u w hrun =>
      absurd ⟨initialized, faults, u, w, hrun⟩ hsucceeds⟩

end Watchlist.Storage
