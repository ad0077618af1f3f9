import Watchlist.Gui.UserActions
import Watchlist.Service.DeviceStorageService

/-!
The local list of the monitor against the commands it has emitted: executed one after
the other on the map of the devices that the list began with, they make the map of the
list. The map stands for any storage that does what `IDatabase.hpp` says of it, and no
more: an addition fails when the id is taken, an update never does. Nothing here depends
on what a particular storage refuses.
-/

namespace Watchlist.Gui

open Bytes Storage Faulty Faulty.Program

/-- `IDatabase.hpp` on a map. -/
def mapDatabase : IDatabase (KeyedMap DatabaseItem.id) where
  initializeDatabase := query interrupted fun _ => ()
  addItem item := command interrupted fun m =>
    if m.contains item.id then .error (.sqliteException .unique) else .ok (m.insert item)
  upsertItem item := command interrupted fun m => .ok (m.insert item)
  removeItem id := statement interrupted fun m => .ok (m.contains id, m.erase id)
  getAllSortedById := query interrupted KeyedMap.toList

/-- The map that holds the devices of a list. -/
def mapOf (devices : List DeviceViewModel) : KeyedMap DatabaseItem.id :=
  KeyedMap.ofList (devices.map toDatabaseItem)

/-- No two devices of the list have one id. -/
def DistinctIds (devices : List DeviceViewModel) : Prop := (devices.map (·.id)).Nodup

/-- The id that a command is about is there, or for an addition is not. -/
def Targets (m : KeyedMap DatabaseItem.id) (command : DeviceCommand) : Prop :=
  match command.kind with
  | .refresh => True
  | .add => m.contains command.targetId = false
  | .edit | .setAlive | .delete => m.contains command.targetId = true

variable {devices : List DeviceViewModel}

theorem mem_mapOf (h : DistinctIds devices) {item : DatabaseItem} :
    item ∈ mapOf devices ↔ toViewModel item ∈ devices := by
  have hkeys : ((devices.map toDatabaseItem).map DatabaseItem.id).Nodup := by
    rw [List.map_map]
    exact h
  rw [mapOf, KeyedMap.mem_ofList hkeys, List.mem_map]
  constructor
  · rintro ⟨device, hdevice, rfl⟩
    exact hdevice
  · intro hitem
    exact ⟨toViewModel item, hitem, rfl⟩

theorem contains_mapOf (h : DistinctIds devices) (id : Bytes) :
    (mapOf devices).contains id = true ↔ ∃ device ∈ devices, device.id = id := by
  rw [KeyedMap.contains_iff]
  constructor
  · rintro ⟨item, hitem, hid⟩
    exact ⟨toViewModel item, (mem_mapOf h).mp hitem, hid⟩
  · rintro ⟨device, hdevice, hid⟩
    exact ⟨toDatabaseItem device, (mem_mapOf h).mpr hdevice, hid⟩

theorem contains_of_findDevice {s : DeviceMonitorState} (h : DistinctIds s.devices) (id : Bytes) :
    (mapOf s.devices).contains id = (s.findDevice id).isSome := by
  rw [Bool.eq_iff_iff, contains_mapOf h, DeviceMonitorState.findDevice, List.find?_isSome]
  simp

/-! ### What the changes of the list do to its map -/

theorem distinctIds_append (h : DistinctIds devices) {device : DeviceViewModel}
    (hfree : (mapOf devices).contains device.id = false) : DistinctIds (devices ++ [device]) := by
  rw [DistinctIds, List.map_append, List.map_singleton]
  apply List.nodup_append.mpr
  refine ⟨h, List.nodup_singleton _, ?_⟩
  intro id hid id' hid' heq
  obtain ⟨old, hold, rfl⟩ := List.mem_map.mp hid
  have hthere := (contains_mapOf h device.id).mpr ⟨old, hold, heq.trans (List.mem_singleton.mp hid')⟩
  rw [hfree] at hthere
  cases hthere

theorem mapOf_append (h : DistinctIds devices) {device : DeviceViewModel}
    (hfree : (mapOf devices).contains device.id = false) :
    mapOf (devices ++ [device]) = (mapOf devices).insert (toDatabaseItem device) := by
  apply KeyedMap.ext_mem
  intro item
  rw [mem_mapOf (distinctIds_append h hfree), KeyedMap.mem_insert, mem_mapOf h, List.mem_append,
    List.mem_singleton]
  constructor
  · rintro (hold | hnew)
    · refine Or.inr ⟨hold, ?_⟩
      intro hid
      have hthere := (contains_mapOf h device.id).mpr ⟨_, hold, hid⟩
      rw [hfree] at hthere
      cases hthere
    · exact Or.inl (congrArg toDatabaseItem hnew)
  · rintro (rfl | ⟨hold, _⟩)
    · exact Or.inr rfl
    · exact Or.inl hold

/-- With distinct ids, only the one device is updated. -/
theorem updateDevice_eq_map {s : DeviceMonitorState} (h : DistinctIds s.devices) (id : Bytes)
    (f : DeviceViewModel → DeviceViewModel) :
    s.updateDevice id f = s.devices.map fun device => if device.id = id then f device else device := by
  unfold DeviceMonitorState.updateDevice
  generalize s.devices = devices at h ⊢
  induction devices with
  | nil => rfl
  | cons device rest ih =>
      obtain ⟨hnew, hrest⟩ := List.nodup_cons.mp h
      rw [List.replaceF_cons, List.map_cons]
      by_cases hid : device.id = id
      · -- no later device has the id
        have hsame : (rest.map fun device => if device.id = id then f device else device) = rest := by
          refine (List.map_congr_left fun other hother => ?_).trans (List.map_id rest)
          refine if_neg fun hother' => hnew ?_
          exact List.mem_map.mpr ⟨other, hother, hother'.trans hid.symm⟩
        simp only [if_pos hid, hsame]
      · simp only [if_neg hid, ih hrest]

theorem eraseP_eq_filter (h : DistinctIds devices) (id : Bytes) :
    (devices.eraseP fun device => device.id = id) = devices.filter fun device => device.id ≠ id := by
  induction devices with
  | nil => rfl
  | cons device rest ih =>
      obtain ⟨hnew, hrest⟩ := List.nodup_cons.mp h
      by_cases hid : device.id = id
      · have hsame : (rest.filter fun device => device.id ≠ id) = rest := by
          apply List.filter_eq_self.mpr
          intro other hother
          refine decide_eq_true fun hother' => hnew ?_
          exact List.mem_map.mpr ⟨other, hother, hother'.trans hid.symm⟩
        rw [List.eraseP_cons_of_pos (by simpa using hid), List.filter_cons_of_neg (by simpa using hid),
          hsame]
      · rw [List.eraseP_cons_of_neg (by simpa using hid), List.filter_cons_of_pos (by simpa using hid),
          ih hrest]

/-- An update that keeps the id is one on the map. -/
theorem mapOf_updateDevice {s : DeviceMonitorState} (h : DistinctIds s.devices) {id : Bytes}
    {found updated : DeviceViewModel} {f : DeviceViewModel → DeviceViewModel}
    (hfound : s.findDevice id = some found) (hupdated : f found = updated) (hid : updated.id = id) :
    DistinctIds (s.updateDevice id f) ∧
      mapOf (s.updateDevice id f) = (mapOf s.devices).insert (toDatabaseItem updated) := by
  have hmem := DeviceMonitorState.mem_of_findDevice hfound
  have hfoundId := DeviceMonitorState.id_of_findDevice hfound
  -- the only device with the id is the one that is found
  have honly : ∀ device ∈ s.devices, device.id = id → f device = updated := by
    intro device hdevice hdeviceId
    rw [List.inj_on_of_nodup_map h hdevice hmem (hdeviceId.trans hfoundId.symm), hupdated]
  have hids : (s.updateDevice id f).map (·.id) = s.devices.map (·.id) := by
    rw [updateDevice_eq_map h, List.map_map]
    apply List.map_congr_left
    intro device hdevice
    show (if device.id = id then f device else device).id = device.id
    split
    · rename_i hdeviceId
      rw [honly device hdevice hdeviceId, hid, hdeviceId]
    · rfl
  have hdistinct : DistinctIds (s.updateDevice id f) := by
    rw [DistinctIds, hids]
    exact h
  refine ⟨hdistinct, ?_⟩
  apply KeyedMap.ext_mem
  intro item
  rw [mem_mapOf hdistinct, KeyedMap.mem_insert, mem_mapOf h, updateDevice_eq_map h, List.mem_map]
  constructor
  · rintro ⟨device, hdevice, heq⟩
    split at heq
    · rename_i hdeviceId
      rw [honly device hdevice hdeviceId] at heq
      exact Or.inl (congrArg toDatabaseItem heq.symm)
    · rename_i hdeviceId
      refine Or.inr ⟨heq ▸ hdevice, ?_⟩
      intro hsame
      apply hdeviceId
      rw [heq]
      exact hsame.trans hid
  · rintro (rfl | ⟨hold, hne⟩)
    · exact ⟨found, hmem, by rw [if_pos hfoundId, hupdated]; rfl⟩
    · refine ⟨toViewModel item, hold, if_neg ?_⟩
      intro hsame
      exact hne (hsame.trans hid.symm)

theorem mapOf_eraseP (h : DistinctIds devices) (id : Bytes) :
    DistinctIds (devices.eraseP fun device => device.id = id) ∧
      mapOf (devices.eraseP fun device => device.id = id) = (mapOf devices).erase id := by
  have hdistinct : DistinctIds (devices.eraseP fun device => device.id = id) :=
    List.Nodup.sublist (List.Sublist.map _ List.eraseP_sublist) h
  refine ⟨hdistinct, ?_⟩
  apply KeyedMap.ext_mem
  intro item
  rw [mem_mapOf hdistinct, KeyedMap.mem_erase, mem_mapOf h, eraseP_eq_filter h, List.mem_filter]
  exact and_congr_right fun _ => decide_eq_true_iff

/-! ### One command -/

theorem returns_addItem {m : KeyedMap DatabaseItem.id} {item : DatabaseItem}
    (hfree : m.contains item.id = false) :
    (mapDatabase.addItem item).Returns m () (m.insert item) := by
  simp [Returns, mapDatabase, command, statement, hfree, Except.map]

theorem returns_upsertItem (m : KeyedMap DatabaseItem.id) (item : DatabaseItem) :
    (mapDatabase.upsertItem item).Returns m () (m.insert item) := rfl

/-- The command of a call fits the map of the list before the call, and makes of it the
map of the list after. -/
theorem executeCommand_of_emits {s : DeviceMonitorState} {op : Operation} {c : DeviceCommand}
    {actions : List UserAction} {after : List DeviceViewModel} (h : DistinctIds s.devices)
    (hemits : DeviceMonitorState.Emits s op c actions after) :
    DistinctIds after ∧ Targets (mapOf s.devices) c ∧
      (executeCommand mapDatabase c).Returns (mapOf s.devices) () (mapOf after) := by
  cases hemits with
  | refresh => exact ⟨h, trivial, returns_pure () _⟩
  | @add editor editing valid mode free =>
      have hfree : (mapOf s.devices).contains editor.draft.device.id = false := by
        rw [contains_of_findDevice h]
        exact Option.isSome_eq_false_iff.mpr (Option.isNone_iff_eq_none.mpr free)
      refine ⟨distinctIds_append h hfree, hfree, ?_⟩
      rw [mapOf_append h hfree]
      exact returns_addItem hfree
  | @edit editor editing valid mode sameId found =>
      obtain ⟨device, hdevice⟩ := Option.isSome_iff_exists.mp found
      obtain ⟨hdistinct, hmap⟩ := mapOf_updateDevice h (f := fun _ => editor.draft.device) hdevice
        rfl rfl
      refine ⟨hdistinct, (contains_of_findDevice h _).trans found, ?_⟩
      rw [hmap]
      exact returns_upsertItem _ _
  | @delete id pending found =>
      obtain ⟨hdistinct, hmap⟩ := mapOf_eraseP h id
      refine ⟨hdistinct, (contains_of_findDevice h id).trans found, ?_⟩
      rw [hmap]
      rfl
  | @setAlive id alive device found =>
      obtain ⟨hdistinct, hmap⟩ := mapOf_updateDevice h
        (f := fun device => { device with alive := alive }) found rfl
        (show device.id = id from DeviceMonitorState.id_of_findDevice found)
      refine ⟨hdistinct, ?_, ?_⟩
      · show (mapOf s.devices).contains id = true
        rw [contains_of_findDevice h, found]
        rfl
      · rw [hmap]
        exact returns_upsertItem _ _

/-! ### A run of calls -/

/-- What the window and the pump call between two snapshots. `EditSession` hands out the
whole editor, which its caller may change freely. -/
inductive MonitorCall
  | operation (op : Operation)
  | editSession (editor : DeviceEditorState)
  | consumeCommands

/-- A monitor, with the commands that `ConsumeCommands` has returned so far. -/
structure MonitorSession where
  monitor : DeviceMonitorState
  consumed : List DeviceCommand

namespace MonitorSession

/-- The commands in the order of their emission, without the first `n`. -/
def emittedFrom (n : ℕ) (s : MonitorSession) : List DeviceCommand :=
  (s.consumed ++ s.monitor.commands).drop n

/-- What a call returns, where it returns anything, and the session after it. -/
def call (s : MonitorSession) : MonitorCall → Bool × MonitorSession
  | .operation op => ((s.monitor.perform op).1, { s with monitor := (s.monitor.perform op).2 })
  | .editSession editor =>
      (true, { s with monitor := { s.monitor with editor := s.monitor.editor.map fun _ => editor } })
  | .consumeCommands =>
      (true, ⟨s.monitor.consumeCommands.2, s.consumed ++ s.monitor.consumeCommands.1⟩)

def callAll (s : MonitorSession) (calls : List MonitorCall) : MonitorSession :=
  calls.foldl (fun s call => (s.call call).2) s

/-- Any monitor after `ReplaceDevices`. -/
def opened (monitor : DeviceMonitorState) (devices : List DeviceViewModel) : MonitorSession :=
  ⟨monitor.replaceDevices devices, []⟩

/-- The commands after the first `n` make the map of the list out of the map it began
with, and each of them fits what it is executed on. -/
structure Replays (start : List DeviceViewModel) (n : ℕ) (s : MonitorSession) : Prop where
  earlier : n ≤ (s.consumed ++ s.monitor.commands).length
  distinct : DistinctIds s.monitor.devices
  targets : ∀ before c after, s.emittedFrom n = before ++ c :: after →
    ∃ m, (before.forM (executeCommand mapDatabase)).Returns (mapOf start) () m ∧ Targets m c
  replayed : ((s.emittedFrom n).forM (executeCommand mapDatabase)).Returns (mapOf start) ()
    (mapOf s.monitor.devices)

theorem replays_opened {start : List DeviceViewModel} (h : DistinctIds start)
    (monitor : DeviceMonitorState) : Replays start monitor.commands.length (opened monitor start) := by
  have hnone : (opened monitor start).emittedFrom monitor.commands.length = [] := List.drop_length
  constructor
  · exact le_rfl
  · exact h
  · intro before c after hsplit
    rw [hnone] at hsplit
    have hlength := congrArg List.length hsplit
    simp at hlength
  · rw [hnone]
    exact returns_pure () _

variable {start : List DeviceViewModel} {n : ℕ} {s t : MonitorSession}

/-- A session with the same devices and the same commands. -/
theorem Replays.of_same (h : Replays start n s) (hdevices : t.monitor.devices = s.monitor.devices)
    (hcommands : t.consumed ++ t.monitor.commands = s.consumed ++ s.monitor.commands) :
    Replays start n t := by
  have hemitted : t.emittedFrom n = s.emittedFrom n := congrArg (List.drop n) hcommands
  constructor
  · rw [hcommands]
    exact h.earlier
  · rw [hdevices]
    exact h.distinct
  · rw [hemitted]
    exact h.targets
  · rw [hemitted, hdevices]
    exact h.replayed

/-- One more command that fits. -/
theorem Replays.emit (h : Replays start n s) {c : DeviceCommand}
    (hcommands : t.consumed ++ t.monitor.commands = s.consumed ++ s.monitor.commands ++ [c])
    (hdistinct : DistinctIds t.monitor.devices) (htargets : Targets (mapOf s.monitor.devices) c)
    (hc : (executeCommand mapDatabase c).Returns (mapOf s.monitor.devices) ()
      (mapOf t.monitor.devices)) : Replays start n t := by
  have hemitted : t.emittedFrom n = s.emittedFrom n ++ [c] := by
    rw [emittedFrom, hcommands]
    exact List.drop_append_of_le_length h.earlier
  have hreplayed := h.replayed
  constructor
  · rw [hcommands, List.length_append]
    exact Nat.le_add_right_of_le h.earlier
  · exact hdistinct
  · intro before c' after hsplit
    rw [hemitted] at hsplit
    rcases List.append_eq_append_iff.mp hsplit with ⟨between, hbefore, hlast⟩ | ⟨between, hold, hafter⟩
    · -- the new command is the last one
      cases between with
      | nil =>
          obtain ⟨rfl, _⟩ := List.cons.inj hlast
          rw [List.append_nil] at hbefore
          rw [hbefore]
          exact ⟨_, hreplayed, htargets⟩
      | cons x between =>
          have hlength := congrArg List.length hlast
          simp at hlength
    · cases between with
      | nil =>
          obtain ⟨rfl, _⟩ := List.cons.inj hafter
          rw [List.append_nil] at hold
          rw [← hold]
          exact ⟨_, hreplayed, htargets⟩
      | cons x between =>
          obtain ⟨rfl, _⟩ := List.cons.inj hafter
          exact h.targets before c' between hold
  · rw [hemitted]
    exact (forM_concat_of_ok hreplayed).trans hc

/-- The step lemma. -/
theorem Replays.call (h : Replays start n s) (c : MonitorCall) : Replays start n (s.call c).2 := by
  cases c with
  | editSession editor => exact h.of_same rfl rfl
  | consumeCommands =>
      refine h.of_same (t := (s.call .consumeCommands).2) rfl ?_
      show s.consumed ++ s.monitor.commands ++ [] = _
      rw [List.append_nil]
  | operation op =>
      rcases s.monitor.perform_cases op with hsilent | ⟨c, hemitting⟩
      · refine h.of_same (t := (s.call (.operation op)).2) hsilent.devices ?_
        show s.consumed ++ (s.monitor.perform op).2.commands = _
        rw [hsilent.commands]
      · obtain ⟨hdistinct, htargets, hc⟩ := executeCommand_of_emits h.distinct hemitting.emits
        refine h.emit (t := (s.call (.operation op)).2) ?_ hdistinct htargets hc
        show s.consumed ++ (s.monitor.perform op).2.commands = _
        rw [hemitting.commands, List.append_assoc]

theorem replays_callAll (h : Replays start n s) (calls : List MonitorCall) :
    Replays start n (s.callAll calls) := by
  induction calls generalizing s with
  | nil => exact h
  | cons c calls ih => exact ih (h.call c)

/-- A call that returns `false` has changed neither the list nor the commands. -/
theorem call_eq_false {c : MonitorCall} (h : (s.call c).1 = false) :
    (s.call c).2.monitor.devices = s.monitor.devices ∧
      (s.call c).2.emittedFrom n = s.emittedFrom n := by
  cases c with
  | editSession editor | consumeCommands => cases h
  | operation op =>
      have haccepted : s.monitor.accepted op = [] := if_neg (ne_true_of_eq_false h)
      rcases s.monitor.perform_cases op with hsilent | ⟨c, hemitting⟩
      · refine ⟨hsilent.devices, ?_⟩
        show (s.consumed ++ (s.monitor.perform op).2.commands).drop n = _
        rw [hsilent.commands]
        rfl
      · -- the one call that emits without an action of the user is a refresh
        have hemits := hemitting.emits
        rw [haccepted] at hemits
        generalize (s.monitor.perform op).2.devices = devices at hemits
        cases hemits
        cases h

/-- The list that `ReplaceDevices` was given, after any calls: the ids stay distinct, every
command is about an id that is there, or for an addition is not, when the commands before it
have been executed, all of them make the map of the local list, and a call that returns
`false` changes nothing of this. -/
theorem local_list_is_replay (monitor : DeviceMonitorState) (start : List DeviceViewModel)
    (hstart : DistinctIds start) (calls : List MonitorCall) :
    let n := monitor.commands.length
    let s := (opened monitor start).callAll calls
    DistinctIds s.monitor.devices ∧
    (∀ before c after, s.emittedFrom n = before ++ c :: after →
      ∃ m, (before.forM (executeCommand mapDatabase)).Returns (mapOf start) () m ∧ Targets m c) ∧
    execute mapDatabase (s.emittedFrom n) ⟨mapOf start, []⟩ =
      (⟨true, [], (mapOf s.monitor.devices).toList.map toViewModel⟩, ⟨mapOf s.monitor.devices, []⟩) ∧
    ∀ c, (s.call c).1 = false → (s.call c).2.monitor.devices = s.monitor.devices ∧
      (s.call c).2.emittedFrom n = s.emittedFrom n := by
  intro n s
  have h : Replays start n s := replays_callAll (replays_opened hstart monitor) calls
  refine ⟨h.distinct, h.targets, ?_, fun c => call_eq_false⟩
  have hbody : (executeBody mapDatabase (s.emittedFrom n)).Returns (mapOf start)
      (mapOf s.monitor.devices).toList (mapOf s.monitor.devices) :=
    h.replayed.bind (returns_query _ _ _)
  rw [execute, show executeBody mapDatabase (s.emittedFrom n) ⟨mapOf start, []⟩ = _ from hbody]

/-- A device is marked as down, another one is added under a mode that the caller has
changed, and the first is deleted. -/
def replacing : List MonitorCall :=
  [.operation (.setAlive (ascii "a") false), .operation (.beginEdit (ascii "a")), .consumeCommands,
    .editSession ⟨.add, [], ⟨ascii "b", ascii "Lamp", ascii "lamp", 80, true⟩⟩,
    .operation .submitEditor, .operation (.requestDelete (ascii "a")), .operation .confirmDelete]

theorem local_list_is_replay_replaced :
    execute mapDatabase
      [.setAlive (ascii "a") ⟨ascii "a", ascii "Router", ascii "router", 80, false⟩,
        .add ⟨ascii "b", ascii "Lamp", ascii "lamp", 80, true⟩, .delete (ascii "a")]
      ⟨mapOf [⟨ascii "a", ascii "Router", ascii "router", 80, true⟩], []⟩ =
      (⟨true, [], [⟨ascii "b", ascii "Lamp", ascii "lamp", 80, true⟩]⟩,
        ⟨mapOf [⟨ascii "b", ascii "Lamp", ascii "lamp", 80, true⟩], []⟩) :=
  (local_list_is_replay .initial [⟨ascii "a", ascii "Router", ascii "router", 80, true⟩]
    (List.nodup_singleton _) replacing).2.2.1

end MonitorSession

end Watchlist.Gui
