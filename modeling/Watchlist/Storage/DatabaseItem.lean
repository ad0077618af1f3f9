import Watchlist.Library.Sqlite

/-!
The stored device and the checks that guard it: `DatabaseItem.hpp` and the
validators of `SQLiteDatabase.cpp`. The loops over `find` are recursions over
the parts that `find` delimits.
-/

namespace Watchlist.Storage

open Bytes

structure DatabaseItem where
  id : Bytes
  name : Bytes
  ipAddress : Bytes
  port : UInt16
  alive : Bool
  deriving DecidableEq

inductive DatabaseField
  | id
  | name
  | address
  | port
  | alive
  | collection
  deriving DecidableEq

/-- What the storage layer throws. -/
inductive StorageError
  | databaseValidationError (field : DatabaseField) (message : Bytes)
  | databaseSchemaError (message : Bytes)
  | sqliteException (failure : Sqlite.Failure)
  | logicError (message : Bytes)
  | invalidArgument (message : Bytes)
  | unknown
  deriving DecidableEq

/-- `exception.what()`, where the thrown object has one. -/
def StorageError.what : StorageError → Option Bytes
  | .databaseValidationError _ message => some message
  | .databaseSchemaError message => some message
  | .sqliteException failure => some failure.message
  | .logicError message => some message
  | .invalidArgument message => some message
  | .unknown => none

/-! ### UTF-8 -/

/-- Continuation count and payload announced by a lead byte above `0x7f`. -/
def utf8Lead (lead : UInt8) : Option (ℕ × UInt32) :=
  if lead &&& 0xe0 = 0xc0 then some (1, (lead &&& 0x1f).toUInt32)
  else if lead &&& 0xf0 = 0xe0 then some (2, (lead &&& 0x0f).toUInt32)
  else if lead &&& 0xf8 = 0xf0 then some (3, (lead &&& 0x07).toUInt32)
  else none

/-- The code point after the continuation bytes, unless one is none. -/
def utf8Continue (codePoint : UInt32) : Bytes → Option UInt32
  | [] => some codePoint
  | continuation :: rest =>
      if continuation &&& 0xc0 ≠ 0x80 then none
      else utf8Continue ((codePoint <<< 6) ||| (continuation &&& 0x3f).toUInt32) rest

/-- The loop of `IsValidUtf8` on what is left of the string. Every round takes at
least one byte, so the length of the string is fuel enough. -/
def isValidUtf8Loop : ℕ → Bytes → Bool
  | _, [] => true
  | 0, _ :: _ => false
  | fuel + 1, lead :: rest =>
      if lead ≤ 0x7f then isValidUtf8Loop fuel rest
      else
        match utf8Lead lead with
        | none => false
        | some (continuationCount, codePoint) =>
            if rest.length < continuationCount then false
            else
              match utf8Continue codePoint (rest.take continuationCount) with
              | none => false
              | some codePoint =>
                  let minimum : UInt32 :=
                    if continuationCount = 1 then 0x80
                    else if continuationCount = 2 then 0x800
                    else 0x10000
                  if codePoint < minimum || 0x10ffff < codePoint
                      || (0xd800 ≤ codePoint && codePoint ≤ 0xdfff) then false
                  else isValidUtf8Loop fuel (rest.drop continuationCount)

def isValidUtf8 (value : Bytes) : Bool := isValidUtf8Loop value.length value

/-! ### Addresses -/

def decimalValue (part : Bytes) : ℕ := part.foldl (fun value digit => value * 10 + (digit.toNat - 48)) 0

/-- `parts` counts the parts already accepted. -/
def isValidIpv4Loop : List Bytes → ℕ → Bool
  | [], parts => parts == 4
  | part :: rest, parts =>
      if part.isEmpty || 3 < part.length || !part.all isDigit then false
      else if 255 < decimalValue part then false
      else isValidIpv4Loop rest (parts + 1)

def isValidIpv4 (address : Bytes) : Bool := isValidIpv4Loop (split 46 address) 0

def countIpv6PartsLoop (allowIpv4 : Bool) : List Bytes → ℤ → ℤ
  | [], count => count
  | part :: rest, count =>
      if part.isEmpty then -1
      else if part.contains 46 then
        if !allowIpv4 || !rest.isEmpty || !isValidIpv4 part then -1
        else countIpv6PartsLoop allowIpv4 rest (count + 2)
      else if 4 < part.length || !part.all isXDigit then -1
      else countIpv6PartsLoop allowIpv4 rest (count + 1)

def countIpv6Parts (sequence : Bytes) (allowIpv4 : Bool) : ℤ :=
  if sequence.isEmpty then 0
  else countIpv6PartsLoop allowIpv4 (split 58 sequence) 0

def isValidIpv6 (address : Bytes) : Bool :=
  match find (ascii "::") address with
  | none => countIpv6Parts address true == 8
  | some compression =>
      if (find (ascii "::") (address.drop (compression + 2))).isSome then false
      else
        let left := countIpv6Parts (address.take compression) false
        let right := countIpv6Parts (address.drop (compression + 2)) true
        decide (0 ≤ left) && decide (0 ≤ right) && decide (left + right < 8)

def isValidLabel (label : Bytes) : Bool :=
  if label.isEmpty || 63 < label.length
      || !(label.head?.any isAlnum) || !(label.getLast?.any isAlnum) then false
  else label.all fun c => isAlnum c || c == 45

def isValidHostname (hostname : Bytes) : Bool :=
  if hostname.isEmpty || 253 < hostname.length then false
  else
    let hostname := if hostname.getLast? = some 46 then hostname.dropLast else hostname
    if hostname.isEmpty then false
    else if hostname.all fun c => isDigit c || c == 46 then false
    else (split 46 hostname).all isValidLabel

/-! ### Items -/

def validateSizedUtf8 (value : Bytes) (maximum : ℕ) (field : DatabaseField) (fieldName : Bytes) :
    Except StorageError Unit :=
  if value.isEmpty || maximum < value.length || !isValidUtf8 value then
    .error (.databaseValidationError field
      (fieldName ++ ascii " must contain 1-" ++ ofNat maximum ++ ascii " valid UTF-8 bytes"))
  else .ok ()

def validateItem (item : DatabaseItem) : Except StorageError Unit := do
  validateSizedUtf8 item.id 128 .id (ascii "device id")
  validateSizedUtf8 item.name 256 .name (ascii "device name")
  if !(isValidIpv4 item.ipAddress || isValidIpv6 item.ipAddress
      || isValidHostname item.ipAddress) then
    .error (.databaseValidationError .address
      (ascii "address must be an IPv4/IPv6 literal or ASCII DNS hostname of at most 253 bytes"))
  else .ok ()

/-- `ids` are the ids inserted into the set so far. -/
def validateItemsLoop : List DatabaseItem → List Bytes → Except StorageError Unit
  | [], _ => .ok ()
  | item :: rest, ids => do
      validateItem item
      if item.id ∈ ids then
        .error (.databaseValidationError .collection
          (ascii "replacement contains duplicate device id: " ++ item.id))
      else validateItemsLoop rest (item.id :: ids)

def validateItems (items : List DatabaseItem) : Except StorageError Unit :=
  validateItemsLoop items []

/-- The storage accepts the item. -/
def ValidItem (item : DatabaseItem) : Prop := validateItem item = .ok ()

instance (item : DatabaseItem) : Decidable (ValidItem item) :=
  inferInstanceAs (Decidable (_ = _))

theorem validateItemsLoop_eq_ok {items : List DatabaseItem} {ids : List Bytes}
    (h : validateItemsLoop items ids = .ok ()) :
    (∀ item ∈ items, ValidItem item ∧ item.id ∉ ids) ∧ (items.map DatabaseItem.id).Nodup := by
  induction items generalizing ids with
  | nil => simp
  | cons item rest ih =>
      simp only [validateItemsLoop] at h
      cases hitem : validateItem item with
      | error e =>
          rw [hitem] at h
          cases h
      | ok u =>
          rw [hitem] at h
          change (if item.id ∈ ids then _ else _) = _ at h
          split at h
          · cases h
          · rename_i hfresh
            obtain ⟨hrest, hnodup⟩ := ih h
            refine ⟨fun d hd => ?_, ?_⟩
            · rcases List.mem_cons.mp hd with rfl | hd
              · exact ⟨hitem, hfresh⟩
              · exact ⟨(hrest d hd).1, fun hid => (hrest d hd).2 (List.mem_cons_of_mem _ hid)⟩
            · rw [List.map_cons, List.nodup_cons]
              refine ⟨fun hmem => ?_, hnodup⟩
              obtain ⟨d, hd, hid⟩ := List.mem_map.mp hmem
              exact (hrest d hd).2 (hid ▸ List.mem_cons_self)

/-- What an accepted replacement looks like. -/
theorem validateItems_eq_ok {items : List DatabaseItem} (h : validateItems items = .ok ()) :
    (∀ item ∈ items, ValidItem item) ∧ (items.map DatabaseItem.id).Nodup :=
  ⟨fun item hitem => ((validateItemsLoop_eq_ok h).1 item hitem).1, (validateItemsLoop_eq_ok h).2⟩

/-! ### How long accepted fields are

The column checks of the table bound lengths that the validators bound by other
means; an accepted device must not be refused by them. -/

theorem sum_le_of_isValidIpv4Loop {parts : List Bytes} {n : ℕ}
    (h : isValidIpv4Loop parts n = true) :
    (parts.map fun part => part.length + 1).sum ≤ 4 * parts.length ∧ n + parts.length = 4 := by
  induction parts generalizing n with
  | nil => simpa [isValidIpv4Loop] using h
  | cons part rest ih =>
      unfold isValidIpv4Loop at h
      split at h
      · cases h
      · rename_i hpart
        split at h
        · cases h
        · obtain ⟨hsum, hcount⟩ := ih h
          simp only [Bool.or_eq_true, decide_eq_true_eq, not_or] at hpart
          simp only [List.map_cons, List.sum_cons, List.length_cons]
          omega

theorem length_le_of_isValidIpv4 {address : Bytes} (h : isValidIpv4 address = true) :
    address.length ≤ 15 := by
  have hparts := sum_le_of_isValidIpv4Loop h
  rw [sum_length_split] at hparts
  omega

/-- Eight bytes for each group counted are enough, with their separators. -/
theorem sum_le_of_countIpv6PartsLoop {allowIpv4 : Bool} {parts : List Bytes} {n r : ℤ}
    (h : countIpv6PartsLoop allowIpv4 parts n = r) (hr : 0 ≤ r) :
    (((parts.map fun part => part.length + 1).sum : ℕ) : ℤ) ≤ 8 * (r - n) := by
  induction parts generalizing n with
  | nil =>
      obtain rfl : n = r := h
      simp
  | cons part rest ih =>
      simp only [List.map_cons, List.sum_cons, Nat.cast_add]
      unfold countIpv6PartsLoop at h
      split at h
      · omega
      · split at h
        · split at h
          · omega
          · rename_i hlast
            simp only [Bool.or_eq_true, Bool.not_eq_true', not_or, Bool.not_eq_false] at hlast
            have := length_le_of_isValidIpv4 hlast.2
            have := ih h
            omega
        · split at h
          · omega
          · rename_i hgroup
            simp only [Bool.or_eq_true, decide_eq_true_eq, not_or] at hgroup
            have := ih h
            omega

theorem length_le_of_countIpv6Parts {allowIpv4 : Bool} {s : Bytes}
    (h : 0 ≤ countIpv6Parts s allowIpv4) : (s.length : ℤ) ≤ 8 * countIpv6Parts s allowIpv4 := by
  unfold countIpv6Parts at h ⊢
  split at h
  · rename_i hempty
    simp_all
  · rename_i hne
    have hsum := sum_le_of_countIpv6PartsLoop rfl h
    rw [sum_length_split] at hsum
    rw [if_neg hne]
    omega

theorem length_le_of_isValidIpv6 {address : Bytes} (h : isValidIpv6 address = true) :
    address.length ≤ 64 := by
  unfold isValidIpv6 at h
  split at h
  · have hcount : countIpv6Parts address true = 8 := by simpa using h
    have hparts : 0 ≤ countIpv6Parts address true := by omega
    have := length_le_of_countIpv6Parts hparts
    omega
  · rename_i i _
    split at h
    · cases h
    · simp only [Bool.and_eq_true, decide_eq_true_eq] at h
      obtain ⟨⟨hleft, hright⟩, hsum⟩ := h
      have := length_le_of_countIpv6Parts hleft
      have := length_le_of_countIpv6Parts hright
      simp only [List.length_take, List.length_drop] at *
      omega

theorem length_le_of_isValidHostname {hostname : Bytes} (h : isValidHostname hostname = true) :
    hostname.length ≤ 253 := by
  unfold isValidHostname at h
  split at h
  · cases h
  · rename_i hlength
    simp only [Bool.or_eq_true, decide_eq_true_eq, not_or] at hlength
    omega

theorem validateSizedUtf8_eq_ok {value : Bytes} {maximum : ℕ} {field : DatabaseField}
    {fieldName : Bytes} (h : validateSizedUtf8 value maximum field fieldName = .ok ()) :
    1 ≤ value.length ∧ value.length ≤ maximum := by
  unfold validateSizedUtf8 at h
  split at h
  · cases h
  · rename_i hvalue
    simp only [Bool.or_eq_true, decide_eq_true_eq, not_or, List.isEmpty_iff] at hvalue
    have := List.length_pos_iff.mpr hvalue.1.1
    omega

/-- The lengths of an accepted device are those the table allows. -/
theorem ValidItem.lengths {item : DatabaseItem} (h : ValidItem item) :
    (1 ≤ item.id.length ∧ item.id.length ≤ 128) ∧
    (1 ≤ item.name.length ∧ item.name.length ≤ 256) ∧
    1 ≤ item.ipAddress.length ∧ item.ipAddress.length ≤ 253 := by
  unfold ValidItem validateItem at h
  cases hid : validateSizedUtf8 item.id 128 .id (ascii "device id") with
  | error e =>
      rw [hid] at h
      cases h
  | ok u =>
      rw [hid] at h
      cases hname : validateSizedUtf8 item.name 256 .name (ascii "device name") with
      | error e =>
          simp only [hname] at h
          cases h
      | ok u' =>
          simp only [hname] at h
          change (if _ then _ else _) = _ at h
          split at h
          · cases h
          · rename_i haddress
            refine ⟨validateSizedUtf8_eq_ok hid, validateSizedUtf8_eq_ok hname, ?_⟩
            simp only [Bool.not_eq_true', Bool.not_eq_false, Bool.or_eq_true] at haddress
            constructor
            · by_contra hempty
              obtain hnil : item.ipAddress = [] := List.length_eq_zero_iff.mp (by omega)
              rw [hnil] at haddress
              exact absurd haddress (by decide)
            · rcases haddress with (hipv4 | hipv6) | hhost
              · exact (length_le_of_isValidIpv4 hipv4).trans (by norm_num)
              · exact (length_le_of_isValidIpv6 hipv6).trans (by norm_num)
              · exact length_le_of_isValidHostname hhost

end Watchlist.Storage
