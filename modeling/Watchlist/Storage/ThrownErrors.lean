import Watchlist.Storage.Initialize

/-!
Which errors the storage programs throw. A statement throws what SQLite reports,
a check its own error, and decoding a `DatabaseValidationError`; each lemma below
takes from its caller only that the errors of its own part have the property.
-/

namespace Watchlist.Storage

open Bytes Sqlite Faulty Faulty.Program

/-! ### Results -/

/-- The error of the result, if it is one, has the property. -/
def OnlyErrors {α : Type} (E : StorageError → Prop) (r : Except StorageError α) : Prop :=
  ∀ e, r = .error e → E e

section Results

variable {α β : Type} {E : StorageError → Prop}

theorem onlyErrors_ok (a : α) : OnlyErrors E (.ok a) := fun _ h => by cases h

theorem onlyErrors_error {e : StorageError} (h : E e) : OnlyErrors E (.error e : Except _ α) := by
  intro e' he
  rwa [← Except.error.inj he]

theorem OnlyErrors.bind {r : Except StorageError α} {f : α → Except StorageError β}
    (hr : OnlyErrors E r) (hf : ∀ a, OnlyErrors E (f a)) : OnlyErrors E (r >>= f) := by
  cases r with
  | ok a => exact hf a
  | error e => exact onlyErrors_error (hr e rfl)

variable (hvalidation : ∀ field message, E (.databaseValidationError field message))

include hvalidation

theorem onlyErrors_validateItem (item : DatabaseItem) : OnlyErrors E (validateItem item) := by
  have hsized : ∀ value maximum field fieldName,
      OnlyErrors E (validateSizedUtf8 value maximum field fieldName) := by
    intro value maximum field fieldName
    unfold validateSizedUtf8
    split
    · exact onlyErrors_error (hvalidation _ _)
    · exact onlyErrors_ok ()
  refine (hsized _ _ _ _).bind fun _ => (hsized _ _ _ _).bind fun _ => ?_
  split
  · exact onlyErrors_error (hvalidation _ _)
  · exact onlyErrors_ok ()

theorem onlyErrors_decodeDatabaseItem (row : List Value) :
    OnlyErrors E (decodeDatabaseItem row) := by
  have htext : ∀ index field, OnlyErrors E (decodeText row index field) := by
    intro index field
    unfold decodeText
    split
    · exact onlyErrors_ok _
    · exact onlyErrors_error (hvalidation _ _)
  have hinteger : ∀ index field text, OnlyErrors E (decodeInteger row index field text) := by
    intro index field text
    unfold decodeInteger
    split
    · exact onlyErrors_ok _
    · exact onlyErrors_error (hvalidation _ _)
  refine (htext _ _).bind fun _ => (htext _ _).bind fun _ => (htext _ _).bind fun _ => ?_
  refine (hinteger _ _ _).bind fun port => (hinteger _ _ _).bind fun alive => ?_
  split
  · exact onlyErrors_error (hvalidation _ _)
  · split
    · exact onlyErrors_error (hvalidation _ _)
    · exact (onlyErrors_validateItem hvalidation _).bind fun _ => onlyErrors_ok _

theorem onlyErrors_mapM_decode (rows : List (List Value)) :
    OnlyErrors E (rows.mapM decodeDatabaseItem) := by
  induction rows with
  | nil => exact onlyErrors_ok []
  | cons row rows ih =>
      rw [List.mapM_cons]
      refine (onlyErrors_decodeDatabaseItem hvalidation row).bind fun _ => ?_
      exact ih.bind fun _ => onlyErrors_ok _

end Results

/-! ### Statements and checks -/

section Programs

variable {α : Type} {E : StorageError → Prop}

theorem onlyThrows_execute {f : Database → Except Failure Database} {w : World Database}
    (hinterrupted : E interrupted)
    (h : ∀ failure, f w.state = .error failure → E (.sqliteException failure)) :
    OnlyThrows E (execute f) w := by
  refine onlyThrows_command hinterrupted fun e he => ?_
  cases hf : f w.state with
  | ok db => simp [hf, Except.mapError] at he
  | error failure =>
      rw [hf] at he
      rw [← Except.error.inj he]
      exact h failure hf

theorem onlyThrows_select (hinterrupted : E interrupted) (f : Database → α)
    (w : World Database) : OnlyThrows E (select f) w :=
  onlyThrows_query hinterrupted f w

theorem onlyThrows_selectFrom (hinterrupted : E interrupted)
    (hmissing : E (.sqliteException .noSuchTable)) (table : Bytes) (f : Table → α)
    (w : World Database) : OnlyThrows E (selectFrom table f) w := by
  refine onlyThrows_statement hinterrupted fun e he => ?_
  cases ht : w.state.findTable table with
  | none =>
      rw [ht] at he
      rwa [← Except.error.inj he]
  | some t => simp [ht] at he

theorem onlyThrows_readItems (hinterrupted : E interrupted)
    (hmissing : E (.sqliteException .noSuchTable))
    (hvalidation : ∀ field message, E (.databaseValidationError field message))
    (rows : Table → List Row) (w : World Database) : OnlyThrows E (readItems rows) w :=
  (onlyThrows_selectFrom hinterrupted hmissing _ _ w).bind fun found w₁ _ =>
    onlyThrows_ofExcept (onlyErrors_mapM_decode hvalidation found) w₁

/-! ### The validation of the schema -/

variable (hinterrupted : E interrupted) (hschema : ∀ message, E (.databaseSchemaError message))

include hschema in
theorem onlyThrows_requireSchema (c : Prop) [Decidable c] (message : String)
    (w : World Database) : OnlyThrows E (requireSchema c message) w :=
  onlyThrows_require (fun _ => hschema _) w

include hinterrupted hschema

theorem onlyThrows_readCreateSql (table : Bytes) (w : World Database) :
    OnlyThrows E (readCreateSql table) w := by
  refine (onlyThrows_select hinterrupted _ w).bind fun sql w₁ _ => ?_
  cases sql with
  | none => exact onlyThrows_fail (hschema _) w₁
  | some sql => exact onlyThrows_pure sql w₁

theorem onlyThrows_validateOnlyItemsObject (w : World Database) :
    OnlyThrows E validateOnlyItemsObject w :=
  (onlyThrows_select hinterrupted _ w).bind fun _ w₁ _ => onlyThrows_requireSchema hschema _ _ w₁

theorem onlyThrows_validateExactCreateSql (expected schemaName : Bytes) (w : World Database) :
    OnlyThrows E (validateExactCreateSql expected schemaName) w :=
  (onlyThrows_readCreateSql hinterrupted hschema _ w).bind fun _ w₁ _ =>
    onlyThrows_require (fun _ => hschema _) w₁

variable (hparse : E (.sqliteException .syntaxError))

omit hschema in
include hparse in
theorem onlyThrows_readIndexInfo (table index : Bytes) (w : World Database) :
    OnlyThrows E (readIndexInfo table index) w := by
  refine onlyThrows_statement hinterrupted fun e he => ?_
  split at he
  · rwa [← Except.error.inj he]
  · cases he

include hparse

theorem onlyThrows_validateIndexes (indexes : List Index) (w : World Database) :
    OnlyThrows E (validateIndexes indexes) w := by
  induction indexes generalizing w with
  | nil => exact onlyThrows_pure () w
  | cons index rest ih =>
      refine (onlyThrows_requireSchema hschema _ _ w).bind fun _ w₁ _ => ?_
      refine (onlyThrows_readIndexInfo hinterrupted hparse _ _ w₁).bind fun _ w₂ _ => ?_
      exact (onlyThrows_requireSchema hschema _ _ w₂).bind fun _ w₃ _ => ih w₃

theorem onlyThrows_validateDeviceColumns (w : World Database) :
    OnlyThrows E validateDeviceColumns w := by
  refine (onlyThrows_select hinterrupted _ w).bind fun _ w₁ _ => ?_
  refine (onlyThrows_requireSchema hschema _ _ w₁).bind fun _ w₂ _ => ?_
  refine (onlyThrows_select hinterrupted _ w₂).bind fun indexes w₃ _ => ?_
  refine (onlyThrows_validateIndexes hinterrupted hschema hparse indexes w₃).bind fun _ w₄ _ => ?_
  exact onlyThrows_requireSchema hschema _ _ w₄

theorem onlyThrows_validateV1Schema (w : World Database) : OnlyThrows E validateV1Schema w := by
  refine (onlyThrows_validateOnlyItemsObject hinterrupted hschema w).bind fun _ w₁ _ => ?_
  refine (onlyThrows_validateDeviceColumns hinterrupted hschema hparse w₁).bind fun _ w₂ _ => ?_
  exact onlyThrows_validateExactCreateSql hinterrupted hschema _ _ w₂

end Programs

end Watchlist.Storage
