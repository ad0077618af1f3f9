import Watchlist.Storage.ThrownErrors

/-!
When `Initialize` refuses a file. The validation programs only look, and on a file
that they return on, only SQLite can make them throw. On any other file they throw a
`DatabaseSchemaError`, unless they come to an index whose name SQLite cannot read where
the code has put it. Everything that `Initialize` does beyond validating throws errors
of other kinds, so whether a file is refused for its schema is decided by the validation
before it is written to.
-/

namespace Watchlist.Storage

open Bytes Sqlite Faulty Faulty.Program

/-! ### Programs that validate -/

/-- Without failures the program throws a `DatabaseSchemaError`, and leaves the file alone. -/
def Refuses {α : Type} (p : Sql α) (db : Database) : Prop :=
  ∃ message, p.Throws db (.databaseSchemaError message)

/-- Without failures the program comes to a statement that does not parse. -/
def Breaks {α : Type} (p : Sql α) (db : Database) : Prop :=
  p.Throws db (.sqliteException .syntaxError)

/-- In this world the program does not throw a `DatabaseSchemaError`. -/
def NoSchemaError {α : Type} (p : Sql α) (w : World Database) : Prop :=
  ∀ message w', p w ≠ (.error (.databaseSchemaError message), w')

/-- A program that only looks; where it returns, nothing but a failure of SQLite makes it
throw. -/
structure Quiet {α : Type} (p : Sql α) : Prop where
  steady : p.Steady
  quiet : ∀ w, (∃ a, p.Returns w.state a w.state) → NoSchemaError p w

/-- One that decides: it returns or refuses. -/
structure Decides {α : Type} (p : Sql α) : Prop extends Quiet p where
  decides : ∀ db, (∃ a, p.Returns db a db) ∨ Refuses p db

theorem Refuses.bind {α β : Type} {p : Sql α} {f : α → Sql β} {db : Database} (h : Refuses p db) :
    Refuses (p >>= f) db := by
  obtain ⟨message, h⟩ := h
  exact ⟨message, h.bind f⟩

/-- A program that refuses after one that returns. -/
theorem refuses_bind_of_returns {α β : Type} {p : Sql α} {f : α → Sql β} {db : Database} {a : α}
    (hp : p.Returns db a db) (hf : Refuses (f a) db) : Refuses (p >>= f) db := by
  obtain ⟨message, hf⟩ := hf
  exact ⟨message, hp.throws hf⟩

theorem Breaks.bind {α β : Type} {p : Sql α} {f : α → Sql β} {db : Database} (h : Breaks p db) :
    Breaks (p >>= f) db := Throws.bind h f

theorem breaks_bind_of_returns {α β : Type} {p : Sql α} {f : α → Sql β} {db : Database} {a : α}
    (hp : p.Returns db a db) (hf : Breaks (f a) db) : Breaks (p >>= f) db := hp.throws hf

/-- An error of another kind. -/
def NotSchema (e : StorageError) : Prop := ∀ message, e ≠ .databaseSchemaError message

theorem noSchemaError_iff {α : Type} {p : Sql α} {w : World Database} :
    NoSchemaError p w ↔ OnlyThrows NotSchema p w := by
  constructor
  · rintro h e w' hrun message rfl
    exact h message w' hrun
  · intro h message w' hrun
    exact h _ w' hrun message rfl

theorem notSchema_interrupted : NotSchema interrupted := fun _ h => by cases h

theorem notSchema_sqliteException (failure : Failure) : NotSchema (.sqliteException failure) :=
  fun _ h => by cases h

theorem notSchema_databaseValidationError (field : DatabaseField) (message : Bytes) :
    NotSchema (.databaseValidationError field message) := fun _ h => by cases h

theorem NoSchemaError.bind {α β : Type} {p : Sql α} {f : α → Sql β} {w : World Database}
    (hp : NoSchemaError p w) (hf : ∀ a w₁, p w = (.ok a, w₁) → NoSchemaError (f a) w₁) :
    NoSchemaError (p >>= f) w :=
  noSchemaError_iff.mpr ((noSchemaError_iff.mp hp).bind fun a w₁ ha =>
    noSchemaError_iff.mp (hf a w₁ ha))

theorem noSchemaError_select {α : Type} (f : Database → α) (w : World Database) :
    NoSchemaError (select f) w :=
  noSchemaError_iff.mpr (onlyThrows_select notSchema_interrupted f w)

theorem noSchemaError_selectFrom {α : Type} (table : Bytes) (f : Table → α) (w : World Database) :
    NoSchemaError (selectFrom table f) w :=
  noSchemaError_iff.mpr
    (onlyThrows_selectFrom notSchema_interrupted (notSchema_sqliteException _) table f w)

theorem noSchemaError_execute (f : Database → Except Failure Database) (w : World Database) :
    NoSchemaError (execute f) w :=
  noSchemaError_iff.mpr
    (onlyThrows_execute notSchema_interrupted fun failure _ => notSchema_sqliteException failure)

theorem noSchemaError_transaction {α : Type} {body : Sql α} {w : World Database}
    (h : ∀ w₁, w₁.state = w.state → NoSchemaError body w₁) :
    NoSchemaError (transaction interrupted body) w :=
  noSchemaError_iff.mpr
    (onlyThrows_transaction notSchema_interrupted fun w₁ hw₁ => noSchemaError_iff.mp (h w₁ hw₁))

theorem noSchemaError_require {c : Prop} [Decidable c] (h : c) (message : String)
    (w : World Database) : NoSchemaError (requireSchema c message) w :=
  noSchemaError_iff.mpr (onlyThrows_require (fun hc => absurd h hc) w)

theorem noSchemaError_forM {items : List DatabaseItem} {f : DatabaseItem → Sql PUnit}
    (h : ∀ item w, NoSchemaError (f item) w) (w : World Database) :
    NoSchemaError (items.forM f) w :=
  noSchemaError_iff.mpr (onlyThrows_forM (fun item _ w => noSchemaError_iff.mp (h item w)) w)

theorem noSchemaError_readItems (rows : Table → List Row) (w : World Database) :
    NoSchemaError (readItems rows) w :=
  noSchemaError_iff.mpr (onlyThrows_readItems notSchema_interrupted (notSchema_sqliteException _)
    notSchema_databaseValidationError rows w)

/-! ### What is built from looking and requiring decides -/

section
variable {α β : Type}

theorem decides_pure (a : α) : Decides (pure a : Sql α) where
  steady := steady_pure a
  decides db := .inl ⟨a, returns_pure a db⟩
  quiet := fun _ _ _ _ h => by cases h

theorem decides_fail (message : Bytes) :
    Decides (fail (.databaseSchemaError message) : Sql α) where
  steady := steady_fail _
  decides db := .inr ⟨message, rfl⟩
  quiet := by
    rintro w ⟨a, h⟩
    cases h

theorem decides_select (f : Database → α) : Decides (select f) where
  steady := steady_select f
  decides db := .inl ⟨_, returns_query _ f db⟩
  quiet w _ := noSchemaError_select f w

theorem decides_require (c : Prop) [Decidable c] (message : Bytes) :
    Decides (require c (.databaseSchemaError message) : Sql Unit) := by
  unfold require
  split
  · exact decides_pure ()
  · exact decides_fail message

theorem Quiet.bind {p : Sql α} {f : α → Sql β} (hp : Quiet p) (hf : ∀ a, Quiet (f a)) :
    Quiet (p >>= f) where
  steady := steady_bind hp.steady fun a => (hf a).steady
  quiet := by
    rintro w ⟨b, hb⟩
    obtain ⟨a, w₁, ha, hrest⟩ := bind_eq_ok.mp hb
    have hstate : w₁ = ⟨w.state, []⟩ := by
      have hagain : p.Returns w.state a w.state := hp.steady.again ⟨w.state, []⟩ a w₁ ha
      exact (Prod.mk.inj (ha.symm.trans hagain)).2
    subst hstate
    refine (hp.quiet w ⟨a, ha⟩).bind fun a' w₂ ha' => ?_
    -- with or without failures the first part returns the same
    obtain ⟨rfl, -⟩ := Returns.unique (hp.steady.again _ _ _ ha') ha
    have hstate : w₂.state = w.state := hp.steady.readOnly.of_eq ha'
    exact (hf a').quiet w₂ ⟨b, by rw [hstate]; exact hrest⟩

theorem Decides.bind {p : Sql α} {f : α → Sql β} (hp : Decides p) (hf : ∀ a, Decides (f a)) :
    Decides (p >>= f) where
  toQuiet := hp.toQuiet.bind fun a => (hf a).toQuiet
  decides db := by
    rcases hp.decides db with ⟨a, ha⟩ | hrefuses
    · rcases (hf a).decides db with ⟨b, hb⟩ | hrefuses
      · exact .inl ⟨b, ha.bind hb⟩
      · exact .inr (refuses_bind_of_returns ha hrefuses)
    · exact .inr hrefuses.bind

end

theorem decides_readCreateSql (table : Bytes) : Decides (readCreateSql table) := by
  refine (decides_select _).bind fun sql => ?_
  cases sql with
  | none => exact decides_fail _
  | some sql => exact decides_pure sql

theorem decides_validateOnlyItemsObject : Decides validateOnlyItemsObject :=
  (decides_select _).bind fun _ => decides_require _ _

theorem decides_validateExactCreateSql (expected schemaName : Bytes) :
    Decides (validateExactCreateSql expected schemaName) :=
  (decides_readCreateSql _).bind fun _ => decides_require _ _

theorem decides_rejectLegacyItems : Decides rejectLegacyItems := by
  refine (decides_select _).bind fun columns => ?_
  split
  · exact (decides_readCreateSql _).bind fun _ => decides_require _ _
  · exact decides_pure ()

/-! ### The indexes -/

theorem quiet_readIndexInfo (table index : Bytes) : Quiet (readIndexInfo table index) where
  steady := steady_readIndexInfo table index
  quiet w _ := noSchemaError_iff.mpr
    (onlyThrows_readIndexInfo notSchema_interrupted (notSchema_sqliteException _) table index w)

theorem quiet_validateIndexes (indexes : List Index) : Quiet (validateIndexes indexes) := by
  induction indexes with
  | nil => exact (decides_pure ()).toQuiet
  | cons index rest ih =>
      refine (decides_require _ _).toQuiet.bind fun _ => ?_
      refine (quiet_readIndexInfo _ _).bind fun _ => ?_
      exact (decides_require _ _).toQuiet.bind fun _ => ih

theorem quiet_validateDeviceColumns : Quiet validateDeviceColumns := by
  refine (decides_select _).toQuiet.bind fun _ => (decides_require _ _).toQuiet.bind fun _ => ?_
  refine (decides_select _).toQuiet.bind fun indexes => ?_
  exact (quiet_validateIndexes indexes).bind fun _ => (decides_require _ _).toQuiet

theorem quiet_validateV1Schema : Quiet validateV1Schema := by
  refine decides_validateOnlyItemsObject.toQuiet.bind fun _ => ?_
  refine quiet_validateDeviceColumns.bind fun _ => ?_
  exact (decides_validateExactCreateSql _ _).toQuiet

/-- The loop over the indexes comes to one, unique and whole, with a name that SQLite cannot
read in the pragma. -/
inductive Misread (db : Database) : List Index → Prop
  | here {ix : Index} {rest : List Index} (unique : ix.unique = true)
      (whole : ix.isPartial = false) (unread : pragmaArgument ix.name = none) :
      Misread db (ix :: rest)
  | later {ix : Index} {rest : List Index} {name : Bytes} (unique : ix.unique = true)
      (whole : ix.isPartial = false) (read : pragmaArgument ix.name = some name)
      (columns : indexColumns db itemsName name = [some deviceIdName]) (misread : Misread db rest) :
      Misread db (ix :: rest)

section
variable {db : Database} {index name : Bytes} {indexes : List Index}

theorem returns_readIndexInfo_of_read (h : pragmaArgument index = some name) :
    (readIndexInfo itemsName index).Returns db (indexColumns db itemsName name) db := by
  simp [Returns, readIndexInfo, Program.statement, h]

theorem breaks_readIndexInfo (h : pragmaArgument index = none) :
    Breaks (readIndexInfo itemsName index) db := by
  simp [Breaks, Throws, readIndexInfo, Program.statement, h]

theorem breaks_validateIndexes (h : Misread db indexes) : Breaks (validateIndexes indexes) db := by
  induction h with
  | here unique whole unread =>
      refine breaks_bind_of_returns (returns_requireSchema ⟨unique, by simp [whole]⟩ _ db) ?_
      exact (breaks_readIndexInfo unread).bind
  | later unique whole read columns _ ih =>
      refine breaks_bind_of_returns (returns_requireSchema ⟨unique, by simp [whole]⟩ _ db) ?_
      refine breaks_bind_of_returns (returns_readIndexInfo_of_read read) ?_
      exact breaks_bind_of_returns (returns_requireSchema columns _ db) ih

theorem validateIndexes_cases (db : Database) (indexes : List Index) :
    (validateIndexes indexes).Returns db () db ∨ Refuses (validateIndexes indexes) db ∨
      Misread db indexes := by
  induction indexes with
  | nil => exact .inl (returns_pure () db)
  | cons ix rest ih =>
      rcases (decides_require (ix.unique = true ∧ ¬ix.isPartial = true) _).decides db with
        ⟨_, hflags⟩ | hrefuses
      swap
      · exact .inr (.inl hrefuses.bind)
      obtain ⟨hunique, hwhole⟩ := (require_eq_ok.mp hflags).1
      have hwhole : ix.isPartial = false := by simpa using hwhole
      cases hread : pragmaArgument ix.name with
      | none => exact .inr (.inr (.here hunique hwhole hread))
      | some name =>
          have hinfo : (readIndexInfo itemsName ix.name).Returns db
              (indexColumns db itemsName name) db := returns_readIndexInfo_of_read hread
          rcases (decides_require (indexColumns db itemsName name = [some deviceIdName]) _).decides
            db with ⟨_, hcolumns⟩ | hrefuses
          swap
          · exact .inr (.inl (refuses_bind_of_returns hflags
              (refuses_bind_of_returns hinfo hrefuses.bind)))
          rcases ih with hreturns | hrefuses | hmisread
          · exact .inl (hflags.bind (hinfo.bind (hcolumns.bind hreturns)))
          · exact .inr (.inl (refuses_bind_of_returns hflags
              (refuses_bind_of_returns hinfo (refuses_bind_of_returns hcolumns hrefuses))))
          · exact .inr (.inr
              (.later hunique hwhole hread (require_eq_ok.mp hcolumns).1 hmisread))

/-- The columns of the items table pass, and its indexes are misread. -/
def MisreadItems (db : Database) : Prop :=
  ∃ t, db.findTable itemsName = some t ∧ t.columns = deviceColumns ∧ Misread db t.indexes

theorem breaks_validateDeviceColumns (h : MisreadItems db) : Breaks validateDeviceColumns db := by
  obtain ⟨t, ht, hcolumns, hmisread⟩ := h
  refine breaks_bind_of_returns (returns_readColumns db itemsName) ?_
  refine breaks_bind_of_returns (returns_requireSchema (by simpa [ht] using hcolumns) _ db) ?_
  have hread : (readIndexes itemsName).Returns db t.indexes db := by
    simpa [ht] using returns_readIndexes db itemsName
  exact breaks_bind_of_returns hread (breaks_validateIndexes hmisread).bind

theorem validateDeviceColumns_cases (db : Database) :
    validateDeviceColumns.Returns db () db ∨ Refuses validateDeviceColumns db ∨
      MisreadItems db := by
  have hread := returns_readColumns db itemsName
  rcases (decides_require (((db.findTable itemsName).map Table.columns).getD [] = deviceColumns)
    _).decides db with ⟨_, hcolumns⟩ | hrefuses
  swap
  · exact .inr (.inl (refuses_bind_of_returns hread hrefuses.bind))
  have hmatch := (require_eq_ok.mp hcolumns).1
  cases ht : db.findTable itemsName with
  | none =>
      rw [ht] at hmatch
      exact absurd hmatch (by decide)
  | some t =>
      rw [ht] at hmatch
      have hlist : (readIndexes itemsName).Returns db t.indexes db := by
        simpa [ht] using returns_readIndexes db itemsName
      rcases validateIndexes_cases db t.indexes with hindexes | hrefuses | hmisread
      · rcases (decides_require (t.indexes.length = 1) _).decides db with ⟨_, hcount⟩ | hrefuses
        · exact .inl (hread.bind (hcolumns.bind (hlist.bind (hindexes.bind hcount))))
        · exact .inr (.inl (refuses_bind_of_returns hread (refuses_bind_of_returns hcolumns
            (refuses_bind_of_returns hlist (refuses_bind_of_returns hindexes hrefuses)))))
      · exact .inr (.inl (refuses_bind_of_returns hread (refuses_bind_of_returns hcolumns
          (refuses_bind_of_returns hlist hrefuses.bind))))
      · exact .inr (.inr ⟨t, ht, hmatch, hmisread⟩)

end

end Watchlist.Storage
