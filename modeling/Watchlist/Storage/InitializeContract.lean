import Watchlist.Storage.SchemaText

/-!
`SQLiteDatabase::Initialize` as a contract: it is all or nothing, a file it
accepts is at version 1 and keeps its devices, and it accepts that file again.
The v1 definition is the one part that the validation does not establish on
every file, because it compares definitions after dropping blanks, quotes and
case inside string literals and quoted names as well.
-/

namespace Watchlist.Storage

open Bytes Sqlite Faulty Faulty.Program SqlTokens

namespace SQLiteDatabase

/-- What a throwing `Initialize` leaves: the file as it was, and an object whose
operations throw until a later `Initialize` succeeds. -/
structure LeftUntouched (db : Database) (w : World SQLiteDatabase) : Prop where
  database : w.state.database = db
  refuses : ∀ calls,
    (∀ x ∈ (callAll w calls).1, x.1 = .initializeDatabase → ∃ e, x.2 = .error e) →
    ∀ x ∈ (callAll w calls).1, ∃ e, x.2 = .error e

/-- What a returning `Initialize` leaves: a v1 file with the devices it had, which
another `Initialize` accepts unchanged. -/
structure BroughtToV1 (db : Database) (w : World SQLiteDatabase) : Prop where
  version : w.state.database.userVersion = 1
  definition : HasV1Definition w.state.database
  rows : deviceRows w.state.database = deviceRows db
  again : initializeDatabase.Returns w.state () w.state

/-- Whatever statements fail, `Initialize` leaves the file untouched or brings it
to version 1. -/
def InitializeContract (db : Database) : Prop :=
  ∀ initialized faults,
    match initializeDatabase ⟨⟨db, initialized⟩, faults⟩ with
    | (.error _, w) => LeftUntouched db w
    | (.ok _, w) => BroughtToV1 db w

/-- At version 1 and accepted by the validation, though the stored text does not have the
outline of the v1 text. -/
def DisguisedV1 (db : Database) : Prop :=
  db.userVersion = 1 ∧ Accepted createV1ItemsSql db ∧
    ∃ t sql, db.findTable itemsName = some t ∧ t.sql = some sql ∧
      (tokens sql).map outline ≠ (tokens createV1ItemsSql).map outline

/-- The outline of an accepted text decides whether it is the v1 definition. -/
theorem hasV1Definition_of_not_disguised {db : Database} (h : ¬DisguisedV1 db)
    (hversion : db.userVersion = 1) (haccepted : Accepted createV1ItemsSql db) :
    HasV1Definition db := by
  obtain ⟨t, sql, ht, hdevice, hsql, hsame⟩ := haccepted.table
  refine ⟨t, sql, ht, hdevice, hsql, tokens_eq_of_outlines hsame ?_⟩
  by_contra hne
  exact h ⟨hversion, haccepted, t, sql, ht, hsql, hne⟩

theorem broughtToV1_of_not_disguised {db : Database} (hdb : ¬DisguisedV1 db)
    {initialized : Bool} {faults : List Bool} {w : World SQLiteDatabase} {u : Unit}
    (h : initializeDatabase ⟨⟨db, initialized⟩, faults⟩ = (.ok u, w)) : BroughtToV1 db w := by
  obtain ⟨v, hv, rfl⟩ := initializeDatabase_eq_ok h
  have hup : Upgraded db v.state := by
    cases initializeFile_eq_ok hv with
    | accepted hversion hsame haccepted =>
        rw [hsame]
        exact ⟨hversion, haccepted, hasV1Definition_of_not_disguised hdb hversion haccepted, rfl⟩
    | created _ hfree hcreated => exact hcreated.upgraded hfree
    | migrated _ _ hup => exact hup.toUpgraded
  exact {
    version := hup.version
    definition := hup.definition
    rows := hup.rows
    again := initializeDatabase_of_returns
      (returns_initializeFile_v1 hup.version hup.accepted) true }

theorem not_initializeContract_of_disguised {db : Database} (h : DisguisedV1 db) :
    ¬InitializeContract db := by
  obtain ⟨hversion, haccepted, t, sql, ht, hsql, hne⟩ := h
  intro hcontract
  have hreturns := initializeDatabase_of_returns
    (returns_initializeFile_v1 hversion haccepted) false
  have hdone := hcontract false []
  rw [show initializeDatabase ⟨⟨db, false⟩, []⟩ = _ from hreturns] at hdone
  obtain ⟨t', sql', ht', _, hsql', hsame⟩ := hdone.definition
  obtain rfl := Option.some.inj (ht.symm.trans ht')
  obtain rfl := Option.some.inj (hsql.symm.trans hsql')
  exact hne (congrArg (List.map outline) hsame)

/-- `Initialize` meets its contract on every file but the disguised ones. -/
theorem initialize_contract_iff (db : Database) : InitializeContract db ↔ ¬DisguisedV1 db := by
  constructor
  · exact fun hcontract hdb => not_initializeContract_of_disguised hdb hcontract
  · intro hdb initialized faults
    split
    · rename_i e w h
      have hstate := initializeDatabase_eq_error h
      exact {
        database := by rw [hstate]
        refuses := fun calls => callAll_error_of_not_initialized (by rw [hstate]) }
    · rename_i u w h
      exact broughtToV1_of_not_disguised hdb h

theorem disguisedV1_shoutedFile : DisguisedV1 shoutedFile := by
  have hobjects : userObjects shoutedFile = [ascii "table:items"] := by decide +kernel
  refine ⟨rfl, ⟨hobjects, fun t ht => ?_, _, shoutedItemsSql, rfl, ⟨rfl, _, rfl, rfl, rfl, rfl⟩, rfl,
    normalizeSql_shouted⟩, _, shoutedItemsSql, rfl, rfl, fun houtline => ?_⟩
  · obtain rfl := Option.some.inj ht
    exact quotableIndexes_items shoutedItemsSql
  · have hsame := tokens_eq_of_outlines normalizeSql_shouted houtline
    exact statement_shouted_ne (by rw [statement, statement, hsame])

/-- A file at version 1 whose items table can hold nothing passes `Initialize`. -/
theorem initialize_accepts_shoutedFile : ¬InitializeContract shoutedFile :=
  not_initializeContract_of_disguised disguisedV1_shoutedFile

end SQLiteDatabase

end Watchlist.Storage
