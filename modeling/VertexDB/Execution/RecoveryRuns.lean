import VertexDB.Execution.Recovery

/-!
# Runs and restarts

The runs of the executor from an empty storage root, with any number of restarts between the
statements.  Every run of statements that `Durable.step` covers can be recovered: plain statements
outside transactions (`recovers_live`), and transactions whose ROLLBACK has nothing to undo
(`recovers_rolledBack`).
-/

namespace VertexDB

open Ascii Procedure StorageManager

namespace QueryExecutor

variable {platform : Platform} {name : Str} {s s' : QueryExecutor}

/-! ### Runs -/

/-- The states that an executor reaches from an empty storage root by restarts and by statements
that do not throw.  What a statement comes to must be allowed in the state in which it runs. -/
inductive Run (platform : Platform) (allowed : QueryExecutor → Query → Prop) : QueryExecutor → Prop
  | start : Run platform allowed (start platform .empty)
  | restart {s : QueryExecutor} (h : Run platform allowed s) :
    Run platform allowed (QueryExecutor.start platform s.storage.disk)
  | statement {s s' : QueryExecutor} (h : Run platform allowed s) {sql : Str} {query q : Query}
    (hparse : Parser.parse sql = .ok query) (depth : ℕ) (hq : s.resolved depth query = some q)
    (hallowed : allowed s q) {result : QueryResult}
    (hok : execute platform depth query s = (.ok result, s')) : Run platform allowed s'

theorem Run.durable (name : Str) {allowed : QueryExecutor → Query → Prop}
    (h : Run platform allowed s)
    (hallowed : ∀ s q, allowed s q → q.NoDouble ∧ ¬ Loads q ∧
      SaveUnder name s q ∧ SavesIndexes platform s q ∧ NeutralRollback s q) :
    Durable platform name s := by
  induction h with
  | start => exact leads_empty.durable_start
  | restart _ ih => exact ih.leads.durable_start
  | @statement s s' _ sql query q hparse depth hq hall result hok ih =>
    obtain ⟨hdouble, hload, hsave, hindexes, hrollback⟩ := hallowed s q hall
    obtain ⟨hwell, hrun⟩ := execute_of_resolved platform hparse hq
    rw [hrun] at hok
    exact ih.step hwell hdouble hload hsave hindexes hrollback hok

theorem Run.mono {allowed allowed' : QueryExecutor → Query → Prop}
    (himp : ∀ s q, allowed s q → allowed' s q) (h : Run platform allowed s) :
    Run platform allowed' s := by
  induction h with
  | start => exact .start
  | restart _ ih => exact .restart ih
  | statement _ hparse depth hq hallowed hok ih =>
    exact .statement ih hparse depth hq (himp _ _ hallowed) hok

/-- SQL texts run one after the other, each allowed and none throwing. -/
def allRun (platform : Platform) (allowed : QueryExecutor → Query → Prop)
    [∀ s q, Decidable (allowed s q)] : List String → QueryExecutor → Bool
  | [], _ => true
  | sql :: rest, s =>
    match Parser.parse (bytes sql) with
    | .error _ => false
    | .ok query =>
      match s.resolved 1 query, execute platform 1 query s with
      | some q, (.ok _, s') => allowed s q && allRun platform allowed rest s'
      | _, _ => false

theorem Run.runSql {allowed : QueryExecutor → Query → Prop} [∀ s q, Decidable (allowed s q)]
    (h : Run platform allowed s) {statements : List String}
    (hall : allRun platform allowed statements s = true) :
    Run platform allowed (runSql platform statements s) := by
  induction statements generalizing s with
  | nil => exact h
  | cons sql statements ih =>
    rw [QueryExecutor.runSql]
    rw [allRun] at hall
    cases hparse : Parser.parse (bytes sql) with
    | error e => rw [hparse] at hall; cases hall
    | ok query =>
      rw [hparse] at hall
      simp only at hall ⊢
      cases hq : s.resolved 1 query with
      | none => rw [hq] at hall; cases hall
      | some q =>
        rcases hrun : execute platform 1 query s with ⟨e | result, s'⟩
        · rw [hq, hrun] at hall; cases hall
        · rw [hq, hrun] at hall
          simp only [Bool.and_eq_true, decide_eq_true_eq] at hall
          exact ih (h.statement hparse 1 hq hall.1 hrun) hall.2

/-! ### Plain statements -/

/-- The kind of a statement on databases, tables and rows, or of a save. -/
def Plain : Query → Prop
  | .createDatabase _ | .createTable _ | .dropTable _ | .renameTable _ | .createIndex _
  | .insert _ | .update _ | .delete _ | .select _ | .listTables | .saveDatabase => True
  | _ => False

instance (query : Query) : Decidable (Plain query) := match query with
  | .createDatabase _ | .createTable _ | .dropTable _ | .renameTable _ | .createIndex _
  | .insert _ | .update _ | .delete _ | .select _ | .listTables | .saveDatabase => instDecidableTrue
  | .loadDatabase _ | .beginTransaction | .commitTransaction | .rollbackTransaction
  | .prepareStatement _ | .executePrepared _ | .exit => instDecidableFalse

theorem Plain.noLoad {query : Query} (h : Plain query) : ¬ Loads query := by
  cases query <;> first | exact id | exact absurd h id

/-- A statement of a plain kind, without doubles; a save is under the name. -/
structure PlainStatement (name : Str) (s : QueryExecutor) (query : Query) : Prop where
  plain : Plain query
  noDouble : query.NoDouble
  saveUnder : SaveUnder name s query

instance (name : Str) (s : QueryExecutor) (query : Query) :
    Decidable (PlainStatement name s query) :=
  decidable_of_iff (Plain query ∧ query.NoDouble ∧ SaveUnder name s query)
    ⟨fun h => ⟨h.1, h.2.1, h.2.2⟩, fun h => ⟨h.1, h.2, h.3⟩⟩

/-- **Recovery reproduces the live database** in every run of plain statements and restarts whose
saves write index definitions that read back. -/
theorem recovers_live (h : Run platform
    (fun s query => PlainStatement name s query ∧ SavesIndexes platform s query) s) :
    Recovers platform s := by
  refine (h.durable name fun s query hall => ?_).recovers
  refine ⟨hall.1.noDouble, hall.1.plain.noLoad, hall.1.saveUnder, hall.2, ?_⟩
  rintro rfl
  exact absurd hall.1.plain id

/-- A table with an index and a row, saved. -/
def savedTable (platform : Platform) : QueryExecutor := runSql platform
  ["CREATE DATABASE d;", "CREATE TABLE t (a INT);", "CREATE INDEX i ON t (a);",
    "INSERT INTO t VALUES (1), (2);", "SAVE DATABASE;"] (start platform .empty)

theorem run_savedTable :
    Run (.byInsertion true) (PlainStatement (bytes "d")) (savedTable (.byInsertion true)) :=
  Run.start.runSql (by decide +kernel)

/-- A row updated and another one deleted after the save. -/
def changedTable (platform : Platform) : QueryExecutor := runSql platform
  ["UPDATE t SET a = 5 WHERE a = 2;", "DELETE FROM t WHERE a = 1;"] (savedTable platform)

theorem recovers_live_changedTable :
    (changedTable (.byInsertion true)).view = some ⟨bytes "d", SortedMap.empty.insert (bytes "t")
      ⟨[⟨bytes "a", .int, false⟩], [[.int ⟨5, by decide⟩]],
        SortedMap.empty.insert (bytes "i") (bytes "a")⟩⟩ ∧
      Recovers (.byInsertion true) (changedTable (.byInsertion true)) := by
  have hrun : Run (.byInsertion true) (PlainStatement (bytes "d"))
      (changedTable (.byInsertion true)) := run_savedTable.runSql (by decide +kernel)
  exact ⟨by decide +kernel,
    recovers_live (hrun.mono fun s query hplain => ⟨hplain, fun _ _ _ => .inl rfl⟩)⟩

/-- Where arguments are evaluated from right to left, the snapshot of a table with an index reads
back without it. -/
theorem not_recovers_savedTable :
    Run (.byInsertion false) (PlainStatement (bytes "d")) (savedTable (.byInsertion false)) ∧
      ¬ Recovers (.byInsertion false) (savedTable (.byInsertion false)) :=
  ⟨Run.start.runSql (by decide +kernel), by unfold Recovers; decide +kernel⟩

/-! ### Transactions -/

/-- A statement of any kind but LOAD, without doubles; a save is under the name. -/
structure TransactionStatement (name : Str) (s : QueryExecutor) (query : Query) : Prop where
  noLoad : ¬ Loads query
  noDouble : query.NoDouble
  saveUnder : SaveUnder name s query

instance (name : Str) (s : QueryExecutor) (query : Query) :
    Decidable (TransactionStatement name s query) :=
  decidable_of_iff (¬ Loads query ∧ query.NoDouble ∧ SaveUnder name s query)
    ⟨fun h => ⟨h.1, h.2.1, h.2.2⟩, fun h => ⟨h.1, h.2, h.3⟩⟩

/-- **What was rolled back stays rolled back** after a restart, in every run in which a ROLLBACK
finds the database as it was at BEGIN and saves write index definitions that read back. -/
theorem recovers_rolledBack (h : Run platform (fun s query => TransactionStatement name s query ∧
    SavesIndexes platform s query ∧ NeutralRollback s query) s) : Recovers platform s :=
  (h.durable name fun _ _ hall =>
    ⟨hall.1.noDouble, hall.1.noLoad, hall.1.saveUnder, hall.2.1, hall.2.2⟩).recovers

/-- A row inserted by a transaction that commits, one inserted and deleted by a transaction that
is rolled back. -/
def blocks : QueryExecutor := runSql (.byInsertion true)
  ["CREATE DATABASE d;", "CREATE TABLE t (a INT);", "BEGIN;", "INSERT INTO t VALUES (1);",
    "COMMIT;", "SAVE DATABASE;", "BEGIN;", "INSERT INTO t VALUES (2);",
    "DELETE FROM t WHERE a = 2;", "ROLLBACK;"] (start (.byInsertion true) .empty)

theorem recovers_rolledBack_blocks :
    blocks.view = some ⟨bytes "d", SortedMap.empty.insert (bytes "t")
      ⟨[⟨bytes "a", .int, false⟩], [[.int ⟨1, by decide⟩]], .empty⟩⟩ ∧
      Recovers (.byInsertion true) blocks := by
  have hrun : Run (.byInsertion true)
      (fun s query => TransactionStatement (bytes "d") s query ∧ NeutralRollback s query) blocks :=
    Run.start.runSql (by decide +kernel)
  exact ⟨by decide +kernel, recovers_rolledBack
    (hrun.mono fun s query hall => ⟨hall.1, fun _ _ _ => .inl rfl, hall.2⟩)⟩

/-- A row inserted by a transaction that is rolled back. -/
def rolledBack : QueryExecutor := runSql (.byInsertion true)
  ["CREATE DATABASE d;", "CREATE TABLE t (a INT);", "BEGIN;", "INSERT INTO t VALUES (1);",
    "ROLLBACK;"] (start (.byInsertion true) .empty)

/-- The log still holds the record of the row, so recovery brings it back. -/
theorem not_recovers_rolledBack :
    Run (.byInsertion true) (TransactionStatement (bytes "d")) rolledBack ∧
      rolledBack.transactionSnapshot.isNone = true ∧ ¬ Recovers (.byInsertion true) rolledBack :=
  ⟨Run.start.runSql (by decide +kernel), by decide +kernel, by unfold Recovers; decide +kernel⟩

end QueryExecutor

end VertexDB
