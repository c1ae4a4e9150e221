import VertexDB.Execution.Clients
import VertexDB.Lib.SharedLock

/-!
# Statements behind the lock

`execute` holds the lock of the `LockManager` while a statement runs: together with others for a
`SELECT`, a `LIST TABLES` and the look-up of a prepared statement, exclusively for all the rest.  So
far a section of a statement was atomic.  Here it is done in steps, of any size, and between two
steps of one client others do theirs.

`sections_unseen` shows that this makes no difference, and `never_stuck` that whoever waits for the
lock can have it.  `body` is one way to cut the statements into steps: an `INSERT`, an `UPDATE` and
a `DELETE` write row by row, and the log in steps of its own.
-/

namespace VertexDB

open Ascii Linearizability SharedLock

namespace QueryExecutor

/-- Whether `execute` takes the lock exclusively for a statement.  An `EXECUTE` shares it to look up
the text; the statement of the text is another section. -/
def exclusive : Query → Bool
  | .select _ | .listTables | .executePrepared _ => false
  | _ => true

variable {platform : Platform} {s : QueryExecutor} {query : Query}

/-- A statement that shares the lock only reads. -/
theorem state_sections_of_shared (platform : Platform) (h : exclusive query = false)
    (s : QueryExecutor) : (sections platform query s).2 = s := by
  rw [state_sections]
  cases query with
  | select | listTables | executePrepared => rfl
  | _ => cases h

/-! ### Row by row -/

/-- The steps of `insertLoop`. -/
def insertSteps (tableName : Str) : Table → List Row → Program QueryExecutor (Except Exception Unit)
  | _, [] => .done (.ok ())
  | table, row :: rows =>
    (Program.atom (appendWal .insert (insertSql tableName row))).andThen fun _ =>
      (Program.done (table.insert row)).andThen fun (_, table) =>
        (Program.atom (putTable tableName table)).andThen fun _ => insertSteps tableName table rows

theorem does_insertSteps (tableName : Str) (table : Table) (rows : List Row) :
    (insertSteps tableName table rows).Does (insertLoop tableName table rows) := by
  induction rows generalizing table with
  | nil => exact Program.does_done _
  | cons row rows ih =>
    refine (Program.does_atom _).andThen fun _ => (Program.does_done _).andThen fun inserted => ?_
    exact (Program.does_atom _).andThen fun _ => ih inserted.2

/-- The steps of `executeInsert`. -/
def insertBody (command : Insert) : Program QueryExecutor Outcome :=
  Program.read fun executor =>
    (Program.done (executor.requireTable command.table)).andThen fun table =>
      (Program.done (validateRows table.schema command.rows)).andThen fun _ =>
        (insertSteps command.table table command.rows).andThen fun _ =>
          .done (.ok (messageResult true
            (bytes "inserted " ++ decimal command.rows.length ++ bytes " row(s)")))

theorem does_insertBody (command : Insert) : (insertBody command).Does (executeInsert command) := by
  refine Program.does_read fun executor => (Program.does_done _).andThen fun table => ?_
  refine (Program.does_done _).andThen fun _ => ?_
  exact (does_insertSteps command.table table command.rows).andThen fun _ => Program.does_done _

/-- The steps of `updateLoop`. -/
def updateSteps (command : Update) (target : ℕ) :
    Table → RowId → List Row → ℕ → Program QueryExecutor (Except Exception ℕ)
  | _, _, [], count => .done (.ok count)
  | table, rowId, row :: rows, count =>
    (Program.done (passes table.schema command.where_ row)).andThen fun passed =>
      if passed then
        (Program.done (table.update rowId target command.value)).andThen fun (updated, table) =>
          (Program.atom (putTable command.table table)).andThen fun _ =>
            updateSteps command target table (rowId + 1) rows (if updated then count + 1 else count)
      else updateSteps command target table (rowId + 1) rows count

theorem does_updateSteps (command : Update) (target : ℕ) (table : Table) (rowId : RowId)
    (rows : List Row) (count : ℕ) : (updateSteps command target table rowId rows count).Does
      (updateLoop command target table rowId rows count) := by
  induction rows generalizing table rowId count with
  | nil => exact Program.does_done _
  | cons row rows ih =>
    refine (Program.does_done _).andThen fun passed => Program.does_ite ?_ (ih table _ count)
    refine (Program.does_done _).andThen fun updated => ?_
    exact (Program.does_atom _).andThen fun _ => ih updated.2 _ _

/-- The steps of `executeUpdate`. -/
def updateBody (command : Update) : Program QueryExecutor Outcome :=
  Program.read fun executor =>
    (Program.done (executor.requireTable command.table)).andThen fun table =>
      match columnIndex table.schema command.column with
      | none => .done (.error (.runtimeError "unknown update column"))
      | some target =>
        (updateSteps command target table 0 table.rowsSnapshot 0).andThen fun count =>
          let result := messageResult true (bytes "updated " ++ decimal count ++ bytes " row(s)")
          if count ≠ 0 then
            (Program.atom (appendWal .update (updateSql command))).andThen fun _ =>
              .done (.ok result)
          else .done (.ok result)

theorem does_updateBody (command : Update) : (updateBody command).Does (executeUpdate command) := by
  refine Program.does_read fun executor => (Program.does_done _).andThen fun table => ?_
  cases columnIndex table.schema command.column with
  | none => exact fun _ => rfl
  | some target =>
    refine (does_updateSteps command target table 0 table.rowsSnapshot 0).andThen fun count => ?_
    refine Program.does_ite ?_ (Program.does_done _)
    exact (Program.does_atom _).andThen fun _ => Program.does_done _

/-- The steps of `deleteLoop`. -/
def deleteSteps (command : Delete) :
    Table → List Row → ℕ → Program QueryExecutor (Except Exception ℕ)
  | _, [], count => .done (.ok count)
  | table, row :: rows, count =>
    (Program.done (passes table.schema command.where_ row)).andThen fun passed =>
      if passed then
        (Program.atom (putTable command.table (table.erase rows.length).2)).andThen fun _ =>
          deleteSteps command (table.erase rows.length).2 rows
            (if (table.erase rows.length).1 then count + 1 else count)
      else deleteSteps command table rows count

theorem does_deleteSteps (command : Delete) (table : Table) (rows : List Row) (count : ℕ) :
    (deleteSteps command table rows count).Does (deleteLoop command table rows count) := by
  induction rows generalizing table count with
  | nil => exact Program.does_done _
  | cons row rows ih =>
    refine (Program.does_done _).andThen fun passed => Program.does_ite ?_ (ih table count)
    exact (Program.does_atom _).andThen fun _ => ih _ _

/-- The steps of `executeDelete`. -/
def deleteBody (command : Delete) : Program QueryExecutor Outcome :=
  Program.read fun executor =>
    (Program.done (executor.requireTable command.table)).andThen fun table =>
      (deleteSteps command table table.rowsSnapshot.reverse 0).andThen fun count =>
        let result := messageResult true (bytes "deleted " ++ decimal count ++ bytes " row(s)")
        if count ≠ 0 then
          (Program.atom (appendWal .delete (deleteSql command))).andThen fun _ =>
            .done (.ok result)
        else .done (.ok result)

theorem does_deleteBody (command : Delete) : (deleteBody command).Does (executeDelete command) := by
  refine Program.does_read fun executor => (Program.does_done _).andThen fun table => ?_
  refine (does_deleteSteps command table table.rowsSnapshot.reverse 0).andThen fun count => ?_
  refine Program.does_ite ?_ (Program.does_done _)
  exact (Program.does_atom _).andThen fun _ => Program.does_done _

/-! ### All statements -/

/-- The steps of a section. -/
def body (platform : Platform) : Query → Program QueryExecutor (Outcome ⊕ Query)
  | .insert command => (insertBody command).bind fun outcome => .done (.inl outcome)
  | .update command => (updateBody command).bind fun outcome => .done (.inl outcome)
  | .delete command => (deleteBody command).bind fun outcome => .done (.inl outcome)
  | query =>
    if exclusive query then
      .step (fun executor => (sections platform query executor).2) fun executor =>
        .done (sections platform query executor).1
    else Program.read fun executor => .done (sections platform query executor).1

/-- The statements, with the steps of their sections, and how they take the lock. -/
def locked (body : Query → Program QueryExecutor (Outcome ⊕ Query)) :
    Bodies QueryExecutor Query Outcome := ⟨body, exclusive⟩

theorem run_body (platform : Platform) (query : Query) (s : QueryExecutor) :
    (body platform query).run s = sections platform query s := by
  cases query with
  | insert command => rw [body, Program.run_bind, does_insertBody command s]; rfl
  | update command => rw [body, Program.run_bind, does_updateBody command s]; rfl
  | delete command => rw [body, Program.run_bind, does_deleteBody command s]; rfl
  | executePrepared command =>
    have hshared : exclusive (.executePrepared command) = false := rfl
    exact Prod.ext rfl (state_sections_of_shared platform hshared s).symm
  | _ => rfl

theorem implements_body (platform : Platform) :
    Implements (locked (body platform)) (sections platform) where
  run_eq := run_body platform
  onlyReads query h := by
    cases query with
    | select | listTables | executePrepared => exact ⟨rfl, fun _ => trivial⟩
    | _ => cases h

/-! ### Clients -/

variable {ι : Type} [DecidableEq ι] {steps : Query → Program QueryExecutor (Outcome ⊕ Query)}

/-- Clients do acts. -/
def served (steps : Query → Program QueryExecutor (Outcome ⊕ Query)) (initial : QueryExecutor)
    (acts : List (Act ι Query)) : Monitor ι QueryExecutor Query Outcome :=
  (Monitor.start initial).run (locked steps) acts

/-- The same, with the sections of `platform` as atoms, in the order in which the lock is let go. -/
def servedAtomically (platform : Platform)
    (steps : Query → Program QueryExecutor (Outcome ⊕ Query)) (initial : QueryExecutor)
    (acts : List (Act ι Query)) : System ι QueryExecutor Query Outcome :=
  System.run (sections platform) (System.start initial)
    ((Monitor.start initial).events (locked steps) acts)

theorem simulates_served (hsteps : Implements (locked steps) (sections platform))
    (initial : QueryExecutor) (acts : List (Act ι Query)) :
    Simulates (locked steps) (sections platform) (served steps initial acts)
      (servedAtomically platform steps initial acts) :=
  simulates_run hsteps (simulates_start (locked steps) (sections platform) initial) acts

/-- **The steps of statements cannot be seen.**  Whatever the steps are and in whatever order the
clients do them, every call returns what it returns when each section is an atom; and when nobody
holds the lock exclusively, the database is the same as then. -/
theorem sections_unseen (hsteps : Implements (locked steps) (sections platform))
    (initial : QueryExecutor) (acts : List (Act ι Query)) :
    (served steps initial acts).calls = (servedAtomically platform steps initial acts).calls ∧
      ((served steps initial acts).lock.writer = none →
        (served steps initial acts).state =
          (servedAtomically platform steps initial acts).state) :=
  ⟨(simulates_served hsteps initial acts).calls, (simulates_served hsteps initial acts).state⟩

/-- One client inserts two rows while another one asks for all of them, and is let in when both are
there. -/
def waitingActs : List (Act Bool Query) :=
  [.invoke false (.insert ⟨bytes "t", [[.int 1], [.int 2]]⟩), .acquire false, .step false,
    .step false, .step false,
    .invoke true (.select ⟨bytes "t", none, [bytes "*"], none, none, none⟩), .acquire true,
    .step false, .step false, .release false, .acquire true, .step true, .release true]

theorem sections_unseen_waiting :
    (served (body (.byInsertion true)) selecting waitingActs).calls =
        (servedAtomically (.byInsertion true) (body (.byInsertion true)) selecting
          waitingActs).calls ∧
      (served (body (.byInsertion true)) selecting waitingActs).state =
        (servedAtomically (.byInsertion true) (body (.byInsertion true)) selecting
          waitingActs).state ∧
      (served (body (.byInsertion true)) selecting waitingActs).calls.map
        (fun call => call.response.toOption.map QueryResult.rows) =
          [some [], some [[.int 1], [.int 2]]] := by
  obtain ⟨hcalls, hstate⟩ :=
    sections_unseen (implements_body (.byInsertion true)) selecting waitingActs
  exact ⟨hcalls, hstate (by decide +kernel), by decide +kernel⟩

/-- **No client is stuck**: whatever has been done, the other clients behind the lock can finish
their sections, and then a client with a call can run the next section of it.  No statement waits
for the lock while it holds it. -/
theorem never_stuck (hsteps : Implements (locked steps) (sections platform))
    (initial : QueryExecutor) (acts : List (Act ι Query)) {client : ι} {call : Pending Query}
    (hcall : ((served steps initial acts).places client).call? = some call) :
    ∃ more, ∃ others : List ι, client ∉ others ∧
      (served steps initial acts).events (locked steps) more =
        (others ++ [client]).map .advance :=
  exists_advance hsteps (simulates_served hsteps initial acts) hcall

/-- The `SELECT` that waits for the `INSERT` is not stuck. -/
theorem never_stuck_waiting : ∃ more, ∃ others : List Bool, true ∉ others ∧
    (served (body (.byInsertion true)) selecting (waitingActs.take 7)).events
      (locked (body (.byInsertion true))) more = (others ++ [true]).map .advance := by
  have hwaiting : ((served (body (.byInsertion true)) selecting
      (waitingActs.take 7)).places true).call?.isSome := by decide +kernel
  obtain ⟨call, hcall⟩ := Option.isSome_iff_exists.1 hwaiting
  exact never_stuck (implements_body (.byInsertion true)) selecting (waitingActs.take 7) hcall

/-- Statements in steps are linearizable as long as no `PREPARE` changes the text of a name while
the call of another client, which has read it, is on its way. -/
theorem linearizable_steps (hsteps : Implements (locked steps) (sections platform))
    (initial : QueryExecutor) {acts : List (Act ι Query)}
    (h : System.Along (sections platform) Undisturbed (System.start initial)
      ((Monitor.start initial).events (locked steps) acts))
    (hfree : (served steps initial acts).lock.writer = none) :
    ∃ order : List (Call ι Query Outcome), order.Perm (served steps initial acts).calls ∧
      order.Pairwise (fun a b => ¬ b.returned < a.invoked) ∧
      Sequential (sections platform) initial order (served steps initial acts).state := by
  have hserved := simulates_served hsteps initial acts
  rw [hserved.calls, hserved.state hfree]
  exact linearizable_clients platform initial h

end QueryExecutor

end VertexDB
