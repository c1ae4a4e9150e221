import VertexDB.Execution.Loops

/-!
# What a command leaves alone

Most commands change the active database, append their own records to the log, add a prepared
statement, or publish a snapshot and empty the log, and do nothing else.  An invariant that all of
this keeps (`Framed`) is kept by the command, whether it returns or throws
(`Framed.executeUnlocked`).  What such a command does to the database does not matter here.
-/

namespace VertexDB

open Ascii

/-- The records that the command may append. -/
def Query.Writes : Query → WalOperation → Str → Prop
  | .createDatabase command, operation, payload =>
    operation = .createDatabase ∧ payload = command.name
  | .createTable command, operation, payload =>
    operation = .createTable ∧ payload = createTableSql command
  | .dropTable command, operation, payload =>
    operation = .dropTable ∧ payload = dropTableSql command
  | .renameTable command, operation, payload =>
    operation = .renameTable ∧ payload = renameTableSql command
  | .insert command, operation, payload =>
    operation = .insert ∧ ∃ row ∈ command.rows, payload = insertSql command.table row
  | .update command, operation, payload =>
    operation = .update ∧ payload = updateSql command
  | .delete command, operation, payload =>
    operation = .delete ∧ payload = deleteSql command
  | .createIndex command, operation, payload =>
    operation = .createIndex ∧ payload = createIndexSql command
  | .saveDatabase, operation, _ => operation = .saveDatabase
  | _, _, _ => False

/-- The command is none of those that change the bookkeeping of transactions. -/
def Query.Calm : Query → Prop
  | .loadDatabase _ | .beginTransaction | .commitTransaction | .rollbackTransaction => False
  | _ => True

namespace QueryExecutor

open Procedure

/-- Nothing that the command does, other than to the bookkeeping of transactions, matters to the
invariant. -/
structure Framed (inv : QueryExecutor → Prop) (query : Query) : Prop where
  database : ∀ s database, inv s → inv { s with database }
  prepared : ∀ command, query = .prepareStatement command →
    ∀ s preparedStatements, inv s → inv { s with preparedStatements }
  append : ∀ operation payload, query.Writes operation payload →
    Keeps inv (appendWal operation payload)
  publish : query = .saveDatabase → ∀ fault database, Keeps inv (publish fault database)
  reset : query = .saveDatabase → Keeps inv resetWal

variable {inv : QueryExecutor → Prop} {query : Query}

section Steps

variable (h : Framed inv query)
include h

theorem Framed.putDatabase (database : Database) : Keeps inv (putDatabase database) :=
  keeps_modify fun s hs => h.database s (some database) hs

theorem Framed.putTable (name : Str) (table : Table) : Keeps inv (putTable name table) :=
  keeps_modify fun s hs => h.database s _ hs

theorem Framed.logged {c : Prop} [Decidable c] {operation : WalOperation} {payload : Str}
    (hw : query.Writes operation payload) (result : QueryResult) : Keeps inv
      (if c then (appendWal operation payload >>= fun _ => pure result : Exec QueryResult)
        else pure result) :=
  keeps_ite (fun _ => (h.append operation payload hw).bind fun _ => keeps_pure _)
    fun _ => keeps_pure _

theorem Framed.insertLoop {name : Str} {rows : List Row}
    (hw : ∀ row ∈ rows, query.Writes .insert (insertSql name row)) (table : Table) :
    Keeps inv (insertLoop name table rows) := by
  induction rows generalizing table with
  | nil => exact keeps_pure _
  | cons row rows ih =>
    rw [QueryExecutor.insertLoop]
    refine (h.append _ _ (hw row List.mem_cons_self)).bind fun _ => (keeps_lift _).bind fun p => ?_
    exact (h.putTable name p.2).bind fun _ => ih (fun r hr => hw r (List.mem_cons_of_mem _ hr)) p.2

theorem Framed.updateLoop (command : Update) (target : ℕ) (table : Table) (rowId : RowId)
    (rows : List Row) (count : ℕ) :
    Keeps inv (updateLoop command target table rowId rows count) := by
  induction rows generalizing table rowId count with
  | nil => exact keeps_pure _
  | cons row rows ih =>
    rw [QueryExecutor.updateLoop]
    refine (keeps_lift _).bind fun passed => keeps_ite (fun _ => ?_) fun _ => ih _ _ _
    exact (keeps_lift _).bind fun p => (h.putTable _ _).bind fun _ => ih _ _ _

theorem Framed.deleteLoop (command : Delete) (table : Table) (rows : List Row) (count : ℕ) :
    Keeps inv (deleteLoop command table rows count) := by
  induction rows generalizing table count with
  | nil => exact keeps_pure _
  | cons row rows ih =>
    rw [QueryExecutor.deleteLoop]
    refine (keeps_lift _).bind fun passed => keeps_ite (fun _ => ?_) fun _ => ih _ _
    rcases table.erase rows.length with ⟨erased, table'⟩
    exact (h.putTable command.table table').bind fun _ => ih _ _

end Steps

/-! ### Commands -/

theorem Framed.executeCreateDatabase {command : CreateDatabase}
    (h : Framed inv (.createDatabase command)) : Keeps inv (executeCreateDatabase command) :=
  (h.append _ _ ⟨rfl, rfl⟩).bind fun _ => (keeps_lift _).bind fun database =>
    (h.putDatabase database).bind fun _ => keeps_pure _

theorem Framed.executeCreateTable {command : CreateTable}
    (h : Framed inv (.createTable command)) : Keeps inv (executeCreateTable command) := by
  refine keeps_get_bind fun s hs => ?_
  cases s.database with
  | none => exact hs
  | some database =>
    exact ((keeps_lift _).bind fun (p : Bool × Database) => (h.putDatabase p.2).bind fun _ =>
      h.logged ⟨rfl, rfl⟩ _) s hs

theorem Framed.executeDropTable {command : DropTable}
    (h : Framed inv (.dropTable command)) : Keeps inv (executeDropTable command) := by
  refine keeps_get_bind fun s hs => ?_
  cases s.database with
  | none => exact hs
  | some database =>
    exact ((h.putDatabase _).bind fun _ => h.logged ⟨rfl, rfl⟩ _) s hs

theorem Framed.executeRenameTable {command : RenameTable}
    (h : Framed inv (.renameTable command)) : Keeps inv (executeRenameTable command) := by
  refine keeps_get_bind fun s hs => ?_
  cases s.database with
  | none => exact hs
  | some database =>
    exact ((h.putDatabase _).bind fun _ => (keeps_lift _).bind fun _ => h.logged ⟨rfl, rfl⟩ _) s hs

theorem Framed.executeInsert {command : Insert}
    (h : Framed inv (.insert command)) : Keeps inv (executeInsert command) := by
  refine keeps_get_bind fun s hs => ?_
  refine ((keeps_lift _).bind fun table => (keeps_lift _).bind fun _ => ?_) s hs
  exact (h.insertLoop (fun row hrow => ⟨rfl, row, hrow, rfl⟩) table).bind fun _ => keeps_pure _

theorem Framed.executeUpdate {command : Update}
    (h : Framed inv (.update command)) : Keeps inv (executeUpdate command) := by
  refine keeps_get_bind fun s hs => ?_
  refine ((keeps_lift _).bind fun table => ?_) s hs
  cases columnIndex table.schema command.column with
  | none => exact keeps_throw _
  | some target =>
    exact (h.updateLoop command target table 0 table.rowsSnapshot 0).bind fun _ =>
      h.logged ⟨rfl, rfl⟩ _

theorem Framed.executeDelete {command : Delete}
    (h : Framed inv (.delete command)) : Keeps inv (executeDelete command) := by
  refine keeps_get_bind fun s hs => ?_
  refine ((keeps_lift _).bind fun table => ?_) s hs
  exact (h.deleteLoop command table table.rowsSnapshot.reverse 0).bind fun _ =>
    h.logged ⟨rfl, rfl⟩ _

theorem Framed.executeCreateIndex {command : CreateIndex}
    (h : Framed inv (.createIndex command)) : Keeps inv (executeCreateIndex command) := by
  refine keeps_get_bind fun s hs => ?_
  refine ((keeps_lift _).bind fun table => ?_) s hs
  exact (h.putTable _ _).bind fun _ => h.logged ⟨rfl, rfl⟩ _

theorem Framed.executeSaveDatabase (h : Framed inv .saveDatabase)
    (fault : Option StorageManager.SaveFault) : Keeps inv (executeSaveDatabase fault) := by
  refine keeps_get_bind fun s hs => ?_
  cases s.database with
  | none => exact hs
  | some database =>
    exact ((h.append _ _ rfl).bind fun _ => (h.publish rfl _ _).bind fun _ =>
      (h.reset rfl).bind fun _ => keeps_pure _) s hs

/-- **A command that leaves transactions alone keeps every invariant that its own steps keep**,
whether it returns or throws. -/
theorem Framed.executeUnlocked (h : Framed inv query) (hcalm : query.Calm) (platform : Platform) :
    Keeps inv (executeUnlocked platform query) := by
  cases query with
  | createDatabase command => exact h.executeCreateDatabase
  | createTable command => exact h.executeCreateTable
  | dropTable command => exact h.executeDropTable
  | renameTable command => exact h.executeRenameTable
  | listTables => exact fun _ hs => hs
  | insert command => exact h.executeInsert
  | select command => exact fun _ hs => hs
  | update command => exact h.executeUpdate
  | delete command => exact h.executeDelete
  | createIndex command => exact h.executeCreateIndex
  | saveDatabase => exact h.executeSaveDatabase none
  | prepareStatement command => exact fun s hs => h.prepared command rfl s _ hs
  | executePrepared command => exact fun _ hs => hs
  | exit => exact fun _ hs => hs
  | loadDatabase command => exact hcalm.elim
  | beginTransaction => exact hcalm.elim
  | commitTransaction => exact hcalm.elim
  | rollbackTransaction => exact hcalm.elim

end QueryExecutor

end VertexDB
