import VertexDB.Execution.QueryExecutor
import VertexDB.Storage.DatabaseView

/-!
# A naive interpreter

The commands that change a database, and their meaning on views: a table is a schema with a list
of rows.  INSERT appends, UPDATE maps over the matching rows, DELETE filters them out, and the
other commands change the collection of tables or the index definitions.  There are no pages,
versions, index structures or files here.
-/

namespace VertexDB

open Ascii QueryExecutor

/-- The commands that change the active database and are logged. -/
inductive Change
  | createDatabase (command : CreateDatabase)
  | createTable (command : CreateTable)
  | dropTable (command : DropTable)
  | renameTable (command : RenameTable)
  | insert (command : Insert)
  | update (command : Update)
  | delete (command : Delete)
  | createIndex (command : CreateIndex)
  deriving DecidableEq

namespace Change

/-- The change as a command of the executor. -/
def query : Change → Query
  | createDatabase command => .createDatabase command
  | createTable command => .createTable command
  | dropTable command => .dropTable command
  | renameTable command => .renameTable command
  | insert command => .insert command
  | update command => .update command
  | delete command => .delete command
  | createIndex command => .createIndex command

/-- The log records of a change that has an effect. -/
def records : Change → List (WalOperation × Str)
  | createDatabase command => [(.createDatabase, command.name)]
  | createTable command => [(.createTable, createTableSql command)]
  | dropTable command => [(.dropTable, dropTableSql command)]
  | renameTable command => [(.renameTable, renameTableSql command)]
  | insert command => command.rows.map fun row => (.insert, insertSql command.table row)
  | update command => [(.update, updateSql command)]
  | delete command => [(.delete, deleteSql command)]
  | createIndex command => [(.createIndex, createIndexSql command)]

end Change

namespace Reference

/-- What a change does: the answer, whether there was anything to do, and the database. -/
structure Effect where
  result : QueryResult
  changed : Bool
  database : Option DatabaseView
  deriving DecidableEq

/-- The active database and one of its tables. -/
def requireTable (database : Option DatabaseView) (name : Str) :
    Except Exception (DatabaseView × TableView) :=
  match database with
  | none => throw (.runtimeError "no active database")
  | some view => match view.tables.find? name with
    | none => throw (.runtimeError "unknown table")
    | some table => return (view, table)

/-- Put a table in place of the one of that name. -/
def putTable (view : DatabaseView) (name : Str) (table : TableView) : DatabaseView :=
  { view with tables := view.tables.insert name table }

/-- The `WHERE` clause is true of a row. -/
def matching (schema : List Column) (where_ : Option Predicate) (row : Row) : Bool :=
  match passes schema where_ row with
  | .ok passed => passed
  | .error _ => false

/-- Evaluate the `WHERE` clause on every row; this throws if the evaluation does on some row. -/
def evaluate (schema : List Column) (where_ : Option Predicate) : List Row → Except Exception Unit
  | [] => return ()
  | row :: rows => do
    let _ ← passes schema where_ row
    evaluate schema where_ rows

/-- The value of an UPDATE must fit the target column. -/
def checkTarget (schema : List Column) (target : ℕ) (value : Value) : Except Exception Unit :=
  match schema[target]? with
  | none => return ()
  | some column => checkValue "updated value does not match column type" column value

/-- INSERT appends its rows, which must all fit the schema. -/
def insert (command : Insert) (database : Option DatabaseView) : Except Exception Effect := do
  let (view, table) ← requireTable database command.table
  validateRows table.schema command.rows
  return ⟨messageResult true (bytes "inserted " ++ decimal command.rows.length ++ bytes " row(s)"),
    true, putTable view command.table { table with rows := table.rows ++ command.rows }⟩

/-- UPDATE on one table: set the target column of the matching rows, and count them. -/
def updateTable (command : Update) (target : ℕ) (table : TableView) :
    Except Exception (ℕ × TableView) := do
  evaluate table.schema command.where_ table.rows
  if table.rows.any (matching table.schema command.where_) then
    checkTarget table.schema target command.value
  return (table.rows.countP (matching table.schema command.where_), { table with
    rows := table.rows.map fun row =>
      if matching table.schema command.where_ row then row.set target command.value else row })

/-- UPDATE. -/
def update (command : Update) (database : Option DatabaseView) : Except Exception Effect := do
  let (view, table) ← requireTable database command.table
  match columnIndex table.schema command.column with
  | none => throw (.runtimeError "unknown update column")
  | some target =>
    let (count, table) ← updateTable command target table
    return ⟨messageResult true (bytes "updated " ++ decimal count ++ bytes " row(s)"), count ≠ 0,
      putTable view command.table table⟩

/-- DELETE on one table: remove the matching rows, and count them. -/
def deleteTable (command : Delete) (table : TableView) : Except Exception (ℕ × TableView) := do
  evaluate table.schema command.where_ table.rows
  return (table.rows.countP (matching table.schema command.where_), { table with
    rows := table.rows.filter fun row => !matching table.schema command.where_ row })

/-- DELETE. -/
def delete (command : Delete) (database : Option DatabaseView) : Except Exception Effect := do
  let (view, table) ← requireTable database command.table
  let (count, table) ← deleteTable command table
  return ⟨messageResult true (bytes "deleted " ++ decimal count ++ bytes " row(s)"), count ≠ 0,
    putTable view command.table table⟩

/-- CREATE INDEX defines an index. -/
def createIndex (command : CreateIndex) (database : Option DatabaseView) :
    Except Exception Effect := do
  let (view, table) ← requireTable database command.table
  let (created, table) := table.createIndex command.name command.column
  return ⟨messageResult created
      (if created then bytes "created index " ++ command.name else bytes "index creation failed"),
    created, putTable view command.table table⟩

/-- CREATE DATABASE starts an empty database. -/
def createDatabase (command : CreateDatabase) : Except Exception Effect :=
  if command.name = [] then throw (.invalidArgument "database name cannot be empty")
  else return ⟨messageResult true (bytes "created database " ++ command.name), true,
    some ⟨command.name, .empty⟩⟩

/-- The answer of a command that changes the collection of tables. -/
def answer (changed : Bool) (done failed : Str) (view : DatabaseView) : Effect :=
  ⟨messageResult changed (if changed then done else failed), changed, some view⟩

/-- The meaning of a change. -/
def step (change : Change) (database : Option DatabaseView) : Except Exception Effect :=
  match change, database with
  | .createDatabase command, _ => createDatabase command
  | .insert command, _ => insert command database
  | .update command, _ => update command database
  | .delete command, _ => delete command database
  | .createIndex command, _ => createIndex command database
  | .createTable _, none | .dropTable _, none | .renameTable _, none =>
    return ⟨messageResult false (bytes "no active database"), false, none⟩
  | .createTable command, some view => do
    let (created, view) ← view.createTable command.name command.columns
    return answer created (bytes "created table " ++ command.name) (bytes "table already exists")
      view
  | .dropTable command, some view =>
    let (dropped, view) := view.dropTable command.name
    return answer dropped (bytes "dropped table " ++ command.name) (bytes "unknown table") view
  | .renameTable command, some view => do
    let (renamed, view) ← view.renameTable command.oldName command.newName
    return answer renamed (bytes "renamed table " ++ command.oldName) (bytes "rename failed") view

/-- The answers and the database after a sequence of changes none of which throws. -/
def run : List Change → Option DatabaseView →
    Except Exception (List QueryResult × Option DatabaseView)
  | [], database => return ([], database)
  | change :: changes, database => do
    let effect ← step change database
    let (results, database) ← run changes effect.database
    return (effect.result :: results, database)

end Reference

end VertexDB
