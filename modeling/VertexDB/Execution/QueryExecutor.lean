import VertexDB.Execution.SqlText
import VertexDB.Parser.Parser
import VertexDB.Persistence.StorageManager
import VertexDB.Planner.QueryPlanner
import VertexDB.Transaction.TransactionManager

/-!
# The query executor

The state of a `QueryExecutor` is the active database, the copy taken at `BEGIN`, the storage and
the bookkeeping of transactions and prepared statements.  A command is a `Procedure`: what it has
changed before it throws stays changed.  Read and write locks play no part, since one command
runs at a time.

`execute` follows a chain of `EXECUTE` commands up to a given depth; a chain that is longer, or
that never ends, throws `outOfFuel` here and does not return in the source.
-/

namespace VertexDB

open Ascii

/-- `QueryResult`. -/
structure QueryResult where
  success : Bool
  message : Str
  columns : List Str
  rows : List Row
  deriving DecidableEq

/-- `messageResult`. -/
def messageResult (success : Bool) (message : Str) : QueryResult := ⟨success, message, [], []⟩

/-- `QueryExecutor`. -/
structure QueryExecutor where
  database : Option Database
  transactionSnapshot : Option Database
  storage : Storage
  transactionManager : TransactionManager
  activeTransaction : Option TransactionId
  preparedStatements : SortedMap Str Str
  replayingWal : Bool

/-- A step of the executor. -/
abbrev Exec := Procedure QueryExecutor Exception

namespace QueryExecutor

/-! ### Columns and predicates -/

/-- A text ends in a suffix. -/
def hasSuffix (text suffix : Str) : Bool := text.drop (text.length - suffix.length) = suffix

/-- `resolveResultColumn`: the column of that name, or the only one with that name after a
dot. -/
def resolveResultColumn (columns : List Str) (requested : Str) : Except Exception (Option ℕ) :=
  match columns.findIdx? (· = requested) with
  | some index => return some index
  | none =>
    let suffix := byte '.' :: requested
    match (List.range columns.length).filter fun i => hasSuffix (columns.getD i []) suffix with
    | [] => return none
    | [index] => return some index
    | _ => throw (.runtimeError "ambiguous column reference")

/-- `resolveTableColumn`. -/
def resolveTableColumn (table : Table) (tableName requested : Str) : Option ℕ :=
  let qualifier := tableName ++ [byte '.']
  columnIndex table.schema
    (if qualifier.isPrefixOf requested then requested.drop qualifier.length else requested)

/-- Evaluate a predicate on a row, given how columns are found.  `&&` and `||` evaluate their
right operand only when they need it. -/
def evalPredicate (resolve : Str → Except Exception (Option ℕ)) (row : Row) :
    Predicate → Except Exception Bool
  | .and left right => do
    if ← evalPredicate resolve row left then evalPredicate resolve row right else return false
  | .or left right => do
    if ← evalPredicate resolve row left then return true else evalPredicate resolve row right
  | .comparison column op value => do
    match ← resolve column with
    | none => throw (.runtimeError "unknown predicate column")
    | some index => return compare (row.at index) op value

/-- `QueryExecutor::matches`. -/
def matchesPredicate (schema : List Column) (row : Row) (predicate : Predicate) :
    Except Exception Bool :=
  evalPredicate (fun column => return columnIndex schema column) row predicate

/-- A row passes an optional `WHERE` clause. -/
def passes (schema : List Column) (where_ : Option Predicate) (row : Row) :
    Except Exception Bool :=
  match where_ with
  | none => return true
  | some predicate => matchesPredicate schema row predicate

/-- Keep the rows that pass a test, evaluated row by row. -/
def filterRows (test : Row → Except Exception Bool) : List Row → Except Exception (List Row)
  | [] => return []
  | row :: rows => do
    let keep ← test row
    let kept ← filterRows test rows
    return if keep then row :: kept else kept

/-! ### Reading -/

variable (platform : Platform)

/-- `QueryExecutor::requireTable`. -/
def requireTable (executor : QueryExecutor) (tableName : Str) : Except Exception Table :=
  match executor.database with
  | none => throw (.runtimeError "no active database")
  | some database => match database.table tableName with
    | none => throw (.runtimeError "unknown table")
    | some table => return table

/-- `QueryExecutor::readVersion`. -/
def readVersion (executor : QueryExecutor) : Option TransactionId :=
  executor.activeTransaction.map fun _ => .max

/-- `QueryExecutor::rowsSnapshotForRead`. -/
def rowsSnapshotForRead (executor : QueryExecutor) (table : Table) : List Row :=
  match executor.readVersion with
  | some version => table.rowsSnapshotAt version
  | none => table.rowsSnapshot

/-- `QueryExecutor::rowsByIdForRead`. -/
def rowsByIdForRead (executor : QueryExecutor) (table : Table) (rowIds : List RowId) : List Row :=
  match executor.readVersion with
  | some version => table.rowsByIdAt rowIds version
  | none => table.rowsById rowIds

/-- The positions of the selected columns. -/
def resolveColumns (schema : List Column) : List Str → Except Exception (List ℕ)
  | [] => return []
  | column :: columns => match columnIndex schema column with
    | none => throw (.runtimeError "unknown selected column")
    | some index => do
      let projection ← resolveColumns schema columns
      return index :: projection

/-- `QueryExecutor::resolveProjection`: the positions and the names of the selected columns. -/
def resolveProjection (command : Select) (table : Table) :
    Except Exception (List ℕ × List Str) :=
  if command.columns = [bytes "*"] then
    return (List.range table.schema.length, table.schema.map Column.name)
  else do
    let projection ← resolveColumns table.schema command.columns
    return (projection, command.columns)

/-- `QueryExecutor::collectRows`. -/
def collectRows (executor : QueryExecutor) (command : Select) (table : Table) :
    Except Exception (List Row) :=
  let scan := filterRows (passes table.schema command.where_) (executor.rowsSnapshotForRead table)
  match simpleComparison command.where_, (QueryPlanner.planSelect command table).accessPath with
  | some (column, _, value), .hashIndexLookup => match table.indexedLookup column value with
    | some rowIds => return executor.rowsByIdForRead table rowIds
    | none => scan
  | some (column, op, value), .orderedIndexRange => match table.orderedLookup column op value with
    | some rowIds => return executor.rowsByIdForRead table rowIds
    | none => scan
  | _, _ => scan

/-- The comparison that `ORDER BY` sorts with. -/
def orderLess (ascending : Bool) (index : ℕ) (left right : Row) : Bool :=
  if ascending then (left.at index).lt (right.at index) else (right.at index).lt (left.at index)

/-- Sort by `ORDER BY`, given how its column is found. -/
def sortRows (resolve : Str → Except Exception (Option ℕ)) (orderBy : Option OrderBy)
    (rows : List Row) : Except Exception (List Row) :=
  match orderBy with
  | none => return rows
  | some order => do
    match ← resolve order.column with
    | none => throw (.runtimeError "unknown ORDER BY column")
    | some index => return platform.sort (orderLess order.ascending index) rows

/-- The loop that projects the rows and stops at the limit; `count` rows are done. -/
def projectRows (projection : List ℕ) (limit : Option ℕ) : ℕ → List Row → List Row
  | _, [] => []
  | count, row :: rows =>
    projection.map row.at ::
      if limit.any (· ≤ count + 1) then [] else projectRows projection limit (count + 1) rows

/-- The part of `QueryExecutor::executeSelect` on one table. -/
def selectFrom (executor : QueryExecutor) (command : Select) (table : Table) :
    Except Exception QueryResult := do
  let (projection, columns) ← resolveProjection command table
  let rows ← executor.collectRows command table
  let rows ← sortRows platform (fun column => return columnIndex table.schema column)
    command.orderBy rows
  return ⟨true, bytes "selected rows", columns, projectRows projection command.limit 0 rows⟩

/-- The positions of the selected columns of a join. -/
def resolveJoinColumns (joinedColumns : List Str) : List Str → Except Exception (List ℕ)
  | [] => return []
  | column :: columns => do
    match ← resolveResultColumn joinedColumns column with
    | none => throw (.runtimeError "unknown selected column")
    | some index =>
      let projection ← resolveJoinColumns joinedColumns columns
      return index :: projection

/-- The right rows of a join by their key. -/
def rowsByKey (column : ℕ) (rows : List Row) : SortedMap Value.Key (List Row) :=
  rows.foldl (fun m row => m.upsert (row.at column).key [] (· ++ [row])) .empty

/-- `QueryExecutor::executeJoinSelect`. -/
def joinSelect (executor : QueryExecutor) (command : Select) (join : JoinClause) :
    Except Exception QueryResult := do
  let leftTable ← executor.requireTable command.table
  let rightTable ← executor.requireTable join.table
  match resolveTableColumn leftTable command.table join.leftColumn,
    resolveTableColumn rightTable join.table join.rightColumn with
  | some leftJoinColumn, some rightJoinColumn =>
    let joinedColumns :=
      leftTable.schema.map (fun column => command.table ++ byte '.' :: column.name) ++
        rightTable.schema.map (fun column => join.table ++ byte '.' :: column.name)
    let projection ← if command.columns = [bytes "*"] then
        pure (List.range joinedColumns.length)
      else resolveJoinColumns joinedColumns command.columns
    let rightRowsByKey :=
      rowsByKey rightJoinColumn (executor.rowsSnapshotForRead rightTable)
    let joined := (executor.rowsSnapshotForRead leftTable).flatMap fun leftRow =>
      ((rightRowsByKey.find? (leftRow.at leftJoinColumn).key).getD []).map (leftRow ++ ·)
    let rows ← filterRows (fun row => match command.where_ with
      | none => return true
      | some predicate => evalPredicate (resolveResultColumn joinedColumns) row predicate) joined
    let rows ← sortRows platform (resolveResultColumn joinedColumns) command.orderBy rows
    return ⟨true, bytes "selected rows", projection.map fun i => joinedColumns.getD i [],
      projectRows projection command.limit 0 rows⟩
  | _, _ => throw (.runtimeError "unknown join column")

/-- `QueryExecutor::executeSelect`. -/
def select (executor : QueryExecutor) (command : Select) : Except Exception QueryResult :=
  match command.join with
  | some join => executor.joinSelect platform command join
  | none => do
    let table ← executor.requireTable command.table
    executor.selectFrom platform command table

/-! ### Commands -/

/-- `QueryExecutor::appendWal`. -/
def appendWal (operation : WalOperation) (payload : Str) : Exec Unit := do
  let executor ← get
  if executor.replayingWal then return ()
  let _ ← Procedure.focus QueryExecutor.storage (fun storage executor => { executor with storage })
    (WriteAheadLog.append operation payload)
  return ()

/-- Replace the active database. -/
def putDatabase (database : Database) : Exec Unit :=
  modify fun executor => { executor with database := some database }

/-- Change a table of the active database in place. -/
def putTable (tableName : Str) (table : Table) : Exec Unit :=
  modify fun executor => { executor with
    database := executor.database.map fun database =>
      { database with tables := database.tables.insert tableName table } }

/-- `QueryExecutor::executeCreateDatabase`. -/
def executeCreateDatabase (command : CreateDatabase) : Exec QueryResult := do
  appendWal .createDatabase command.name
  let database ← Procedure.lift (Database.make command.name)
  putDatabase database
  return messageResult true (bytes "created database " ++ command.name)

/-- `QueryExecutor::executeCreateTable`. -/
def executeCreateTable (command : CreateTable) : Exec QueryResult := do
  match (← get).database with
  | none => return messageResult false (bytes "no active database")
  | some database =>
    let (created, database) ← Procedure.lift (database.createTable command.name command.columns)
    putDatabase database
    if created then appendWal .createTable (createTableSql command)
    return messageResult created
      (if created then bytes "created table " ++ command.name else bytes "table already exists")

/-- `QueryExecutor::executeDropTable`. -/
def executeDropTable (command : DropTable) : Exec QueryResult := do
  match (← get).database with
  | none => return messageResult false (bytes "no active database")
  | some database =>
    let (dropped, database) := database.dropTable command.name
    putDatabase database
    if dropped then appendWal .dropTable (dropTableSql command)
    return messageResult dropped
      (if dropped then bytes "dropped table " ++ command.name else bytes "unknown table")

/-- `QueryExecutor::executeRenameTable`. -/
def executeRenameTable (command : RenameTable) : Exec QueryResult := do
  match (← get).database with
  | none => return messageResult false (bytes "no active database")
  | some database =>
    let (outcome, database) := database.renameTable command.oldName command.newName
    putDatabase database
    let renamed ← Procedure.lift outcome
    if renamed then appendWal .renameTable (renameTableSql command)
    return messageResult renamed
      (if renamed then bytes "renamed table " ++ command.oldName else bytes "rename failed")

/-- `QueryExecutor::executeListTables`. -/
def listTables (executor : QueryExecutor) : QueryResult :=
  match executor.database with
  | none => messageResult false (bytes "no active database")
  | some database => ⟨true, bytes "listed tables", [bytes "table"],
      database.listTables.map fun name => [.string name]⟩

/-- The loop of `QueryExecutor::executeInsert`. -/
def insertLoop (tableName : Str) : Table → List Row → Exec Unit
  | _, [] => return ()
  | table, row :: rows => do
    appendWal .insert (insertSql tableName row)
    let (_, table) ← Procedure.lift (table.insert row)
    putTable tableName table
    insertLoop tableName table rows

/-- `QueryExecutor::executeInsert`. -/
def executeInsert (command : Insert) : Exec QueryResult := do
  let executor ← get
  let table ← Procedure.lift (executor.requireTable command.table)
  Procedure.lift (validateRows table.schema command.rows)
  insertLoop command.table table command.rows
  return messageResult true (bytes "inserted " ++ decimal command.rows.length ++ bytes " row(s)")

/-- The loop of `QueryExecutor::executeUpdate`, over the rows of the snapshot from `rowId` on. -/
def updateLoop (command : Update) (target : ℕ) : Table → RowId → List Row → ℕ → Exec ℕ
  | _, _, [], count => return count
  | table, rowId, row :: rows, count => do
    if ← Procedure.lift (passes table.schema command.where_ row) then
      let (updated, table) ← Procedure.lift (table.update rowId target command.value)
      putTable command.table table
      updateLoop command target table (rowId + 1) rows (if updated then count + 1 else count)
    else updateLoop command target table (rowId + 1) rows count

/-- `QueryExecutor::executeUpdate`. -/
def executeUpdate (command : Update) : Exec QueryResult := do
  let executor ← get
  let table ← Procedure.lift (executor.requireTable command.table)
  match columnIndex table.schema command.column with
  | none => throw (.runtimeError "unknown update column")
  | some target =>
    let count ← updateLoop command target table 0 table.rowsSnapshot 0
    if count ≠ 0 then appendWal .update (updateSql command)
    return messageResult true (bytes "updated " ++ decimal count ++ bytes " row(s)")

/-- The loop of `QueryExecutor::executeDelete`, over the rows of the snapshot from the last one
down; the rows before the current one are still to come. -/
def deleteLoop (command : Delete) : Table → List Row → ℕ → Exec ℕ
  | _, [], count => return count
  | table, row :: rows, count => do
    if ← Procedure.lift (passes table.schema command.where_ row) then
      let (erased, table) := table.erase rows.length
      putTable command.table table
      deleteLoop command table rows (if erased then count + 1 else count)
    else deleteLoop command table rows count

/-- `QueryExecutor::executeDelete`. -/
def executeDelete (command : Delete) : Exec QueryResult := do
  let executor ← get
  let table ← Procedure.lift (executor.requireTable command.table)
  let count ← deleteLoop command table table.rowsSnapshot.reverse 0
  if count ≠ 0 then appendWal .delete (deleteSql command)
  return messageResult true (bytes "deleted " ++ decimal count ++ bytes " row(s)")

/-- `QueryExecutor::executeCreateIndex`. -/
def executeCreateIndex (command : CreateIndex) : Exec QueryResult := do
  let executor ← get
  let table ← Procedure.lift (executor.requireTable command.table)
  let (created, table) := table.createIndex command.name command.column
  putTable command.table table
  if created then appendWal .createIndex (createIndexSql command)
  return messageResult created
    (if created then bytes "created index " ++ command.name else bytes "index creation failed")

/-- Publish a snapshot of a database. -/
def publish (fault : Option StorageManager.SaveFault) (database : Database) : Exec Unit :=
  Procedure.focus QueryExecutor.storage (fun storage executor => { executor with storage })
    (StorageManager.saveDatabase fault database)

/-- Empty the log. -/
def resetWal : Exec Unit :=
  Procedure.focus QueryExecutor.storage (fun storage executor => { executor with storage })
    WriteAheadLog.reset

/-- `QueryExecutor::executeSaveDatabase`, with the fault its file operations meet. -/
def executeSaveDatabase (fault : Option StorageManager.SaveFault) : Exec QueryResult := do
  match (← get).database with
  | none => return messageResult false (bytes "no active database")
  | some database =>
    appendWal .saveDatabase database.name
    publish fault database
    resetWal
    return messageResult true (bytes "saved database " ++ database.name)

/-- The database that `LOAD DATABASE` reads. -/
def databaseToLoad (executor : QueryExecutor) (command : LoadDatabase) :
    Except Exception Database :=
  match command.name, executor.database with
  | some name, _ => StorageManager.loadDatabase platform executor.storage.disk name
  | none, some database =>
    StorageManager.loadDatabase platform executor.storage.disk database.name
  | none, none => StorageManager.loadFirstDatabase platform executor.storage.disk

/-- `QueryExecutor::executeLoadDatabase`. -/
def executeLoadDatabase (command : LoadDatabase) : Exec QueryResult := do
  let executor ← get
  let database ← Procedure.lift (executor.databaseToLoad platform command)
  modify fun executor => { executor with
    database := some database
    transactionSnapshot := none }
  return messageResult true (bytes "loaded database " ++ database.name)

/-- `QueryExecutor::executeBegin`. -/
def executeBegin : Exec QueryResult := do
  let executor ← get
  match executor.database with
  | none => return messageResult false (bytes "no active database")
  | some database =>
    if executor.transactionSnapshot.isSome then
      return messageResult false (bytes "transaction already active")
    let (id, manager) := executor.transactionManager.begin
    modify fun executor => { executor with
      activeTransaction := some id
      transactionManager := manager }
    let copy ← Procedure.lift database.clone
    modify fun executor => { executor with transactionSnapshot := some copy }
    return messageResult true (bytes "began transaction")

/-- `QueryExecutor::executeCommit`. -/
def executeCommit : Exec QueryResult := do
  let executor ← get
  match executor.transactionSnapshot, executor.activeTransaction with
  | none, _ => return messageResult false (bytes "no active transaction")
  | some _, none => return messageResult false (bytes "transaction state is inconsistent")
  | some _, some id =>
    let manager ← Procedure.lift (executor.transactionManager.commit id)
    modify fun executor => { executor with
      transactionManager := manager
      activeTransaction := none
      transactionSnapshot := none }
    return messageResult true (bytes "committed transaction")

/-- `QueryExecutor::executeRollback`. -/
def executeRollback : Exec QueryResult := do
  let executor ← get
  match executor.transactionSnapshot, executor.activeTransaction with
  | none, _ => return messageResult false (bytes "no active transaction")
  | some _, none => return messageResult false (bytes "transaction state is inconsistent")
  | some snapshot, some id =>
    let manager ← Procedure.lift (executor.transactionManager.rollback id)
    modify fun executor => { executor with
      transactionManager := manager
      activeTransaction := none
      database := some snapshot
      transactionSnapshot := none }
    return messageResult true (bytes "rolled back transaction")

/-- `QueryExecutor::executePrepare`. -/
def executePrepare (command : PrepareStatement) : Exec QueryResult := do
  modify fun executor => { executor with
    preparedStatements := executor.preparedStatements.insert command.name command.sql }
  return messageResult true (bytes "prepared statement " ++ command.name)

/-- `QueryExecutor::executeUnlocked`. -/
def executeUnlocked : Query → Exec QueryResult
  | .createDatabase command => executeCreateDatabase command
  | .createTable command => executeCreateTable command
  | .dropTable command => executeDropTable command
  | .renameTable command => executeRenameTable command
  | .listTables => do
    let executor ← get
    return executor.listTables
  | .insert command => executeInsert command
  | .select command => do
    let executor ← get
    Procedure.lift (executor.select platform command)
  | .update command => executeUpdate command
  | .delete command => executeDelete command
  | .createIndex command => executeCreateIndex command
  | .saveDatabase => executeSaveDatabase none
  | .loadDatabase command => executeLoadDatabase platform command
  | .beginTransaction => executeBegin
  | .commitTransaction => executeCommit
  | .rollbackTransaction => executeRollback
  | .prepareStatement command => executePrepare command
  | .executePrepared _ =>
    throw (.runtimeError "prepared execution must not be dispatched while locked")
  | .exit => return messageResult true (bytes "exit")

/-- Replace the question marks of a text by literals. -/
def bindParameters : Str → List Value → Except Exception Str
  | [], [] => return []
  | [], _ :: _ => throw (.runtimeError "too many prepared statement parameters")
  | character :: sql, parameters =>
    if character ≠ byte '?' then do
      let bound ← bindParameters sql parameters
      return character :: bound
    else match parameters with
      | [] => throw (.runtimeError "not enough prepared statement parameters")
      | parameter :: parameters => do
        let bound ← bindParameters sql parameters
        return sqlLiteral parameter ++ bound

/-- `QueryExecutor::bindPreparedSql`. -/
def bindPreparedSql (executor : QueryExecutor) (command : ExecutePrepared) :
    Except Exception Str :=
  match executor.preparedStatements.find? command.name with
  | none => throw (.runtimeError "unknown prepared statement")
  | some sql => bindParameters sql command.parameters

/-- `QueryExecutor::execute`, through a chain of at most `depth` commands. -/
def execute : ℕ → Query → Exec QueryResult
  | 0, _ => throw .outOfFuel
  | depth + 1, .executePrepared command => do
    let executor ← get
    let sql ← Procedure.lift (executor.bindPreparedSql command)
    let query ← Procedure.lift (Parser.parse sql)
    execute depth query
  | _ + 1, query => executeUnlocked platform query

/-! ### Recovery -/

/-- Replay one record. -/
def replayRecord (record : WalRecord) : Exec Unit :=
  if record.operation = .saveDatabase then return ()
  else if record.operation = .createDatabase ∧ byte ' ' ∉ record.payload then do
    let database ← Procedure.lift (Database.make record.payload)
    putDatabase database
  else do
    let query ← Procedure.lift (Parser.parse record.payload)
    let _ ← executeUnlocked platform query
    return ()

/-- Replay records one after the other. -/
def replayRecords : List WalRecord → Exec Unit
  | [] => return ()
  | record :: records => do
    replayRecord platform record
    replayRecords records

/-- The records after the last one of a save. -/
def afterLastSave : List WalRecord → List WalRecord
  | [] => []
  | record :: records =>
    if records.any (·.operation = .saveDatabase) then afterLastSave records
    else if record.operation = .saveDatabase then records
    else record :: records

/-- `QueryExecutor::recoverFromWal`. -/
def recoverFromWal (loadedSnapshot : Bool) (executor : QueryExecutor) : QueryExecutor :=
  match WriteAheadLog.readAll executor.storage.disk with
  | .error _ => executor
  | .ok [] => executor
  | .ok records =>
    let pending := if loadedSnapshot then afterLastSave records else records
    match replayRecords platform pending { executor with replayingWal := true } with
    | (.ok _, executor) => { executor with replayingWal := false }
    | (.error _, executor) => { executor with database := none, replayingWal := false }

/-- `QueryExecutor::recoverFromStorage`. -/
def recoverFromStorage (executor : QueryExecutor) : QueryExecutor :=
  match StorageManager.loadFirstDatabase platform executor.storage.disk with
  | .ok database => recoverFromWal platform true { executor with database := some database }
  | .error _ => recoverFromWal platform false { executor with database := none }

/-- The constructor, on a storage root. -/
def start (disk : Disk) : QueryExecutor :=
  recoverFromStorage platform
    { database := none
      transactionSnapshot := none
      storage := ⟨disk, none, []⟩
      transactionManager := .new
      activeTransaction := none
      preparedStatements := .empty
      replayingWal := false }

end QueryExecutor

end VertexDB
