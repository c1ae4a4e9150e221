import VertexDB.Storage.TableRuns

/-!
# Databases

A `Database` is a named collection of tables.  The source holds tables through shared pointers,
but no two databases ever share one: `Database.clone` copies every table.

`Database.renameTable` removes the old table before it builds the new one, so it returns the
database also when it throws.
-/

namespace VertexDB

/-- `Database`. -/
structure Database where
  name : Str
  tables : SortedMap Str Table

namespace Database

/-- The constructor. -/
def make (name : Str) : Except Exception Database :=
  if name = [] then throw (.invalidArgument "database name cannot be empty")
  else return ⟨name, .empty⟩

/-- `Database::createTable`; the new table is built before its name is looked up. -/
def createTable (database : Database) (name : Str) (schema : List Column) :
    Except Exception (Bool × Database) := do
  let table ← Table.make name schema
  return (!database.tables.contains name,
    { database with tables := database.tables.tryEmplace name table })

/-- `Database::dropTable`. -/
def dropTable (database : Database) (name : Str) : Bool × Database :=
  if database.tables.contains name then
    (true, { database with tables := database.tables.erase name })
  else (false, database)

/-- Insert rows one after the other. -/
def insertRows (table : Table) : List Row → Except Exception Table
  | [] => return table
  | row :: rows => do
    let (_, table) ← table.insert row
    insertRows table rows

/-- Create indexes one after the other, whether or not each succeeds. -/
def createIndexes (table : Table) (definitions : List (Str × Str)) : Table :=
  definitions.foldl (fun table item => (table.createIndex item.1 item.2).2) table

/-- The table that `Database::renameTable` builds from the old one. -/
def replacement (oldTable : Table) (newName : Str) : Except Exception Table := do
  let table ← Table.make newName oldTable.schema
  let table ← insertRows table oldTable.rowsSnapshot
  return createIndexes table oldTable.indexDefinitions

/-- `Database::renameTable`. -/
def renameTable (database : Database) (oldName newName : Str) :
    Except Exception Bool × Database :=
  match database.tables.find? oldName with
  | none => (.ok false, database)
  | some oldTable =>
    if database.tables.contains newName then (.ok false, database)
    else
      let database := { database with tables := database.tables.erase oldName }
      match replacement oldTable newName with
      | .error e => (.error e, database)
      | .ok table =>
        (.ok true, { database with tables := database.tables.tryEmplace newName table })

/-- `Database::table`. -/
def table (database : Database) (name : Str) : Option Table := database.tables.find? name

/-- `Database::listTables`. -/
def listTables (database : Database) : List Str := database.tables.keys

/-- Create a table that must not exist yet. -/
def createNewTable (database : Database) (name : Str) (schema : List Column) (message : String) :
    Except Exception Database := do
  let (created, database) ← database.createTable name schema
  if !created then throw (.runtimeError message)
  return database

/-- Give a table its rows and indexes, as `Database::clone` and `StorageManager::loadDatabase`
do. -/
def fillTable (database : Database) (name : Str) (rows : List Row)
    (definitions : List (Str × Str)) : Except Exception Database :=
  match database.table name with
  | none => return database
  | some table => do
    let table ← table.replaceRows rows
    return { database with
      tables := database.tables.insert name (createIndexes table definitions) }

/-- Copy tables one after the other, with the given definitions of their indexes. -/
def copyTables (message : String) (definitions : Table → List (Str × Str)) (copy : Database) :
    List Table → Except Exception Database
  | [] => return copy
  | table :: tables => do
    let copy ← copy.createNewTable table.name table.schema message
    let copy ← copy.fillTable table.name table.rowsSnapshot (definitions table)
    copyTables message definitions copy tables

/-- `Database::clone`. -/
def clone (database : Database) : Except Exception Database := do
  let copy ← make database.name
  copyTables "failed to clone table" Table.indexDefinitions copy database.tables.values

end Database

end VertexDB
