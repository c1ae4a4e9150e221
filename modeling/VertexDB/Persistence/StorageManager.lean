import VertexDB.Persistence.WriteAheadLog
import VertexDB.Storage.Database

/-!
# Snapshots

`saveDatabase` writes a database to a temporary file and then renames it; `loadDatabase` reads a
file back and builds the database again.  A file that claims to hold more than it does makes
`loadDatabase` throw, here always with the message of a failed read.

`SaveFault` lists the ways in which the file operations of a save can fail.
-/

namespace VertexDB

open Ascii ByteCodec

namespace StorageManager

/-- `kMagic`. -/
def magic : Str := bytes "TCRDB001"

/-- `kVersion`. -/
def version : ℕ := 1

/-- `kNullValueType`. -/
def nullValueType : ℕ := 255

/-- `kExtension`. -/
def extension : Str := bytes ".tcrdb"

/-- `pathFor`. -/
def pathFor (databaseName : Str) : Str := databaseName ++ extension

/-- `temporaryPathFor`. -/
def temporaryPathFor (databaseName : Str) : Str := databaseName ++ extension ++ bytes ".tmp"

/-! ### Writing -/

/-- `writeString`. -/
def writeString (value : Str) : Str := leBytes 8 value.length ++ value

/-- `writeValue`. -/
def writeValue : Value → Str
  | .null => leBytes 1 nullValueType
  | .int value => leBytes 1 ColumnType.int.code ++ leBytes 8 value.toBits
  | .double value => leBytes 1 ColumnType.double.code ++ leBytes 8 value.bits
  | .string value => leBytes 1 ColumnType.string.code ++ writeString value

/-- A column of a schema. -/
def writeColumn (column : Column) : Str :=
  writeString column.name ++ (leBytes 1 column.type.code ++
    leBytes 1 (if column.nullable then 1 else 0))

/-- The definition of an index. -/
def writeIndex (definition : Str × Str) : Str :=
  writeString definition.1 ++ writeString definition.2

/-- A row: its values, without their number. -/
def writeRow (row : Row) : Str := row.flatMap writeValue

/-- A table. -/
def writeTable (table : Table) : Str :=
  writeString table.name ++
    (leBytes 8 table.schema.length ++ (table.schema.flatMap writeColumn ++
    (leBytes 8 table.indexDefinitions.length ++ (table.indexDefinitions.flatMap writeIndex ++
    (leBytes 8 table.rowsSnapshot.length ++ table.rowsSnapshot.flatMap writeRow)))))

/-- The contents of a snapshot file. -/
def encodeDatabase (database : Database) : Str :=
  magic ++ (leBytes 4 version ++ (writeString database.name ++
    (leBytes 8 database.tables.values.length ++ database.tables.values.flatMap writeTable)))

/-- How the file operations of a save fail. -/
inductive SaveFault
  /-- The temporary file cannot be opened. -/
  | openTemporary
  /-- Writing the temporary file stops after some bytes. -/
  | write (written : ℕ)
  /-- Neither attempt to rename succeeds; between them the old snapshot has been removed or
  not. -/
  | publish (removed : Bool)
  deriving DecidableEq

/-- `StorageManager::saveDatabase`. -/
def saveDatabase (fault : Option SaveFault) (database : Database) :
    Procedure Storage Exception Unit := do
  modify fun storage => { storage with disk := storage.disk.createDirectories }
  if fault = some .openTemporary then
    throw (.runtimeError "failed to open temporary database file for writing")
  let contents := encodeDatabase database
  let room := match fault with
    | some (.write written) => written
    | _ => Disk.maxFileSize - 1
  modify fun storage => { storage with
    disk := storage.disk.write (temporaryPathFor database.name) (contents.take room) }
  if room < contents.length then throw (.runtimeError "failed to write database file")
  match fault with
  | some (.publish removed) =>
    if removed then
      modify fun storage => { storage with disk := storage.disk.remove (pathFor database.name) }
    modify fun storage =>
      { storage with disk := storage.disk.remove (temporaryPathFor database.name) }
    throw (.runtimeError "failed to publish database snapshot")
  | _ =>
    modify fun storage => { storage with
      disk := (storage.disk.remove (temporaryPathFor database.name)).write
        (pathFor database.name) contents }

/-! ### Reading -/

/-- `readPod`. -/
def readPod (width : ℕ) : Reader Exception ℕ :=
  readLe (.runtimeError "failed to read database file") width

/-- `readString`. -/
def readString : Reader Exception Str := do
  let size ← readPod 8
  readBytes (.runtimeError "failed to read database file") size

/-- `readValue`. -/
def readValue : Reader Exception Value := do
  let encodedType ← readPod 1
  if encodedType = nullValueType then return .null
  match ColumnType.ofCode encodedType with
  | .int => return .int (.ofBits (← readPod 8))
  | .double => return .double ⟨Fin.ofNat _ (← readPod 8)⟩
  | .string => return .string (← readString)
  | .unknown _ => throw (.runtimeError "unsupported value type in database file")

/-- Read a column of a schema. -/
def readColumn : Reader Exception Column := do
  let columnName ← readString
  let type ← readPod 1
  let nullable ← readPod 1
  return ⟨columnName, .ofCode type, nullable ≠ 0⟩

/-- Read two strings as the arguments of one call: the platform decides which argument is read
first. -/
def readIndex (platform : Platform) : Reader Exception (Str × Str) := do
  let first ← readString
  let second ← readString
  return if platform.leftToRight then (first, second) else (second, first)

/-- Read a table into a database. -/
def readTable (platform : Platform) (database : Database) : Reader Exception Database := do
  let tableName ← readString
  let columnCount ← readPod 8
  let schema ← readList columnCount readColumn
  let database ← liftM (database.createNewTable tableName schema
    "duplicate table in database file")
  let indexCount ← readPod 8
  let indexDefinitions ← readList indexCount (readIndex platform)
  let rowCount ← readPod 8
  let rows ← readList rowCount (readList columnCount readValue)
  liftM (database.fillTable tableName rows indexDefinitions)

/-- Read tables one after the other. -/
def readTables (platform : Platform) : ℕ → Database → Reader Exception Database
  | 0, database => return database
  | count + 1, database => do
    let database ← readTable platform database
    readTables platform count database

/-- Read the contents of a snapshot file. -/
def readDatabase (platform : Platform) : Reader Exception Database := do
  let found ← readBytes (.runtimeError "failed to read database file") magic.length
  if found ≠ magic then throw (.runtimeError "invalid database file magic")
  let foundVersion ← readPod 4
  if foundVersion ≠ version then throw (.runtimeError "unsupported database file version")
  let name ← readString
  let database ← liftM (Database.make name)
  let tableCount ← readPod 8
  readTables platform tableCount database

/-- `StorageManager::loadDatabase`. -/
def loadDatabase (platform : Platform) (disk : Disk) (databaseName : Str) :
    Except Exception Database :=
  match disk.read (pathFor databaseName) with
  | none => throw (.runtimeError "failed to open database file for reading")
  | some contents => do
    let (database, _) ← readDatabase platform contents
    return database

/-- `StorageManager::loadFirstDatabase`. -/
def loadFirstDatabase (platform : Platform) (disk : Disk) : Except Exception Database :=
  if !disk.rootExists then
    throw (.runtimeError "database storage directory does not exist")
  else match (platform.listing disk.files.keys).find? (Disk.extension · = extension) with
    | some name => loadDatabase platform disk (Disk.stem name)
    | none => throw (.runtimeError "no saved database files found")

end StorageManager

end VertexDB
