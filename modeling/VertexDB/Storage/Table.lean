import VertexDB.Indexing.BTreeIndex
import VertexDB.Indexing.HashIndex
import VertexDB.Storage.RowStore
import VertexDB.Transaction.MvccRowStore

/-!
# Tables

`Table` owns a schema, a page row store, two index structures per index and the row versions.
Operations that throw do so before they change anything, so a table after a throw is the table
before it and an operation returns `Except` over the new table.
-/

namespace VertexDB

/-- `Table::columnIndex`: the first column with the name. -/
def columnIndex (schema : List Column) (column : Str) : Option ℕ :=
  schema.findIdx? fun item => item.name = column

/-- The check of one value against its column; `message` is for a value of another type. -/
def checkValue (message : String) (column : Column) (value : Value) : Except Exception Unit :=
  if value.isNull then
    if column.nullable then return ()
    else throw (.invalidArgument "null value assigned to non-nullable column")
  else do
    let type ← value.type
    if type ≠ column.type then throw (.invalidArgument message)

/-- The loop of `Table::validateRow`. -/
def validateValues : List Column → Row → Except Exception Unit
  | column :: schema, value :: row => do
    checkValue "row value does not match column type" column value
    validateValues schema row
  | _, _ => return ()

/-- `Table::validateRow`. -/
def validateRow (schema : List Column) (row : Row) : Except Exception Unit :=
  if row.length ≠ schema.length then
    throw (.invalidArgument "row width does not match table schema")
  else validateValues schema row

/-- Validate every row, in order. -/
def validateRows (schema : List Column) : List Row → Except Exception Unit
  | [] => return ()
  | row :: rows => do
    validateRow schema row
    validateRows schema rows

/-- `Table`. -/
structure Table where
  name : Str
  schema : List Column
  rowStore : PageRowStore
  indexColumns : SortedMap Str ℕ
  indexes : SortedMap Str HashIndex
  orderedIndexes : SortedMap Str BTreeIndex
  versions : MvccRowStore
  nextVersionTransactionId : TransactionId

namespace Table

/-- The constructor. -/
def make (name : Str) (schema : List Column) : Except Exception Table :=
  if name = [] then throw (.invalidArgument "table name cannot be empty")
  else if schema = [] then throw (.invalidArgument "table schema cannot be empty")
  else return ⟨name, schema, makePageRowStore, .empty, .empty, .empty, .empty, 1⟩

/-! ### Reading -/

/-- `Table::rowsSnapshot()`. -/
def rowsSnapshot (table : Table) : List Row := table.rowStore.snapshot

/-- `Table::rowsSnapshot(TransactionId)`. -/
def rowsSnapshotAt (table : Table) (readerId : TransactionId) : List Row :=
  table.versions.visibleRows readerId

/-- `Table::rowsById(rowIds)`. -/
def rowsById (table : Table) (rowIds : List RowId) : List Row := table.rowStore.rowsById rowIds

/-- `Table::rowsById(rowIds, TransactionId)`. -/
def rowsByIdAt (table : Table) (rowIds : List RowId) (readerId : TransactionId) : List Row :=
  table.versions.visibleRowsById rowIds readerId

/-- `Table::rowCount`. -/
def rowCount (table : Table) : ℕ := table.rowStore.size

/-- `schema_[index].name`. -/
def columnName (table : Table) (index : ℕ) : Str := ((table.schema[index]?).map Column.name).getD []

/-- The first index, by name, on a column with the given name. -/
def indexOn (table : Table) (column : Str) : Option Str :=
  (table.indexColumns.entries.find? fun item => table.columnName item.2 = column).map Prod.fst

/-- `Table::indexedLookup`. -/
def indexedLookup (table : Table) (column : Str) (value : Value) : Option (List RowId) :=
  (table.indexOn column).map fun indexName =>
    ((table.indexes.find? indexName).getD .empty).find value

/-- `Table::findIndexed`. -/
def findIndexed (table : Table) (column : Str) (value : Value) : List RowId :=
  (table.indexedLookup column value).getD []

/-- `Table::orderedLookup`. -/
def orderedLookup (table : Table) (column : Str) (op : ComparisonOperator) (value : Value) :
    Option (List RowId) :=
  (table.indexOn column).map fun indexName =>
    let index := (table.orderedIndexes.find? indexName).getD .empty
    match op with
    | .equal => index.find value
    | .greater => index.greaterThan value
    | .less => index.lessThan value

/-- `Table::hasIndex`. -/
def hasIndex (table : Table) (column : Str) : Bool :=
  table.indexColumns.entries.any fun item => table.columnName item.2 = column

/-- `Table::hasOrderedIndex`. -/
def hasOrderedIndex (table : Table) (column : Str) : Bool := table.hasIndex column

/-- `Table::listIndexes`. -/
def listIndexes (table : Table) : List Str := table.indexes.keys

/-- `Table::indexDefinitions`: the names of the indexes with those of their columns. -/
def indexDefinitions (table : Table) : List (Str × Str) :=
  table.indexColumns.entries.map fun item => (item.1, table.columnName item.2)

/-- `Table::versionCount`. -/
def versionCount (table : Table) (rowId : RowId) : ℕ := table.versions.versionCount rowId

/-! ### Index maintenance -/

/-- `Table::addRowToIndexes`. -/
def addRowToIndexes (table : Table) (rowId : RowId) : Table :=
  match table.rowStore.get rowId with
  | none => table
  | some row =>
    let key (name : Str) : Value := row.at ((table.indexColumns.find? name).getD 0)
    { table with
      indexes := table.indexes.mapValues fun name index => index.insert (key name) rowId
      orderedIndexes := table.orderedIndexes.mapValues fun name index =>
        index.insert (key name) rowId }

/-- Clear all the indexes. -/
def clearIndexes (table : Table) : Table :=
  { table with
    indexes := table.indexes.mapValues fun _ index => index.clear
    orderedIndexes := table.orderedIndexes.mapValues fun _ index => index.clear }

/-- `Table::rebuildIndexes`. -/
def rebuildIndexes (table : Table) : Table :=
  (List.range table.rowStore.size).foldl addRowToIndexes table.clearIndexes

/-! ### Mutation -/

/-- `versions_.write(rowId, *rowStore_->get(rowId), nextVersionTransactionId_++)`. -/
def writeVersion (table : Table) (rowId : RowId) : Table :=
  { table with
    versions := table.versions.write rowId ((table.rowStore.get rowId).getD [])
      table.nextVersionTransactionId
    nextVersionTransactionId := table.nextVersionTransactionId + 1 }

/-- `Table::insert`. -/
def insert (table : Table) (row : Row) : Except Exception (RowId × Table) := do
  validateRow table.schema row
  let (rowId, rowStore) := table.rowStore.append row
  return (rowId, ({ table with rowStore := rowStore }.writeVersion rowId).addRowToIndexes rowId)

/-- `Table::erase`. -/
def erase (table : Table) (rowId : RowId) : Bool × Table :=
  if table.rowStore.size ≤ rowId then (false, table)
  else
    let table := { table with
      versions := table.versions.erase rowId table.nextVersionTransactionId
      nextVersionTransactionId := table.nextVersionTransactionId + 1 }
    match table.rowStore.erase rowId with
    | (false, rowStore) => (false, { table with rowStore := rowStore })
    | (true, rowStore) => (true, { table with rowStore := rowStore }.rebuildIndexes)

/-- `Table::update`. -/
def update (table : Table) (rowId : RowId) (index : ℕ) (value : Value) :
    Except Exception (Bool × Table) :=
  if table.rowStore.size ≤ rowId then return (false, table)
  else match table.schema[index]? with
    | none => return (false, table)
    | some column => do
      checkValue "updated value does not match column type" column value
      let updated := ((table.rowStore.get rowId).getD []).set index value
      match table.rowStore.update rowId updated with
      | (false, rowStore) => return (false, { table with rowStore := rowStore })
      | (true, rowStore) =>
        return (true, ({ table with rowStore := rowStore }.writeVersion rowId).rebuildIndexes)

/-- Add one row to the index `name`, as the loop of `Table::createIndex` does. -/
def addRowToIndex (name : Str) (column : ℕ) (table : Table) (rowId : RowId) : Table :=
  let key := ((table.rowStore.get rowId).getD []).at column
  { table with
    indexes := table.indexes.adjust name fun index => index.insert key rowId
    orderedIndexes := table.orderedIndexes.adjust name fun index => index.insert key rowId }

/-- `Table::createIndex`. -/
def createIndex (table : Table) (name column : Str) : Bool × Table :=
  match columnIndex table.schema column with
  | none => (false, table)
  | some indexColumn =>
    if table.indexes.contains name then (false, table)
    else
      let table := { table with
        indexColumns := table.indexColumns.tryEmplace name indexColumn
        indexes := table.indexes.tryEmplace name .empty
        orderedIndexes := table.orderedIndexes.tryEmplace name .empty }
      (true, (List.range table.rowStore.size).foldl (addRowToIndex name indexColumn) table)

/-- `Table::replaceRows`. -/
def replaceRows (table : Table) (rows : List Row) : Except Exception Table := do
  validateRows table.schema rows
  let table := { table with
    rowStore := table.rowStore.replaceRows rows
    versions := table.versions.clear
    nextVersionTransactionId := 1 }
  return ((List.range table.rowStore.size).foldl writeVersion table).rebuildIndexes

end Table

end VertexDB
