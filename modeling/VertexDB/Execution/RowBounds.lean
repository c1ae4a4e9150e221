import VertexDB.Execution.QueryExecutor
import VertexDB.Persistence.RoundTrip
import VertexDB.Storage.RowsFit

/-!
# Rows are read within their bounds

`row[index]` is not checked by the source.  `Table.Position` and `JoinPosition` list the indexes
that the executor and the index maintenance use.  In every database that calls of its operations
and loads of arbitrary files build, each row of the row store and of the version chains fits its
schema, and therefore each such index is within the row it is used on (`rowsFit`).
-/

namespace VertexDB

open Ascii

namespace Database

/-- The databases that calls of the operations of databases and tables build, starting from new
databases and from whatever files load. -/
inductive Built : Database → Prop
  | make {name : Str} {database : Database} (h : make name = .ok database) : Built database
  | load {platform : Platform} {disk : Disk} {name : Str} {database : Database}
    (h : StorageManager.loadDatabase platform disk name = .ok database) : Built database
  | createTable {database database' : Database} (h : Built database) {name : Str}
    {schema : List Column} {created : Bool}
    (hok : database.createTable name schema = .ok (created, database')) : Built database'
  | dropTable {database : Database} (h : Built database) (name : Str) :
    Built (database.dropTable name).2
  | renameTable {database : Database} (h : Built database) (oldName newName : Str) :
    Built (database.renameTable oldName newName).2
  | onTable {database : Database} (h : Built database) {name : Str} {table : Table}
    (hfind : database.table name = some table) (op : Table.Op) :
    Built { database with tables := database.tables.insert name (table.apply op) }
  | clone {database copy : Database} (h : Built database) (hok : database.clone = .ok copy) :
    Built copy

theorem Built.sound {database : Database} (h : database.Built) : database.Sound := by
  induction h with
  | make h => exact (sound_make h).1
  | load h => exact StorageManager.sound_loadDatabase h
  | createTable _ hok ih => exact ih.createTable hok
  | dropTable _ name ih => exact (view_dropTable ih name).1
  | renameTable _ oldName newName ih => exact ih.renameTable oldName newName
  | onTable _ hfind op ih => exact ih.onTable hfind op
  | clone _ hok ih => exact ih.clone hok

theorem Made.built {database : Database} (h : database.Made) : database.Built := by
  induction h with
  | make h => exact .make h
  | createTable _ hok ih => exact ih.createTable hok
  | dropTable _ name ih => exact ih.dropTable name
  | renameTable _ oldName newName ih => exact ih.renameTable oldName newName
  | onTable _ hfind op ih => exact ih.onTable hfind op
  | clone _ hok ih => exact ih.clone hok

theorem Built.reached {database : Database} (h : database.Built) {name : Str} {table : Table}
    (hfind : database.table name = some table) : table.Reached :=
  (h.sound.tables name table hfind).2

end Database

theorem columnIndex_lt {schema : List Column} {column : Str} {index : ℕ}
    (h : columnIndex schema column = some index) : index < schema.length :=
  (List.findIdx?_eq_some_iff_getElem.1 h).1

namespace QueryExecutor

theorem resolveColumns_lt {schema : List Column} {columns : List Str} {projection : List ℕ}
    (h : resolveColumns schema columns = .ok projection) :
    ∀ index ∈ projection, index < schema.length := by
  induction columns generalizing projection with
  | nil => cases h; simp
  | cons column columns ih =>
    rw [resolveColumns] at h
    cases hcolumn : columnIndex schema column with
    | none => rw [hcolumn] at h; cases h
    | some first =>
      rw [hcolumn] at h
      obtain ⟨rest, hrest, heq⟩ := Failure.bind_eq_ok_iff.1 h
      cases heq
      intro index hmem
      rcases List.mem_cons.1 hmem with rfl | hmem
      · exact columnIndex_lt hcolumn
      · exact ih hrest index hmem

theorem resolveProjection_lt {command : Select} {table : Table} {projection : List ℕ}
    {columns : List Str} (h : resolveProjection command table = .ok (projection, columns)) :
    ∀ index ∈ projection, index < table.schema.length := by
  unfold resolveProjection at h
  split_ifs at h
  · cases h
    exact fun index hmem => List.mem_range.1 hmem
  · obtain ⟨found, hfound, heq⟩ := Failure.bind_eq_ok_iff.1 h
    cases heq
    exact resolveColumns_lt hfound

theorem resolveResultColumn_lt {columns : List Str} {requested : Str} {index : ℕ}
    (h : resolveResultColumn columns requested = .ok (some index)) : index < columns.length := by
  unfold resolveResultColumn at h
  cases hexact : columns.findIdx? (· = requested) with
  | some found =>
    rw [hexact] at h
    cases h
    exact (List.findIdx?_eq_some_iff_getElem.1 hexact).1
  | none =>
    rw [hexact] at h
    simp only at h
    split at h
    · cases h
    · rename_i found hsuffix
      cases h
      have hmem : index ∈ [index] := List.mem_singleton.2 rfl
      rw [← hsuffix] at hmem
      exact List.mem_range.1 (List.mem_filter.1 hmem).1
    · cases h

theorem resolveJoinColumns_lt {joinedColumns columns : List Str} {projection : List ℕ}
    (h : resolveJoinColumns joinedColumns columns = .ok projection) :
    ∀ index ∈ projection, index < joinedColumns.length := by
  induction columns generalizing projection with
  | nil => cases h; simp
  | cons column columns ih =>
    obtain ⟨found, hfound, h⟩ := Failure.bind_eq_ok_iff.1 h
    cases found with
    | none => cases h
    | some first =>
      obtain ⟨rest, hrest, heq⟩ := Failure.bind_eq_ok_iff.1 h
      cases heq
      intro index hmem
      rcases List.mem_cons.1 hmem with rfl | hmem
      · exact resolveResultColumn_lt hfound
      · exact ih hrest index hmem

/-- An index at which a row of the table is read. -/
inductive Position (table : Table) (index : ℕ) : Prop
  /-- By a predicate or an `ORDER BY` clause. -/
  | column (column : Str) (h : columnIndex table.schema column = some index)
  /-- By the projection of a SELECT. -/
  | projection (command : Select) {projection : List ℕ} {columns : List Str}
    (h : resolveProjection command table = .ok (projection, columns)) (hmem : index ∈ projection)
  /-- As the key of a join. -/
  | joinKey (tableName requested : Str)
    (h : resolveTableColumn table tableName requested = some index)
  /-- As the key of an index. -/
  | indexKey (name : Str) (h : table.indexColumns.find? name = some index)

/-- The names of the columns of a join. -/
def joinedNames (leftName : Str) (leftTable : Table) (rightName : Str) (rightTable : Table) :
    List Str :=
  leftTable.schema.map (fun column => leftName ++ byte '.' :: column.name) ++
    rightTable.schema.map (fun column => rightName ++ byte '.' :: column.name)

/-- An index at which a joined row is read. -/
inductive JoinPosition (joinedColumns : List Str) (index : ℕ) : Prop
  /-- By a predicate or an `ORDER BY` clause. -/
  | column (requested : Str) (h : resolveResultColumn joinedColumns requested = .ok (some index))
  /-- By the projection to all columns. -/
  | all (hmem : index ∈ List.range joinedColumns.length)
  /-- By the projection to some columns. -/
  | projection (columns : List Str) {projection : List ℕ}
    (h : resolveJoinColumns joinedColumns columns = .ok projection) (hmem : index ∈ projection)

theorem Position.lt {table : Table} {index : ℕ} (h : Position table index)
    (hreached : table.Reached) : index < table.schema.length := by
  cases h with
  | column _ h => exact columnIndex_lt h
  | projection _ h hmem => exact resolveProjection_lt h index hmem
  | joinKey _ _ h => exact columnIndex_lt h
  | indexKey name h => exact columnIndex_lt (hreached.holds.columns name index h)

theorem JoinPosition.lt {joinedColumns : List Str} {index : ℕ}
    (h : JoinPosition joinedColumns index) : index < joinedColumns.length := by
  cases h with
  | column _ h => exact resolveResultColumn_lt h
  | all hmem => exact List.mem_range.1 hmem
  | projection _ h hmem => exact resolveJoinColumns_lt h index hmem

/-- Rows of a table fit and are read within their bounds. -/
structure RowsFit (table : Table) : Prop where
  rows : ∀ row ∈ table.rowsSnapshot, RowFits table.schema row
  versions : ∀ rowId chain, table.versions.versions.find? rowId = some chain →
    ∀ version ∈ chain, RowFits table.schema version.row
  bounds : ∀ row, table.Returns row → ∀ index, Position table index → index < row.length

/-- Joined rows are read within their bounds. -/
def JoinsWithin (leftTable rightTable : Table) : Prop :=
  ∀ leftRow rightRow, leftTable.Returns leftRow → rightTable.Returns rightRow →
    ∀ leftName rightName index,
      JoinPosition (joinedNames leftName leftTable rightName rightTable) index →
        index < (leftRow ++ rightRow).length

theorem rowsFit_of_reached {table : Table} (h : table.Reached) : RowsFit table where
  rows _ hrow := h.rowFits hrow
  versions := h.versionsFit
  bounds row hrow index hindex := by
    rw [← (h.rowFits_of_returns hrow).length_eq]
    exact hindex.lt h

theorem joinsWithin_of_reached {leftTable rightTable : Table} (hleft : leftTable.Reached)
    (hright : rightTable.Reached) : JoinsWithin leftTable rightTable := by
  intro leftRow rightRow hl hr leftName rightName index hindex
  have hlt := hindex.lt
  rw [joinedNames, List.length_append, List.length_map, List.length_map] at hlt
  rw [List.length_append, ← (hleft.rowFits_of_returns hl).length_eq,
    ← (hright.rowFits_of_returns hr).length_eq]
  exact hlt

/-- **Rows fit their schema**, in the row store and in every version chain of every table, and
are read within their bounds, alone and joined. -/
theorem rowsFit {database : Database} (h : database.Built) :
    (∀ name table, database.table name = some table → RowsFit table) ∧
      ∀ leftName rightName leftTable rightTable, database.table leftName = some leftTable →
        database.table rightName = some rightTable → JoinsWithin leftTable rightTable := by
  constructor
  · intro name table hfind
    exact rowsFit_of_reached (h.reached hfind)
  · intro leftName rightName leftTable rightTable hleft hright
    exact joinsWithin_of_reached (h.reached hleft) (h.reached hright)

theorem rowsFit_indexed :
    RowFits [⟨bytes "a", .int, false⟩, ⟨bytes "b", .string, true⟩] [.int 3, .null] :=
  ((rowsFit Database.made_indexed.built).1 (bytes "t") (Table.sampleTable.run Table.sampleOps)
    rfl).rows _ (by decide)

end QueryExecutor

end VertexDB
