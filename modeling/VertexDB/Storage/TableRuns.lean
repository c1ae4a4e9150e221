import VertexDB.Storage.TableInvariant

/-!
# Runs of table operations

`Table.run` applies a sequence of calls to a table; a call that throws or returns false leaves
the table as it is.  A table is `Reached` when some sequence of calls leads to it from a new
table.  Every reached table satisfies the invariant (`Reached.holds`), and therefore its indexes
describe its rows exactly (`indexesExact_run`).
-/

namespace VertexDB

open Ascii InvertedIndex

namespace Table

/-- A call of one of the mutating operations. -/
inductive Op
  | insert (row : Row)
  | erase (rowId : RowId)
  | update (rowId : RowId) (index : ℕ) (value : Value)
  | createIndex (name column : Str)
  | replaceRows (rows : List Row)

/-- The table after a call, whether the call succeeds or throws. -/
def apply (table : Table) : Op → Table
  | .insert row => match table.insert row with
    | .ok (_, table') => table'
    | .error _ => table
  | .erase rowId => (table.erase rowId).2
  | .update rowId index value => match table.update rowId index value with
    | .ok (_, table') => table'
    | .error _ => table
  | .createIndex name column => (table.createIndex name column).2
  | .replaceRows rows => match table.replaceRows rows with
    | .ok table' => table'
    | .error _ => table

/-- The table after a sequence of calls. -/
def run (table : Table) (ops : List Op) : Table := ops.foldl apply table

/-- Some sequence of calls leads from a new table to this one. -/
def Reached (table : Table) : Prop :=
  ∃ name schema new ops, make name schema = .ok new ∧ table = new.run ops

theorem Reached.apply {table : Table} (h : table.Reached) (op : Op) : (table.apply op).Reached := by
  obtain ⟨name, schema, new, ops, hmake, rfl⟩ := h
  exact ⟨name, schema, new, ops ++ [op], hmake, by simp [run]⟩

theorem Reached.make {name : Str} {schema : List Column} {table : Table}
    (h : Table.make name schema = .ok table) : table.Reached := ⟨name, schema, table, [], h, rfl⟩

theorem Reached.insert {table table' : Table} {row : Row} {rowId : RowId} (h : table.Reached)
    (hi : table.insert row = .ok (rowId, table')) : table'.Reached := by
  have := h.apply (.insert row)
  rwa [Table.apply, hi] at this

theorem Reached.update {table table' : Table} {rowId : RowId} {index : ℕ} {value : Value} {b : Bool}
    (h : table.Reached) (hu : table.update rowId index value = .ok (b, table')) :
    table'.Reached := by
  have := h.apply (.update rowId index value)
  rwa [Table.apply, hu] at this

theorem Reached.replaceRows {table table' : Table} {rows : List Row} (h : table.Reached)
    (hr : table.replaceRows rows = .ok table') : table'.Reached := by
  have := h.apply (.replaceRows rows)
  rwa [Table.apply, hr] at this

/-! ### The invariant along runs -/

/-- One call keeps the invariant, for some list of rows. -/
theorem Holds.apply {table : Table} {rows : List Row} (h : table.Holds rows) (op : Op) :
    ∃ rows', (table.apply op).Holds rows' := by
  cases op with
  | insert row =>
    cases hi : table.insert row with
    | error e => simp only [Table.apply, hi]; exact ⟨rows, h⟩
    | ok p =>
      simp only [Table.apply, hi]
      exact ⟨_, (h.insert hi).2.2.1⟩
  | erase rowId => exact ⟨_, (h.erase rowId).2.1⟩
  | update rowId index value =>
    cases hu : table.update rowId index value with
    | error e => simp only [Table.apply, hu]; exact ⟨rows, h⟩
    | ok p =>
      simp only [Table.apply, hu]
      exact ⟨_, (h.update hu).2.1⟩
  | createIndex name column => exact ⟨_, (h.createIndex name column).1⟩
  | replaceRows new =>
    cases hr : table.replaceRows new with
    | error e => simp only [Table.apply, hr]; exact ⟨rows, h⟩
    | ok table' =>
      simp only [Table.apply, hr]
      exact ⟨_, (h.replaceRows hr).2.1⟩

theorem Holds.run {table : Table} {rows : List Row} (h : table.Holds rows) (ops : List Op) :
    ∃ rows', (table.run ops).Holds rows' := by
  induction ops generalizing table rows with
  | nil => exact ⟨rows, h⟩
  | cons op ops ih =>
    obtain ⟨rows', h'⟩ := h.apply op
    exact ih h'

theorem Reached.holds {table : Table} (h : table.Reached) : table.Holds table.rowsSnapshot := by
  obtain ⟨name, schema, new, ops, hmake, rfl⟩ := h
  obtain ⟨rows, hrows⟩ := (holds_make hmake).1.run ops
  rw [hrows.rowsSnapshot_eq]
  exact hrows

/-! ### Lookups through an index -/

variable {table : Table} {rows : List Row}

theorem Holds.indexOn_eq_some (h : table.Holds rows) {column : Str}
    (hi : table.hasIndex column = true) :
    ∃ name c, table.indexOn column = some name ∧ table.indexColumns.find? name = some c ∧
      columnIndex table.schema column = some c := by
  have hsome : (table.indexColumns.entries.find?
      fun item => decide (table.columnName item.2 = column)).isSome = true := by
    rw [List.find?_isSome]
    simpa [hasIndex] using hi
  obtain ⟨⟨name, c⟩, hfind⟩ := Option.isSome_iff_exists.1 hsome
  have hname : table.columnName c = column := by
    simpa using List.find?_some hfind
  have hc : table.indexColumns.find? name = some c :=
    SortedMap.mem_entries_iff.1 (List.mem_of_find?_eq_some hfind)
  refine ⟨name, c, by simp [indexOn, hfind], hc, ?_⟩
  rw [← hname]
  exact h.columns name c hc

theorem Holds.find?_indexes (h : table.Holds rows) {name : Str} {c : ℕ}
    (hc : table.indexColumns.find? name = some c) :
    ∃ hash, table.indexes.find? name = some hash ∧ IndexOf hash.entries (keysOf rows c) := by
  have := h.indexes.hash name
  rw [hc] at this
  generalize table.indexes.find? name = found at this
  cases this with
  | some hidx => exact ⟨_, rfl, hidx⟩

theorem Holds.find?_orderedIndexes (h : table.Holds rows) {name : Str} {c : ℕ}
    (hc : table.indexColumns.find? name = some c) :
    ∃ ordered, table.orderedIndexes.find? name = some ordered ∧
      IndexOf ordered.entries (keysOf rows c) := by
  have := h.indexes.ordered name
  rw [hc] at this
  generalize table.orderedIndexes.find? name = found at this
  cases this with
  | some hidx => exact ⟨_, rfl, hidx⟩

/-- A hash lookup gives the positions of the key. -/
theorem Holds.indexedLookup (h : table.Holds rows) {column : Str}
    (hi : table.hasIndex column = true) (value : Value) :
    ∃ c, columnIndex table.schema column = some c ∧
      table.indexedLookup column value = some (positions (keysOf rows c) value.key) := by
  obtain ⟨name, c, hname, hc, hcol⟩ := h.indexOn_eq_some hi
  obtain ⟨hash, hhash, hidx⟩ := h.find?_indexes hc
  refine ⟨c, hcol, ?_⟩
  simp only [Table.indexedLookup, hname, Option.map_some, hhash, Option.getD_some, HashIndex.find,
    hidx.getD_find?]

/-- An ordered lookup with `<` or `>` gives the positions of the keys of that range. -/
theorem Holds.orderedLookup (h : table.Holds rows) {column : Str}
    (hi : table.hasIndex column = true) (value : Value) :
    ∃ c ordered, columnIndex table.schema column = some c ∧ IndexOf ordered (keysOf rows c) ∧
      table.orderedLookup column .less value = some (select ordered (· < value.key)) ∧
      table.orderedLookup column .greater value = some (select ordered (value.key < ·)) := by
  obtain ⟨name, c, hname, hc, hcol⟩ := h.indexOn_eq_some hi
  obtain ⟨ordered, hordered, hidx⟩ := h.find?_orderedIndexes hc
  refine ⟨c, ordered.entries, hcol, hidx, ?_, ?_⟩
  · simp only [Table.orderedLookup, hname, Option.map_some, hordered, Option.getD_some,
      BTreeIndex.lessThan_eq, select]
  · simp only [Table.orderedLookup, hname, Option.map_some, hordered, Option.getD_some,
      BTreeIndex.greaterThan_eq, select]

/-! ### Indexes describe the rows exactly -/

/-- `row(rowId)[c]`. -/
def keyAt (table : Table) (c : ℕ) (rowId : RowId) : Value :=
  ((table.rowStore.get rowId).getD []).at c

/-- The row ids, in ascending order, whose value in column `c` satisfies `p`. -/
def rowIdsWhere (table : Table) (c : ℕ) (p : Value → Bool) : List RowId :=
  (List.range table.rowCount).filter fun rowId => p (table.keyAt c rowId)

/-- The indexes have the same names in the three maps and answer as the rows say. -/
structure IndexesExact (table : Table) : Prop where
  hash_names : table.indexes.keys = table.indexColumns.keys
  ordered_names : table.orderedIndexes.keys = table.indexColumns.keys
  hash_find : ∀ name c, table.indexColumns.find? name = some c →
    ∃ index, table.indexes.find? name = some index ∧
      ∀ value, index.find value = table.rowIdsWhere c (·.equal value)
  ordered_find : ∀ name c, table.indexColumns.find? name = some c →
    ∃ index, table.orderedIndexes.find? name = some index ∧
      ∀ value, index.find value = table.rowIdsWhere c (·.equal value)
  less : ∀ column value, table.hasIndex column = true →
    ∃ c rowIds, columnIndex table.schema column = some c ∧
      table.orderedLookup column .less value = some rowIds ∧
      rowIds.Perm (table.rowIdsWhere c (· < value)) ∧
      rowIds.Pairwise fun i j => table.keyAt c i < table.keyAt c j ∨
        (table.keyAt c i).equal (table.keyAt c j) ∧ i < j
  greater : ∀ column value, table.hasIndex column = true →
    ∃ c rowIds, columnIndex table.schema column = some c ∧
      table.orderedLookup column .greater value = some rowIds ∧
      rowIds.Perm (table.rowIdsWhere c (value < ·)) ∧
      rowIds.Pairwise fun i j => table.keyAt c i < table.keyAt c j ∨
        (table.keyAt c i).equal (table.keyAt c j) ∧ i < j

theorem Holds.keyAt_eq (h : table.Holds rows) {c : ℕ} {rowId : RowId} (hlt : rowId < rows.length) :
    (keysOf rows c)[rowId]? = some (table.keyAt c rowId).key := by
  have : rows[rowId]? = some rows[rowId] := List.getElem?_eq_getElem hlt
  simp only [keysOf, List.getElem?_map, keyAt, h.represents.get_eq, this, Option.map_some,
    Option.getD_some]

theorem Holds.rowIdsWhere_eq (h : table.Holds rows) (c : ℕ) {p : Value.Key → Bool}
    {q : Value → Bool} (hpq : ∀ value, p value.key = q value) :
    (List.range (keysOf rows c).length).filter (fun i => (keysOf rows c)[i]?.any p) =
      table.rowIdsWhere c q := by
  rw [rowIdsWhere, h.rowCount_eq, length_keysOf]
  refine List.filter_congr fun i hi => ?_
  rw [h.keyAt_eq (List.mem_range.1 hi), Option.any_some, hpq]

theorem Holds.positions_eq (h : table.Holds rows) (c : ℕ) (value : Value) :
    positions (keysOf rows c) value.key = table.rowIdsWhere c (·.equal value) := by
  rw [positions, rowIdsWhere, h.rowCount_eq, length_keysOf]
  refine List.filter_congr fun i hi => ?_
  simp only [h.keyAt_eq (List.mem_range.1 hi), Option.some.injEq, Value.decide_key_eq_key]

theorem Holds.pairwise_select (h : table.Holds rows) {c : ℕ}
    {m : SortedMap Value.Key (List RowId)} (hm : IndexOf m (keysOf rows c))
    (p : Value.Key → Bool) :
    (select m p).Pairwise fun i j => table.keyAt c i < table.keyAt c j ∨
      (table.keyAt c i).equal (table.keyAt c j) ∧ i < j := by
  refine (hm.pairwise_select p).imp ?_
  rintro i j ⟨a, b, ha, hb, hab⟩
  have hi : i < rows.length := by
    have := (List.getElem?_eq_some_iff.1 ha).1
    rwa [length_keysOf] at this
  have hj : j < rows.length := by
    have := (List.getElem?_eq_some_iff.1 hb).1
    rwa [length_keysOf] at this
  rw [h.keyAt_eq hi] at ha
  rw [h.keyAt_eq hj] at hb
  cases ha; cases hb
  rwa [Value.key_lt_key_iff, ← Value.equal_iff] at hab

theorem keys_eq_of_rel {α β : Type} {m : SortedMap Str α} {m' : SortedMap Str β}
    {r : α → β → Prop} (h : ∀ name, Option.Rel r (m.find? name) (m'.find? name)) :
    m'.keys = m.keys := by
  have hfind : ∀ name, (m'.mapValues fun _ _ => ()).find? name =
      (m.mapValues fun _ _ => ()).find? name := by
    intro name
    have := h name
    simp only [SortedMap.find?_mapValues]
    generalize m.find? name = a at this
    generalize m'.find? name = b at this
    cases this <;> rfl
  have := congrArg SortedMap.keys (SortedMap.ext_find? hfind)
  simpa using this

theorem Holds.indexesExact (h : table.Holds rows) : table.IndexesExact where
  hash_names := keys_eq_of_rel h.indexes.hash
  ordered_names := keys_eq_of_rel h.indexes.ordered
  hash_find name c hc := by
    obtain ⟨hash, hhash, hidx⟩ := h.find?_indexes hc
    refine ⟨hash, hhash, fun value => ?_⟩
    rw [HashIndex.find, hidx.getD_find?, h.positions_eq]
  ordered_find name c hc := by
    obtain ⟨ordered, hordered, hidx⟩ := h.find?_orderedIndexes hc
    refine ⟨ordered, hordered, fun value => ?_⟩
    rw [BTreeIndex.find_eq, hidx.getD_find?, h.positions_eq]
  less column value hi := by
    obtain ⟨c, ordered, hcol, hidx, hless, -⟩ := h.orderedLookup hi value
    refine ⟨c, _, hcol, hless, ?_, h.pairwise_select hidx _⟩
    rw [← h.rowIdsWhere_eq c (p := (· < value.key)) fun v =>
      decide_eq_decide.2 Value.key_lt_key_iff]
    exact hidx.select_perm _
  greater column value hi := by
    obtain ⟨c, ordered, hcol, hidx, -, hgreater⟩ := h.orderedLookup hi value
    refine ⟨c, _, hcol, hgreater, ?_, h.pairwise_select hidx _⟩
    rw [← h.rowIdsWhere_eq c (p := (value.key < ·)) fun v =>
      decide_eq_decide.2 Value.key_lt_key_iff]
    exact hidx.select_perm _

/-- **Indexes describe the rows exactly** after any sequence of calls, succeeding, returning
false or throwing. -/
theorem indexesExact_run {name : Str} {schema : List Column} {new : Table}
    (hmake : make name schema = .ok new) (ops : List Op) : (new.run ops).IndexesExact :=
  (Reached.holds ⟨name, schema, new, ops, hmake, rfl⟩).indexesExact

/-- A new table with an integer and a nullable string. -/
def sampleTable : Table :=
  ⟨bytes "t", [⟨bytes "a", .int, false⟩, ⟨bytes "b", .string, true⟩], makePageRowStore, .empty,
    .empty, .empty, .empty, 1⟩

/-- Calls that succeed, return false (an update of a missing row) and throw (a row that is too
short). -/
def sampleOps : List Op :=
  [.insert [.int 1, .null], .createIndex (bytes "i") (bytes "a"),
    .insert [.int 2, .string (bytes "x")], .update 0 0 (.int 3),
    .erase 1, .update 7 0 .null, .insert [.null]]

theorem indexesExact_run_sampleOps : (sampleTable.run sampleOps).IndexesExact :=
  @indexesExact_run (bytes "t") sampleTable.schema sampleTable rfl sampleOps

end Table

end VertexDB
