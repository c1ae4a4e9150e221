import VertexDB.Lib.Failure
import VertexDB.Lib.InvertedIndex
import VertexDB.Storage.Table

/-!
# The invariant of tables

`Table.Holds table rows` says that a table stores the list `rows`: the pages represent it, every
row fits the schema, and each index, hash and ordered, is the inverted index of its column.  One
specification per operation says which list the table stores afterwards.
-/

namespace VertexDB

open InvertedIndex

/-! ### Rows that fit a schema -/

theorem validateRows_ok_iff {schema : List Column} {rows : List Row} :
    validateRows schema rows = .ok () ↔ ∀ row ∈ rows, validateRow schema row = .ok () := by
  induction rows with
  | nil => simp [validateRows]
  | cons row rows ih =>
    rw [validateRows, Failure.bind_eq_ok_iff, List.forall_mem_cons, ← ih]
    constructor
    · rintro ⟨_, h, h'⟩; exact ⟨h, h'⟩
    · rintro ⟨h, h'⟩; exact ⟨(), h, h'⟩

theorem validateRow_ok_iff {schema : List Column} {row : Row} :
    validateRow schema row = .ok () ↔
      row.length = schema.length ∧ validateValues schema row = .ok () := by
  unfold validateRow
  split_ifs with h
  · simp [h]
  · simp [not_not.1 h]

theorem validateValues_ok_iff {schema : List Column} {row : Row}
    (hlen : row.length = schema.length) :
    validateValues schema row = .ok () ↔ ∀ i column, schema[i]? = some column →
      checkValue "row value does not match column type" column (row.at i) = .ok () := by
  induction schema generalizing row with
  | nil => simp [validateValues]
  | cons column schema ih =>
    cases row with
    | nil => simp at hlen
    | cons value row =>
      rw [validateValues, Failure.bind_eq_ok_iff]
      constructor
      · rintro ⟨_, hv, hrest⟩ i c hi
        cases i with
        | zero => cases hi; exact hv
        | succ i => exact (ih (by simpa using hlen)).1 hrest i c hi
      · intro h
        exact ⟨(), h 0 column rfl, (ih (by simpa using hlen)).2 fun i c hi => h (i + 1) c hi⟩

/-- Whether a value passes the check does not depend on the message. -/
theorem checkValue_ok_congr {message message' : String} {column : Column} {value : Value}
    (h : checkValue message column value = .ok ()) : checkValue message' column value = .ok () := by
  cases value with
  | null => exact h
  | _ =>
    simp only [checkValue, Value.isNull, Value.type, Bool.false_eq_true, if_false,
      Failure.pure_eq_ok, Failure.ok_bind] at h ⊢
    split_ifs at h ⊢ with ht
    rfl

theorem Row.at_set {row : Row} {i j : ℕ} {value : Value} (hi : i < row.length) :
    Row.at (row.set i value) j = if i = j then value else row.at j := by
  simp only [Row.at, List.getD_eq_getElem?_getD, List.getElem?_set]
  split_ifs with h
  · subst h; rfl
  · rfl

/-- Setting one value that passes its check keeps a row valid. -/
theorem validateRow_set {schema : List Column} {row : Row} {index : ℕ} {column : Column}
    {value : Value} {message : String} (h : validateRow schema row = .ok ())
    (hc : schema[index]? = some column) (hv : checkValue message column value = .ok ()) :
    validateRow schema (row.set index value) = .ok () := by
  obtain ⟨hlen, hvals⟩ := validateRow_ok_iff.1 h
  have hi : index < row.length := by
    rw [hlen]; exact (List.getElem?_eq_some_iff.1 hc).1
  refine validateRow_ok_iff.2 ⟨by simpa using hlen, ?_⟩
  refine (validateValues_ok_iff (by simpa using hlen)).2 fun i c hic => ?_
  rw [Row.at_set hi]
  split_ifs with hij
  · subst hij
    rw [hc] at hic
    cases hic
    exact checkValue_ok_congr hv
  · exact (validateValues_ok_iff hlen).1 hvals i c hic

namespace Table

/-! ### What index maintenance leaves alone -/

/-- `table'` differs from `table` in the contents of its indexes only. -/
structure SameData (table table' : Table) : Prop where
  name : table'.name = table.name
  schema : table'.schema = table.schema
  rowStore : table'.rowStore = table.rowStore
  indexColumns : table'.indexColumns = table.indexColumns
  versions : table'.versions = table.versions
  next : table'.nextVersionTransactionId = table.nextVersionTransactionId

theorem SameData.refl (table : Table) : SameData table table := ⟨rfl, rfl, rfl, rfl, rfl, rfl⟩

theorem SameData.trans {a b c : Table} (h : SameData a b) (h' : SameData b c) : SameData a c :=
  ⟨h'.name.trans h.name, h'.schema.trans h.schema, h'.rowStore.trans h.rowStore,
    h'.indexColumns.trans h.indexColumns, h'.versions.trans h.versions, h'.next.trans h.next⟩

theorem sameData_foldl {f : Table → RowId → Table}
    (hf : ∀ table rowId, SameData table (f table rowId))
    (ids : List RowId) (table : Table) : SameData table (ids.foldl f table) := by
  induction ids generalizing table with
  | nil => exact .refl _
  | cons id ids ih => exact (hf table id).trans (ih _)

theorem sameData_addRowToIndexes (table : Table) (rowId : RowId) :
    SameData table (table.addRowToIndexes rowId) := by
  unfold addRowToIndexes
  split
  · exact .refl _
  · exact ⟨rfl, rfl, rfl, rfl, rfl, rfl⟩

theorem sameData_rebuildIndexes (table : Table) : SameData table table.rebuildIndexes :=
  SameData.trans (b := table.clearIndexes) ⟨rfl, rfl, rfl, rfl, rfl, rfl⟩
    (sameData_foldl sameData_addRowToIndexes _ _)

/-! ### Indexes of a list of rows -/

/-- The keys of an index on column `c`. -/
def keysOf (rows : List Row) (c : ℕ) : List Value.Key := rows.map fun row => (row.at c).key

/-- The indexes named in `columns` are the inverted indexes of `rows`, and there are no others. -/
structure IndexesHold (columns : SortedMap Str ℕ) (indexes : SortedMap Str HashIndex)
    (orderedIndexes : SortedMap Str BTreeIndex) (rows : List Row) : Prop where
  hash : ∀ name, Option.Rel (fun c h => IndexOf (HashIndex.entries h) (keysOf rows c))
    (columns.find? name) (indexes.find? name)
  ordered : ∀ name, Option.Rel (fun c b => IndexOf (BTreeIndex.entries b) (keysOf rows c))
    (columns.find? name) (orderedIndexes.find? name)

theorem optionRel_map {α β γ : Type} {r : α → β → Prop} {r' : α → γ → Prop} {f : β → γ}
    {a : Option α} {b : Option β} (h : Option.Rel r a b)
    (hf : ∀ x y, a = some x → r x y → r' x (f y)) :
    Option.Rel r' a (b.map f) := by
  cases h with
  | some hxy => exact .some (hf _ _ rfl hxy)
  | none => exact .none

theorem keysOf_concat (rows : List Row) (row : Row) (c : ℕ) :
    keysOf (rows ++ [row]) c = keysOf rows c ++ [(row.at c).key] := by simp [keysOf]

theorem length_keysOf (rows : List Row) (c : ℕ) : (keysOf rows c).length = rows.length := by
  simp [keysOf]

variable {table : Table} {rows : List Row}

theorem indexesHold_clearIndexes
    (h : IndexesHold table.indexColumns table.indexes table.orderedIndexes rows) :
    IndexesHold table.indexColumns table.clearIndexes.indexes table.clearIndexes.orderedIndexes
      [] := by
  constructor
  · intro name
    simp only [clearIndexes, SortedMap.find?_mapValues]
    exact optionRel_map (h.hash name) fun _ _ _ _ => indexOf_empty
  · intro name
    simp only [clearIndexes, SortedMap.find?_mapValues]
    exact optionRel_map (h.ordered name) fun _ _ _ _ => indexOf_empty

theorem indexesHold_addRowToIndexes (table : Table)
    (h : IndexesHold table.indexColumns table.indexes table.orderedIndexes rows) {row : Row}
    (hget : table.rowStore.get rows.length = some row) :
    IndexesHold table.indexColumns (table.addRowToIndexes rows.length).indexes
      (table.addRowToIndexes rows.length).orderedIndexes (rows ++ [row]) := by
  constructor
  · intro name
    simp only [addRowToIndexes, hget, SortedMap.find?_mapValues]
    refine optionRel_map (h.hash name) fun c index hc hi => ?_
    rw [hc, Option.getD_some, keysOf_concat]
    have := hi.upsert (row.at c).key
    rwa [length_keysOf] at this
  · intro name
    simp only [addRowToIndexes, hget, SortedMap.find?_mapValues]
    refine optionRel_map (h.ordered name) fun c index hc hi => ?_
    rw [hc, Option.getD_some, keysOf_concat]
    have := hi.upsert (row.at c).key
    rwa [length_keysOf] at this

/-- Adding the rows of a store one by one to cleared indexes. -/
theorem indexesHold_foldl (table : Table) (hrep : table.rowStore.Represents rows)
    (h : IndexesHold table.indexColumns table.indexes table.orderedIndexes []) (k : ℕ)
    (hk : k ≤ rows.length) :
    let table' := (List.range k).foldl addRowToIndexes table
    IndexesHold table.indexColumns table'.indexes table'.orderedIndexes (rows.take k) := by
  induction k with
  | zero => simpa using h
  | succ k ih =>
    have ih := ih (by omega)
    have hsame := sameData_foldl sameData_addRowToIndexes (List.range k) table
    have hlen : (rows.take k).length = k := by rw [List.length_take]; omega
    have hget : ((List.range k).foldl addRowToIndexes table).rowStore.get (rows.take k).length =
        some (rows[k]) := by
      rw [hsame.rowStore, hrep.get_eq, hlen, List.getElem?_eq_getElem]
    rw [← hsame.indexColumns] at ih
    have := indexesHold_addRowToIndexes _ ih hget
    rw [hlen, hsame.indexColumns, List.take_append_getElem] at this
    simpa [List.range_succ] using this

theorem indexesHold_rebuildIndexes (table : Table) {old : List Row}
    (hrep : table.rowStore.Represents rows)
    (h : IndexesHold table.indexColumns table.indexes table.orderedIndexes old) :
    IndexesHold table.indexColumns table.rebuildIndexes.indexes table.rebuildIndexes.orderedIndexes
      rows := by
  have := indexesHold_foldl table.clearIndexes hrep (indexesHold_clearIndexes h)
    rows.length le_rfl
  rw [List.take_length] at this
  unfold rebuildIndexes
  rw [hrep.size_eq]
  exact this

/-- Adding the rows of a store one by one to the new indexes called `name`. -/
theorem find?_foldl_addRowToIndex (table : Table) (name : Str) (c : ℕ)
    (hrep : table.rowStore.Represents rows) (hh : table.indexes.find? name = some .empty)
    (ho : table.orderedIndexes.find? name = some .empty) (k : ℕ) (hk : k ≤ rows.length) :
    let table' := (List.range k).foldl (addRowToIndex name c) table
    SameData table table' ∧
      (∀ other, other ≠ name → table'.indexes.find? other = table.indexes.find? other ∧
        table'.orderedIndexes.find? other = table.orderedIndexes.find? other) ∧
      (∃ hash, table'.indexes.find? name = some hash ∧
        IndexOf hash.entries (keysOf (rows.take k) c)) ∧
      ∃ ordered, table'.orderedIndexes.find? name = some ordered ∧
        IndexOf ordered.entries (keysOf (rows.take k) c) := by
  induction k with
  | zero =>
    exact ⟨.refl _, fun _ _ => ⟨rfl, rfl⟩, ⟨_, hh, indexOf_empty⟩, _, ho, indexOf_empty⟩
  | succ k ih =>
    obtain ⟨hsame, hother, ⟨hash', hh', hhash'⟩, ordered', ho', hordered'⟩ := ih (by omega)
    have hkeys : (keysOf (rows.take k) c).length = k := by
      rw [length_keysOf, List.length_take]; omega
    have hget : ((List.range k).foldl (addRowToIndex name c) table).rowStore.get k =
        some rows[k] := by
      rw [hsame.rowStore, hrep.get_eq, List.getElem?_eq_getElem]
    -- row `k` adds the key at its own position
    have hnext : keysOf (rows.take (k + 1)) c = keysOf (rows.take k) c ++
      [(Row.at rows[k] c).key] := by
      rw [← List.take_append_getElem, keysOf_concat]
    simp only [List.range_succ, List.foldl_append, List.foldl_cons, List.foldl_nil]
    refine ⟨hsame.trans ⟨rfl, rfl, rfl, rfl, rfl, rfl⟩, fun other hne => ?_, ?_, ?_⟩
    · simp only [addRowToIndex, SortedMap.find?_adjust, if_neg hne]
      exact hother other hne
    · simp only [addRowToIndex, SortedMap.find?_adjust, if_true, hh', Option.map_some, hget,
        Option.getD_some, hnext]
      have := hhash'.upsert (Row.at rows[k] c).key
      rw [hkeys] at this
      exact ⟨_, rfl, this⟩
    · simp only [addRowToIndex, SortedMap.find?_adjust, if_true, ho', Option.map_some, hget,
        Option.getD_some, hnext]
      have := hordered'.upsert (Row.at rows[k] c).key
      rw [hkeys] at this
      exact ⟨_, rfl, this⟩

/-! ### The invariant -/

/-- `table` stores the list `rows`. -/
structure Holds (table : Table) (rows : List Row) : Prop where
  name_ne : table.name ≠ []
  schema_ne : table.schema ≠ []
  represents : table.rowStore.Represents rows
  fits : ∀ row ∈ rows, validateRow table.schema row = .ok ()
  /-- An index is on the first column of its name. -/
  columns : ∀ name c, table.indexColumns.find? name = some c →
    columnIndex table.schema (table.columnName c) = some c
  indexes : IndexesHold table.indexColumns table.indexes table.orderedIndexes rows

theorem holds_make {name : Str} {schema : List Column} (h : make name schema = .ok table) :
    table.Holds [] ∧ table.name = name ∧ table.schema = schema ∧ table.indexColumns = .empty := by
  unfold make at h
  split_ifs at h with h1 h2
  cases h
  refine ⟨⟨h1, h2, PageRowStore.represents_makePageRowStore, by simp, ?_, ?_⟩, rfl, rfl, rfl⟩
  · intro _ _ h; cases h
  · exact ⟨fun _ => .none, fun _ => .none⟩

theorem Holds.rowsSnapshot_eq (h : table.Holds rows) : table.rowsSnapshot = rows :=
  h.represents.snapshot_eq

theorem Holds.rowCount_eq (h : table.Holds rows) : table.rowCount = rows.length :=
  h.represents.size_eq

/-- Everything but the rows and the versions is the same. -/
structure SameShape (table table' : Table) : Prop where
  name : table'.name = table.name
  schema : table'.schema = table.schema
  indexColumns : table'.indexColumns = table.indexColumns

theorem SameShape.refl (table : Table) : SameShape table table := ⟨rfl, rfl, rfl⟩

theorem SameShape.trans {a b c : Table} (h : SameShape a b) (h' : SameShape b c) :
    SameShape a c :=
  ⟨h'.name.trans h.name, h'.schema.trans h.schema, h'.indexColumns.trans h.indexColumns⟩

theorem SameData.sameShape {table table' : Table} (h : SameData table table') :
    SameShape table table' := ⟨h.name, h.schema, h.indexColumns⟩

theorem SameShape.columnName {table table' : Table} (h : SameShape table table') (c : ℕ) :
    table'.columnName c = table.columnName c := by rw [Table.columnName, h.schema]; rfl

/-- The invariant from its parts, for a table of the same shape. -/
theorem Holds.of_sameShape {table' : Table} {rows' : List Row} (h : table.Holds rows)
    (hs : SameShape table table') (hrep : table'.rowStore.Represents rows')
    (hfits : ∀ row ∈ rows', validateRow table.schema row = .ok ())
    (hidx : IndexesHold table.indexColumns table'.indexes table'.orderedIndexes rows') :
    table'.Holds rows' where
  name_ne := hs.name ▸ h.name_ne
  schema_ne := hs.schema ▸ h.schema_ne
  represents := hrep
  fits := by rw [hs.schema]; exact hfits
  columns := by
    intro name c hc
    rw [hs.indexColumns] at hc
    rw [hs.schema, hs.columnName]
    exact h.columns name c hc
  indexes := by rw [hs.indexColumns]; exact hidx

/-! ### One specification per operation -/

/-- What a successful `insert` did: the row was valid and is now the last one. -/
theorem Holds.insert {table' : Table} {row : Row} {rowId : RowId} (h : table.Holds rows)
    (hi : table.insert row = .ok (rowId, table')) :
    validateRow table.schema row = .ok () ∧ rowId = rows.length ∧ table'.Holds (rows ++ [row]) ∧
      SameShape table table' ∧
      table'.versions = table.versions.write rows.length row table.nextVersionTransactionId := by
  obtain ⟨_, hv, hr⟩ := Failure.bind_eq_ok_iff.1 hi
  obtain ⟨hid, hrep⟩ := h.represents.append row
  simp only [hid, Failure.pure_eq_ok, Except.ok.injEq, Prod.mk.injEq] at hr
  obtain ⟨rfl, rfl⟩ := hr
  have hget : (table.rowStore.append row).2.get rows.length = some row := by
    rw [hrep.get_eq]; simp
  set mid : Table := { table with rowStore := (table.rowStore.append row).2 } with hmid
  have hsame := sameData_addRowToIndexes (mid.writeVersion rows.length) rows.length
  have hshape : SameShape table ((mid.writeVersion rows.length).addRowToIndexes rows.length) :=
    SameShape.trans (b := mid.writeVersion rows.length) ⟨rfl, rfl, rfl⟩ hsame.sameShape
  refine ⟨hv, rfl, h.of_sameShape hshape ?_ ?_ ?_, hshape, ?_⟩
  · rw [hsame.rowStore]; exact hrep
  · intro r hr
    rcases List.mem_append.1 hr with hr | hr
    · exact h.fits r hr
    · rw [List.mem_singleton.1 hr]; exact hv
  · exact indexesHold_addRowToIndexes (mid.writeVersion rows.length) h.indexes hget
  · rw [hsame.versions]
    simp only [hmid, writeVersion, hget, Option.getD_some]

theorem insert_ok {row : Row} (hv : validateRow table.schema row = .ok ()) :
    ∃ rowId table', table.insert row = .ok (rowId, table') := by
  simp [insert, hv]

theorem Holds.erase (h : table.Holds rows) (rowId : RowId) :
    (table.erase rowId).1 = decide (rowId < rows.length) ∧
      (table.erase rowId).2.Holds (rows.eraseIdx rowId) ∧
      SameShape table (table.erase rowId).2 ∧
      (table.erase rowId).2.versions = if rowId < rows.length then
        table.versions.erase rowId table.nextVersionTransactionId else table.versions := by
  have hsize := h.represents.size_eq
  by_cases hlt : rowId < rows.length
  · obtain ⟨h1, h2⟩ := h.represents.erase rowId
    simp only [VectorRowStore.erase, Nat.not_le.2 hlt, if_false] at h1 h2
    obtain ⟨erased, store', herase⟩ : ∃ erased store', table.rowStore.erase rowId =
      (erased, store') :=
      ⟨_, _, rfl⟩
    rw [herase] at h1 h2
    obtain rfl : erased = true := h1
    simp only [Table.erase, hsize, Nat.not_le.2 hlt, if_false, herase, hlt, decide_true, if_true]
    set mid : Table := { table with
      rowStore := store'
      versions := table.versions.erase rowId table.nextVersionTransactionId
      nextVersionTransactionId := table.nextVersionTransactionId + 1 } with hmid
    have hsame := sameData_rebuildIndexes mid
    have hshape : SameShape table mid.rebuildIndexes :=
      SameShape.trans (b := mid) ⟨rfl, rfl, rfl⟩ hsame.sameShape
    refine ⟨trivial, h.of_sameShape hshape ?_ ?_ ?_, hshape, hsame.versions⟩
    · rw [hsame.rowStore]; exact h2
    · exact fun r hr => h.fits r (List.mem_of_mem_eraseIdx hr)
    · exact indexesHold_rebuildIndexes mid h2 h.indexes
  · have hnil : rows.eraseIdx rowId = rows := List.eraseIdx_of_length_le (Nat.le_of_not_lt hlt)
    simp only [Table.erase, hsize, Nat.le_of_not_lt hlt, if_true, hlt, decide_false, if_false, hnil]
    exact ⟨trivial, h, .refl _, trivial⟩

/-- What a successful `update` did. -/
theorem Holds.update {table' : Table} {rowId : RowId} {index : ℕ} {value : Value} {updated : Bool}
    (h : table.Holds rows) (hu : table.update rowId index value = .ok (updated, table')) :
    (updated = true ↔ rowId < rows.length ∧ index < table.schema.length) ∧
      table'.Holds (if updated then rows.modify rowId (·.set index value) else rows) ∧
      SameShape table table' ∧
      (updated = false → table' = table) ∧
      (updated = true → table'.versions = table.versions.write rowId
        ((rows.getD rowId []).set index value) table.nextVersionTransactionId) := by
  have hsize := h.represents.size_eq
  unfold Table.update at hu
  rw [hsize] at hu
  by_cases hlt : rowId < rows.length
  swap
  · -- a row id that does not exist
    rw [if_pos (Nat.le_of_not_lt hlt)] at hu
    cases hu
    exact ⟨by simp [hlt], by simpa using h, .refl _, fun _ => rfl, by simp⟩
  rw [if_neg (Nat.not_le.2 hlt)] at hu
  cases hc : table.schema[index]? with
  | none =>
    rw [hc] at hu
    cases hu
    have : ¬ index < table.schema.length := by simpa using hc
    exact ⟨by simp [this], by simpa using h, .refl _, fun _ => rfl, by simp⟩
  | some column =>
    rw [hc] at hu
    obtain ⟨_, hv, hr⟩ := Failure.bind_eq_ok_iff.1 hu
    have hget : table.rowStore.get rowId = some rows[rowId] := by
      rw [h.represents.get_eq, List.getElem?_eq_getElem hlt]
    rw [hget, Option.getD_some] at hr
    -- the row is written to the store, then a version of it, then the indexes are rebuilt
    set row' := rows[rowId].set index value with hrow'
    obtain ⟨h1, h2⟩ := h.represents.update rowId row'
    simp only [VectorRowStore.update, Nat.not_le.2 hlt, if_false] at h1 h2
    obtain ⟨ok, store', hupd⟩ : ∃ ok store', table.rowStore.update rowId row' = (ok, store') :=
      ⟨_, _, rfl⟩
    rw [hupd] at h1 h2
    obtain rfl : ok = true := h1
    simp only [hupd, Failure.pure_eq_ok, Except.ok.injEq, Prod.mk.injEq] at hr
    obtain ⟨rfl, rfl⟩ := hr
    have hset : rows.set rowId row' = rows.modify rowId (·.set index value) := by
      rw [List.modify_eq_set_getElem?, List.getElem?_eq_getElem hlt]; rfl
    set mid : Table := { table with rowStore := store' } with hmid
    have hsame := sameData_rebuildIndexes (mid.writeVersion rowId)
    have hshape : SameShape table (mid.writeVersion rowId).rebuildIndexes :=
      SameShape.trans (b := mid.writeVersion rowId) ⟨rfl, rfl, rfl⟩ hsame.sameShape
    have hindex : index < table.schema.length := (List.getElem?_eq_some_iff.1 hc).1
    refine ⟨by simp [hlt, hindex], ?_, hshape, by simp, fun _ => ?_⟩
    · rw [if_pos rfl, ← hset]
      refine h.of_sameShape hshape ?_ ?_ ?_
      · rw [hsame.rowStore]; exact h2
      · intro r hr
        rcases List.mem_or_eq_of_mem_set hr with hr | rfl
        · exact h.fits r hr
        · exact validateRow_set (h.fits _ (List.getElem_mem hlt)) hc hv
      · exact indexesHold_rebuildIndexes (mid.writeVersion rowId) h2 h.indexes
    · rw [hsame.versions]
      have hget' : mid.rowStore.get rowId = some row' := by
        rw [hmid, h2.get_eq, List.getElem?_set_self hlt]
      simp only [writeVersion, hget', Option.getD_some, hrow', List.getD_eq_getElem?_getD,
        List.getElem?_eq_getElem hlt]
      rfl

theorem update_ok (rowId : RowId) {index : ℕ} {value : Value}
    (hv : ∀ column, table.schema[index]? = some column →
      checkValue "updated value does not match column type" column value = .ok ()) :
    ∃ updated table', table.update rowId index value = .ok (updated, table') := by
  unfold update
  split_ifs
  · exact ⟨_, _, rfl⟩
  · cases hc : table.schema[index]? with
    | none => exact ⟨_, _, rfl⟩
    | some column =>
      simp only [hv column hc, Failure.ok_bind]
      split <;> exact ⟨_, _, rfl⟩

theorem Holds.update_error {rowId : RowId} {index : ℕ} {value : Value} {column : Column}
    {e : Exception} (h : table.Holds rows) (hlt : rowId < rows.length)
    (hc : table.schema[index]? = some column)
    (hv : checkValue "updated value does not match column type" column value = .error e) :
    table.update rowId index value = .error e := by
  rw [Table.update, h.represents.size_eq, if_neg (Nat.not_le.2 hlt), hc]
  simp only [hv, Failure.error_bind]

theorem columnIndex_columnName {schema : List Column} {column : Str} {c : ℕ}
    (h : columnIndex schema column = some c) : ((schema[c]?).map Column.name).getD [] = column := by
  obtain ⟨hlt, hname, -⟩ := List.findIdx?_eq_some_iff_getElem.1 h
  simpa [List.getElem?_eq_getElem hlt] using hname

theorem Holds.contains_indexes (h : table.Holds rows) (name : Str) :
    table.indexes.contains name = table.indexColumns.contains name := by
  have := h.indexes.hash name
  unfold SortedMap.contains
  generalize table.indexColumns.find? name = a at this
  generalize table.indexes.find? name = b at this
  cases this <;> rfl

/-- What `createIndex` did: it succeeded exactly when the column exists and the name is free. -/
theorem Holds.createIndex (h : table.Holds rows) (name column : Str) :
    (table.createIndex name column).2.Holds rows ∧
      (table.createIndex name column).2.name = table.name ∧
      (table.createIndex name column).2.schema = table.schema ∧
      (table.createIndex name column).2.versions = table.versions ∧
      ((table.createIndex name column).1 = true →
        table.indexColumns.find? name = none ∧ ∃ c, columnIndex table.schema column = some c ∧
          (table.createIndex name column).2.indexColumns = table.indexColumns.insert name c) ∧
      ((table.createIndex name column).1 = false →
        (columnIndex table.schema column = none ∨ table.indexColumns.contains name = true) ∧
          (table.createIndex name column).2 = table) := by
  unfold Table.createIndex
  cases hc : columnIndex table.schema column with
  | none => exact ⟨h, rfl, rfl, rfl, by simp, fun _ => ⟨.inl rfl, rfl⟩⟩
  | some c =>
    simp only [h.contains_indexes]
    by_cases hcon : table.indexColumns.contains name = true
    · rw [if_pos hcon]
      exact ⟨h, rfl, rfl, rfl, by simp, fun _ => ⟨.inr hcon, rfl⟩⟩
    · have hnone : table.indexColumns.find? name = none := by
        simpa [SortedMap.contains] using hcon
      -- a free name has neither a hash index nor an ordered one
      have hhash : table.indexes.find? name = none := by
        have := h.indexes.hash name
        rw [hnone] at this
        generalize table.indexes.find? name = b at this
        cases this; rfl
      have hordered : table.orderedIndexes.find? name = none := by
        have := h.indexes.ordered name
        rw [hnone] at this
        generalize table.orderedIndexes.find? name = b at this
        cases this; rfl
      simp only [hcon, Bool.false_eq_true, if_false]
      -- the empty indexes, before the rows are added to them
      set mid : Table := { table with
        indexColumns := table.indexColumns.tryEmplace name c
        indexes := table.indexes.tryEmplace name .empty
        orderedIndexes := table.orderedIndexes.tryEmplace name .empty } with hmid
      have hins : mid.indexColumns = table.indexColumns.insert name c :=
        SortedMap.ext_find? fun k => by simp [hmid, hnone]
      obtain ⟨hsame, hother, ⟨hash, hh, hhashes⟩, ordered, ho, horders⟩ :=
        find?_foldl_addRowToIndex mid name c h.represents (by simp [hmid, hhash])
          (by simp [hmid, hordered]) rows.length le_rfl
      rw [List.take_length] at hhashes horders
      have hsize : mid.rowStore.size = rows.length := h.represents.size_eq
      rw [hsize]
      refine ⟨⟨?_, ?_, ?_, ?_, ?_, ?_⟩, hsame.name, hsame.schema, hsame.versions,
        fun _ => ⟨hnone, c, rfl, hsame.indexColumns.trans hins⟩, by simp⟩
      · rw [hsame.name]; exact h.name_ne
      · rw [hsame.schema]; exact h.schema_ne
      · rw [hsame.rowStore]; exact h.represents
      · rw [hsame.schema]; exact h.fits
      · intro n c' hn
        rw [hsame.indexColumns, hins, SortedMap.find?_insert] at hn
        rw [hsame.sameShape.columnName, hsame.schema]
        change columnIndex table.schema (table.columnName c') = some c'
        split_ifs at hn with hnn
        · cases hn
          rw [Table.columnName, columnIndex_columnName hc]; exact hc
        · exact h.columns n c' hn
      · rw [hsame.indexColumns, hins]
        constructor
        · intro n
          rw [SortedMap.find?_insert]
          split_ifs with hnn
          · subst hnn; rw [hh]; exact .some hhashes
          · rw [(hother n hnn).1]; simpa [hmid, hnn] using h.indexes.hash n
        · intro n
          rw [SortedMap.find?_insert]
          split_ifs with hnn
          · subst hnn; rw [ho]; exact .some horders
          · rw [(hother n hnn).2]; simpa [hmid, hnn] using h.indexes.ordered n

/-- Writing one version for each of the first `k` rows of a store. -/
theorem foldl_writeVersion (hrep : table.rowStore.Represents rows) (hv : table.versions = .empty)
    (k : ℕ) (hk : k ≤ rows.length) :
    let table' := (List.range k).foldl writeVersion table
    table'.rowStore = table.rowStore ∧ SameShape table table' ∧ table'.indexes = table.indexes ∧
      table'.orderedIndexes = table.orderedIndexes ∧
      ∀ i : ℕ, Option.Rel (fun row chain => ∃ id, chain = [⟨id, none, row⟩]) ((rows.take k)[i]?)
        (table'.versions.versions.find? i) := by
  induction k with
  | zero =>
    refine ⟨rfl, .refl _, rfl, rfl, fun i => ?_⟩
    simp only [List.range_zero, List.foldl_nil, hv, List.take_zero, List.getElem?_nil]
    exact .none
  | succ k ih =>
    obtain ⟨hstore, hshape, hidx, hord, hvers⟩ := ih (by omega)
    simp only [List.range_succ, List.foldl_append, List.foldl_cons, List.foldl_nil]
    refine ⟨hstore, hshape.trans ⟨rfl, rfl, rfl⟩, hidx, hord, fun i => ?_⟩
    have hget : ((List.range k).foldl writeVersion table).rowStore.get k = some rows[k] := by
      rw [hstore, hrep.get_eq, List.getElem?_eq_getElem]
    simp only [writeVersion, hget, Option.getD_some, MvccRowStore.write, SortedMap.find?_upsert]
    by_cases hi : i = k
    · subst hi
      -- row `i` has no chain yet, so the version written is its first
      have hold := hvers i
      rw [List.getElem?_eq_none (by simp)] at hold
      generalize ((List.range i).foldl writeVersion table).versions.versions.find? i = chain at hold
      cases hold
      rw [if_pos rfl, List.getElem?_take_of_lt (Nat.lt_succ_self i),
        List.getElem?_eq_getElem (by omega)]
      exact .some ⟨_, rfl⟩
    · rw [if_neg hi]
      have heq : (rows.take (k + 1))[i]? = (rows.take k)[i]? := by
        have hiff : i < k + 1 ↔ i < k := by omega
        simp only [List.getElem?_take, hiff]
      rw [heq]
      exact hvers i

/-- What a successful `replaceRows` did. -/
theorem Holds.replaceRows {table' : Table} {new : List Row} (h : table.Holds rows)
    (hr : table.replaceRows new = .ok table') :
    (∀ row ∈ new, validateRow table.schema row = .ok ()) ∧ table'.Holds new ∧
      SameShape table table' ∧
      ∀ i : ℕ, Option.Rel (fun row chain => ∃ id, chain = [⟨id, none, row⟩]) (new[i]?)
        (table'.versions.versions.find? i) := by
  obtain ⟨_, hv, hr⟩ := Failure.bind_eq_ok_iff.1 hr
  have hfits := validateRows_ok_iff.1 hv
  simp only [Failure.pure_eq_ok, Except.ok.injEq] at hr
  set mid : Table := { table with
    rowStore := table.rowStore.replaceRows new
    versions := table.versions.clear
    nextVersionTransactionId := 1 } with hmid
  have hrep : mid.rowStore.Represents new := PageRowStore.represents_replaceRows _ _
  obtain ⟨hstore, hshape, hidx, hord, hvers⟩ := foldl_writeVersion hrep rfl new.length le_rfl
  rw [List.take_length] at hvers
  have hsame := sameData_rebuildIndexes ((List.range new.length).foldl writeVersion mid)
  have hshape' : SameShape table
      ((List.range new.length).foldl writeVersion mid).rebuildIndexes :=
    SameShape.trans (b := mid) ⟨rfl, rfl, rfl⟩ (hshape.trans hsame.sameShape)
  rw [hrep.size_eq] at hr
  subst hr
  refine ⟨hfits, h.of_sameShape hshape' ?_ hfits ?_, hshape', ?_⟩
  · rw [hsame.rowStore, hstore]; exact hrep
  · have hi : IndexesHold ((List.range new.length).foldl writeVersion mid).indexColumns
        ((List.range new.length).foldl writeVersion mid).indexes
        ((List.range new.length).foldl writeVersion mid).orderedIndexes rows := by
      rw [hidx, hord, hshape.indexColumns]; exact h.indexes
    have := indexesHold_rebuildIndexes _ (hstore ▸ hrep) hi
    rwa [hshape.indexColumns] at this
  · rw [hsame.versions]; exact hvers

theorem replaceRows_ok {new : List Row} (hv : ∀ row ∈ new, validateRow table.schema row = .ok ()) :
    ∃ table', table.replaceRows new = .ok table' := by
  simp [replaceRows, validateRows_ok_iff.2 hv]

end Table

end VertexDB
