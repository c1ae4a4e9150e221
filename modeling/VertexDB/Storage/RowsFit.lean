import VertexDB.Storage.TableRuns

/-!
# Rows fit their schema

`RowFits schema row` says what `Table::validateRow` checks, one column after the other
(`validateRow_ok_iff_rowFits`).  The row store of a reached table holds only such rows by the
invariant of tables; here the same is shown of the rows in the version chains
(`Reached.versionsFit`), so that every row a read of the table returns fits
(`Reached.rowFits_of_returns`).
-/

namespace VertexDB

/-- A value that a column can hold: NULL where the column is nullable, else a value of its
type. -/
inductive ValueFits (column : Column) : Value → Prop
  | null (h : column.nullable = true) : ValueFits column .null
  | typed {value : Value} (h : value.type = .ok column.type) : ValueFits column value

/-- A row with one value for each column, and each of them fits. -/
abbrev RowFits (schema : List Column) (row : Row) : Prop := List.Forall₂ ValueFits schema row

theorem checkValue_ok_iff {message : String} {column : Column} {value : Value} :
    checkValue message column value = .ok () ↔ ValueFits column value := by
  constructor
  · intro h
    cases value with
    | null =>
      have hnull : column.nullable = true := by
        by_contra hn
        simp [checkValue, Value.isNull, hn] at h
      exact .null hnull
    | _ =>
      simp only [checkValue, Value.isNull, Value.type, Bool.false_eq_true, if_false,
        Failure.pure_eq_ok, Failure.ok_bind] at h
      split_ifs at h with ht
      exact .typed (congrArg Except.ok (not_not.1 ht))
  · rintro (hnull | htype)
    · simp [checkValue, Value.isNull, hnull]
    · cases value with
      | null => simp [Value.type] at htype
      | _ =>
        simp only [checkValue, Value.isNull, Bool.false_eq_true, if_false, htype, Failure.ok_bind]
        simp

theorem validateValues_ok_iff_forall₂ {schema : List Column} {row : Row}
    (hlen : row.length = schema.length) :
    validateValues schema row = .ok () ↔ RowFits schema row := by
  induction schema generalizing row with
  | nil => simp [List.length_eq_zero_iff.1 hlen, validateValues]
  | cons column schema ih =>
    cases row with
    | nil => simp at hlen
    | cons value row =>
      have hrest := @ih row (by simpa using hlen)
      rw [validateValues, Failure.bind_eq_ok_iff, RowFits, List.forall₂_cons]
      constructor
      · rintro ⟨_, hvalue, h⟩
        exact ⟨checkValue_ok_iff.1 hvalue, hrest.1 h⟩
      · rintro ⟨hvalue, h⟩
        exact ⟨(), checkValue_ok_iff.2 hvalue, hrest.2 h⟩

/-- `Table::validateRow` accepts the rows that fit. -/
theorem validateRow_ok_iff_rowFits {schema : List Column} {row : Row} :
    validateRow schema row = .ok () ↔ RowFits schema row := by
  rw [validateRow_ok_iff]
  constructor
  · rintro ⟨hlen, h⟩
    exact (validateValues_ok_iff_forall₂ hlen).1 h
  · intro h
    exact ⟨h.length_eq.symm, (validateValues_ok_iff_forall₂ h.length_eq.symm).2 h⟩

namespace MvccRowStore

/-- Every version of every row holds a row that fits. -/
def Fits (schema : List Column) (store : MvccRowStore) : Prop :=
  ∀ rowId chain, store.versions.find? rowId = some chain →
    ∀ version ∈ chain, RowFits schema version.row

variable {schema : List Column} {store : MvccRowStore}

theorem fits_empty (schema : List Column) : Fits schema empty := by
  intro rowId chain h
  cases h

theorem Fits.write (h : store.Fits schema) {row : Row} (hrow : RowFits schema row) (rowId : RowId)
    (id : TransactionId) : (store.write rowId row id).Fits schema := by
  intro j chain hchain version hv
  rw [MvccRowStore.write, SortedMap.find?_upsert] at hchain
  split_ifs at hchain with hj
  · cases hchain
    rcases List.mem_append.1 hv with hv | hv
    · cases hfind : store.versions.find? rowId with
      | none => rw [hfind] at hv; cases hv
      | some old => rw [hfind] at hv; exact h rowId old hfind version hv
    · rw [List.mem_singleton.1 hv]
      exact hrow
  · exact h j chain hchain version hv

theorem Fits.erase (h : store.Fits schema) (rowId : RowId) (id : TransactionId) :
    (store.erase rowId id).Fits schema := by
  intro j chain hchain version hv
  rw [MvccRowStore.erase, SortedMap.find?_adjust] at hchain
  split_ifs at hchain with hj
  · obtain ⟨old, hold, rfl⟩ := Option.map_eq_some_iff.1 hchain
    obtain ⟨older, holder, -, hrow⟩ := mem_markDeleted hv
    rw [hrow]
    exact h _ old hold older holder
  · exact h j chain hchain version hv

/-- What a reader sees is the row of some version. -/
theorem Fits.read (h : store.Fits schema) {rowId : RowId} {readerId : TransactionId} {row : Row}
    (hread : store.read rowId readerId = some row) : RowFits schema row := by
  obtain ⟨chain, hchain, hnewest⟩ := Option.bind_eq_some_iff.1 hread
  obtain ⟨version, hfound, rfl⟩ := Option.map_eq_some_iff.1 hnewest
  exact h rowId chain hchain version (List.mem_reverse.1 (List.mem_of_find?_eq_some hfound))

end MvccRowStore

namespace Table

variable {table : Table} {rows : List Row}

/-- One call keeps the versions in step with the schema. -/
theorem Holds.versionsFit_apply (hh : table.Holds rows) (h : table.versions.Fits table.schema)
    (op : Op) : (table.apply op).versions.Fits (table.apply op).schema := by
  cases op with
  | insert row =>
    cases hi : table.insert row with
    | error e => simp only [Table.apply, hi]; exact h
    | ok p =>
      obtain ⟨hvalid, -, -, hshape, hvers⟩ := hh.insert hi
      simp only [Table.apply, hi]
      rw [hshape.schema, hvers]
      exact h.write (validateRow_ok_iff_rowFits.1 hvalid) _ _
  | erase rowId =>
    obtain ⟨-, -, hshape, hvers⟩ := hh.erase rowId
    simp only [Table.apply]
    rw [hshape.schema, hvers]
    split_ifs
    · exact h.erase _ _
    · exact h
  | update rowId index value =>
    cases hu : table.update rowId index value with
    | error e => simp only [Table.apply, hu]; exact h
    | ok p =>
      obtain ⟨updated, table'⟩ := p
      obtain ⟨hiff, hh', hshape, hsame, hvers⟩ := hh.update hu
      simp only [Table.apply, hu]
      cases updated with
      | false => rw [hsame rfl]; exact h
      | true =>
        rw [hshape.schema, hvers rfl]
        -- the new version is the row that the row store now holds
        refine h.write (validateRow_ok_iff_rowFits.1 ?_) _ _
        have hlt := (hiff.1 rfl).1
        rw [← hshape.schema]
        refine hh'.fits _ ?_
        rw [List.mem_iff_getElem?]
        refine ⟨rowId, ?_⟩
        rw [if_pos rfl, List.getElem?_modify, List.getD_eq_getElem?_getD,
          List.getElem?_eq_getElem hlt]
        simp
  | createIndex name column =>
    obtain ⟨-, -, hschema, hvers, -, -⟩ := hh.createIndex name column
    simp only [Table.apply]
    rw [hschema, hvers]
    exact h
  | replaceRows new =>
    cases hr : table.replaceRows new with
    | error e => simp only [Table.apply, hr]; exact h
    | ok table' =>
      obtain ⟨hvalid, -, hshape, hvers⟩ := hh.replaceRows hr
      simp only [Table.apply, hr]
      rw [hshape.schema]
      intro rowId chain hchain version hv
      have hrel := hvers rowId
      rw [hchain] at hrel
      generalize hnew : new[rowId]? = found at hrel
      cases hrel with
      | some hone =>
        obtain ⟨id, rfl⟩ := hone
        rw [List.mem_singleton.1 hv]
        exact validateRow_ok_iff_rowFits.1 (hvalid _ (List.mem_of_getElem? hnew))

theorem Holds.versionsFit_run (hh : table.Holds rows) (h : table.versions.Fits table.schema)
    (ops : List Op) : (table.run ops).versions.Fits (table.run ops).schema := by
  induction ops generalizing table rows with
  | nil => exact h
  | cons op ops ih =>
    obtain ⟨rows', hh'⟩ := hh.apply op
    exact ih hh' (hh.versionsFit_apply h op)

theorem Reached.versionsFit (h : table.Reached) : table.versions.Fits table.schema := by
  obtain ⟨name, schema, new, ops, hmake, rfl⟩ := h
  have hempty : new.versions = .empty := by
    unfold Table.make at hmake
    split_ifs at hmake
    cases hmake
    rfl
  refine (holds_make hmake).1.versionsFit_run ?_ ops
  rw [hempty]
  exact MvccRowStore.fits_empty _

theorem Reached.rowFits (h : table.Reached) {row : Row} (hrow : row ∈ table.rowsSnapshot) :
    RowFits table.schema row := validateRow_ok_iff_rowFits.1 (h.holds.fits row hrow)

/-- A row that some read of the table returns. -/
inductive Returns (table : Table) (row : Row) : Prop
  | snapshot (h : row ∈ table.rowsSnapshot)
  | snapshotAt (readerId : TransactionId) (h : row ∈ table.rowsSnapshotAt readerId)
  | byId (rowIds : List RowId) (h : row ∈ table.rowsById rowIds)
  | byIdAt (rowIds : List RowId) (readerId : TransactionId)
    (h : row ∈ table.rowsByIdAt rowIds readerId)

theorem Reached.rowFits_of_returns (h : table.Reached) {row : Row} (hrow : table.Returns row) :
    RowFits table.schema row := by
  cases hrow with
  | snapshot hmem => exact h.rowFits hmem
  | snapshotAt readerId hmem =>
    obtain ⟨rowId, -, hread⟩ := List.mem_filterMap.1 hmem
    exact h.versionsFit.read hread
  | byId rowIds hmem =>
    rw [rowsById, h.holds.represents.rowsById_eq, VectorRowStore.rowsById,
      List.mem_filterMap] at hmem
    obtain ⟨rowId, -, hget⟩ := hmem
    exact h.rowFits (List.mem_of_getElem? hget)
  | byIdAt rowIds readerId hmem =>
    obtain ⟨rowId, -, hread⟩ := List.mem_filterMap.1 hmem
    exact h.versionsFit.read hread

end Table

end VertexDB
