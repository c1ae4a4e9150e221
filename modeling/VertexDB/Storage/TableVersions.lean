import VertexDB.Storage.TableRuns

/-!
# Current reads through the row versions

Inside a transaction rows are read through the version store, with the greatest transaction
identifier as reader.  Such a reader sees the newest version of a row id that no erase has
marked.  `Table.Coherent` says that this agrees with the row store at every row id.

`erase` marks only the newest version of the row id it is given, while the row store moves the
later rows down.  So an erase keeps the agreement when it removes the last row and all older
versions of that row id are marked already, that is when the row has not been updated since it
was inserted (`Table.Op.KeepsVersions`), and every other call keeps it always (`coherent_apply`).
-/

namespace VertexDB

namespace MvccRowStore

/-! ### What the greatest reader sees -/

theorem visibleTo_max (version : RowVersion) :
    version.visibleTo .max = version.deletedBy.isNone := by
  have hc : version.createdBy ≤ TransactionId.max := TransactionId.le_max _
  cases hd : version.deletedBy with
  | none => simp [RowVersion.visibleTo, hc, hd]
  | some id =>
    have hid : ¬ TransactionId.max < id := not_lt.2 (TransactionId.le_max _)
    simp [RowVersion.visibleTo, hd, hid]

theorem newestVisible_concat (chain : List RowVersion) (version : RowVersion) :
    newestVisible (chain ++ [version]) .max =
      if version.deletedBy.isNone then some version.row else newestVisible chain .max := by
  simp only [newestVisible, List.reverse_append, List.reverse_singleton, List.singleton_append,
    List.find?_cons, visibleTo_max]
  cases version.deletedBy.isNone <;> rfl

theorem newestVisible_eq_none {chain : List RowVersion}
    (h : ∀ version ∈ chain, version.deletedBy.isSome = true) : newestVisible chain .max = none := by
  rw [newestVisible, Option.map_eq_none_iff, List.find?_eq_none]
  intro version hv
  have := h version (List.mem_reverse.1 hv)
  rw [visibleTo_max]
  cases hd : version.deletedBy with
  | none => simp [hd] at this
  | some id => simp

theorem markDeleted_concat (id : TransactionId) (chain : List RowVersion) (version : RowVersion) :
    markDeleted id (chain ++ [version]) = chain ++ [{ version with deletedBy := some id }] :=
  markDeleted_append id chain (by simp)

/-- Marking the newest version uncovers the older ones. -/
theorem newestVisible_markDeleted (id : TransactionId) (chain : List RowVersion) :
    newestVisible (markDeleted id chain) .max = newestVisible chain.dropLast .max := by
  rcases List.eq_nil_or_concat chain with rfl | ⟨older, version, rfl⟩
  · rfl
  · rw [List.concat_eq_append, markDeleted_concat, newestVisible_concat, List.dropLast_concat]
    rfl

theorem read_write (store : MvccRowStore) (rowId j : RowId) (row : Row) (id : TransactionId) :
    (store.write rowId row id).read j .max = if j = rowId then some row else store.read j .max := by
  simp only [read, write, SortedMap.find?_upsert]
  split_ifs with h
  · rw [Option.bind_some, newestVisible_concat]; rfl
  · rfl

theorem read_erase (store : MvccRowStore) (rowId j : RowId) (id : TransactionId) :
    (store.erase rowId id).read j .max =
      if j = rowId then newestVisible (((store.versions.find? rowId).getD []).dropLast) .max
      else store.read j .max := by
  simp only [read, erase, SortedMap.find?_adjust]
  split_ifs with h
  · cases store.versions.find? rowId with
    | none => rfl
    | some chain => exact newestVisible_markDeleted id chain
  · rfl

/-- Listing the visible rows by increasing row id. -/
theorem visibleRows_eq {store : MvccRowStore} {rows : List Row} {readerId : TransactionId}
    (h : ∀ j : ℕ, store.read j readerId = rows[j]?) : store.visibleRows readerId = rows := by
  have hkeys : store.versions.keys.filter (fun j => decide (j < rows.length)) =
      List.range rows.length := by
    refine List.Perm.eq_of_pairwise' (r := (· < ·)) (store.versions.sorted_keys.filter _)
      List.pairwise_lt_range ?_
    have hnodup : store.versions.keys.Nodup := store.versions.sorted_keys.imp fun h => h.ne
    refine (List.perm_ext_iff_of_nodup (hnodup.filter _) List.nodup_range).2 fun j => ?_
    simp only [List.mem_filter, decide_eq_true_eq, List.mem_range, and_iff_right_iff_imp]
    intro hj
    have hread := h j
    rw [List.getElem?_eq_getElem hj, read, Option.bind_eq_some_iff] at hread
    obtain ⟨chain, hchain, -⟩ := hread
    exact SortedMap.mem_keys_iff.2 ⟨chain, hchain⟩
  calc store.visibleRows readerId
      = store.versions.keys.filterMap (rows[·]?) := List.filterMap_congr fun j _ => h j
    _ = (store.versions.keys.filter fun j => decide (j < rows.length)).filterMap (rows[·]?) := by
        rw [List.filterMap_filter]
        refine List.filterMap_congr fun j _ => ?_
        by_cases hj : j < rows.length
        · simp [hj]
        · simp [hj]
    _ = (List.range rows.length).filterMap (some ∘ fun j => rows.getD j []) := by
        rw [hkeys]
        refine List.filterMap_congr fun j hj => ?_
        have hj := List.mem_range.1 hj
        simp [List.getD_eq_getElem?_getD, hj]
    _ = (List.range rows.length).map fun j => rows.getD j [] := by rw [List.filterMap_eq_map]
    _ = rows := by
        refine List.ext_getElem (by simp) fun i h1 h2 => ?_
        simp [List.getD_eq_getElem?_getD, h2]

end MvccRowStore

namespace Table

/-- The version store shows the greatest reader the rows of the row store, at every row id. -/
def Coherent (table : Table) : Prop :=
  ∀ rowId : ℕ, table.versions.read rowId .max = table.rowsSnapshot[rowId]?

theorem Coherent.rowsSnapshotAt_eq {table : Table} (h : table.Coherent) :
    table.rowsSnapshotAt .max = table.rowsSnapshot := MvccRowStore.visibleRows_eq h

theorem Coherent.rowsByIdAt_eq {table : Table} {rows : List Row} (hh : table.Holds rows)
    (h : table.Coherent) (rowIds : List RowId) :
    table.rowsByIdAt rowIds .max = table.rowsById rowIds := by
  rw [rowsByIdAt, MvccRowStore.visibleRowsById, rowsById, hh.represents.rowsById_eq,
    VectorRowStore.rowsById]
  refine List.filterMap_congr fun j _ => ?_
  rw [h j, hh.rowsSnapshot_eq]
  rfl

/-- A call that keeps the versions in step with the rows: any call but an erase; an erase out of
range; or an erase of the last row when the versions of its row id are marked as deleted, the
newest apart. -/
def Op.KeepsVersions (table : Table) : Op → Prop
  | .erase rowId => table.rowCount ≤ rowId ∨
      (rowId + 1 = table.rowCount ∧
        ∀ version ∈ ((table.versions.versions.find? rowId).getD []).dropLast,
          version.deletedBy.isSome = true)
  | _ => True

/-- A sequence of such calls. -/
def KeepsVersionsRun : Table → List Op → Prop
  | _, [] => True
  | table, op :: ops => op.KeepsVersions table ∧ KeepsVersionsRun (table.apply op) ops

theorem coherent_make {name : Str} {schema : List Column} {table : Table}
    (h : make name schema = .ok table) : table.Coherent := by
  intro rowId
  rw [(holds_make h).1.rowsSnapshot_eq]
  unfold make at h
  split_ifs at h
  cases h
  rfl

theorem coherent_apply {table : Table} {rows : List Row} (hh : table.Holds rows)
    (h : table.Coherent) {op : Op} (hop : op.KeepsVersions table) :
    (table.apply op).Coherent := by
  have hread : ∀ j : ℕ, table.versions.read j .max = rows[j]? := fun j => by
    rw [h j, hh.rowsSnapshot_eq]
  cases op with
  | insert row =>
    cases hi : table.insert row with
    | error e => simp only [apply, hi]; exact h
    | ok p =>
      obtain ⟨rowId, table'⟩ := p
      obtain ⟨-, -, hh', -, hvers⟩ := hh.insert hi
      intro j
      simp only [apply, hi]
      rw [hh'.rowsSnapshot_eq, hvers, MvccRowStore.read_write, hread]
      split_ifs with hj
      · subst hj; simp
      · rcases Nat.lt_or_ge j rows.length with hlt | hge
        · rw [List.getElem?_append_left hlt]
        · have hj' : rows.length < j := lt_of_le_of_ne hge (Ne.symm hj)
          rw [List.getElem?_eq_none hge, List.getElem?_eq_none (by simpa using hj')]
  | erase rowId =>
    obtain ⟨-, hh', -, hvers⟩ := hh.erase rowId
    intro j
    simp only [apply]
    rw [hh'.rowsSnapshot_eq, hvers]
    by_cases hlt : rowId < rows.length
    · rw [if_pos hlt, MvccRowStore.read_erase]
      rcases hop with hout | ⟨hlast, hmarked⟩
      · rw [hh.rowCount_eq] at hout
        exact absurd hlt (Nat.not_lt.2 hout)
      · rw [hh.rowCount_eq] at hlast
        -- the erased row is the last one, so the other rows keep their places
        have hdrop : rows.eraseIdx rowId = rows.take rowId := by
          rw [List.eraseIdx_eq_take_drop_succ, List.drop_eq_nil_of_le hlast.ge, List.append_nil]
        rw [hdrop, List.getElem?_take]
        split_ifs with hj hj' hj'
        · exact absurd hj (Nat.ne_of_lt hj')
        · exact MvccRowStore.newestVisible_eq_none hmarked
        · exact hread j
        · have hj'' : rows.length ≤ j := by
            rw [← hlast]
            exact Nat.lt_of_le_of_ne (Nat.le_of_not_lt hj') (Ne.symm hj)
          rw [hread, List.getElem?_eq_none hj'']
    · rw [if_neg hlt, hread, List.eraseIdx_of_length_le (Nat.le_of_not_lt hlt)]
  | update rowId index value =>
    cases hu : table.update rowId index value with
    | error e => simp only [apply, hu]; exact h
    | ok p =>
      obtain ⟨updated, table'⟩ := p
      obtain ⟨hiff, hh', -, hsame, hvers⟩ := hh.update hu
      simp only [apply, hu]
      cases updated with
      | false => rw [hsame rfl]; exact h
      | true =>
        have hlt := (hiff.1 rfl).1
        intro j
        rw [hh'.rowsSnapshot_eq, hvers rfl, MvccRowStore.read_write, if_pos rfl,
          List.getElem?_modify, hread]
        split_ifs with hj hj' hj'
        · subst hj
          simp [List.getD_eq_getElem?_getD, hlt]
        · exact absurd hj.symm hj'
        · exact absurd hj'.symm hj
        · simp
  | createIndex name column =>
    obtain ⟨hh', -, -, hvers, -, -⟩ := hh.createIndex name column
    intro j
    simp only [apply]
    rw [hh'.rowsSnapshot_eq, hvers, hread]
  | replaceRows new =>
    cases hr : table.replaceRows new with
    | error e => simp only [apply, hr]; exact h
    | ok table' =>
      obtain ⟨-, hh', -, hvers⟩ := hh.replaceRows hr
      intro j
      simp only [apply, hr]
      rw [hh'.rowsSnapshot_eq, MvccRowStore.read]
      have := hvers j
      generalize new[j]? = row at this ⊢
      generalize table'.versions.versions.find? j = chain at this ⊢
      cases this with
      | none => rfl
      | some hchain =>
        obtain ⟨id, rfl⟩ := hchain
        exact MvccRowStore.newestVisible_concat [] _

theorem coherent_run {table : Table} {rows : List Row} (hh : table.Holds rows)
    (h : table.Coherent) {ops : List Op} (hops : table.KeepsVersionsRun ops) :
    (table.run ops).Coherent := by
  induction ops generalizing table rows with
  | nil => exact h
  | cons op ops ih =>
    obtain ⟨rows', hh'⟩ := hh.apply op
    exact ih hh' (coherent_apply hh h hops.1) hops.2

end Table

end VertexDB
