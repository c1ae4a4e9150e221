import VertexDB.Common.Value

/-!
# Row versions

`MVCCRowStore` keeps, for every row id, the chain of versions written under it, oldest first.
-/

namespace VertexDB

/-- `TransactionId`, a 64-bit counter. -/
abbrev TransactionId := Fin (2 ^ 64)

/-- `std::numeric_limits<TransactionId>::max()`. -/
def TransactionId.max : TransactionId := Fin.ofNat _ (2 ^ 64 - 1)

theorem TransactionId.le_max (id : TransactionId) : id ≤ TransactionId.max := by
  rw [Fin.le_def, TransactionId.max, Fin.val_ofNat, Nat.mod_eq_of_lt (by decide)]
  omega

/-- `RowVersion`. -/
structure RowVersion where
  createdBy : TransactionId
  deletedBy : Option TransactionId
  row : Row
  deriving DecidableEq

/-- The condition under which `read` returns a version to a reader. -/
def RowVersion.visibleTo (version : RowVersion) (readerId : TransactionId) : Bool :=
  version.createdBy ≤ readerId && version.deletedBy.all (readerId < ·)

/-- `MVCCRowStore`. -/
structure MvccRowStore where
  versions : SortedMap RowId (List RowVersion)
  deriving DecidableEq

namespace MvccRowStore

/-- A new store. -/
def empty : MvccRowStore := ⟨.empty⟩

/-- `MVCCRowStore::write`. -/
def write (store : MvccRowStore) (rowId : RowId) (row : Row) (transactionId : TransactionId) :
    MvccRowStore :=
  ⟨store.versions.upsert rowId [] (· ++ [⟨transactionId, none, row⟩])⟩

/-- Mark the last version of a chain as deleted. -/
def markDeleted (transactionId : TransactionId) : List RowVersion → List RowVersion
  | [] => []
  | [version] => [{ version with deletedBy := some transactionId }]
  | version :: rest => version :: markDeleted transactionId rest

/-- `MVCCRowStore::erase`. -/
def erase (store : MvccRowStore) (rowId : RowId) (transactionId : TransactionId) : MvccRowStore :=
  ⟨store.versions.adjust rowId (markDeleted transactionId)⟩

/-- `MVCCRowStore::clear`. -/
def clear (_ : MvccRowStore) : MvccRowStore := empty

/-- The newest version of a chain that a reader sees. -/
def newestVisible (chain : List RowVersion) (readerId : TransactionId) : Option Row :=
  (chain.reverse.find? (·.visibleTo readerId)).map RowVersion.row

/-- `MVCCRowStore::read`. -/
def read (store : MvccRowStore) (rowId : RowId) (readerId : TransactionId) : Option Row :=
  (store.versions.find? rowId).bind fun chain => newestVisible chain readerId

/-- `MVCCRowStore::visibleRows`. -/
def visibleRows (store : MvccRowStore) (readerId : TransactionId) : List Row :=
  store.versions.keys.filterMap fun rowId => store.read rowId readerId

/-- `MVCCRowStore::visibleRowsById`. -/
def visibleRowsById (store : MvccRowStore) (rowIds : List RowId) (readerId : TransactionId) :
    List Row :=
  rowIds.filterMap fun rowId => store.read rowId readerId

/-- `MVCCRowStore::versionCount`. -/
def versionCount (store : MvccRowStore) (rowId : RowId) : ℕ :=
  ((store.versions.find? rowId).getD []).length

/-! ### The mark of an erase -/

/-- Only the newest version is marked. -/
theorem markDeleted_append (id : TransactionId) (older : List RowVersion) {newer : List RowVersion}
    (h : newer ≠ []) : markDeleted id (older ++ newer) = older ++ markDeleted id newer := by
  induction older with
  | nil => rfl
  | cons version older ih =>
    obtain ⟨next, rest, hrest⟩ := List.exists_cons_of_ne_nil
      (List.append_ne_nil_of_right_ne_nil older h)
    rw [List.cons_append, hrest, markDeleted, ← hrest, ih, List.cons_append]
    simp

theorem mem_markDeleted {id : TransactionId} {chain : List RowVersion} {version : RowVersion}
    (h : version ∈ markDeleted id chain) :
    ∃ old ∈ chain, version.createdBy = old.createdBy ∧ version.row = old.row := by
  rcases List.eq_nil_or_concat chain with rfl | ⟨older, newest, rfl⟩
  · cases h
  · rw [List.concat_eq_append, markDeleted_append id older (by simp), List.mem_append] at h
    rcases h with h | h
    · exact ⟨version, by simp [h], rfl, rfl⟩
    · rw [markDeleted, List.mem_singleton] at h
      exact ⟨newest, by simp, by rw [h], by rw [h]⟩

end MvccRowStore

end VertexDB
