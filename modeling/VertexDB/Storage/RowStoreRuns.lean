import VertexDB.Storage.RowStore

/-!
# Runs of row store calls

A `StoreCall` is a call of one of the operations that change a row store.  The page store answers
every sequence of calls as the vector store does, and then reads the same
(`refines_vectorRowStore`), whatever the number of rows per page and the capacity of the buffer
pool.
-/

namespace VertexDB

/-- A call of `append`, `erase`, `update` or `replaceRows`. -/
inductive StoreCall
  | append (row : Row)
  | erase (rowId : RowId)
  | update (rowId : RowId) (row : Row)
  | replaceRows (rows : List Row)

/-- What a call returns. -/
inductive StoreAnswer
  | rowId (rowId : RowId)
  | changed (changed : Bool)
  | none
  deriving DecidableEq

namespace VectorRowStore

/-- `VectorRowStore::replaceRows`. -/
def replaceRows (_ : VectorRowStore) (rows : List Row) : VectorRowStore := ⟨rows⟩

/-- `VectorRowStore::snapshot`. -/
def snapshot (store : VectorRowStore) : List Row := store.rows

/-- `VectorRowStore::size`. -/
def size (store : VectorRowStore) : ℕ := store.rows.length

/-- One call. -/
def call (store : VectorRowStore) : StoreCall → StoreAnswer × VectorRowStore
  | .append row => (.rowId (store.append row).1, (store.append row).2)
  | .erase rowId => (.changed (store.erase rowId).1, (store.erase rowId).2)
  | .update rowId row => (.changed (store.update rowId row).1, (store.update rowId row).2)
  | .replaceRows rows => (.none, store.replaceRows rows)

/-- The answers of a sequence of calls, and the store after them. -/
def run (store : VectorRowStore) : List StoreCall → List StoreAnswer × VectorRowStore
  | [] => ([], store)
  | call :: calls =>
    let (answer, store) := store.call call
    let (answers, store) := run store calls
    (answer :: answers, store)

end VectorRowStore

namespace PageRowStore

/-- One call. -/
def call (store : PageRowStore) : StoreCall → StoreAnswer × PageRowStore
  | .append row => (.rowId (store.append row).1, (store.append row).2)
  | .erase rowId => (.changed (store.erase rowId).1, (store.erase rowId).2)
  | .update rowId row => (.changed (store.update rowId row).1, (store.update rowId row).2)
  | .replaceRows rows => (.none, store.replaceRows rows)

/-- The answers of a sequence of calls, and the store after them. -/
def run (store : PageRowStore) : List StoreCall → List StoreAnswer × PageRowStore
  | [] => ([], store)
  | call :: calls =>
    let (answer, store) := store.call call
    let (answers, store) := run store calls
    (answer :: answers, store)

variable {store : PageRowStore} {rows : List Row}

/-- A page store over a list of rows does what the vector store over the list does. -/
theorem Represents.call (h : store.Represents rows) (call : StoreCall) :
    (store.call call).1 = ((VectorRowStore.mk rows).call call).1 ∧
      (store.call call).2.Represents ((VectorRowStore.mk rows).call call).2.rows := by
  cases call with
  | append row =>
    obtain ⟨hid, hafter⟩ := h.append row
    exact ⟨congrArg StoreAnswer.rowId hid, hafter⟩
  | erase rowId =>
    obtain ⟨herased, hafter⟩ := h.erase rowId
    exact ⟨congrArg StoreAnswer.changed herased, hafter⟩
  | update rowId row =>
    obtain ⟨hupdated, hafter⟩ := h.update rowId row
    exact ⟨congrArg StoreAnswer.changed hupdated, hafter⟩
  | replaceRows new => exact ⟨rfl, represents_replaceRows store new⟩

theorem Represents.run (h : store.Represents rows) (calls : List StoreCall) :
    (store.run calls).1 = ((VectorRowStore.mk rows).run calls).1 ∧
      (store.run calls).2.Represents ((VectorRowStore.mk rows).run calls).2.rows := by
  induction calls generalizing store rows with
  | nil => exact ⟨rfl, h⟩
  | cons call calls ih =>
    obtain ⟨hanswer, hafter⟩ := h.call call
    obtain ⟨hanswers, hlast⟩ := ih hafter
    refine ⟨?_, hlast⟩
    simp only [PageRowStore.run, VectorRowStore.run]
    rw [hanswer, hanswers]

theorem represents_make {rowsPerPage bufferPageCapacity : ℕ} (hrows : 1 ≤ rowsPerPage)
    (hcapacity : 1 ≤ bufferPageCapacity) :
    ∃ store, make rowsPerPage bufferPageCapacity = .ok store ∧ store.Represents [] := by
  refine ⟨⟨rowsPerPage, hrows, ⟨bufferPageCapacity, hcapacity, [], .empty, 0⟩, [], .empty⟩, ?_,
    rfl, rfl, fun _ => rfl⟩
  simp only [make, BufferPool.make]
  rw [dif_pos (show 0 < bufferPageCapacity from hcapacity)]
  exact dif_pos hrows

/-- **The page store refines the vector store**: the same calls give the same answers, and after
them the two stores read the same. -/
theorem refines_vectorRowStore {rowsPerPage bufferPageCapacity : ℕ} (hrows : 1 ≤ rowsPerPage)
    (hcapacity : 1 ≤ bufferPageCapacity) (calls : List StoreCall) :
    ∃ store, make rowsPerPage bufferPageCapacity = .ok store ∧
      (store.run calls).1 = ((VectorRowStore.mk []).run calls).1 ∧
      (store.run calls).2.size = ((VectorRowStore.mk []).run calls).2.size ∧
      (store.run calls).2.snapshot = ((VectorRowStore.mk []).run calls).2.snapshot ∧
      (∀ rowId, (store.run calls).2.get rowId = ((VectorRowStore.mk []).run calls).2.get rowId) ∧
      ∀ rowIds, (store.run calls).2.rowsById rowIds =
        ((VectorRowStore.mk []).run calls).2.rowsById rowIds := by
  obtain ⟨store, hmake, hempty⟩ := represents_make hrows hcapacity
  obtain ⟨hanswers, hafter⟩ := hempty.run calls
  exact ⟨store, hmake, hanswers, hafter.size_eq, hafter.snapshot_eq, hafter.get_eq,
    hafter.rowsById_eq⟩

/-- Three rows on pages of two, an erase that moves the last one to the first page, and an update
out of range. -/
theorem refines_vectorRowStore_moved : ∃ store, make 2 1 = .ok store ∧
    (store.run [.append [.int 1], .append [.int 2], .append [.int 3], .erase 0,
      .update 5 [.null]]).2.snapshot = [[.int 2], [.int 3]] := by
  obtain ⟨store, hmake, -, -, hsnapshot, -⟩ := @refines_vectorRowStore 2 1 (by decide) (by decide)
    [.append [.int 1], .append [.int 2], .append [.int 3], .erase 0, .update 5 [.null]]
  exact ⟨store, hmake, hsnapshot⟩

end PageRowStore

end VertexDB
