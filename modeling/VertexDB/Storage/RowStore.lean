import VertexDB.Storage.BufferPool

/-!
# Row stores

`VectorRowStore` is a list of rows.  `PageRowStore` keeps rows in pages of a fixed number of rows,
with one slot per row that says where the row is, and mirrors the bytes of each changed page into
a buffer pool.  `PageRowStore.Represents` relates the second to the first: the slots and the pages
are the rows of a list cut into pages.  Every operation of the page store keeps the relation and
answers as the vector store does.
-/

namespace VertexDB

open ByteCodec

/-! ### Vector rows -/

/-- `VectorRowStore`. -/
structure VectorRowStore where
  rows : List Row
  deriving DecidableEq

namespace VectorRowStore

/-- `VectorRowStore::append`. -/
def append (store : VectorRowStore) (row : Row) : RowId × VectorRowStore :=
  (store.rows.length, ⟨store.rows ++ [row]⟩)

/-- `VectorRowStore::erase`. -/
def erase (store : VectorRowStore) (rowId : RowId) : Bool × VectorRowStore :=
  if store.rows.length ≤ rowId then (false, store) else (true, ⟨store.rows.eraseIdx rowId⟩)

/-- `VectorRowStore::update`. -/
def update (store : VectorRowStore) (rowId : RowId) (row : Row) : Bool × VectorRowStore :=
  if store.rows.length ≤ rowId then (false, store) else (true, ⟨store.rows.set rowId row⟩)

/-- `VectorRowStore::get`. -/
def get (store : VectorRowStore) (rowId : RowId) : Option Row := store.rows[rowId]?

/-- `VectorRowStore::rowsById`. -/
def rowsById (store : VectorRowStore) (rowIds : List RowId) : List Row :=
  rowIds.filterMap store.get

end VectorRowStore

/-! ### Paged rows -/

/-- `PageRowStore::Slot`. -/
structure Slot where
  pageId : PageId
  offset : ℕ
  deriving DecidableEq

/-- `PageRowStore`. -/
structure PageRowStore where
  rowsPerPage : ℕ
  /-- The constructor rejects pages without rows. -/
  rowsPerPage_pos : 0 < rowsPerPage
  bufferPool : BufferPool
  slots : List Slot
  pages : SortedMap PageId (List Row)

/-- `appendValue`: the bytes of a value. -/
def appendValue : Value → List Byte
  | .null => leBytes 1 255
  | .int i => leBytes 1 ColumnType.int.code ++ leBytes 8 i.toBits
  | .double d => leBytes 1 ColumnType.double.code ++ leBytes 8 d.bits.val
  | .string s => leBytes 1 ColumnType.string.code ++ leBytes 8 s.length ++ s

/-- `PageRowStore::serializePage`. -/
def serializePage (pageId : PageId) (rows : List Row) : Page where
  id := pageId
  bytes := leBytes 8 rows.length ++
    rows.flatMap fun row => leBytes 8 row.length ++ row.flatMap appendValue
  dirty := true

namespace PageRowStore

/-- The constructor. -/
def make (rowsPerPage bufferPageCapacity : ℕ) : Except Exception PageRowStore := do
  let bufferPool ← BufferPool.make bufferPageCapacity
  if h : 0 < rowsPerPage then return ⟨rowsPerPage, h, bufferPool, [], .empty⟩
  else throw (.invalidArgument "rows per page must be positive")

/-- `PageRowStore::append`. -/
def append (store : PageRowStore) (row : Row) : RowId × PageRowStore :=
  let rowId := store.slots.length
  let pageId := rowId / store.rowsPerPage + 1
  let pageRows := (store.pages.find? pageId).getD [] ++ [row]
  (rowId, { store with
    pages := store.pages.insert pageId pageRows
    slots := store.slots ++ [⟨pageId, pageRows.length - 1⟩]
    bufferPool := store.bufferPool.put (serializePage pageId pageRows) })

/-- The row of a slot, if its page holds one there. -/
def slotRow (store : PageRowStore) (slot : Slot) : Option Row :=
  (store.pages.find? slot.pageId).bind fun page => page[slot.offset]?

/-- `PageRowStore::get`. -/
def get (store : PageRowStore) (rowId : RowId) : Option Row :=
  store.slots[rowId]?.bind store.slotRow

/-- `PageRowStore::snapshot`. -/
def snapshot (store : PageRowStore) : List Row := store.slots.filterMap store.slotRow

/-- `PageRowStore::rowsById`. -/
def rowsById (store : PageRowStore) (rowIds : List RowId) : List Row := rowIds.filterMap store.get

/-- `PageRowStore::size`. -/
def size (store : PageRowStore) : ℕ := store.slots.length

/-- `PageRowStore::replaceRows`; the buffer pool keeps its pages. -/
def replaceRows (store : PageRowStore) (rows : List Row) : PageRowStore :=
  rows.foldl (fun store row => (store.append row).2) { store with pages := .empty, slots := [] }

/-- `PageRowStore::erase`. -/
def erase (store : PageRowStore) (rowId : RowId) : Bool × PageRowStore :=
  if store.slots.length ≤ rowId then (false, store)
  else (true, store.replaceRows (store.snapshot.eraseIdx rowId))

/-- `PageRowStore::update`. -/
def update (store : PageRowStore) (rowId : RowId) (row : Row) : Bool × PageRowStore :=
  match store.slots[rowId]? with
  | none => (false, store)
  | some slot =>
    let pages := store.pages.adjust slot.pageId fun page => page.set slot.offset row
    let pageRows := (pages.find? slot.pageId).getD []
    (true, { store with
      pages := pages
      bufferPool := store.bufferPool.put (serializePage slot.pageId pageRows) })

end PageRowStore

/-- `makePageRowStore`: the default sizes. -/
def makePageRowStore : PageRowStore where
  rowsPerPage := 256
  rowsPerPage_pos := by decide
  bufferPool := ⟨128, by decide, [], .empty, 0⟩
  slots := []
  pages := .empty

theorem makePageRowStore_eq : PageRowStore.make 256 128 = .ok makePageRowStore := rfl

/-! ### The page store refines the vector store -/

namespace PageRowStore

/-- The rows of page `p + 1` when `rows` are cut into pages. -/
def pageOf (rowsPerPage : ℕ) (rows : List Row) (p : ℕ) : List Row :=
  (rows.drop (p * rowsPerPage)).take rowsPerPage

/-- `store` holds the list `rows`: the `i`-th row is row `i % n` of page `i / n + 1`, where `n` is
the number of rows per page, and there are no other pages. -/
structure Represents (store : PageRowStore) (rows : List Row) : Prop where
  slots_eq : store.slots = (List.range rows.length).map fun i =>
    ⟨i / store.rowsPerPage + 1, i % store.rowsPerPage⟩
  pages_zero : store.pages.find? 0 = none
  pages_succ : ∀ p, store.pages.find? (p + 1) =
    if p * store.rowsPerPage < rows.length then some (pageOf store.rowsPerPage rows p) else none

variable {store : PageRowStore} {rows : List Row}

theorem getElem?_pageOf {n : ℕ} (hn : 0 < n) (rows : List Row) (i : ℕ) :
    (pageOf n rows (i / n))[i % n]? = rows[i]? := by
  have h1 : i % n < n := Nat.mod_lt _ hn
  rw [pageOf, List.getElem?_take, if_pos h1, List.getElem?_drop, Nat.div_add_mod']

/-- The bounds of the page that holds position `len`. -/
theorem div_bounds {n : ℕ} (hn : 0 < n) (len : ℕ) :
    len / n * n ≤ len ∧ len < len / n * n + n ∧ len - len / n * n = len % n := by
  have h1 := Nat.div_add_mod' len n
  have h2 := Nat.mod_lt len hn
  refine ⟨?_, ?_, ?_⟩ <;> omega

theorem length_pageOf_last {n : ℕ} (hn : 0 < n) (rows : List Row) :
    (pageOf n rows (rows.length / n)).length = rows.length % n := by
  obtain ⟨h1, h2, h3⟩ := div_bounds hn rows.length
  simp only [pageOf, List.length_take, List.length_drop]
  omega

theorem pageOf_append_last {n : ℕ} (hn : 0 < n) (rows : List Row) (row : Row) :
    pageOf n (rows ++ [row]) (rows.length / n) = pageOf n rows (rows.length / n) ++ [row] := by
  obtain ⟨h1, h2, h3⟩ := div_bounds hn rows.length
  have hlen : (rows.drop (rows.length / n * n)).length < n := by
    rw [List.length_drop]; omega
  rw [pageOf, pageOf, List.drop_append_of_le_length h1, List.take_append,
    List.take_of_length_le hlen.le, List.take_of_length_le (l := [row])]
  rw [List.length_singleton]; omega

theorem pageOf_append_of_ne {n p : ℕ} (hn : 0 < n) {rows : List Row} (row : Row)
    (hp : p ≠ rows.length / n) (hlt : p * n < rows.length) :
    pageOf n (rows ++ [row]) p = pageOf n rows p := by
  have hle : p + 1 ≤ rows.length / n :=
    lt_of_le_of_ne ((Nat.le_div_iff_mul_le hn).2 hlt.le) hp
  have hfull : p * n + n ≤ rows.length := by
    have := (Nat.le_div_iff_mul_le hn).1 hle
    rwa [Nat.add_mul, Nat.one_mul] at this
  rw [pageOf, pageOf, List.drop_append_of_le_length hlt.le, List.take_append_of_le_length]
  rw [List.length_drop]; omega

theorem mul_lt_succ_iff {n p len : ℕ} (hn : 0 < n) (hp : p ≠ len / n) :
    p * n < len + 1 ↔ p * n < len := by
  refine ⟨fun h => lt_of_le_of_ne (Nat.lt_succ_iff.1 h) fun h' => hp ?_, fun h => by omega⟩
  rw [← h', Nat.mul_div_cancel _ hn]

theorem represents_makePageRowStore : makePageRowStore.Represents [] where
  slots_eq := rfl
  pages_zero := rfl
  pages_succ _ := rfl

namespace Represents

theorem size_eq (h : store.Represents rows) : store.size = rows.length := by
  simp [size, h.slots_eq]

theorem slotRow_eq (h : store.Represents rows) {i : ℕ} (hi : i < rows.length) :
    store.slotRow ⟨i / store.rowsPerPage + 1, i % store.rowsPerPage⟩ = rows[i]? := by
  have hp : i / store.rowsPerPage * store.rowsPerPage < rows.length :=
    lt_of_le_of_lt (Nat.div_mul_le_self _ _) hi
  simp only [slotRow, h.pages_succ, if_pos hp, Option.bind_some]
  exact getElem?_pageOf store.rowsPerPage_pos rows i

theorem get_eq (h : store.Represents rows) (i : ℕ) : store.get i = rows[i]? := by
  unfold get
  by_cases hi : i < rows.length
  · simp only [h.slots_eq, List.getElem?_map, List.getElem?_range hi, Option.map_some,
      Option.bind_some]
    exact h.slotRow_eq hi
  · have hr : (List.range rows.length)[i]? = none := by simpa using hi
    have hi' : rows[i]? = none := by simpa using hi
    simp [h.slots_eq, hr, hi']

theorem snapshot_eq (h : store.Represents rows) : store.snapshot = rows := by
  rw [snapshot, h.slots_eq, List.filterMap_map]
  calc (List.range rows.length).filterMap _
      = (List.range rows.length).filterMap (some ∘ fun i => rows.getD i []) := by
        refine List.filterMap_congr fun i hi => ?_
        have hi := List.mem_range.1 hi
        refine (h.slotRow_eq hi).trans ?_
        simp [List.getD_eq_getElem?_getD, hi]
    _ = (List.range rows.length).map fun i => rows.getD i [] := by rw [List.filterMap_eq_map]
    _ = rows := by
        refine List.ext_getElem (by simp) fun i h1 h2 => ?_
        simp [List.getD_eq_getElem?_getD, h2]

theorem rowsById_eq (h : store.Represents rows) (ids : List RowId) :
    store.rowsById ids = (VectorRowStore.mk rows).rowsById ids := by
  have : store.get = (VectorRowStore.mk rows).get := funext h.get_eq
  rw [rowsById, VectorRowStore.rowsById, this]

/-- The rows already on the page of the next row. -/
theorem getD_lastPage (h : store.Represents rows) :
    (store.pages.find? (rows.length / store.rowsPerPage + 1)).getD [] =
      pageOf store.rowsPerPage rows (rows.length / store.rowsPerPage) := by
  rw [h.pages_succ]
  split_ifs with hlt
  · rfl
  · rw [pageOf, List.drop_eq_nil_of_le (Nat.le_of_not_lt hlt), List.take_nil]; rfl

theorem append (h : store.Represents rows) (row : Row) :
    (store.append row).1 = rows.length ∧ (store.append row).2.Represents (rows ++ [row]) := by
  have hn := store.rowsPerPage_pos
  have hlen : store.slots.length = rows.length := h.size_eq
  obtain ⟨h1, h2, h3⟩ := div_bounds hn rows.length
  have hold := h.getD_lastPage
  refine ⟨hlen, ?_, ?_, ?_⟩
  · simp only [PageRowStore.append, hlen, hold, List.length_append, List.length_singleton,
      length_pageOf_last hn, List.range_succ, List.map_append, List.map_singleton,
      Nat.add_sub_cancel]
    rw [h.slots_eq]
  · simp [PageRowStore.append, h.pages_zero]
  · intro p
    simp only [PageRowStore.append, hlen, hold, SortedMap.find?_insert, Nat.add_right_cancel_iff,
      List.length_append, List.length_singleton]
    by_cases hp : p = rows.length / store.rowsPerPage
    · subst hp
      rw [if_pos rfl, if_pos (Nat.lt_succ_of_le h1), pageOf_append_last hn]
    · rw [if_neg hp, h.pages_succ]
      by_cases hlt : p * store.rowsPerPage < rows.length
      · rw [if_pos hlt, if_pos (Nat.lt_succ_of_lt hlt), pageOf_append_of_ne hn row hp hlt]
      · rw [if_neg hlt, if_neg fun h' => hlt ((mul_lt_succ_iff hn hp).1 h')]

/-- Appending a list of rows one by one. -/
theorem foldl_append (h : store.Represents rows) (more : List Row) :
    (more.foldl (fun store row => (store.append row).2) store).Represents (rows ++ more) := by
  induction more generalizing store rows with
  | nil => simpa using h
  | cons row more ih =>
    have := ih (h.append row).2
    rwa [List.append_assoc] at this

end Represents

theorem represents_replaceRows (store : PageRowStore) (rows : List Row) :
    (store.replaceRows rows).Represents rows := by
  have hempty : ({ store with pages := .empty, slots := [] } : PageRowStore).Represents [] :=
    ⟨rfl, rfl, fun _ => rfl⟩
  exact hempty.foldl_append rows

namespace Represents

theorem erase (h : store.Represents rows) (rowId : RowId) :
    (store.erase rowId).1 = ((VectorRowStore.mk rows).erase rowId).1 ∧
      (store.erase rowId).2.Represents ((VectorRowStore.mk rows).erase rowId).2.rows := by
  have hlen : store.slots.length = rows.length := h.size_eq
  simp only [PageRowStore.erase, VectorRowStore.erase, hlen, h.snapshot_eq]
  split_ifs with hle
  · exact ⟨rfl, h⟩
  · exact ⟨rfl, represents_replaceRows _ _⟩

theorem pageOf_set {n p i : ℕ} (hn : 0 < n) (rows : List Row) (row : Row) :
    pageOf n (rows.set i row) p =
      if p = i / n then (pageOf n rows p).set (i % n) row else pageOf n rows p := by
  obtain ⟨h1, h2, h3⟩ := div_bounds hn i
  refine List.ext_getElem? fun j => ?_
  by_cases hj : j < n
  · split_ifs with hp
    · subst hp
      simp only [pageOf, List.getElem?_take, List.getElem?_set, List.getElem?_drop, hj, if_true,
        List.length_take, List.length_drop]
      by_cases hij : i % n = j
      · rw [if_pos hij, if_pos (by omega)]
        by_cases hlt : i < rows.length
        · rw [if_pos (by omega), if_pos (by omega)]
        · rw [if_neg (by omega), if_neg (by omega)]
      · rw [if_neg hij, if_neg (by omega)]
    · have hne : i ≠ p * n + j := by
        rintro rfl
        refine hp ?_
        rw [Nat.mul_comm, Nat.mul_add_div hn, Nat.div_eq_of_lt hj, Nat.add_zero]
      simp only [pageOf, List.getElem?_take, List.getElem?_set, List.getElem?_drop, hj, if_true,
        if_neg hne]
  · have hnone (l : List Row) (h : l.length ≤ n) : l[j]? = none :=
      List.getElem?_eq_none (by omega)
    have hle (l : List Row) : (pageOf n l p).length ≤ n := by simp [pageOf]
    rw [hnone _ (hle _)]
    split_ifs
    · rw [hnone _ (by rw [List.length_set]; exact hle _)]
    · rw [hnone _ (hle _)]

theorem update (h : store.Represents rows) (rowId : RowId) (row : Row) :
    (store.update rowId row).1 = ((VectorRowStore.mk rows).update rowId row).1 ∧
      (store.update rowId row).2.Represents ((VectorRowStore.mk rows).update rowId row).2.rows := by
  have hn := store.rowsPerPage_pos
  simp only [PageRowStore.update, VectorRowStore.update]
  by_cases hlt : rowId < rows.length
  · have hslot : store.slots[rowId]? =
        some ⟨rowId / store.rowsPerPage + 1, rowId % store.rowsPerPage⟩ := by
      simp [h.slots_eq, hlt]
    rw [hslot, if_neg (Nat.not_le.2 hlt)]
    refine ⟨rfl, ?_, ?_, ?_⟩
    · simpa using h.slots_eq
    · simp [h.pages_zero]
    · intro p
      simp only [SortedMap.find?_adjust, Nat.add_right_cancel_iff, h.pages_succ, List.length_set,
        pageOf_set hn]
      by_cases hp : p = rowId / store.rowsPerPage
      · subst hp
        have hpl : rowId / store.rowsPerPage * store.rowsPerPage < rows.length :=
          lt_of_le_of_lt (Nat.div_mul_le_self _ _) hlt
        simp [hpl]
      · simp [hp]
  · have hslot : store.slots[rowId]? = none := by simpa [h.slots_eq] using hlt
    rw [hslot, if_pos (Nat.le_of_not_lt hlt)]
    exact ⟨rfl, h⟩

end Represents

end PageRowStore

end VertexDB
