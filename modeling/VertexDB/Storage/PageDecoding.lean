import VertexDB.Persistence.Snapshot
import VertexDB.Storage.PageMirror

/-!
# Pages are uniquely decodable

A page writes its values as a snapshot does, so the reader of values of a snapshot reads those of
a page, and `readPage` reads the counts around them.  It reads the rows off the bytes of a page,
whatever follows these (`reads_readPage`): the bytes determine the rows, and no page goes on where
another one ends.  While the buffer pool mirrors the pages of a store, their rows can therefore be
read from it (`Mirrors.reads`).
-/

namespace VertexDB

open Ascii ByteCodec Reading StorageManager

/-- Every count and every size of the rows fits the field of 64 bits that it is written in. -/
structure RowsSized (rows : List Row) : Prop where
  count : rows.length < 2 ^ 64
  widths : ∀ row ∈ rows, row.length < 2 ^ 64
  values : ∀ row ∈ rows, ∀ value ∈ row, value.Sized

/-- A value has the same bytes in a page and in a snapshot. -/
theorem appendValue_eq_writeValue (value : Value) : appendValue value = writeValue value := by
  cases value with
  | string text => rw [appendValue, writeValue, writeString, List.append_assoc]
  | null | int | double => rfl

/-- The bytes of a row in a page. -/
def pageRow (row : Row) : List Byte := leBytes 8 row.length ++ row.flatMap appendValue

theorem serializePage_bytes (pageId : PageId) (rows : List Row) :
    (serializePage pageId rows).bytes = leBytes 8 rows.length ++ rows.flatMap pageRow := rfl

/-- Read a row of a page. -/
def readPageRow : Reader Exception Row := do
  let width ← readPod 8
  readList width readValue

/-- Read the rows of a page. -/
def readPage : Reader Exception (List Row) := do
  let count ← readPod 8
  readList count readPageRow

theorem reads_readPageRow {row : Row} (hwidth : row.length < 2 ^ 64)
    (hvalues : ∀ value ∈ row, value.Sized) : Reads readPageRow row (pageRow row) := by
  refine (reads_readPod hwidth).bind (reads_readList_same fun value hmem => ?_)
  rw [appendValue_eq_writeValue]
  exact reads_readValue_of_sized (hvalues value hmem)

/-- The bytes of a page are read back to its rows, whatever follows. -/
theorem reads_readPage {rows : List Row} (h : RowsSized rows) (pageId : PageId) :
    Reads readPage rows (serializePage pageId rows).bytes := by
  rw [serializePage_bytes]
  exact (reads_readPod h.count).bind (reads_readList_same fun row hmem =>
    reads_readPageRow (h.widths row hmem) (h.values row hmem))

/-- The rows of a page that is held in the buffer pool are read from its bytes. -/
theorem PageRowStore.Mirrors.reads {store : PageRowStore} (h : store.Mirrors) {pageId : PageId}
    {page : Page} {it : ℕ} (hpage : store.bufferPool.pages.find? pageId = some (page, it))
    {rows : List Row} (hrows : store.pages.find? pageId = some rows) (hsized : RowsSized rows) :
    Reads readPage rows page.bytes := by
  obtain ⟨rows', hrows', hbytes⟩ := h pageId page it hpage
  obtain rfl : rows = rows' := Option.some.inj (hrows.symm.trans hrows')
  rw [hbytes]
  exact reads_readPage hsized pageId

/-- **Page serialization is uniquely decodable.**  Rows with the same bytes are the same rows, and
the bytes of one page are no proper prefix of those of another. -/
theorem serializePage_decodable {rows rows' : List Row} (h : RowsSized rows)
    (h' : RowsSized rows') (pageId pageId' : PageId) :
    ((serializePage pageId rows).bytes = (serializePage pageId' rows').bytes → rows = rows') ∧
    ((serializePage pageId rows).bytes <+: (serializePage pageId' rows').bytes →
      (serializePage pageId rows).bytes = (serializePage pageId' rows').bytes) := by
  have hread := reads_readPage h pageId
  have hread' := reads_readPage h' pageId'
  constructor
  · intro heq
    exact (hread.eq_of_isPrefix hread' (heq ▸ List.prefix_rfl)).1
  · intro hstarts
    exact (hread.eq_of_isPrefix hread' hstarts).2

/-- A string that spells the bytes of a NULL, and a row that holds the NULL. -/
theorem serializePage_decodable_imitating :
    ((serializePage 1 [[.string (leBytes 1 255)]]).bytes =
      (serializePage 2 [[.string [], .null]]).bytes →
        [[Value.string (leBytes 1 255)]] = [[.string [], .null]]) ∧
    ((serializePage 1 [[.string (leBytes 1 255)]]).bytes <+:
      (serializePage 2 [[.string [], .null]]).bytes →
        (serializePage 1 [[.string (leBytes 1 255)]]).bytes =
          (serializePage 2 [[.string [], .null]]).bytes) :=
  serializePage_decodable ⟨by decide, by simp, by simp [Value.Sized]⟩
    ⟨by decide, by simp, by simp [Value.Sized]⟩ 1 2

end VertexDB
