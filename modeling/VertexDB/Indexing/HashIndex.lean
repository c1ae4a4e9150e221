import VertexDB.Common.Value

/-!
# The hash index

Only lookups of `std::unordered_map` are used, never its iteration order.  It finds a key by
`operator==`, so an entry stands under the `Value.Key` of the values that are inserted there.
-/

namespace VertexDB

/-- `HashIndex`. -/
structure HashIndex where
  entries : SortedMap Value.Key (List RowId)
  deriving DecidableEq

namespace HashIndex

/-- A new index. -/
def empty : HashIndex := ⟨.empty⟩

/-- `HashIndex::insert`. -/
def insert (index : HashIndex) (key : Value) (rowId : RowId) : HashIndex :=
  ⟨index.entries.upsert key.key [] (· ++ [rowId])⟩

/-- `HashIndex::remove`. -/
def remove (index : HashIndex) (key : Value) (rowId : RowId) : HashIndex :=
  match index.entries.find? key.key with
  | none => index
  | some rowIds =>
    let rowIds := rowIds.filter (· != rowId)
    if rowIds = [] then ⟨index.entries.erase key.key⟩ else ⟨index.entries.insert key.key rowIds⟩

/-- `HashIndex::clear`. -/
def clear (_ : HashIndex) : HashIndex := empty

/-- `HashIndex::find`. -/
def find (index : HashIndex) (key : Value) : List RowId := (index.entries.find? key.key).getD []

/-- `HashIndex::size`. -/
def size (index : HashIndex) : ℕ := index.entries.size

@[simp] theorem find_empty (key : Value) : empty.find key = [] := rfl

@[simp] theorem find_insert (index : HashIndex) (key key' : Value) (rowId : RowId) :
    (index.insert key rowId).find key' =
      if key'.key = key.key then index.find key ++ [rowId] else index.find key' := by
  simp only [find, insert, SortedMap.find?_upsert]
  split_ifs <;> rfl

end HashIndex

end VertexDB
