import VertexDB.Common.Value

/-!
# The buffer pool

`BufferPool` keeps pages in a map and their identifiers in a list, most recently used first.
The map stores, with each page, an iterator into the list.  An iterator of `std::list` designates
a node wherever the node is moved, so nodes carry an identity of their own here.
-/

namespace VertexDB

/-- `PageId`. -/
abbrev PageId := ℕ

/-- `Page`. -/
structure Page where
  id : PageId
  bytes : List Byte
  dirty : Bool
  deriving DecidableEq

/-- A node of the list `lru_`. -/
structure LruNode where
  /-- The identity of the node, which iterators refer to. -/
  node : ℕ
  pageId : PageId
  deriving DecidableEq

/-- `BufferPool`. -/
structure BufferPool where
  capacity : ℕ
  /-- The constructor rejects a capacity of zero. -/
  capacity_pos : 0 < capacity
  lru : List LruNode
  pages : SortedMap PageId (Page × ℕ)
  /-- The identity of the next node to be allocated. -/
  nextNode : ℕ

namespace BufferPool

/-- The constructor. -/
def make (capacity : ℕ) : Except Exception BufferPool :=
  if h : 0 < capacity then return ⟨capacity, h, [], .empty, 0⟩
  else throw (.invalidArgument "buffer pool capacity must be positive")

/-- `BufferPool::touch`: splice a node to the front of the list. -/
def touch (pool : BufferPool) (it : ℕ) : BufferPool :=
  { pool with lru := pool.lru.filter (·.node == it) ++ pool.lru.filter (·.node != it) }

/-- The loop of `BufferPool::evictIfNeeded`; it removes one page per iteration. -/
def evictLoop : ℕ → BufferPool → BufferPool
  | 0, pool => pool
  | fuel + 1, pool =>
    if pool.pages.size ≤ pool.capacity then pool
    else match pool.lru.getLast? with
      | none => pool
      | some back =>
        evictLoop fuel
          { pool with lru := pool.lru.dropLast, pages := pool.pages.erase back.pageId }

/-- `BufferPool::evictIfNeeded`. -/
def evictIfNeeded (pool : BufferPool) : BufferPool := evictLoop pool.pages.size pool

/-- `BufferPool::put`. -/
def put (pool : BufferPool) (page : Page) : BufferPool :=
  match pool.pages.find? page.id with
  | some (_, it) => { pool with pages := pool.pages.insert page.id (page, it) }.touch it
  | none =>
    { pool with
      lru := ⟨pool.nextNode, page.id⟩ :: pool.lru
      pages := pool.pages.insert page.id (page, pool.nextNode)
      nextNode := pool.nextNode + 1 }.evictIfNeeded

/-- `BufferPool::get`. -/
def get (pool : BufferPool) (pageId : PageId) : Option Page × BufferPool :=
  match pool.pages.find? pageId with
  | none => (none, pool)
  | some (page, it) => (some page, pool.touch it)

/-- `BufferPool::contains`. -/
def contains (pool : BufferPool) (pageId : PageId) : Bool := pool.pages.contains pageId

/-- `BufferPool::size`. -/
def size (pool : BufferPool) : ℕ := pool.pages.size

end BufferPool

end VertexDB
