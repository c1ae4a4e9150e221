import VertexDB.Common.Value
import VertexDB.Lib.SortedPieces

/-!
# The ordered index

`BTreeIndex` keeps its entries in an ordered map and derives from them, after every mutation, a
layout of leaf nodes under one root.  Lookups walk the leaves.  Keys are only ever compared, so an
entry stands under the `Value.Key` of the values that are inserted there.  The field `nodes_eq`
records that the nodes are the layout of the entries; `leafEntries_layout` says that the leaves,
read from left to right, are the entries in key order, and gives each lookup its meaning on the
entries.
-/

namespace VertexDB

open SortedPieces

/-- `BTreePageId`. -/
abbrev BTreePageId := ℕ

/-- `BTreeNode`. -/
structure BTreeNode where
  pageId : BTreePageId
  leaf : Bool
  keys : List Value.Key
  rowIds : List (List RowId)
  children : List BTreePageId
  nextLeaf : Option BTreePageId
  deriving DecidableEq

/-- The entries of a leaf. -/
def BTreeNode.payload (node : BTreeNode) : List (Value.Key × List RowId) :=
  node.keys.zip node.rowIds

namespace BTreeIndex

/-! ### The layout -/

/-- The leaves for a list of entries, numbered from `pageId` on; `fuel` bounds their number. -/
def leavesFrom (maxKeysPerLeaf : ℕ) :
    ℕ → BTreePageId → List (Value.Key × List RowId) → List BTreeNode
  | 0, _, _ => []
  | _ + 1, _, [] => []
  | fuel + 1, pageId, entries =>
    ⟨pageId, true, (entries.take maxKeysPerLeaf).map Prod.fst,
      (entries.take maxKeysPerLeaf).map Prod.snd, [], none⟩ ::
      leavesFrom maxKeysPerLeaf fuel (pageId + 1) (entries.drop maxKeysPerLeaf)

/-- Point every node to the next one. -/
def linkLeaves : List BTreeNode → List BTreeNode
  | node :: next :: rest =>
    { node with nextLeaf := some next.pageId } :: linkLeaves (next :: rest)
  | nodes => nodes

/-- The root over two or more leaves. -/
def rootOver (leaves : List BTreeNode) : BTreeNode where
  pageId := leaves.length + 1
  leaf := false
  keys := leaves.tail.map fun node => node.keys.headD Value.null.key
  rowIds := []
  children := leaves.map BTreeNode.pageId
  nextLeaf := none

/-- `BTreeIndex::rebuildLayout`. -/
def rebuildLayout (maxKeysPerLeaf : ℕ) (entries : List (Value.Key × List RowId)) : List BTreeNode :=
  if entries = [] then [⟨1, true, [], [], [], none⟩]
  else
    let leaves := linkLeaves (leavesFrom maxKeysPerLeaf entries.length 1 entries)
    if leaves.length = 1 then leaves else leaves ++ [rootOver leaves]

/-- The keys of the leaves with their row ids, from left to right. -/
def leafEntries (nodes : List BTreeNode) : List (Value.Key × List RowId) :=
  (nodes.filter BTreeNode.leaf).flatMap fun node => node.keys.zip node.rowIds

end BTreeIndex

/-- `BTreeIndex`. -/
structure BTreeIndex where
  entries : SortedMap Value.Key (List RowId)
  maxKeysPerLeaf : ℕ
  /-- The constructor rejects leaves without keys. -/
  maxKeysPerLeaf_pos : 0 < maxKeysPerLeaf
  nodes : List BTreeNode
  /-- Every mutation rebuilds the layout. -/
  nodes_eq : nodes = BTreeIndex.rebuildLayout maxKeysPerLeaf entries.entries

namespace BTreeIndex

/-- The constructor. -/
def make (maxKeysPerLeaf : ℕ) : Except Exception BTreeIndex :=
  if h : 0 < maxKeysPerLeaf then
    return ⟨.empty, maxKeysPerLeaf, h, rebuildLayout maxKeysPerLeaf [], rfl⟩
  else throw (.invalidArgument "B+ tree leaf capacity must be positive")

/-- The default constructor. -/
def empty : BTreeIndex := ⟨.empty, 64, by decide, rebuildLayout 64 [], rfl⟩

/-- Replace the entries and rebuild the layout. -/
def withEntries (index : BTreeIndex) (entries : SortedMap Value.Key (List RowId)) : BTreeIndex :=
  { index with
    entries := entries
    nodes := rebuildLayout index.maxKeysPerLeaf entries.entries
    nodes_eq := rfl }

/-- `BTreeIndex::insert`. -/
def insert (index : BTreeIndex) (key : Value) (rowId : RowId) : BTreeIndex :=
  index.withEntries (index.entries.upsert key.key [] (· ++ [rowId]))

/-- `BTreeIndex::remove`. -/
def remove (index : BTreeIndex) (key : Value) (rowId : RowId) : BTreeIndex :=
  match index.entries.find? key.key with
  | none => index
  | some rowIds =>
    let rowIds := rowIds.filter (· != rowId)
    index.withEntries
      (if rowIds = [] then index.entries.erase key.key else index.entries.insert key.key rowIds)

/-- `BTreeIndex::clear`. -/
def clear (index : BTreeIndex) : BTreeIndex := index.withEntries .empty

/-- `BTreeIndex::find`: the first leaf entry with the key. -/
def find (index : BTreeIndex) (key : Value) : List RowId :=
  match (leafEntries index.nodes).find? fun entry => entry.1 = key.key with
  | some entry => entry.2
  | none => []

/-- `BTreeIndex::lessThan`: the leaf entries up to the first key that is not below. -/
def lessThan (index : BTreeIndex) (key : Value) : List RowId :=
  ((leafEntries index.nodes).takeWhile fun entry => entry.1 < key.key).flatMap Prod.snd

/-- `BTreeIndex::greaterThan`: the leaf entries from the first key above. -/
def greaterThan (index : BTreeIndex) (key : Value) : List RowId :=
  ((leafEntries index.nodes).dropWhile fun entry => !(key.key < entry.1 : Bool)).flatMap Prod.snd

/-- `BTreeIndex::size`. -/
def size (index : BTreeIndex) : ℕ := index.entries.size

/-! ### The leaves are the entries -/

theorem filter_leaf_eq_self {nodes : List BTreeNode} (h : ∀ node ∈ nodes, node.leaf = true) :
    nodes.filter BTreeNode.leaf = nodes := List.filter_eq_self.2 h

theorem of_mem_leavesFrom {n fuel : ℕ} {pageId : BTreePageId}
    {entries : List (Value.Key × List RowId)} {node : BTreeNode}
    (h : node ∈ leavesFrom n fuel pageId entries) :
    (node.leaf = true ∧ node.children = []) ∧ node.keys.length = node.rowIds.length ∧
      node.nextLeaf = none := by
  induction fuel generalizing pageId entries with
  | zero => simp [leavesFrom] at h
  | succ fuel ih =>
    cases entries with
    | nil => simp [leavesFrom] at h
    | cons entry rest =>
      rcases List.mem_cons.1 h with rfl | h
      · simp
      · exact ih h

/-- The leaves are the entries, cut at the capacity. -/
theorem cut_leavesFrom {n : ℕ} (hn : 0 < n) {fuel : ℕ} {pageId : BTreePageId}
    {entries : List (Value.Key × List RowId)} (h : entries.length ≤ fuel) :
    Cut n entries ((leavesFrom n fuel pageId entries).map BTreeNode.payload) := by
  induction fuel generalizing pageId entries with
  | zero =>
    rw [List.length_eq_zero_iff.1 (Nat.le_zero.1 h)]
    exact cut_nil n
  | succ fuel ih =>
    cases entries with
    | nil => exact cut_nil n
    | cons entry rest =>
      have hlen : ((entry :: rest).drop n).length ≤ fuel := by
        simp only [List.length_drop, List.length_cons] at h ⊢
        omega
      have hzip (l : List (Value.Key × List RowId)) :
          (l.map Prod.fst).zip (l.map Prod.snd) = l := by
        rw [List.zip_map', List.map_id']
      have hrest : Cut n ((entry :: rest).drop n)
          ((leavesFrom n fuel (pageId + 1) ((entry :: rest).drop n)).map BTreeNode.payload) :=
        ih hlen
      have hcut := hrest.cons hn (List.cons_ne_nil entry rest)
      simpa only [leavesFrom, List.map_cons, BTreeNode.payload, hzip] using hcut

/-- Linking changes neither kind nor payload of a node. -/
theorem linkLeaves_map {β : Type} (f : BTreeNode → β) (nodes : List BTreeNode)
    (hf : ∀ node next, f { node with nextLeaf := next } = f node) :
    (linkLeaves nodes).map f = nodes.map f := by
  induction nodes with
  | nil => rfl
  | cons node rest ih =>
    cases rest with
    | nil => rfl
    | cons next rest => simp only [linkLeaves, List.map_cons, hf] at ih ⊢; rw [ih]

/-- Linking keeps what does not speak of the link. -/
theorem forall_mem_linkLeaves {P : BTreeNode → Prop} {nodes : List BTreeNode}
    (hP : ∀ node next, P node → P { node with nextLeaf := next }) (h : ∀ node ∈ nodes, P node) :
    ∀ node ∈ linkLeaves nodes, P node := by
  induction nodes with
  | nil => exact h
  | cons first rest ih =>
    cases rest with
    | nil => exact h
    | cons second rest =>
      obtain ⟨hfirst, hrest⟩ := List.forall_mem_cons.1 h
      exact List.forall_mem_cons.2 ⟨hP first _ hfirst, ih hrest⟩

theorem leafEntries_layout {n : ℕ} (hn : 0 < n) (entries : List (Value.Key × List RowId)) :
    leafEntries (rebuildLayout n entries) = entries := by
  unfold rebuildLayout
  by_cases he : entries = []
  · subst he; rfl
  rw [if_neg he]
  set leaves := linkLeaves (leavesFrom n entries.length 1 entries) with hleaves
  have hleaf : ∀ node ∈ leaves, node.leaf = true :=
    forall_mem_linkLeaves (fun _ _ h => h) fun _ hnode => (of_mem_leavesFrom hnode).1.1
  have hflat : leaves.flatMap (fun node => node.keys.zip node.rowIds) = entries := by
    have hmap := linkLeaves_map BTreeNode.payload (leavesFrom n entries.length 1 entries)
      fun _ _ => rfl
    have hcut : Cut n entries (leaves.map BTreeNode.payload) := by
      rw [hleaves, hmap]
      exact cut_leavesFrom hn le_rfl
    exact hcut.flatten_eq
  simp only
  split_ifs
  · rw [leafEntries, filter_leaf_eq_self hleaf, hflat]
  · rw [leafEntries, List.filter_append, filter_leaf_eq_self hleaf, List.flatMap_append, hflat]
    simp [rootOver]

theorem leafEntries_nodes (index : BTreeIndex) :
    leafEntries index.nodes = index.entries.entries := by
  rw [index.nodes_eq, leafEntries_layout index.maxKeysPerLeaf_pos]

/-! ### Lookups on the entries -/

theorem find_eq (index : BTreeIndex) (key : Value) :
    index.find key = (index.entries.find? key.key).getD [] := by
  rw [find, leafEntries_nodes, SortedMap.find?]
  generalize index.entries.entries = l
  induction l with
  | nil => rfl
  | cons entry rest ih =>
    obtain ⟨k, v⟩ := entry
    by_cases h : key.key = k
    · simp [SortedMap.lookup, h]
    · simp only [List.find?_cons, Ne.symm h, decide_false, SortedMap.lookup, h, if_false]
      exact ih

theorem lessThan_eq (index : BTreeIndex) (key : Value) :
    index.lessThan key =
      (index.entries.entries.filter fun e => e.1 < key.key).flatMap Prod.snd := by
  rw [lessThan, leafEntries_nodes]
  have hs := index.entries.sorted
  congr 1
  generalize index.entries.entries = l at hs
  induction l with
  | nil => rfl
  | cons entry rest ih =>
    obtain ⟨hhead, htail⟩ := List.pairwise_cons.1 hs
    by_cases h : entry.1 < key.key
    · rw [List.takeWhile_cons_of_pos (by simpa using h),
        List.filter_cons_of_pos (by simpa using h), ih htail]
    · rw [List.takeWhile_cons_of_neg (by simpa using h), List.filter_eq_nil_iff.2]
      intro e he
      rcases List.mem_cons.1 he with rfl | he
      · simpa using h
      · simpa using (not_lt.1 h).trans (hhead e he).le

theorem greaterThan_eq (index : BTreeIndex) (key : Value) :
    index.greaterThan key =
      (index.entries.entries.filter fun e => key.key < e.1).flatMap Prod.snd := by
  rw [greaterThan, leafEntries_nodes]
  have hs := index.entries.sorted
  congr 1
  generalize index.entries.entries = l at hs
  induction l with
  | nil => rfl
  | cons entry rest ih =>
    obtain ⟨hhead, htail⟩ := List.pairwise_cons.1 hs
    by_cases h : key.key < entry.1
    · rw [List.dropWhile_cons_of_neg (by simpa using h), List.filter_eq_self.2]
      intro e he
      rcases List.mem_cons.1 he with rfl | he
      · simpa using h
      · simpa using h.trans (hhead e he)
    · rw [List.dropWhile_cons_of_pos (by simpa using h),
        List.filter_cons_of_neg (by simpa using h), ih htail]

end BTreeIndex

end VertexDB
