import VertexDB.Indexing.BTreeRuns

/-!
# The layout of the ordered index

The nodes of a `BTreeIndex` form a tree of at most two levels over its entries (`LayoutOf`): leaves
cut at the multiples of the capacity and linked from left to right, under a root whose separators
send every key to the one leaf that can hold it.  `rebuildLayout` builds such a layout from any
entries in key order, so the index has one after every sequence of calls (`layoutOf_run`).
-/

namespace VertexDB

open SortedPieces

namespace BTreeIndex

/-- The nodes are the leaves that hold the entries, and a root over them when there are several. -/
structure LayoutOf (capacity : ℕ) (entries : List (Value.Key × List RowId))
    (nodes leaves : List BTreeNode) (root : Option BTreeNode) : Prop where
  nodes_eq : nodes = leaves ++ root.toList
  leaves_ne_nil : leaves ≠ []
  /-- Page ids count from one. -/
  pageIds : nodes.map BTreeNode.pageId = List.range' 1 nodes.length
  leaf : ∀ node ∈ leaves, node.leaf = true ∧ node.children = []
  /-- Every key of a leaf has its row ids. -/
  paired : ∀ node ∈ leaves, node.keys.length = node.rowIds.length
  /-- The leaves concatenate to the entries, in key order. -/
  payload : leaves.flatMap BTreeNode.payload = entries
  sorted : (leaves.flatMap BTreeNode.keys).Pairwise (· < ·)
  length_le : ∀ node ∈ leaves, node.keys.length ≤ capacity
  full : ∀ node ∈ leaves.dropLast, node.keys.length = capacity
  ne_nil : entries ≠ [] → ∀ node ∈ leaves, node.keys ≠ []
  /-- Each leaf points to the following one, the last to none. -/
  nextLeaf : ∀ i node, leaves[i]? = some node →
    node.nextLeaf = leaves[i + 1]?.map BTreeNode.pageId
  root_iff : root.isSome ↔ 2 ≤ leaves.length
  inner : ∀ node ∈ root, node.leaf = false ∧ node.children = leaves.map BTreeNode.pageId
  /-- The keys of the root are the first keys of all leaves but the first. -/
  separates : ∀ node ∈ root, Separates node.keys (leaves.map BTreeNode.keys)
  /-- Counting the separators not above a key chooses the only leaf that can contain it. -/
  routes : ∀ node ∈ root, ∀ key, ∃ leaf,
    leaves[route node.keys key]? = some leaf ∧
    node.children[route node.keys key]? = some leaf.pageId ∧
    ∀ other ∈ leaves, key ∈ other.keys → other = leaf

/-! ### Page ids and links -/

theorem pageIds_leavesFrom (n fuel : ℕ) (pageId : BTreePageId)
    (entries : List (Value.Key × List RowId)) :
    (leavesFrom n fuel pageId entries).map BTreeNode.pageId =
      List.range' pageId (leavesFrom n fuel pageId entries).length := by
  induction fuel generalizing pageId entries with
  | zero => rfl
  | succ fuel ih =>
    cases entries with
    | nil => rfl
    | cons entry rest =>
      simp only [leavesFrom, List.map_cons, List.length_cons, List.range'_succ, ih]

theorem nextLeaf_linkLeaves {nodes : List BTreeNode} (h : ∀ node ∈ nodes, node.nextLeaf = none)
    {i : ℕ} {node : BTreeNode} (hnode : (linkLeaves nodes)[i]? = some node) :
    node.nextLeaf = (linkLeaves nodes)[i + 1]?.map BTreeNode.pageId := by
  rw [← List.getElem?_map, linkLeaves_map BTreeNode.pageId nodes fun _ _ => rfl]
  induction nodes generalizing i with
  | nil => simp [linkLeaves] at hnode
  | cons first rest ih =>
    obtain ⟨hfirst, hrest⟩ := List.forall_mem_cons.1 h
    cases rest with
    | nil =>
      obtain ⟨rfl, rfl⟩ : i = 0 ∧ first = node := by
        cases i with
        | zero => exact ⟨rfl, by simpa [linkLeaves] using hnode⟩
        | succ i => simp [linkLeaves] at hnode
      simpa using hfirst
    | cons second rest =>
      cases i with
      | zero =>
        obtain rfl : { first with nextLeaf := some second.pageId } = node := by
          simpa [linkLeaves] using hnode
        rfl
      | succ i =>
        rw [linkLeaves, List.getElem?_cons_succ] at hnode
        exact ih hrest hnode

/-! ### The leaves of a layout -/

/-- Linked leaves that are the entries, cut at the capacity. -/
structure LeavesOf (capacity : ℕ) (entries : List (Value.Key × List RowId))
    (leaves : List BTreeNode) : Prop where
  leaf : ∀ node ∈ leaves, node.leaf = true ∧ node.children = []
  paired : ∀ node ∈ leaves, node.keys.length = node.rowIds.length
  cut : Cut capacity entries (leaves.map BTreeNode.payload)
  pageIds : leaves.map BTreeNode.pageId = List.range' 1 leaves.length
  nextLeaf : ∀ i node, leaves[i]? = some node →
    node.nextLeaf = leaves[i + 1]?.map BTreeNode.pageId

theorem leavesOf_linkLeaves {capacity : ℕ} (hpos : 0 < capacity)
    (entries : List (Value.Key × List RowId)) :
    LeavesOf capacity entries (linkLeaves (leavesFrom capacity entries.length 1 entries)) where
  leaf := forall_mem_linkLeaves (fun _ _ h => h) fun _ hnode => (of_mem_leavesFrom hnode).1
  paired := forall_mem_linkLeaves (fun _ _ h => h) fun _ hnode => (of_mem_leavesFrom hnode).2.1
  cut := by
    rw [linkLeaves_map BTreeNode.payload _ fun _ _ => rfl]
    exact cut_leavesFrom hpos le_rfl
  pageIds := by
    have hlen := congrArg List.length
      (linkLeaves_map BTreeNode.pageId (leavesFrom capacity entries.length 1 entries)
        fun _ _ => rfl)
    rw [List.length_map, List.length_map] at hlen
    rw [linkLeaves_map BTreeNode.pageId _ fun _ _ => rfl, pageIds_leavesFrom, hlen]
  nextLeaf := fun _ _ hnode =>
    nextLeaf_linkLeaves (fun _ hnode => (of_mem_leavesFrom hnode).2.2) hnode

namespace LeavesOf

variable {capacity : ℕ} {entries : List (Value.Key × List RowId)} {leaves : List BTreeNode}
  {node : BTreeNode}

theorem payload (h : LeavesOf capacity entries leaves) :
    leaves.flatMap BTreeNode.payload = entries := by
  rw [List.flatMap_def, h.cut.flatten_eq]

theorem length_payload (h : LeavesOf capacity entries leaves) (hnode : node ∈ leaves) :
    node.payload.length = node.keys.length := by
  rw [BTreeNode.payload, List.length_zip, h.paired node hnode, min_self]

theorem ne_nil (h : LeavesOf capacity entries leaves) (hentries : entries ≠ []) :
    leaves ≠ [] := by
  rintro rfl
  exact hentries h.payload.symm

theorem keys_ne_nil (h : LeavesOf capacity entries leaves) (hnode : node ∈ leaves) :
    node.keys ≠ [] := by
  have hpayload := h.cut.ne_nil _ (List.mem_map_of_mem hnode)
  rw [← List.length_pos_iff, h.length_payload hnode] at hpayload
  exact List.length_pos_iff.1 hpayload

theorem length_le (h : LeavesOf capacity entries leaves) (hnode : node ∈ leaves) :
    node.keys.length ≤ capacity := by
  rw [← h.length_payload hnode]
  exact h.cut.length_le _ (List.mem_map_of_mem hnode)

theorem full (h : LeavesOf capacity entries leaves) (hnode : node ∈ leaves.dropLast) :
    node.keys.length = capacity := by
  rw [← h.length_payload (List.mem_of_mem_dropLast hnode)]
  refine h.cut.full _ ?_
  rw [← List.map_dropLast]
  exact List.mem_map_of_mem hnode

/-- The keys of the leaves are those of the entries. -/
theorem keys_eq (h : LeavesOf capacity entries leaves) :
    leaves.flatMap BTreeNode.keys = entries.map Prod.fst := by
  rw [← h.payload, List.map_flatMap]
  refine List.flatMap_congr fun node hnode => ?_
  rw [BTreeNode.payload, List.map_fst_zip (h.paired node hnode).le]

theorem sorted (h : LeavesOf capacity entries leaves)
    (hsorted : entries.Pairwise fun a b => a.1 < b.1) :
    (leaves.flatMap BTreeNode.keys).Pairwise (· < ·) := by
  rw [h.keys_eq, List.pairwise_map]
  exact hsorted

end LeavesOf

/-! ### The root -/

section Root

variable {capacity : ℕ} {entries : List (Value.Key × List RowId)} {leaves : List BTreeNode}

/-- The root's keys separate the leaves under it. -/
theorem separates_rootOver (hne : leaves ≠ []) (hkeys : ∀ node ∈ leaves, node.keys ≠ [])
    (hsorted : (leaves.flatMap BTreeNode.keys).Pairwise (· < ·)) :
    Separates (rootOver leaves).keys (leaves.map BTreeNode.keys) where
  ne_nil := List.forall_mem_map.2 hkeys
  sorted := by rwa [← List.flatMap_def]
  length_eq := by
    have hpos := List.length_pos_of_ne_nil hne
    simp only [rootOver, List.length_map, List.length_tail]
    omega
  head := by
    intro i
    simp only [rootOver, List.getElem?_map, List.getElem?_tail]
    cases hleaf : leaves[i + 1]? with
    | none => rfl
    | some node =>
      obtain ⟨key, keys, hcons⟩ :=
        List.exists_cons_of_ne_nil (hkeys node (List.mem_of_getElem? hleaf))
      simp [hcons]

/-- A search of the separators ends at the only leaf that can hold the key. -/
theorem routes_rootOver (h : Separates (rootOver leaves).keys (leaves.map BTreeNode.keys))
    (key : Value.Key) : ∃ leaf, leaves[route (rootOver leaves).keys key]? = some leaf ∧
      (rootOver leaves).children[route (rootOver leaves).keys key]? = some leaf.pageId ∧
      ∀ other ∈ leaves, key ∈ other.keys → other = leaf := by
  have hlt := h.route_lt key
  rw [List.length_map] at hlt
  have hleaf := List.getElem?_eq_getElem hlt
  refine ⟨_, hleaf, ?_, ?_⟩
  · have hchildren : (rootOver leaves).children = leaves.map BTreeNode.pageId := rfl
    rw [hchildren, List.getElem?_map, hleaf]
    rfl
  · intro other hother hkey
    obtain ⟨i, hi⟩ := List.mem_iff_getElem?.1 hother
    have hpiece : (leaves.map BTreeNode.keys)[i]? = some other.keys := by
      rw [List.getElem?_map, hi]
      rfl
    obtain rfl := h.eq_route_of_mem hpiece hkey
    exact Option.some.inj (hi.symm.trans hleaf)

/-- Leaves without a root, or two and more under one, are a layout. -/
theorem LeavesOf.layoutOf (h : LeavesOf capacity entries leaves) (hentries : entries ≠ [])
    (hsorted : entries.Pairwise fun a b => a.1 < b.1) {root : Option BTreeNode}
    (hroot : root = if leaves.length = 1 then none else some (rootOver leaves)) :
    LayoutOf capacity entries (leaves ++ root.toList) leaves root := by
  have hne := h.ne_nil hentries
  have hpos := List.length_pos_of_ne_nil hne
  have hkeys : ∀ node ∈ leaves, node.keys ≠ [] := fun _ => h.keys_ne_nil
  have hseparates := separates_rootOver hne hkeys (h.sorted hsorted)
  have heq : ∀ node ∈ root, node = rootOver leaves := by
    intro node hnode
    rw [hroot] at hnode
    split_ifs at hnode
    · cases hnode
    · exact (Option.some.inj hnode).symm
  refine ⟨rfl, hne, ?_, h.leaf, h.paired, h.payload, h.sorted hsorted, fun _ => h.length_le,
    fun _ => h.full, fun _ => hkeys, h.nextLeaf, ?_, ?_, ?_, ?_⟩
  · -- the root takes the page id after those of the leaves
    rw [List.map_append, h.pageIds, List.length_append, hroot]
    split_ifs
    · simp
    · simp [rootOver, List.range'_1_concat, Nat.add_comm]
  · rw [hroot]
    split_ifs <;> simp <;> omega
  · intro node hnode
    rw [heq node hnode]
    exact ⟨rfl, rfl⟩
  · intro node hnode
    rw [heq node hnode]
    exact hseparates
  · intro node hnode
    rw [heq node hnode]
    exact routes_rootOver hseparates

end Root

/-- The single empty leaf of an index without entries. -/
theorem layoutOf_nil (capacity : ℕ) :
    LayoutOf capacity [] [⟨1, true, [], [], [], none⟩] [⟨1, true, [], [], [], none⟩] none where
  nodes_eq := rfl
  leaves_ne_nil := List.cons_ne_nil _ _
  pageIds := rfl
  leaf := by simp
  paired := by simp
  payload := rfl
  sorted := by simp
  length_le := by simp
  full := by simp
  ne_nil := by simp
  nextLeaf := by
    intro i node hnode
    cases i with
    | zero => simpa using congrArg BTreeNode.nextLeaf (Option.some.inj hnode).symm
    | succ i => simp at hnode
  root_iff := by simp
  inner := by simp
  separates := by simp
  routes := by simp

theorem rebuildLayout_eq {capacity : ℕ} {entries : List (Value.Key × List RowId)}
    (hentries : entries ≠ []) :
    let leaves := linkLeaves (leavesFrom capacity entries.length 1 entries)
    rebuildLayout capacity entries =
      leaves ++ (if leaves.length = 1 then none else some (rootOver leaves)).toList := by
  intro leaves
  rw [rebuildLayout, if_neg hentries]
  by_cases hone : leaves.length = 1
  · simp only [leaves] at hone ⊢
    simp [hone]
  · simp only [leaves] at hone ⊢
    simp [hone]

theorem exists_layoutOf {capacity : ℕ} (hpos : 0 < capacity)
    {entries : List (Value.Key × List RowId)}
    (hsorted : entries.Pairwise fun a b => a.1 < b.1) :
    ∃ leaves root, LayoutOf capacity entries (rebuildLayout capacity entries) leaves root := by
  by_cases hentries : entries = []
  · subst hentries
    exact ⟨_, _, layoutOf_nil capacity⟩
  · have hlayout := (leavesOf_linkLeaves hpos entries).layoutOf hentries hsorted rfl
    rw [← rebuildLayout_eq hentries] at hlayout
    exact ⟨_, _, hlayout⟩

/-! ### Runs -/

theorem maxKeysPerLeaf_of_make {maxKeysPerLeaf : ℕ} {index : BTreeIndex}
    (h : make maxKeysPerLeaf = .ok index) : index.maxKeysPerLeaf = maxKeysPerLeaf := by
  unfold make at h
  split_ifs at h
  cases h
  rfl

theorem call_maxKeysPerLeaf (index : BTreeIndex) (next : IndexCall) :
    (index.call next).maxKeysPerLeaf = index.maxKeysPerLeaf := by
  cases next with
  | insert key rowId => rfl
  | remove key rowId =>
    simp only [call, remove]
    split <;> rfl
  | clear => rfl

theorem run_maxKeysPerLeaf (index : BTreeIndex) (calls : List IndexCall) :
    (index.run calls).maxKeysPerLeaf = index.maxKeysPerLeaf := by
  induction calls using List.reverseRecOn with
  | nil => rfl
  | append_singleton calls last ih => rw [run_concat, call_maxKeysPerLeaf, ih]

/-- The nodes of every index are a layout of its entries. -/
theorem layoutOf_nodes (index : BTreeIndex) :
    ∃ leaves root, LayoutOf index.maxKeysPerLeaf index.entries.entries index.nodes leaves root := by
  rw [index.nodes_eq]
  exact exists_layoutOf index.maxKeysPerLeaf_pos index.entries.sorted

/-- **The layout is well formed after every mutation.**  For every capacity of a leaf from one on
and every sequence of calls, the nodes are the leaves of the entries in key order with the root
over them. -/
theorem layoutOf_run {maxKeysPerLeaf : ℕ} (h : 1 ≤ maxKeysPerLeaf) (calls : List IndexCall) :
    ∃ index, make maxKeysPerLeaf = .ok index ∧ ∃ leaves root,
      LayoutOf maxKeysPerLeaf (index.run calls).entries.entries (index.run calls).nodes
        leaves root := by
  obtain ⟨index, hmake, -⟩ := exists_make h
  have hlayout := layoutOf_nodes (index.run calls)
  rw [run_maxKeysPerLeaf, maxKeysPerLeaf_of_make hmake] at hlayout
  exact ⟨index, hmake, hlayout⟩

/-- Four keys in leaves of two, one of them removed again. -/
theorem layoutOf_run_removed : ∃ index, make 2 = .ok index ∧ ∃ leaves root,
    LayoutOf 2 (index.run [.insert (.int 2) 0, .insert (.int 1) 1, .insert (.int 3) 2,
        .insert (.int 4) 3, .remove (.int 2) 0]).entries.entries
      (index.run [.insert (.int 2) 0, .insert (.int 1) 1, .insert (.int 3) 2,
        .insert (.int 4) 3, .remove (.int 2) 0]).nodes leaves root :=
  layoutOf_run (by decide) _

end BTreeIndex

end VertexDB
