import VertexDB.Storage.BufferPool
import VertexDB.Lib.Recency

/-!
# Runs of the buffer pool

`Linked` says that the list and the map of a pool describe each other, and `Traces` that the pool
is what a list of uses and a list of puts leave behind: the pages used last, each as it was put
last.  Both survive `put` and `get`, so after every sequence of calls the pool is exactly what a
least recently used policy keeps (`exactly_lru`).
-/

namespace VertexDB

namespace BufferPool

open Recency

/-- The page that was put last under an identifier. -/
def lastPut (puts : List Page) (pageId : PageId) : Option Page :=
  puts.reverse.find? (·.id == pageId)

@[simp] theorem lastPut_concat (puts : List Page) (page : Page) (pageId : PageId) :
    lastPut (puts ++ [page]) pageId =
      if page.id = pageId then some page else lastPut puts pageId := by
  simp only [lastPut, List.reverse_append, List.reverse_singleton, List.singleton_append,
    List.find?_cons]
  by_cases h : page.id = pageId
  · rw [if_pos h, h, beq_self_eq_true]
  · rw [if_neg h, beq_false_of_ne h]

theorem exists_lastPut {puts : List Page} {pageId : PageId} (h : pageId ∈ puts.map (·.id)) :
    ∃ page, lastPut puts pageId = some page := by
  obtain ⟨page, hpage, hid⟩ := List.mem_map.1 h
  exact Option.isSome_iff_exists.1 (List.find?_isSome.2
    ⟨page, List.mem_reverse.2 hpage, by simpa using hid⟩)

/-! ### The list and the map -/

/-- The identifiers in `lru_`, in order. -/
def ids (pool : BufferPool) : List PageId := pool.lru.map (·.pageId)

/-- The map holds exactly the pages that the list names, each with the position of its own
identifier, and as `puts` left it. -/
structure Linked (pool : BufferPool) (puts : List Page) : Prop where
  nodup_ids : pool.ids.Nodup
  nodup_nodes : (pool.lru.map (·.node)).Nodup
  node_lt : ∀ entry ∈ pool.lru, entry.node < pool.nextNode
  find?_iff : ∀ pageId page it, pool.pages.find? pageId = some (page, it) ↔
    ⟨it, pageId⟩ ∈ pool.lru ∧ lastPut puts pageId = some page
  put_of_mem : ∀ pageId ∈ pool.ids, pageId ∈ puts.map (·.id)

variable {pool : BufferPool} {puts : List Page}

namespace Linked

theorem contains_iff (h : pool.Linked puts) (pageId : PageId) :
    pool.contains pageId = true ↔ pageId ∈ pool.ids := by
  rw [contains, SortedMap.contains_iff]
  constructor
  · rintro ⟨⟨page, it⟩, hfind⟩
    exact List.mem_map_of_mem ((h.find?_iff pageId page it).1 hfind).1
  · intro hmem
    obtain ⟨page, hpage⟩ := exists_lastPut (h.put_of_mem pageId hmem)
    obtain ⟨⟨it, _⟩, hentry, rfl⟩ := List.mem_map.1 hmem
    exact ⟨(page, it), (h.find?_iff _ page it).2 ⟨hentry, hpage⟩⟩

theorem length_ids (h : pool.Linked puts) : pool.ids.length = pool.pages.size := by
  have hkeys : pool.pages.keys.Nodup :=
    (SortedMap.sorted_keys pool.pages).imp fun hlt => ne_of_lt hlt
  have hperm : pool.pages.keys.Perm pool.ids := by
    refine (List.perm_ext_iff_of_nodup hkeys h.nodup_ids).2 fun pageId => ?_
    rw [SortedMap.mem_keys_iff, ← SortedMap.contains_iff]
    exact h.contains_iff pageId
  simpa [SortedMap.keys, SortedMap.size] using hperm.length_eq.symm

/-- A position designates one node of the list. -/
theorem filter_node (h : pool.Linked puts) {it : ℕ} {pageId : PageId}
    (hentry : ⟨it, pageId⟩ ∈ pool.lru) :
    pool.lru.filter (·.node == it) = [⟨it, pageId⟩] := by
  have hinj := List.inj_on_of_nodup_map h.nodup_nodes
  calc pool.lru.filter (·.node == it)
      = pool.lru.filter (· == ⟨it, pageId⟩) := by
        refine List.filter_congr fun entry hmem => ?_
        rw [Bool.eq_iff_iff, beq_iff_eq, beq_iff_eq]
        exact ⟨fun heq => hinj hmem hentry heq, fun heq => congrArg LruNode.node heq⟩
    _ = [⟨it, pageId⟩] := by
        rw [List.filter_beq, List.count_eq_one_of_mem h.nodup_nodes.of_map hentry,
          List.replicate_one]

/-- The other nodes are those of the other identifiers. -/
theorem map_filter_node (h : pool.Linked puts) {it : ℕ} {pageId : PageId}
    (hentry : ⟨it, pageId⟩ ∈ pool.lru) :
    (pool.lru.filter (·.node != it)).map (·.pageId) = pool.ids.filter (· ≠ pageId) := by
  rw [ids, List.filter_map]
  refine congrArg (List.map _) (List.filter_congr fun entry hmem => ?_)
  rw [Bool.eq_iff_iff, bne_iff_ne, Function.comp_apply, decide_eq_true_iff, not_iff_not]
  constructor
  · intro heq
    rw [List.inj_on_of_nodup_map h.nodup_nodes hmem hentry heq]
  · intro heq
    rw [List.inj_on_of_nodup_map h.nodup_ids hmem hentry heq]

theorem ids_touch (h : pool.Linked puts) {it : ℕ} {pageId : PageId}
    (hentry : ⟨it, pageId⟩ ∈ pool.lru) :
    (pool.touch it).ids = pageId :: pool.ids.filter (· ≠ pageId) := by
  rw [ids, touch, List.map_append, h.filter_node hentry, h.map_filter_node hentry]
  rfl

theorem touch_perm (pool : BufferPool) (it : ℕ) : (pool.touch it).lru.Perm pool.lru := by
  simpa [touch, bne] using List.filter_append_perm (·.node == it) pool.lru

/-- Splicing a node to the front changes the order only. -/
theorem touch (h : pool.Linked puts) (it : ℕ) : (pool.touch it).Linked puts where
  nodup_ids := ((touch_perm pool it).map _).nodup_iff.2 h.nodup_ids
  nodup_nodes := ((touch_perm pool it).map _).nodup_iff.2 h.nodup_nodes
  node_lt entry hmem := h.node_lt entry ((touch_perm pool it).mem_iff.1 hmem)
  find?_iff pageId page it' := by
    rw [(touch_perm pool it).mem_iff]
    exact h.find?_iff pageId page it'
  put_of_mem pageId hmem := h.put_of_mem pageId (((touch_perm pool it).map _).mem_iff.1 hmem)

/-- A page that is held is replaced. -/
theorem replace (h : pool.Linked puts) {page : Page} {it : ℕ}
    (hentry : ⟨it, page.id⟩ ∈ pool.lru) :
    { pool with pages := pool.pages.insert page.id (page, it) }.Linked (puts ++ [page]) where
  nodup_ids := h.nodup_ids
  nodup_nodes := h.nodup_nodes
  node_lt := h.node_lt
  find?_iff pageId page' it' := by
    rw [SortedMap.find?_insert, lastPut_concat]
    by_cases heq : page.id = pageId
    · subst heq
      rw [if_pos rfl, if_pos rfl, Option.some_inj, Option.some_inj, Prod.mk.injEq]
      constructor
      · rintro ⟨rfl, rfl⟩
        exact ⟨hentry, rfl⟩
      · rintro ⟨hentry', rfl⟩
        have := List.inj_on_of_nodup_map h.nodup_ids hentry hentry' rfl
        exact ⟨rfl, congrArg LruNode.node this⟩
    · rw [if_neg (Ne.symm heq), if_neg heq]
      exact h.find?_iff pageId page' it'
  put_of_mem pageId hmem := by
    rw [List.map_append]
    exact List.mem_append_left _ (h.put_of_mem pageId hmem)

/-- A page that is not held is put at the front. -/
theorem push (h : pool.Linked puts) {page : Page} (hnew : page.id ∉ pool.ids) :
    ({ pool with
      lru := ⟨pool.nextNode, page.id⟩ :: pool.lru
      pages := pool.pages.insert page.id (page, pool.nextNode)
      nextNode := pool.nextNode + 1 } : BufferPool).Linked (puts ++ [page]) where
  nodup_ids := List.nodup_cons.2 ⟨hnew, h.nodup_ids⟩
  nodup_nodes := by
    refine List.nodup_cons.2 ⟨fun hmem => ?_, h.nodup_nodes⟩
    obtain ⟨entry, hentry, heq⟩ := List.mem_map.1 hmem
    exact (h.node_lt entry hentry).ne heq
  node_lt entry hmem := by
    rcases List.mem_cons.1 hmem with rfl | hold
    · exact Nat.lt_succ_self _
    · exact Nat.lt_succ_of_lt (h.node_lt entry hold)
  find?_iff pageId page' it' := by
    rw [SortedMap.find?_insert, lastPut_concat, List.mem_cons, LruNode.mk.injEq]
    by_cases heq : page.id = pageId
    · subst heq
      have hold : ⟨it', page.id⟩ ∉ pool.lru := fun hmem => hnew (List.mem_map_of_mem hmem)
      simp only [if_true, Option.some_inj, Prod.mk.injEq, hold, or_false, and_true]
      constructor
      · rintro ⟨rfl, rfl⟩
        exact ⟨rfl, rfl⟩
      · rintro ⟨rfl, rfl⟩
        exact ⟨rfl, rfl⟩
    · rw [if_neg (Ne.symm heq), if_neg heq, h.find?_iff pageId page' it']
      simp [Ne.symm heq]
  put_of_mem pageId hmem := by
    rw [List.map_append, List.mem_append]
    rcases List.mem_cons.1 hmem with rfl | hold
    · exact .inr (List.mem_singleton_self _)
    · exact .inl (h.put_of_mem pageId hold)

/-- The node at the back leaves with its page. -/
theorem pop (h : pool.Linked puts) {front : List LruNode} {back : LruNode}
    (hlru : pool.lru = front ++ [back]) :
    { pool with lru := front, pages := pool.pages.erase back.pageId }.Linked puts := by
  have hids : pool.ids = front.map (·.pageId) ++ [back.pageId] := by rw [ids, hlru]; simp
  have hnodup := h.nodup_ids
  have hnodes := h.nodup_nodes
  rw [hids] at hnodup
  rw [hlru, List.map_append] at hnodes
  have hback : back.pageId ∉ front.map (·.pageId) := fun hmem =>
    (List.disjoint_of_nodup_append hnodup) hmem (List.mem_singleton_self _)
  refine ⟨hnodup.of_append_left, hnodes.of_append_left, fun entry hmem => ?_,
    fun pageId page it => ?_, fun pageId hmem => ?_⟩
  · exact h.node_lt entry (by rw [hlru]; exact List.mem_append_left _ hmem)
  · rw [SortedMap.find?_erase]
    by_cases heq : pageId = back.pageId
    · subst heq
      rw [if_pos rfl]
      constructor
      · rintro ⟨⟩
      · rintro ⟨hmem, -⟩
        exact absurd (List.mem_map_of_mem hmem) hback
    · rw [if_neg heq, h.find?_iff, hlru, List.mem_append, List.mem_singleton]
      have hne : (⟨it, pageId⟩ : LruNode) ≠ back := fun h' => heq (congrArg LruNode.pageId h')
      simp [hne]
  · exact h.put_of_mem pageId (by rw [hids]; exact List.mem_append_left _ hmem)

/-- Eviction keeps the front of the list. -/
theorem evictLoop (h : pool.Linked puts) {fuel : ℕ}
    (hfuel : pool.pages.size ≤ fuel + pool.capacity) :
    (evictLoop fuel pool).Linked puts ∧
      (BufferPool.evictLoop fuel pool).capacity = pool.capacity ∧
      (BufferPool.evictLoop fuel pool).ids = pool.ids.take pool.capacity := by
  induction fuel generalizing pool with
  | zero =>
    have hle : pool.ids.length ≤ pool.capacity := by rw [h.length_ids]; omega
    exact ⟨h, rfl, (List.take_of_length_le hle).symm⟩
  | succ fuel ih =>
    rw [BufferPool.evictLoop]
    by_cases hle : pool.pages.size ≤ pool.capacity
    · rw [if_pos hle]
      exact ⟨h, rfl, (List.take_of_length_le (by rwa [h.length_ids])).symm⟩
    · have hlength := h.length_ids
      have hne : pool.lru ≠ [] := by
        intro hnil
        rw [ids, hnil] at hlength
        exact hle (hlength ▸ Nat.zero_le _)
      have hlru := (List.dropLast_append_getLast hne).symm
      rw [if_neg hle, List.getLast?_eq_some_getLast hne]
      have hpop := h.pop hlru
      have hids : pool.ids =
          pool.lru.dropLast.map (·.pageId) ++ [(pool.lru.getLast hne).pageId] := by
        conv_lhs => rw [ids, hlru, List.map_append]
        rfl
      have hfront : (pool.lru.dropLast.map (·.pageId)).length + 1 = pool.pages.size := by
        rw [← hlength, hids, List.length_append, List.length_singleton]
      have hsize : pool.pages.size - 1 ≤ fuel + pool.capacity := by omega
      have hbeyond : pool.capacity ≤ (pool.lru.dropLast.map (·.pageId)).length := by omega
      obtain ⟨hlinked, hcapacity, htaken⟩ := ih hpop
        (by rw [← hpop.length_ids]; exact le_trans (Nat.le_sub_one_of_lt hfront.le) hsize)
      refine ⟨hlinked, hcapacity, htaken.trans ?_⟩
      -- the node at the back is beyond the capacity
      rw [hids]
      exact (List.take_append_of_le_length hbeyond).symm

theorem evictIfNeeded (h : pool.Linked puts) :
    pool.evictIfNeeded.Linked puts ∧ pool.evictIfNeeded.capacity = pool.capacity ∧
      pool.evictIfNeeded.ids = pool.ids.take pool.capacity :=
  h.evictLoop (Nat.le_add_right _ _)

end Linked

/-! ### What the calls leave behind -/

/-- The pool holds the pages used last, each as it was put last. -/
structure Traces (pool : BufferPool) (uses : List PageId) (puts : List Page) : Prop
    extends pool.Linked puts where
  ids_eq : pool.ids = (recent uses).take pool.capacity
  mem_uses : ∀ pageId, pageId ∈ uses ↔ pageId ∈ puts.map (·.id)

variable {uses : List PageId}

/-- A page that is held is replaced. -/
theorem Traces.replace (h : pool.Traces uses puts) {page : Page} {it : ℕ}
    (hentry : ⟨it, page.id⟩ ∈ pool.lru) :
    { pool with pages := pool.pages.insert page.id (page, it) }.Traces uses (puts ++ [page]) where
  toLinked := h.toLinked.replace hentry
  ids_eq := h.ids_eq
  mem_uses pageId := by
    have hmem := h.put_of_mem page.id (List.mem_map_of_mem hentry)
    rw [h.mem_uses, List.map_append, List.map_singleton, List.mem_append, List.mem_singleton]
    refine ⟨.inl, ?_⟩
    rintro (hold | rfl)
    · exact hold
    · exact hmem

/-- A page that is held moves to the front. -/
theorem Traces.touch (h : pool.Traces uses puts) {it : ℕ} {pageId : PageId}
    (hentry : ⟨it, pageId⟩ ∈ pool.lru) : (pool.touch it).Traces (uses ++ [pageId]) puts where
  toLinked := h.toLinked.touch it
  ids_eq := by
    have hmem : pageId ∈ (recent uses).take pool.capacity := by
      rw [← h.ids_eq]
      exact List.mem_map_of_mem hentry
    exact (h.ids_touch hentry).trans (by rw [h.ids_eq]; exact (take_recent_of_mem hmem).symm)
  mem_uses pageId' := by
    have hmem := h.put_of_mem pageId (List.mem_map_of_mem hentry)
    rw [List.mem_append, List.mem_singleton, h.mem_uses]
    refine ⟨?_, .inl⟩
    rintro (hold | rfl)
    · exact hold
    · exact hmem

theorem Traces.put (h : pool.Traces uses puts) (page : Page) :
    (pool.put page).Traces (uses ++ [page.id]) (puts ++ [page]) ∧
      (pool.put page).capacity = pool.capacity := by
  have hmem_uses : ∀ pageId, pageId ∈ uses ++ [page.id] ↔
      pageId ∈ (puts ++ [page]).map (·.id) := fun pageId => by
    rw [List.map_append, List.mem_append, List.mem_append, h.mem_uses]
    rfl
  rw [BufferPool.put]
  cases hfind : pool.pages.find? page.id with
  | none =>
    have hnew : page.id ∉ pool.ids := by
      intro hmem
      obtain ⟨found, hfound⟩ := SortedMap.contains_iff.1 ((h.contains_iff page.id).2 hmem)
      rw [hfound] at hfind
      exact absurd hfind (by rintro ⟨⟩)
    obtain ⟨hlinked, hcapacity, hids⟩ := (h.push hnew).evictIfNeeded
    refine ⟨⟨hlinked, ?_, hmem_uses⟩, hcapacity⟩
    rw [hids, hcapacity]
    rw [h.ids_eq] at hnew
    refine (Eq.trans ?_ (take_recent_of_notMem pool.capacity_pos hnew).symm)
    rw [← h.ids_eq]
    rfl
  | some found =>
    obtain ⟨hentry, -⟩ := (h.find?_iff page.id found.1 found.2).1 hfind
    exact ⟨(h.replace hentry).touch hentry, rfl⟩

theorem Traces.get (h : pool.Traces uses puts) (pageId : PageId) :
    (pool.get pageId).2.Traces (uses ++ if pageId ∈ pool.ids then [pageId] else []) puts ∧
      (pool.get pageId).1 = (if pageId ∈ pool.ids then lastPut puts pageId else none) ∧
      (pool.get pageId).2.capacity = pool.capacity := by
  rw [BufferPool.get]
  cases hfind : pool.pages.find? pageId with
  | none =>
    have hmiss : pageId ∉ pool.ids := by
      intro hmem
      obtain ⟨found, hfound⟩ := SortedMap.contains_iff.1 ((h.contains_iff pageId).2 hmem)
      rw [hfound] at hfind
      exact absurd hfind (by rintro ⟨⟩)
    rw [if_neg hmiss, if_neg hmiss, List.append_nil]
    exact ⟨h, rfl, rfl⟩
  | some found =>
    obtain ⟨hentry, hlast⟩ := (h.find?_iff pageId found.1 found.2).1 hfind
    have hhit : pageId ∈ pool.ids := List.mem_map_of_mem hentry
    rw [if_pos hhit, if_pos hhit]
    exact ⟨h.touch hentry, hlast.symm, rfl⟩

/-! ### Runs -/

/-- A call of `put` or `get`. -/
inductive PoolCall
  | put (page : Page)
  | get (pageId : PageId)

/-- The pool after a call. -/
def call (pool : BufferPool) : PoolCall → BufferPool
  | .put page => pool.put page
  | .get pageId => (pool.get pageId).2

/-- The pool after a sequence of calls. -/
def run (pool : BufferPool) (calls : List PoolCall) : BufferPool := calls.foldl call pool

/-- The page that a call puts. -/
def PoolCall.page? : PoolCall → Option Page
  | .put page => some page
  | .get _ => none

/-- The pages put by a sequence of calls. -/
def putsOf (calls : List PoolCall) : List Page := calls.filterMap PoolCall.page?

/-- What a call uses: the page it puts, or the page it gets if it gets one. -/
def usedBy (pool : BufferPool) : PoolCall → List PageId
  | .put page => [page.id]
  | .get pageId => if (pool.get pageId).1.isSome then [pageId] else []

/-- The uses of a sequence of calls, the first one first. -/
def usesOf (pool : BufferPool) : List PoolCall → List PageId
  | [] => []
  | call :: calls => pool.usedBy call ++ usesOf (pool.call call) calls

theorem Traces.call (h : pool.Traces uses puts) (call : PoolCall) :
    (pool.call call).Traces (uses ++ pool.usedBy call) (puts ++ putsOf [call]) ∧
      (pool.call call).capacity = pool.capacity := by
  match call with
  | .put page => exact h.put page
  | .get pageId =>
    obtain ⟨htraces, hpage, hcapacity⟩ := h.get pageId
    refine ⟨?_, hcapacity⟩
    have hused : pool.usedBy (.get pageId) = if pageId ∈ pool.ids then [pageId] else [] := by
      rw [usedBy, hpage]
      by_cases hhit : pageId ∈ pool.ids
      · obtain ⟨page, hlast⟩ := exists_lastPut (h.put_of_mem pageId hhit)
        rw [if_pos hhit, if_pos hhit, hlast]
        rfl
      · rw [if_neg hhit, if_neg hhit]
        rfl
    rw [hused, show putsOf [.get pageId] = [] from rfl, List.append_nil]
    exact htraces

theorem Traces.run (h : pool.Traces uses puts) (calls : List PoolCall) :
    (pool.run calls).Traces (uses ++ pool.usesOf calls) (puts ++ putsOf calls) ∧
      (pool.run calls).capacity = pool.capacity := by
  induction calls generalizing pool uses puts with
  | nil => simpa [usesOf, putsOf, BufferPool.run] using h
  | cons call calls ih =>
    obtain ⟨hstep, hcapacity⟩ := h.call call
    obtain ⟨hrun, hcapacities⟩ := ih hstep
    refine ⟨?_, hcapacities.trans hcapacity⟩
    rw [List.append_assoc, List.append_assoc, putsOf, putsOf, ← List.filterMap_append] at hrun
    exact hrun

theorem traces_make {capacity : ℕ} (h : 1 ≤ capacity) :
    ∃ pool, make capacity = .ok pool ∧ pool.capacity = capacity ∧ pool.Traces [] [] := by
  refine ⟨⟨capacity, h, [], .empty, 0⟩, dif_pos h, rfl, ⟨?_, (List.take_nil).symm, ?_⟩⟩
  · refine ⟨List.nodup_nil, List.nodup_nil, ?_, ?_, ?_⟩
    · rintro entry ⟨⟩
    · intro pageId page it
      constructor
      · rintro ⟨⟩
      · rintro ⟨⟨⟩, -⟩
    · rintro pageId ⟨⟩
  · intro pageId
    exact Iff.rfl

/-- **The buffer pool is exactly least recently used.**  After every sequence of calls the list
names the pages of the map, each once; the position stored with a page designates the one node
that holds its identifier; no more pages are held than the capacity; `get` returns a page that is
held as it was put last; and the identifiers in the list are those used last, in order, as many as
the capacity allows of all that were put. -/
theorem exactly_lru {capacity : ℕ} (h : 1 ≤ capacity) (calls : List PoolCall) :
    ∃ pool, make capacity = .ok pool ∧
      (pool.run calls).ids.Nodup ∧
      (∀ pageId, pageId ∈ (pool.run calls).ids ↔ (pool.run calls).contains pageId = true) ∧
      (∀ pageId page it, (pool.run calls).pages.find? pageId = some (page, it) →
        (pool.run calls).lru.filter (·.node == it) = [⟨it, pageId⟩]) ∧
      (pool.run calls).size ≤ capacity ∧
      (∀ pageId, (pool.run calls).contains pageId = true →
        ∃ page, lastPut (putsOf calls) pageId = some page ∧
          ((pool.run calls).get pageId).1 = some page) ∧
      (pool.run calls).ids = (recent (pool.usesOf calls)).take capacity ∧
      (pool.run calls).size = min capacity ((putsOf calls).map (·.id)).dedup.length := by
  obtain ⟨pool, hmake, hcapacity, hempty⟩ := traces_make h
  obtain ⟨htraces, hkept⟩ := hempty.run calls
  rw [List.nil_append, List.nil_append] at htraces
  have hids := htraces.ids_eq
  rw [hkept, hcapacity] at hids
  have hsize : (pool.run calls).size = min capacity ((putsOf calls).map (·.id)).dedup.length := by
    -- what is used is what is put
    have hperm : (pool.usesOf calls).dedup.Perm ((putsOf calls).map (·.id)).dedup := by
      refine (List.perm_ext_iff_of_nodup (List.nodup_dedup _) (List.nodup_dedup _)).2 fun id => ?_
      rw [List.mem_dedup, List.mem_dedup]
      exact htraces.mem_uses id
    rw [size, ← htraces.length_ids, hids, List.length_take, length_recent, hperm.length_eq]
  refine ⟨pool, hmake, htraces.nodup_ids, fun pageId => (htraces.contains_iff pageId).symm,
    fun pageId page it hfind => ?_, ?_, fun pageId hcontains => ?_, hids, hsize⟩
  · exact htraces.filter_node ((htraces.find?_iff pageId page it).1 hfind).1
  · exact hsize ▸ Nat.min_le_left _ _
  · have hmem := (htraces.contains_iff pageId).1 hcontains
    obtain ⟨page, hlast⟩ := exists_lastPut (htraces.put_of_mem pageId hmem)
    obtain ⟨-, hget, -⟩ := htraces.get pageId
    exact ⟨page, hlast, by rw [hget, if_pos hmem, hlast]⟩

/-- Page 1 is got before page 3 evicts page 2; getting page 2 is then no use. -/
theorem exactly_lru_evicted : ∃ pool, make 2 = .ok pool ∧
    (pool.run [.put ⟨1, [10], false⟩, .put ⟨2, [20], false⟩, .get 1, .put ⟨3, [30], false⟩,
      .get 2]).size = 2 := by
  obtain ⟨pool, hmake, -, -, -, -, -, -, hsize⟩ := @exactly_lru 2 (by decide)
    [.put ⟨1, [10], false⟩, .put ⟨2, [20], false⟩, .get 1, .put ⟨3, [30], false⟩, .get 2]
  exact ⟨pool, hmake, hsize⟩

end BufferPool

end VertexDB
