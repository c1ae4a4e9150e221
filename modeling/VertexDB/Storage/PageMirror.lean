import VertexDB.Storage.RowStoreRuns
import VertexDB.Storage.BufferPoolRuns

/-!
# Buffered pages and row pages

`PageRowStore` puts the bytes of every page it writes into its buffer pool.  `Buffered` says what
the pool is then: every page of the rows was used, and was put last as it is now.  A page that
goes stale can only be one that is no longer there.  `replaceRows`, and with it `erase`, drops the
pages of the store but not those of the pool: the rows that are appended anew displace the old
pages only if there are enough of them, so the pool mirrors the pages exactly as long as every call
leaves as many pages as the pool was holding (`mirrors_iff_keepsBuffered`).
-/

namespace VertexDB

namespace PageRowStore

open BufferPool Recency

/-- Every page held in `bufferPool_` is a page of `pages_`, with the bytes of its rows. -/
def Mirrors (store : PageRowStore) : Prop :=
  ∀ pageId page it, store.bufferPool.pages.find? pageId = some (page, it) →
    ∃ rows, store.pages.find? pageId = some rows ∧
      page.bytes = (serializePage pageId rows).bytes

/-- The number of pages of `len` rows. -/
def pageCount (rowsPerPage len : ℕ) : ℕ := (len + rowsPerPage - 1) / rowsPerPage

/-- The number of rows after a call. -/
def lengthAfter (len : ℕ) : StoreCall → ℕ
  | .append _ => len + 1
  | .erase rowId => if rowId < len then len - 1 else len
  | .update _ _ => len
  | .replaceRows rows => rows.length

/-- Every call leaves as many pages as there were before it, or as the buffer pool can hold. -/
def KeepsBuffered (rowsPerPage capacity : ℕ) : ℕ → List StoreCall → Prop
  | _, [] => True
  | len, call :: calls =>
    min capacity (pageCount rowsPerPage len) ≤ pageCount rowsPerPage (lengthAfter len call) ∧
      KeepsBuffered rowsPerPage capacity (lengthAfter len call) calls

/-! ### Page identifiers -/

theorem pageCount_mono {n len len' : ℕ} (h : len ≤ len') : pageCount n len ≤ pageCount n len' :=
  Nat.div_le_div_right (by omega)

section Counts

variable {n : ℕ} (hn : 0 < n)
include hn

theorem lt_pageCount_iff {p len : ℕ} : p < pageCount n len ↔ p * n < len := by
  rw [pageCount, ← Nat.succ_le_iff, Nat.le_div_iff_mul_le hn, Nat.succ_mul]
  omega

theorem div_lt_pageCount {i len : ℕ} (h : i < len) : i / n < pageCount n len :=
  (lt_pageCount_iff hn).2 ((Nat.div_mul_le_self i n).trans_lt h)

/-- The pages put when `len` rows are appended to no rows, one by one. -/
theorem mem_map_range_iff {len : ℕ} {pageId : PageId} :
    pageId ∈ (List.range len).map (fun i => i / n + 1) ↔ ∃ p < pageCount n len, pageId = p + 1 := by
  rw [List.mem_map]
  constructor
  · rintro ⟨i, hi, rfl⟩
    exact ⟨i / n, div_lt_pageCount hn (List.mem_range.1 hi), rfl⟩
  · rintro ⟨p, hp, rfl⟩
    exact ⟨p * n, List.mem_range.2 ((lt_pageCount_iff hn).1 hp), by rw [Nat.mul_div_cancel _ hn]⟩

theorem length_dedup_map_range (len : ℕ) :
    ((List.range len).map fun i => i / n + 1).dedup.length = pageCount n len := by
  have hperm : ((List.range len).map fun i => i / n + 1).dedup.Perm
      ((List.range (pageCount n len)).map (· + 1)) := by
    refine (List.perm_ext_iff_of_nodup (List.nodup_dedup _)
      (List.nodup_range.map fun a b h => Nat.succ_injective h)).2 fun pageId => ?_
    rw [List.mem_dedup, mem_map_range_iff hn, List.mem_map]
    constructor
    · rintro ⟨p, hp, rfl⟩
      exact ⟨p, List.mem_range.2 hp, rfl⟩
    · rintro ⟨p, hp, rfl⟩
      exact ⟨p, List.mem_range.1 hp, rfl⟩
  rw [hperm.length_eq, List.length_map, List.length_range]

end Counts

/-! ### What the pool holds -/

/-- `store` holds `rows`, and its pool is what `uses` and `puts` left behind, where the pages of
`rows` are among those put, last as they are now. -/
structure Buffered (n c : ℕ) (store : PageRowStore) (rows : List Row) (uses : List PageId)
    (puts : List Page) : Prop where
  rowsPerPage_eq : store.rowsPerPage = n
  capacity_eq : store.bufferPool.capacity = c
  represents : store.Represents rows
  traces : store.bufferPool.Traces uses puts
  current : ∀ p, p < pageCount n rows.length →
    lastPut puts (p + 1) = some (serializePage (p + 1) (pageOf n rows p))

/-- The pages held are pages of the rows. -/
def HoldsCurrent (n c len : ℕ) (uses : List PageId) : Prop :=
  ∀ pageId ∈ (recent uses).take c, ∃ p < pageCount n len, pageId = p + 1

variable {n c : ℕ} {store : PageRowStore} {rows : List Row} {uses : List PageId} {puts : List Page}

namespace Buffered

theorem pos (h : Buffered n c store rows uses puts) : 0 < n :=
  h.rowsPerPage_eq ▸ store.rowsPerPage_pos

theorem find?_succ (h : Buffered n c store rows uses puts) (p : ℕ) :
    store.pages.find? (p + 1) =
      if p < pageCount n rows.length then some (pageOf n rows p) else none := by
  rw [h.represents.pages_succ, h.rowsPerPage_eq]
  exact if_congr (lt_pageCount_iff h.pos).symm rfl rfl

theorem mem_uses (h : Buffered n c store rows uses puts) {p : ℕ}
    (hp : p < pageCount n rows.length) : p + 1 ∈ uses := by
  refine (h.traces.mem_uses _).2 ?_
  have hfound := List.mem_of_find?_eq_some (h.current p hp)
  exact List.mem_map.2 ⟨_, List.mem_reverse.1 hfound, rfl⟩

/-- What is held is current exactly when it is there at all. -/
theorem mirrors_iff (h : Buffered n c store rows uses puts) :
    store.Mirrors ↔ HoldsCurrent n c rows.length uses := by
  have hids := h.traces.ids_eq
  rw [h.capacity_eq] at hids
  rw [HoldsCurrent, ← hids]
  constructor
  · intro hmirrors pageId hmem
    obtain ⟨⟨page, it⟩, hfind⟩ := SortedMap.contains_iff.1 ((h.traces.contains_iff pageId).2 hmem)
    obtain ⟨pageRows, hpage, -⟩ := hmirrors pageId page it hfind
    match pageId with
    | 0 => rw [h.represents.pages_zero] at hpage; exact absurd hpage (by rintro ⟨⟩)
    | p + 1 =>
      refine ⟨p, ?_, rfl⟩
      by_contra hp
      rw [h.find?_succ, if_neg hp] at hpage
      exact absurd hpage (by rintro ⟨⟩)
  · intro hcurrent pageId page it hfind
    obtain ⟨hentry, hlast⟩ := (h.traces.find?_iff pageId page it).1 hfind
    obtain ⟨p, hp, rfl⟩ := hcurrent pageId (List.mem_map_of_mem hentry)
    refine ⟨pageOf n rows p, by rw [h.find?_succ, if_pos hp], ?_⟩
    rw [h.current p hp] at hlast
    rw [Option.some_inj.1 hlast]

/-- The page of one row is put, and no page goes. -/
theorem holdsCurrent_concat {len len' p : ℕ} (hle : len ≤ len') (hp : p < pageCount n len')
    (h : HoldsCurrent n c len uses) : HoldsCurrent n c len' (uses ++ [p + 1]) := by
  intro pageId hmem
  rcases mem_take_recent_concat hmem with rfl | hold
  · exact ⟨p, hp, rfl⟩
  · obtain ⟨q, hq, rfl⟩ := h pageId hold
    exact ⟨q, hq.trans_le (pageCount_mono hle), rfl⟩

/-- All pages are put anew: the old ones are gone when the new ones fill the pool, or when there
are as many of them. -/
theorem holdsCurrent_append_iff (h : Buffered n c store rows uses puts)
    (hcurrent : HoldsCurrent n c rows.length uses) (len : ℕ) :
    HoldsCurrent n c len (uses ++ (List.range len).map fun i => i / n + 1) ↔
      min c (pageCount n rows.length) ≤ pageCount n len := by
  have hn := h.pos
  have hlength := length_dedup_map_range hn len
  constructor
  · intro hafter
    by_contra hlt
    -- page `pageCount n len + 1` was there and is not put again
    have hroom : ((List.range len).map fun i => i / n + 1).dedup.length < c := by omega
    have hused : pageCount n len + 1 ∈ uses := h.mem_uses (by omega)
    have hnot : pageCount n len + 1 ∉ (List.range len).map fun i => i / n + 1 := by
      intro hmem
      obtain ⟨p, hp, heq⟩ := (mem_map_range_iff hn).1 hmem
      exact hp.ne (Nat.succ.inj heq).symm
    obtain ⟨pageId, hheld, hstale⟩ := exists_mem_take_recent_append hroom hused hnot
    exact hstale ((mem_map_range_iff hn).2 (hafter pageId hheld))
  · intro hle pageId hmem
    by_cases hfull : c ≤ pageCount n len
    · exact (mem_map_range_iff hn).1 (mem_of_mem_take_recent_append (hlength ▸ hfull) hmem)
    · -- the pool had room for every page that was ever put
      have hmany : pageCount n rows.length ≤ pageCount n len := by omega
      have hheld : ((recent uses).take c).length < c := by
        have hsub : (recent uses).take c ⊆ (List.range (pageCount n rows.length)).map (· + 1) := by
          intro pageId hheld
          obtain ⟨p, hp, rfl⟩ := hcurrent pageId hheld
          exact List.mem_map.2 ⟨p, List.mem_range.2 hp, rfl⟩
        have hnodup := (nodup_recent uses).sublist (List.take_sublist c _)
        have := (hnodup.subperm hsub).length_le
        rw [List.length_map, List.length_range] at this
        omega
      rcases List.mem_append.1 (mem_recent.1 (List.mem_of_mem_take hmem)) with hold | hnew
      · obtain ⟨p, hp, rfl⟩ := hcurrent pageId (mem_take_recent_of_length_lt hheld hold)
        exact ⟨p, hp.trans_le hmany, rfl⟩
      · exact (mem_map_range_iff hn).1 hnew

/-! ### What the calls put -/

/-- A page is put as it is now, and the others are what they were. -/
theorem put (h : Buffered n c store rows uses puts) {after : PageRowStore} {rows' : List Row}
    {p : ℕ} (hn : after.rowsPerPage = store.rowsPerPage) (hafter : after.Represents rows')
    (hpool : after.bufferPool = store.bufferPool.put (serializePage (p + 1) (pageOf n rows' p)))
    (hothers : ∀ q < pageCount n rows'.length, q ≠ p →
      q < pageCount n rows.length ∧ pageOf n rows' q = pageOf n rows q) :
    Buffered n c after rows' (uses ++ [p + 1])
      (puts ++ [serializePage (p + 1) (pageOf n rows' p)]) := by
  obtain ⟨htraces, hcapacity⟩ := h.traces.put (serializePage (p + 1) (pageOf n rows' p))
  refine ⟨hn.trans h.rowsPerPage_eq, ?_, hafter, by rw [hpool]; exact htraces, fun q hq => ?_⟩
  · rw [hpool, hcapacity]
    exact h.capacity_eq
  · rw [lastPut_concat]
    by_cases heq : q = p
    · rw [heq]
      exact if_pos rfl
    · obtain ⟨hold, hsame⟩ := hothers q hq heq
      rw [hsame, ← h.current q hold]
      exact if_neg fun hid => heq (Nat.succ.inj hid).symm

theorem append (h : Buffered n c store rows uses puts) (row : Row) :
    ∃ puts', Buffered n c (store.append row).2 (rows ++ [row])
      (uses ++ [rows.length / n + 1]) puts' := by
  have hn := h.pos
  have hpool : (store.append row).2.bufferPool = store.bufferPool.put
      (serializePage (rows.length / n + 1) (pageOf n (rows ++ [row]) (rows.length / n))) := by
    have hlen : store.slots.length = rows.length := h.represents.size_eq
    have hrows := h.represents.getD_lastPage
    rw [h.rowsPerPage_eq] at hrows
    rw [pageOf_append_last hn]
    simp only [PageRowStore.append, hlen, h.rowsPerPage_eq, hrows]
  refine ⟨_, h.put rfl (h.represents.append row).2 hpool fun q hq hne => ?_⟩
  have hlt : q * n < rows.length := by
    have := (lt_pageCount_iff hn).1 hq
    rw [List.length_append, List.length_singleton] at this
    exact (mul_lt_succ_iff hn hne).1 this
  exact ⟨(lt_pageCount_iff hn).2 hlt, pageOf_append_of_ne hn row hne hlt⟩

theorem foldl_append (h : Buffered n c store rows uses puts) (more : List Row) :
    ∃ puts', Buffered n c (more.foldl (fun store row => (store.append row).2) store) (rows ++ more)
      (uses ++ (List.range more.length).map fun i => (rows.length + i) / n + 1) puts' := by
  induction more generalizing store rows uses puts with
  | nil =>
    refine ⟨puts, ?_⟩
    simpa using h
  | cons row more ih =>
    obtain ⟨puts', hstep⟩ := h.append row
    obtain ⟨puts'', hrun⟩ := ih hstep
    refine ⟨puts'', ?_⟩
    rw [List.append_assoc, List.append_assoc] at hrun
    have huses : (List.range (row :: more).length).map (fun i => (rows.length + i) / n + 1) =
        [rows.length / n + 1] ++
          (List.range more.length).map fun i => ((rows ++ [row]).length + i) / n + 1 := by
      rw [List.length_cons, List.range_succ_eq_map, List.map_cons, List.map_map]
      refine congrArg (_ :: ·) (List.map_congr_left fun i _ => ?_)
      rw [List.length_append, List.length_singleton, Function.comp_apply, Nat.succ_eq_add_one,
        Nat.add_assoc, Nat.add_comm 1]
    rw [huses]
    exact hrun

theorem replaceRows (h : Buffered n c store rows uses puts) (new : List Row) :
    ∃ puts', Buffered n c (store.replaceRows new) new
      (uses ++ (List.range new.length).map fun i => i / n + 1) puts' := by
  have hempty : Buffered n c { store with pages := .empty, slots := [] } [] uses puts := by
    refine ⟨h.rowsPerPage_eq, h.capacity_eq, ⟨rfl, rfl, fun _ => rfl⟩, h.traces, fun p hp => ?_⟩
    have := (lt_pageCount_iff h.pos).1 hp
    exact absurd this (Nat.not_lt_zero _)
  obtain ⟨puts', hafter⟩ := hempty.foldl_append new
  refine ⟨puts', ?_⟩
  simp only [List.nil_append, List.length_nil, Nat.zero_add] at hafter
  exact hafter

theorem update (h : Buffered n c store rows uses puts) {rowId : RowId}
    (hlt : rowId < rows.length) (row : Row) :
    ∃ puts', Buffered n c (store.update rowId row).2 (rows.set rowId row)
      (uses ++ [rowId / n + 1]) puts' := by
  have hn := h.pos
  have hslot : store.slots[rowId]? = some ⟨rowId / n + 1, rowId % n⟩ := by
    simp [h.represents.slots_eq, h.rowsPerPage_eq, hlt]
  have hafter : (store.update rowId row).2.Represents (rows.set rowId row) := by
    have := (h.represents.update rowId row).2
    rwa [VectorRowStore.update, if_neg (Nat.not_le.2 hlt)] at this
  have hsize : (store.update rowId row).2.rowsPerPage = store.rowsPerPage := by
    simp only [PageRowStore.update, hslot]
  have hpage : (store.update rowId row).2.pages.find? (rowId / n + 1) =
      some (pageOf n (rows.set rowId row) (rowId / n)) := by
    rw [hafter.pages_succ, hsize, h.rowsPerPage_eq, List.length_set]
    exact if_pos ((Nat.div_mul_le_self rowId n).trans_lt hlt)
  have hpool : (store.update rowId row).2.bufferPool = store.bufferPool.put
      (serializePage (rowId / n + 1) (pageOf n (rows.set rowId row) (rowId / n))) := by
    simp only [PageRowStore.update, hslot] at hpage ⊢
    rw [hpage]
    rfl
  refine ⟨_, h.put hsize hafter hpool fun q hq hne => ?_⟩
  rw [List.length_set] at hq
  exact ⟨hq, by rw [Represents.pageOf_set hn, if_neg hne]⟩

/-! ### Calls -/

/-- A call keeps the pool and the pages mirrored exactly if it leaves enough pages. -/
theorem call (h : Buffered n c store rows uses puts) (hmirrors : store.Mirrors)
    (call : StoreCall) :
    ∃ rows' uses' puts', Buffered n c (store.call call).2 rows' uses' puts' ∧
      rows'.length = lengthAfter rows.length call ∧
      ((store.call call).2.Mirrors ↔
        min c (pageCount n rows.length) ≤ pageCount n (lengthAfter rows.length call)) := by
  have hcurrent := h.mirrors_iff.1 hmirrors
  have hsame : min c (pageCount n rows.length) ≤ pageCount n rows.length := Nat.min_le_right _ _
  match call with
  | .append row =>
    obtain ⟨puts', hafter⟩ := h.append row
    have hle : rows.length ≤ rows.length + 1 := Nat.le_succ _
    refine ⟨_, _, puts', hafter, List.length_append, ?_⟩
    -- only the page of the new row is written, which is the last one
    refine iff_of_true (hafter.mirrors_iff.2 ?_) (hsame.trans (pageCount_mono hle))
    rw [List.length_append, List.length_singleton]
    exact holdsCurrent_concat hle (div_lt_pageCount h.pos (Nat.lt_succ_self _)) hcurrent
  | .erase rowId =>
    by_cases hlt : rowId < rows.length
    · -- an erase writes every page again, so pages can get lost
      obtain ⟨puts', hafter⟩ := h.replaceRows (rows.eraseIdx rowId)
      have hlength : (rows.eraseIdx rowId).length = rows.length - 1 :=
        List.length_eraseIdx_of_lt hlt
      have hcall : (store.call (.erase rowId)).2 = store.replaceRows (rows.eraseIdx rowId) := by
        have hlen : store.slots.length = rows.length := h.represents.size_eq
        rw [PageRowStore.call, PageRowStore.erase, hlen, if_neg (Nat.not_le.2 hlt),
          h.represents.snapshot_eq]
      rw [hcall, lengthAfter, if_pos hlt, ← hlength, hafter.mirrors_iff]
      exact ⟨_, _, puts', hafter, rfl, h.holdsCurrent_append_iff hcurrent _⟩
    · -- a row id that does not exist
      have hcall : (store.call (.erase rowId)).2 = store := by
        have hlen : store.slots.length = rows.length := h.represents.size_eq
        rw [PageRowStore.call, PageRowStore.erase, hlen, if_pos (Nat.le_of_not_lt hlt)]
      rw [hcall, lengthAfter, if_neg hlt]
      exact ⟨rows, uses, puts, h, rfl, iff_of_true hmirrors hsame⟩
  | .update rowId row =>
    by_cases hlt : rowId < rows.length
    · obtain ⟨puts', hafter⟩ := h.update hlt row
      refine ⟨_, _, puts', hafter, List.length_set, ?_⟩
      refine iff_of_true (hafter.mirrors_iff.2 ?_) hsame
      rw [List.length_set]
      exact holdsCurrent_concat le_rfl (div_lt_pageCount h.pos hlt) hcurrent
    · -- a row id that does not exist
      have hslot : store.slots[rowId]? = none := by simpa [h.represents.slots_eq] using hlt
      have hcall : (store.call (.update rowId row)).2 = store := by
        simp only [PageRowStore.call, PageRowStore.update, hslot]
      rw [hcall]
      exact ⟨rows, uses, puts, h, rfl, iff_of_true hmirrors hsame⟩
  | .replaceRows new =>
    obtain ⟨puts', hafter⟩ := h.replaceRows new
    refine ⟨new, _, puts', hafter, rfl, ?_⟩
    exact hafter.mirrors_iff.trans (h.holdsCurrent_append_iff hcurrent _)

/-- The states of a run mirror exactly if every call leaves enough pages. -/
theorem run (h : Buffered n c store rows uses puts) (hmirrors : store.Mirrors)
    (calls : List StoreCall) :
    (∀ earlier, earlier <+: calls → (store.run earlier).2.Mirrors) ↔
      KeepsBuffered n c rows.length calls := by
  induction calls generalizing store rows uses puts with
  | nil =>
    refine iff_of_true (fun earlier hprefix => ?_) trivial
    rw [List.prefix_nil.1 hprefix]
    exact hmirrors
  | cons call calls ih =>
    obtain ⟨rows', uses', puts', hafter, hlength, hstep⟩ := h.call hmirrors call
    rw [KeepsBuffered, ← hstep, ← hlength]
    constructor
    · intro hall
      have hcall := hall [call] (List.prefix_append [call] calls)
      refine ⟨hcall, (ih hafter hcall).1 fun earlier hprefix => ?_⟩
      exact hall (call :: earlier) ((List.prefix_cons_inj call).2 hprefix)
    · rintro ⟨hcall, hkeeps⟩ earlier hprefix
      match earlier with
      | [] => exact hmirrors
      | first :: earlier =>
        obtain ⟨rfl, hrest⟩ := List.cons_prefix_cons.1 hprefix
        exact (ih hafter hcall).2 hkeeps earlier hrest

end Buffered

/-- **Buffered pages mirror the row pages as long as the pool is filled anew.**  In every state of
a run of calls the pages held in the buffer pool are the pages of the store, with their bytes,
exactly if every call leaves as many pages as there were before it, or as the pool can hold. -/
theorem mirrors_iff_keepsBuffered {rowsPerPage bufferPageCapacity : ℕ} (hrows : 1 ≤ rowsPerPage)
    (hcapacity : 1 ≤ bufferPageCapacity) (calls : List StoreCall) :
    ∃ store, make rowsPerPage bufferPageCapacity = .ok store ∧
      ((∀ earlier, earlier <+: calls → (store.run earlier).2.Mirrors) ↔
        KeepsBuffered rowsPerPage bufferPageCapacity 0 calls) := by
  obtain ⟨pool, hpool, hpoolCapacity, htraces⟩ := traces_make hcapacity
  have hmake : make rowsPerPage bufferPageCapacity =
      .ok ⟨rowsPerPage, hrows, pool, [], .empty⟩ := by
    simp only [make, hpool]
    exact dif_pos hrows
  have hempty : Buffered rowsPerPage bufferPageCapacity ⟨rowsPerPage, hrows, pool, [], .empty⟩
      [] [] [] := by
    refine ⟨rfl, hpoolCapacity, ⟨rfl, rfl, fun _ => rfl⟩, htraces, fun p hp => ?_⟩
    exact absurd ((lt_pageCount_iff hrows).1 hp) (Nat.not_lt_zero _)
  refine ⟨_, hmake, hempty.run (hempty.mirrors_iff.2 ?_) calls⟩
  intro pageId hmem
  rw [recent_nil, List.take_nil] at hmem
  exact absurd hmem List.not_mem_nil

/-- Two pages, an update, and a replacement by as many rows. -/
theorem mirrors_iff_keepsBuffered_filled : ∃ store, make 1 2 = .ok store ∧
    ∀ earlier, earlier <+: [.append [.int 1], .append [.int 2], .update 0 [.int 3],
      .replaceRows [[.int 4], [.int 5]]] → (store.run earlier).2.Mirrors := by
  obtain ⟨store, hmake, hiff⟩ := @mirrors_iff_keepsBuffered 1 2 (by decide) (by decide)
    [.append [.int 1], .append [.int 2], .update 0 [.int 3], .replaceRows [[.int 4], [.int 5]]]
  refine ⟨store, hmake, hiff.2 ?_⟩
  simp [KeepsBuffered, lengthAfter, pageCount]

/-- Erasing one of two rows leaves the page that is gone in the pool. -/
theorem not_mirrors_erase : ∃ store, make 1 2 = .ok store ∧
    ¬ (store.run [.append [.int 1], .append [.int 2], .erase 0]).2.Mirrors := by
  refine ⟨⟨1, by decide, ⟨2, by decide, [], .empty, 0⟩, [], .empty⟩, rfl, fun hmirrors => ?_⟩
  obtain ⟨rows, hrows, -⟩ := hmirrors 2 (serializePage 2 [[.int 2]]) 1 rfl
  exact absurd hrows (by rintro ⟨⟩)

end PageRowStore

end VertexDB
