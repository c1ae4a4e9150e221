import VertexDB.Execution.Refinement

/-!
# SELECT means filter, sort, take, project

A SELECT on one table reads its rows by a scan, by a hash lookup or by an ordered range.
`collectRows_cases` shows that the three give the rows that satisfy the `WHERE` clause, up to
order, and that an index lookup succeeds exactly when the scan would.  `select_means` puts the
sorting, the limit and the projection on top.
-/

namespace VertexDB

open Ascii InvertedIndex

namespace QueryExecutor

open Reference

/-! ### Scanning -/

/-- Either the test can be evaluated on every row, and the rows that pass are kept, or it throws
on some row. -/
theorem filterRows_cases (schema : List Column) (where_ : Option Predicate) (rows : List Row) :
    (∀ row ∈ rows, ∃ passed, passes schema where_ row = .ok passed) ∧
      filterRows (passes schema where_) rows = .ok (rows.filter (matching schema where_)) ∨
    (¬ ∀ row ∈ rows, ∃ passed, passes schema where_ row = .ok passed) ∧
      ∃ e, filterRows (passes schema where_) rows = .error e := by
  induction rows with
  | nil => exact .inl ⟨fun _ h => absurd h List.not_mem_nil, rfl⟩
  | cons row rows ih =>
    rw [filterRows]
    cases hp : passes schema where_ row with
    | error e =>
      refine .inr ⟨fun h => ?_, e, rfl⟩
      obtain ⟨passed, hp'⟩ := h row List.mem_cons_self
      rw [hp] at hp'
      cases hp'
    | ok passed =>
      rcases ih with ⟨hall, hok⟩ | ⟨hnot, e, herr⟩
      · refine .inl ⟨List.forall_mem_cons.2 ⟨⟨passed, hp⟩, hall⟩, ?_⟩
        rw [hok, List.filter_cons, matching_of_passes hp]
        cases passed <;> rfl
      · refine .inr ⟨fun h => hnot fun r hr => h r (List.mem_cons_of_mem _ hr), e, ?_⟩
        rw [herr]; rfl

/-! ### Looking rows up by position -/

/-- Fetching the elements at the positions where `p` holds is filtering by `p`. -/
theorem filterMap_positions {α : Type} (l : List α) (p : α → Bool) :
    ((List.range l.length).filter fun i => l[i]?.any p).filterMap (l[·]?) = l.filter p := by
  suffices h : ∀ k ≤ l.length, ((List.range k).filter fun i => l[i]?.any p).filterMap (l[·]?) =
      (l.take k).filter p by
    simpa using h l.length le_rfl
  intro k hk
  induction k with
  | zero => simp
  | succ k ih =>
    have hget : l[k]? = some l[k] := List.getElem?_eq_getElem hk
    rw [List.range_succ, List.filter_append, List.filterMap_append, ih (by omega),
      ← List.take_append_getElem hk, List.filter_append]
    congr 1
    cases hp : p l[k] with
    | true => simp [hget, hp]
    | false => simp [hget, hp]

variable {executor : QueryExecutor} {table : Table} {rows : List Row}

/-- The positions of the keys that satisfy `p` are those of the rows whose key does. -/
theorem rowsById_rowIdsWhere (h : table.Holds rows) (c : ℕ) (p : Value.Key → Bool) :
    table.rowsById ((List.range (Table.keysOf rows c).length).filter fun i =>
      (Table.keysOf rows c)[i]?.any p) = rows.filter fun row => p (row.at c).key := by
  rw [Table.rowsById, h.represents.rowsById_eq, VectorRowStore.rowsById, Table.length_keysOf]
  have hkeys : ∀ i : ℕ, (Table.keysOf rows c)[i]?.any p =
      rows[i]?.any fun row : Row => p (row.at c).key := by
    intro i
    simp only [Table.keysOf, List.getElem?_map, Option.any_map]
  simp only [hkeys]
  exact filterMap_positions rows fun row => p (row.at c).key

theorem rowsById_perm {rowIds rowIds' : List RowId} (h : rowIds.Perm rowIds') :
    (table.rowsById rowIds).Perm (table.rowsById rowIds') := h.filterMap _

/-- A comparison on an existing column can be evaluated on every row. -/
theorem passes_comparison {schema : List Column} {column : Str} {c : ℕ}
    (hc : columnIndex schema column = some c) (op : ComparisonOperator) (value : Value)
    (row : Row) :
    passes schema (some (.comparison column op value)) row = .ok (compare (row.at c) op value) := by
  simp only [passes, matchesPredicate, evalPredicate, hc, Failure.pure_eq_ok, Failure.ok_bind]

theorem filter_matching_comparison {schema : List Column} {column : Str} {c : ℕ}
    (hc : columnIndex schema column = some c) (op : ComparisonOperator) (value : Value) :
    rows.filter (matching schema (some (.comparison column op value))) =
      rows.filter fun row => compare (row.at c) op value :=
  List.filter_congr fun row _ => matching_of_passes (passes_comparison hc op value row)

/-- The access path of a plan. -/
theorem accessPath_cases (command : Select) (table : Table) :
    (∃ column value, command.where_ = some (.comparison column .equal value) ∧
      table.hasIndex column = true ∧
      (QueryPlanner.planSelect command table).accessPath = .hashIndexLookup) ∨
    (∃ column op value, command.where_ = some (.comparison column op value) ∧
      (op = .greater ∨ op = .less) ∧ table.hasIndex column = true ∧
      (QueryPlanner.planSelect command table).accessPath = .orderedIndexRange) ∨
    (QueryPlanner.planSelect command table).accessPath = .fullScan := by
  unfold QueryPlanner.planSelect
  cases hw : simpleComparison command.where_ with
  | none => exact .inr (.inr rfl)
  | some found =>
    obtain ⟨column, op, value⟩ := found
    have hwhere : command.where_ = some (.comparison column op value) := by
      unfold simpleComparison at hw
      split at hw
      · cases hw; assumption
      · cases hw
    simp only
    split_ifs with h1 h2
    · obtain ⟨rfl, hi⟩ := h1
      exact .inl ⟨column, value, hwhere, hi, rfl⟩
    · exact .inr (.inl ⟨column, op, value, hwhere, h2.1, h2.2, rfl⟩)
    · exact .inr (.inr rfl)

/-- **The access paths agree.**  Outside a transaction, either the `WHERE` clause can be evaluated
on every row, and the rows collected are those that satisfy it, in some order; or it throws on
some row, and so does the command. -/
theorem collectRows_cases (hread : executor.activeTransaction = none) (h : table.Holds rows)
    (command : Select) :
    (∀ row ∈ rows, ∃ passed, passes table.schema command.where_ row = .ok passed) ∧
      (∃ collected, executor.collectRows command table = .ok collected ∧
        collected.Perm (rows.filter (matching table.schema command.where_))) ∨
    (¬ ∀ row ∈ rows, ∃ passed, passes table.schema command.where_ row = .ok passed) ∧
      ∃ e, executor.collectRows command table = .error e := by
  have hversion : executor.readVersion = none := by rw [readVersion, hread]; rfl
  have hsnapshot : executor.rowsSnapshotForRead table = rows := by
    rw [rowsSnapshotForRead, hversion]; exact h.rowsSnapshot_eq
  have hbyId (ids : List RowId) : executor.rowsByIdForRead table ids = table.rowsById ids := by
    rw [rowsByIdForRead, hversion]
  rcases accessPath_cases command table with ⟨column, value, hw, hi, hpath⟩ |
    ⟨column, op, value, hw, hop, hi, hpath⟩ | hpath
  · -- the hash index has the positions of the equal keys
    obtain ⟨c, hc, hlookup⟩ := h.indexedLookup hi value
    have hsimple : simpleComparison command.where_ = some (column, .equal, value) := by rw [hw]; rfl
    refine .inl ⟨fun row _ => ⟨_, by rw [hw]; exact passes_comparison hc _ _ row⟩,
      table.rowsById (positions (Table.keysOf rows c) value.key), ?_, ?_⟩
    · rw [collectRows, hsimple, hpath]
      simp only [hlookup, hbyId]
      rfl
    · rw [hw, filter_matching_comparison hc]
      have hpos : positions (Table.keysOf rows c) value.key =
          (List.range (Table.keysOf rows c).length).filter fun i =>
            (Table.keysOf rows c)[i]?.any (· = value.key) := by
        refine List.filter_congr fun i hi => ?_
        rw [List.getElem?_eq_getElem (List.mem_range.1 hi)]
        simp
      rw [hpos, rowsById_rowIdsWhere h]
      exact .of_eq (List.filter_congr fun row _ => Value.decide_key_eq_key _ _)
  · -- the ordered index has the positions by key, so the rows come in another order
    obtain ⟨c, ordered, hc, hidx, hless, hgreater⟩ := h.orderedLookup hi value
    have hsimple : simpleComparison command.where_ = some (column, op, value) := by rw [hw]; rfl
    obtain ⟨p, hlookup, hp⟩ : ∃ p : Value.Key → Bool,
        table.orderedLookup column op value = some (InvertedIndex.select ordered p) ∧
          ∀ v : Value, p v.key = compare v op value := by
      rcases hop with rfl | rfl
      · exact ⟨_, hgreater, value.decide_key_lt_key⟩
      · exact ⟨_, hless, fun v => v.decide_key_lt_key value⟩
    refine .inl ⟨fun row _ => ⟨_, by rw [hw]; exact passes_comparison hc _ _ row⟩,
      table.rowsById (InvertedIndex.select ordered p), ?_, ?_⟩
    · rw [collectRows, hsimple, hpath]
      simp only [hlookup, hbyId]
      rfl
    · rw [hw, filter_matching_comparison hc]
      refine (rowsById_perm (hidx.select_perm p)).trans ?_
      rw [rowsById_rowIdsWhere h]
      simp only [hp]
      exact .refl _
  · -- without an index the rows are scanned
    have hscan : executor.collectRows command table =
        filterRows (passes table.schema command.where_) rows := by
      rw [collectRows, hpath, hsnapshot]
      cases simpleComparison command.where_ <;> rfl
    rw [hscan]
    rcases filterRows_cases table.schema command.where_ rows with ⟨hall, hok⟩ | ⟨hnot, herr⟩
    · exact .inl ⟨hall, _, hok, .refl _⟩
    · exact .inr ⟨hnot, herr⟩

/-! ### Sorting, limit and projection -/

/-- `ORDER BY` on the column at `index`. -/
def OrderedBy (ascending : Bool) (index : ℕ) (rows : List Row) : Prop :=
  rows.Pairwise fun a b =>
    if ascending then a.at index ≤ b.at index else b.at index ≤ a.at index

theorem orderLess_eq_false_iff {ascending : Bool} {index : ℕ} {a b : Row} :
    orderLess ascending index b a = false ↔
      if ascending then a.at index ≤ b.at index else b.at index ≤ a.at index := by
  cases ascending with
  | true => exact Value.lt_eq_false_iff
  | false => exact Value.lt_eq_false_iff

theorem orderedBy_sort (platform : Platform) (ascending : Bool) (index : ℕ) (rows : List Row) :
    OrderedBy ascending index (platform.sort (orderLess ascending index) rows) := by
  refine (platform.sort_pairwise (orderLess ascending index) rows ?_ ?_).imp
    fun hab => orderLess_eq_false_iff.1 hab
  · intro a b hab
    rw [orderLess_eq_false_iff]
    cases ascending with
    | true => exact (Value.lt_iff.1 hab).le
    | false => exact (Value.lt_iff.1 hab).le
  · intro a b c hba hcb
    rw [orderLess_eq_false_iff] at hba hcb ⊢
    cases ascending with
    | true => exact le_trans hba hcb
    | false => exact le_trans hcb hba

/-- The first `limit` rows, or all of them. -/
def takeLimit (limit : Option ℕ) (rows : List Row) : List Row :=
  match limit with
  | none => rows
  | some n => rows.take n

/-- The projection of a row. -/
def projected (projection : List ℕ) (row : Row) : Row := projection.map row.at

theorem projectRows_none (projection : List ℕ) (count : ℕ) (rows : List Row) :
    projectRows projection none count rows = rows.map (projected projection) := by
  induction rows generalizing count with
  | nil => rfl
  | cons row rows ih =>
    simp only [projectRows, Option.any_none, Bool.false_eq_true, if_false, ih, List.map_cons]
    rfl

theorem projectRows_some (projection : List ℕ) {n count : ℕ} (h : count < n) (rows : List Row) :
    projectRows projection (some n) count rows =
      (rows.take (n - count)).map (projected projection) := by
  induction rows generalizing count with
  | nil => simp [projectRows]
  | cons row rows ih =>
    obtain ⟨k, hk⟩ : ∃ k, n - count = k + 1 := ⟨n - count - 1, by omega⟩
    simp only [projectRows, Option.any_some, decide_eq_true_eq, hk, List.take_succ_cons,
      List.map_cons]
    congr 1
    split_ifs with hn
    · have : k = 0 := by omega
      simp [this]
    · rw [ih (by omega)]
      have : n - (count + 1) = k := by omega
      rw [this]

/-- With a limit of at least one row, the loop takes the first rows. -/
theorem projectRows_eq (projection : List ℕ) {limit : Option ℕ} (h : ∀ n, limit = some n → 1 ≤ n)
    (rows : List Row) :
    projectRows projection limit 0 rows = (takeLimit limit rows).map (projected projection) := by
  cases limit with
  | none => exact projectRows_none projection 0 rows
  | some n => exact projectRows_some projection (h n rfl) rows

theorem sortRows_cases (platform : Platform) (schema : List Column) (orderBy : Option OrderBy) :
    (∀ rows, ∃ sorted, sortRows platform (fun column => return columnIndex schema column) orderBy
        rows = .ok sorted ∧ sorted.Perm rows ∧
      ∀ order, orderBy = some order → ∃ index, columnIndex schema order.column = some index ∧
        OrderedBy order.ascending index sorted) ∨
    ∀ rows, ∃ e, sortRows platform (fun column => return columnIndex schema column) orderBy rows =
      .error e := by
  cases orderBy with
  | none => exact .inl fun rows => ⟨rows, rfl, .refl _, by simp⟩
  | some order =>
    cases hc : columnIndex schema order.column with
    | none =>
      refine .inr fun rows => ⟨.runtimeError "unknown ORDER BY column", ?_⟩
      simp only [sortRows, hc]
      rfl
    | some index =>
      refine .inl fun rows => ⟨platform.sort (orderLess order.ascending index) rows, ?_,
        platform.sort_perm _ _, ?_⟩
      · simp only [sortRows, hc]; rfl
      · rintro _ ⟨⟩
        exact ⟨index, hc, orderedBy_sort platform _ _ _⟩

/-! ### The meaning of SELECT -/

/-- What a SELECT on one table answers: the projection of the first rows of a permutation of the
rows that satisfy the `WHERE` clause, in the order of the `ORDER BY` clause. -/
def SelectMeans (command : Select) (table : Table) (result : QueryResult) : Prop :=
  ∃ projection ordered,
    resolveProjection command table = .ok (projection, result.columns) ∧
    ordered.Perm (table.rowsSnapshot.filter (matching table.schema command.where_)) ∧
    (∀ order, command.orderBy = some order → ∃ index,
      columnIndex table.schema order.column = some index ∧
        OrderedBy order.ascending index ordered) ∧
    result.rows = (takeLimit command.limit ordered).map (projected projection)

/-- The columns of a SELECT exist, and its `WHERE` clause can be evaluated on every row. -/
structure Selectable (platform : Platform) (command : Select) (table : Table) : Prop where
  projection : ∃ p, resolveProjection command table = .ok p
  evaluates : ∀ row ∈ table.rowsSnapshot,
    ∃ passed, passes table.schema command.where_ row = .ok passed
  sorts : ∀ rows, ∃ sorted, sortRows platform
    (fun column => return columnIndex table.schema column) command.orderBy rows = .ok sorted

theorem Selectable.congr {platform : Platform} {command : Select} {table' : Table}
    (h : Selectable platform command table) (hschema : table'.schema = table.schema)
    (hrows : table'.rowsSnapshot = table.rowsSnapshot) : Selectable platform command table' := by
  obtain ⟨hproj, hall, hsort⟩ := h
  refine ⟨?_, ?_, ?_⟩
  · simpa only [resolveProjection, hschema] using hproj
  · rw [hrows, hschema]; exact hall
  · rw [hschema]; exact hsort

/-- A SELECT either succeeds, and means what it should, or is not selectable. -/
theorem selectFrom_cases (platform : Platform) (hread : executor.activeTransaction = none)
    (hreached : table.Reached) {command : Select} (hlimit : ∀ n, command.limit = some n → 1 ≤ n) :
    (∃ result, executor.selectFrom platform command table = .ok result ∧
      SelectMeans command table result) ∧ Selectable platform command table ∨
    (∃ e, executor.selectFrom platform command table = .error e) ∧
      ¬ Selectable platform command table := by
  unfold selectFrom
  cases hproj : resolveProjection command table with
  | error e =>
    refine .inr ⟨⟨e, rfl⟩, fun h => ?_⟩
    obtain ⟨p, hp⟩ := h.projection
    rw [hproj] at hp
    cases hp
  | ok p =>
    obtain ⟨projection, columns⟩ := p
    -- projection and sorting fail for all rows or none, only the predicate depends on them
    rcases collectRows_cases hread hreached.holds command with
      ⟨hall, collected, hok, hperm⟩ | ⟨hnot, e, herr⟩
    swap
    · exact .inr ⟨⟨e, by simp only [Failure.ok_bind, herr, Failure.error_bind]⟩,
        fun h => hnot h.evaluates⟩
    rcases sortRows_cases platform table.schema command.orderBy with hsort | hfail
    swap
    · obtain ⟨e, he⟩ := hfail collected
      refine .inr ⟨⟨e, by simp only [Failure.ok_bind, hok, he, Failure.error_bind]⟩, fun h => ?_⟩
      obtain ⟨_, hs⟩ := h.sorts collected
      rw [he] at hs
      cases hs
    obtain ⟨ordered, hsorted, hordered, horder⟩ := hsort collected
    refine .inl ⟨⟨⟨true, bytes "selected rows", columns,
      projectRows projection command.limit 0 ordered⟩, ?_, ?_⟩, ⟨_, hproj⟩, hall,
      fun rows => let ⟨sorted, hs, _⟩ := hsort rows; ⟨sorted, hs⟩⟩
    · simp only [Failure.ok_bind, hok, hsorted]
      rfl
    · exact ⟨projection, ordered, hproj, hordered.trans hperm, horder,
        projectRows_eq projection hlimit ordered⟩

/-- Without a limit, the answer is determined up to order. -/
theorem SelectMeans.perm {command : Select} {table table' : Table} {result result' : QueryResult}
    (h : SelectMeans command table result) (h' : SelectMeans command table' result')
    (hlimit : command.limit = none) (hschema : table'.schema = table.schema)
    (hrows : table'.rowsSnapshot = table.rowsSnapshot) : result'.rows.Perm result.rows := by
  obtain ⟨projection, ordered, hproj, hperm, -, hres⟩ := h
  obtain ⟨projection', ordered', hproj', hperm', -, hres'⟩ := h'
  have hsame : resolveProjection command table' = resolveProjection command table := by
    simp only [resolveProjection, hschema]
  rw [hsame, hproj, Except.ok.injEq, Prod.mk.injEq] at hproj'
  obtain ⟨rfl, -⟩ := hproj'
  rw [hres, hres', hlimit]
  rw [hschema, hrows] at hperm'
  exact (hperm'.trans hperm.symm).map _

/-- **SELECT means filter, sort, take, project, whatever indexes exist**, and creating an index
does not change the rows of an answer without a limit. -/
theorem select_means (platform : Platform) (depth : ℕ) {s : QueryExecutor} {db : Database}
    {table : Table} {command : Select} {result : QueryResult} (hdb : s.database = some db)
    (htable : db.table command.table = some table) (hreached : table.Reached)
    (hread : s.activeTransaction = none) (hjoin : command.join = none)
    (hlimit : ∀ n, command.limit = some n → 1 ≤ n)
    (h : (execute platform (depth + 1) (.select command) s).1 = .ok result) :
    SelectMeans command table result ∧
      ∀ indexName column, command.limit = none → ∃ result',
        (execute platform (depth + 1) (.select command)
          (s.withDatabase (some (putIn db command.table
            (table.createIndex indexName column).2)))).1 = .ok result' ∧
          result'.rows.Perm result.rows := by
  have hselect (t : QueryExecutor) (d : Database) (tbl : Table) (hd : t.database = some d)
      (ht : d.table command.table = some tbl) :
      execute platform (depth + 1) (.select command) t =
        (t.selectFrom platform command tbl, t) := by
    change (t.select platform command, t) = _
    simp only [select, hjoin, requireTable, hd, ht]
    rfl
  have hok : s.selectFrom platform command table = .ok result := by
    rwa [hselect s db table hdb htable] at h
  rcases selectFrom_cases platform hread hreached hlimit with
    ⟨⟨result₁, hok₁, hmeans⟩, hselectable⟩ | ⟨⟨e, herr⟩, -⟩
  swap
  · rw [hok] at herr
    cases herr
  rw [hok] at hok₁
  cases hok₁
  refine ⟨hmeans, fun indexName column hnone => ?_⟩
  -- the same query on the indexed table, which holds the same rows
  set indexed := (table.createIndex indexName column).2 with hindexed
  obtain ⟨hh, -, hschema, -⟩ := hreached.holds.createIndex indexName column
  rw [← hindexed] at hh hschema
  have hrows : indexed.rowsSnapshot = table.rowsSnapshot := hh.rowsSnapshot_eq
  rw [hselect (s.withDatabase (some (putIn db command.table indexed)))
    (putIn db command.table indexed) indexed rfl (by simp [Database.table, putIn])]
  have hread' : (s.withDatabase (some (putIn db command.table indexed))).activeTransaction = none :=
    hread
  rcases selectFrom_cases platform hread' (hreached.apply (.createIndex indexName column)) hlimit
    with ⟨⟨result', hok', hmeans'⟩, -⟩ | ⟨-, hnot⟩
  · exact ⟨result', hok', hmeans.perm hmeans' hnone hschema hrows⟩
  · exact absurd (hselectable.congr hschema hrows) hnot

/-- Two rows with the same key and one with a smaller key. -/
def sampleRows : List Table.Op :=
  [.insert [.int 2, .null], .createIndex (bytes "i") (bytes "a"),
    .insert [.int 2, .string (bytes "x")], .insert [.int 1, .null]]

/-- `SELECT b FROM t WHERE a > 0 ORDER BY a DESC LIMIT 2`. -/
def sampleSelect : Select :=
  ⟨bytes "t", none, [bytes "b"], some (.comparison (bytes "a") .greater (.int 0)),
    some ⟨bytes "a", false⟩, some 2⟩

theorem select_means_sampleSelect :
    SelectMeans sampleSelect (Table.sampleTable.run sampleRows)
      ⟨true, bytes "selected rows", [bytes "b"], [[.null], [.string (bytes "x")]]⟩ := by
  let db := putIn ⟨bytes "d", .empty⟩ (bytes "t") (Table.sampleTable.run sampleRows)
  have hrun : (execute (.byInsertion true) 1 (.select sampleSelect)
      (sampleExecutor.withDatabase (some db))).1 =
        .ok ⟨true, bytes "selected rows", [bytes "b"], [[.null], [.string (bytes "x")]]⟩ := by
    decide
  refine (select_means (.byInsertion true) 0 (s := sampleExecutor.withDatabase (some db)) rfl rfl
    ⟨bytes "t", Table.sampleTable.schema, _, sampleRows, rfl, rfl⟩ rfl rfl ?_ hrun).1
  rintro _ ⟨⟩
  decide

end QueryExecutor

end VertexDB
