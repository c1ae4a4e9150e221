import VertexDB.Execution.JoinMeaning
import VertexDB.Parser.Remaining

/-!
# LIMIT

The loop that projects the rows tests the limit after it has pushed a row, on the plain path and
on the path of joins alike, and the limit is the literal of the text cast to an unsigned size.
`limit_iff` says for which literals the answer has the asked number of rows: for the positive
ones, and for zero when there is no row to return.
-/

namespace VertexDB

open Ascii

namespace QueryExecutor

variable {platform : Platform} {s : QueryExecutor} {command : Select} {table : Table}

/-! ### Whether there is a row to return -/

/-- The row ids that an index finds for a SELECT on one table, if its plan uses one. -/
def indexRowIds (command : Select) (table : Table) : Option (List RowId) :=
  match simpleComparison command.where_, (QueryPlanner.planSelect command table).accessPath with
  | some (column, _, value), .hashIndexLookup => table.indexedLookup column value
  | some (column, op, value), .orderedIndexRange => table.orderedLookup column op value
  | _, _ => none

/-- A row of the table answers the `WHERE` clause: an index leads to it, or a scan finds that it
passes. -/
def AnswersFrom (s : QueryExecutor) (command : Select) (table : Table) (row : Row) : Prop :=
  match indexRowIds command table with
  | some rowIds => row ∈ s.rowsByIdForRead table rowIds
  | none => row ∈ s.rowsSnapshotForRead table ∧
      passes table.schema command.where_ row = .ok true

/-- A pair of rows answers a join: the join columns are equal and the `WHERE` clause holds of
their concatenation. -/
def AnswersJoin (s : QueryExecutor) (command : Select) (join : JoinClause)
    (leftTable rightTable : Table) (left right : Row) : Prop :=
  left ∈ s.rowsSnapshotForRead leftTable ∧ right ∈ s.rowsSnapshotForRead rightTable ∧
    ∃ leftColumn rightColumn,
      resolveTableColumn leftTable command.table join.leftColumn = some leftColumn ∧
      resolveTableColumn rightTable join.table join.rightColumn = some rightColumn ∧
      (left.at leftColumn).equal (right.at rightColumn) ∧
      joinHolds (joinedNames command.table leftTable join.table rightTable) command.where_
        (left ++ right) = true

/-- Some row, or some pair of rows, answers the SELECT. -/
def Answers (s : QueryExecutor) (command : Select) : Prop :=
  match command.join with
  | none => ∃ table row, s.requireTable command.table = .ok table ∧ s.AnswersFrom command table row
  | some join => ∃ leftTable rightTable left right, s.requireTable command.table = .ok leftTable ∧
      s.requireTable join.table = .ok rightTable ∧
      s.AnswersJoin command join leftTable rightTable left right

/-- A row is collected through the index of the plan, or by a scan. -/
theorem collectRows_eq (command : Select) (table : Table) :
    s.collectRows command table = match indexRowIds command table with
      | some rowIds => .ok (s.rowsByIdForRead table rowIds)
      | none => filterRows (passes table.schema command.where_) (s.rowsSnapshotForRead table) := by
  unfold collectRows indexRowIds
  cases simpleComparison command.where_ with
  | none => rfl
  | some found =>
    obtain ⟨column, op, value⟩ := found
    cases (QueryPlanner.planSelect command table).accessPath with
    | fullScan => rfl
    | hashIndexLookup => cases table.indexedLookup column value <;> rfl
    | orderedIndexRange => cases table.orderedLookup column op value <;> rfl

theorem mem_filterRows {test : Row → Except Exception Bool} {rows kept : List Row}
    (h : filterRows test rows = .ok kept) {row : Row} :
    row ∈ kept ↔ row ∈ rows ∧ test row = .ok true := by
  induction rows generalizing kept with
  | nil => cases h; simp
  | cons first rows ih =>
    obtain ⟨passed, hpassed, h⟩ := Failure.bind_eq_ok_iff.1 h
    obtain ⟨rest, hrest, h⟩ := Failure.bind_eq_ok_iff.1 h
    cases h
    have hfirst : row = first → test row = .ok passed := fun heq => heq ▸ hpassed
    cases passed with
    | true => rw [if_pos rfl, List.mem_cons, List.mem_cons, ih hrest]; tauto
    | false =>
      rw [if_neg (by decide), List.mem_cons, ih hrest]
      refine ⟨fun ⟨hmem, htest⟩ => ⟨.inr hmem, htest⟩, ?_⟩
      rintro ⟨heq | hmem, htest⟩
      · rw [hfirst heq] at htest
        cases htest
      · exact ⟨hmem, htest⟩

theorem mem_collectRows {collected : List Row} (h : s.collectRows command table = .ok collected)
    {row : Row} : row ∈ collected ↔ s.AnswersFrom command table row := by
  rw [collectRows_eq] at h
  unfold AnswersFrom
  cases hindex : indexRowIds command table with
  | some rowIds =>
    simp only [hindex] at h
    cases h
    rfl
  | none =>
    simp only [hindex] at h
    exact mem_filterRows h

/-- Outside a transaction, the rows that answer are those of the table that satisfy the `WHERE`
clause, whatever path the plan takes. -/
theorem answers_iff_matching {collected : List Row} (hread : s.activeTransaction = none)
    (hreached : table.Reached) (hjoin : command.join = none)
    (htable : s.requireTable command.table = .ok table)
    (h : s.collectRows command table = .ok collected) :
    s.Answers command ↔
      ∃ row ∈ table.rowsSnapshot, Reference.matching table.schema command.where_ row = true := by
  have hmem : s.Answers command ↔ ∃ row, row ∈ collected := by
    simp only [Answers, hjoin, mem_collectRows h]
    constructor
    · rintro ⟨table', row, htable', hrow⟩
      rw [htable] at htable'
      cases htable'
      exact ⟨row, hrow⟩
    · rintro ⟨row, hrow⟩
      exact ⟨table, row, htable, hrow⟩
  rcases collectRows_cases hread hreached.holds command with ⟨-, found, hok, hperm⟩ | ⟨-, e, herr⟩
  · rw [h] at hok
    cases hok
    rw [hmem]
    refine exists_congr fun row => ?_
    rw [hperm.mem_iff, List.mem_filter]
  · rw [h] at herr
    cases herr

/-! ### The loop -/

/-- The loop pushes a row before it tests the limit. -/
theorem length_projectRows (projection : List ℕ) (n : ℕ) (rows : List Row) :
    (projectRows projection (some n) 0 rows).length = min (max n 1) rows.length := by
  by_cases h : 0 < n
  · rw [projectRows_some projection h, List.length_map, List.length_take, Nat.sub_zero]
    omega
  · cases rows with
    | nil => simp [projectRows]
    | cons row rows =>
      obtain rfl : n = 0 := by omega
      simp [projectRows]

theorem sortRows_perm {resolve : Str → Except Exception (Option ℕ)} {orderBy : Option OrderBy}
    {rows ordered : List Row} (h : sortRows platform resolve orderBy rows = .ok ordered) :
    ordered.Perm rows := by
  cases orderBy with
  | none => cases h; exact .refl _
  | some order =>
    obtain ⟨found, -, h⟩ := Failure.bind_eq_ok_iff.1 h
    cases found with
    | none => cases h
    | some index => cases h; exact platform.sort_perm _ _

theorem ne_nil_iff_of_perm {α : Type} {xs ys : List α} (h : xs.Perm ys) :
    xs ≠ [] ↔ ∃ y, y ∈ ys := by
  constructor
  · intro hne
    obtain ⟨x, hx⟩ := List.exists_mem_of_ne_nil xs hne
    exact ⟨x, h.mem_iff.1 hx⟩
  · rintro ⟨y, hy⟩
    exact List.ne_nil_of_mem (h.mem_iff.2 hy)

/-- The rows that a SELECT returns with its limit and without: the loop runs over the same rows. -/
theorem select_without_limit {result : QueryResult} (h : s.select platform command = .ok result) :
    ∃ whole projection ordered,
      s.select platform { command with limit := none } = .ok whole ∧
      result.rows = projectRows projection command.limit 0 ordered ∧
      whole.rows = projectRows projection none 0 ordered ∧ (ordered ≠ [] ↔ s.Answers command) := by
  unfold select at h ⊢
  unfold Answers
  cases hjoin : command.join with
  | none =>
    simp only [hjoin] at h
    obtain ⟨table, htable, hfrom⟩ := Failure.bind_eq_ok_iff.1 h
    obtain ⟨⟨projection, columns⟩, hprojection, hrows⟩ := Failure.bind_eq_ok_iff.1 hfrom
    obtain ⟨collected, hcollected, hsort⟩ := Failure.bind_eq_ok_iff.1 hrows
    obtain ⟨ordered, hordered, hresult⟩ := Failure.bind_eq_ok_iff.1 hsort
    cases hresult
    -- the limit comes last, so the same steps lead to the rows without it
    refine ⟨⟨true, bytes "selected rows", columns, projectRows projection none 0 ordered⟩,
      projection, ordered, ?_, rfl, rfl, ?_⟩
    · exact Failure.bind_eq_ok_iff.2 ⟨table, htable, Failure.bind_eq_ok_iff.2 ⟨_, hprojection,
        Failure.bind_eq_ok_iff.2 ⟨collected, hcollected,
          Failure.bind_eq_ok_iff.2 ⟨ordered, hordered, rfl⟩⟩⟩⟩
    · -- sorting keeps the rows, so there is one exactly when one was collected
      rw [ne_nil_iff_of_perm (sortRows_perm hordered)]
      simp only [mem_collectRows hcollected]
      constructor
      · rintro ⟨row, hrow⟩
        exact ⟨table, row, htable, hrow⟩
      · rintro ⟨table', row, htable', hrow⟩
        rw [htable] at htable'
        cases htable'
        exact ⟨row, hrow⟩
  | some join =>
    simp only [hjoin] at h
    obtain ⟨leftTable, rightTable, leftColumn, rightColumn, projection, ordered, hrun, rfl⟩ :=
      joinSelect_ok_iff.1 h
    refine ⟨_, projection, ordered, joinSelect_ok_iff.2 ⟨leftTable, rightTable, leftColumn,
      rightColumn, projection, ordered, ⟨hrun.left, hrun.right, hrun.leftColumn_eq,
        hrun.rightColumn_eq, hrun.projection_eq, hrun.evaluates, hrun.sorts⟩, rfl⟩, rfl, rfl, ?_⟩
    rw [ne_nil_iff_of_perm (sortRows_perm hrun.sorts)]
    simp only [joinedRows, HashJoin.mem_nestedLoop, rowKey_eq_rowKey_iff]
    constructor
    · rintro ⟨_, left, hleft, right, hright, hkeys, hholds, -⟩
      exact ⟨leftTable, rightTable, left, right, hrun.left, hrun.right, hleft, hright, leftColumn,
        rightColumn, hrun.leftColumn_eq, hrun.rightColumn_eq, hkeys, hholds⟩
    · rintro ⟨leftTable', rightTable', left, right, hleftTable, hrightTable, hleft, hright,
        leftColumn', rightColumn', hleftColumn, hrightColumn, hkeys, hholds⟩
      rw [hrun.left] at hleftTable
      rw [hrun.right] at hrightTable
      cases hleftTable
      cases hrightTable
      rw [hrun.leftColumn_eq] at hleftColumn
      rw [hrun.rightColumn_eq] at hrightColumn
      cases hleftColumn
      cases hrightColumn
      exact ⟨_, left, hleft, right, hright, hkeys, hholds, rfl⟩

/-! ### The asked number of rows -/

/-- **LIMIT returns the asked number of rows exactly when** the literal is positive, or is zero and
no row answers the SELECT. -/
theorem limit_iff (platform : Platform) (depth : ℕ) {s : QueryExecutor} {sql : Str}
    {command : Select} {k : I64} {result : QueryResult}
    (hparse : Parser.parse sql = .ok (.select command)) (hlimit : command.limit ≠ none)
    (hk : Parser.LimitLiteral sql k)
    (h : (execute platform (depth + 1) (.select command) s).1 = .ok result) :
    ∃ whole, (execute platform (depth + 1) (.select { command with limit := none }) s).1 =
        .ok whole ∧
      ((result.rows.length : ℤ) = min k.val whole.rows.length ↔
        1 ≤ k.val ∨ k.val = 0 ∧ ¬ s.Answers command) := by
  obtain ⟨n, hn⟩ := Option.ne_none_iff_exists'.1 hlimit
  obtain rfl := hk.limit_eq hparse hn
  obtain ⟨whole, projection, ordered, hwhole, hrows, hall, hanswers⟩ := select_without_limit h
  refine ⟨whole, hwhole, ?_⟩
  rw [hn] at hrows
  rw [hrows, hall, length_projectRows, projectRows_none, List.length_map, ← hanswers, not_not,
    ← List.length_eq_zero_iff]
  have hbits : 0 ≤ k.val → (k.toBits : ℤ) = k.val := fun hnonneg => by
    have := k.2
    unfold I64.toBits
    omega
  rcases lt_trichotomy k.val 0 with hneg | hzero | hpos
  · omega
  · have := hbits hzero.ge
    omega
  · have := hbits hpos.le
    omega

/-- A table `t` with three rows. -/
def limitExecutor : QueryExecutor :=
  sampleExecutor.withDatabase
    (some (putIn ⟨bytes "d", .empty⟩ (bytes "t") (Table.sampleTable.run sampleRows)))

/-- `SELECT b FROM t` with a limit. -/
def limitSelect (limit : Option ℕ) : Select := ⟨bytes "t", none, [bytes "b"], none, none, limit⟩

theorem limit_iff_two :
    ∃ whole, (execute (.byInsertion true) 1 (.select (limitSelect none)) limitExecutor).1 =
        .ok whole ∧ (2 : ℤ) = min 2 (whole.rows.length : ℤ) := by
  have hparse : Parser.parse (bytes "SELECT b FROM t LIMIT 2;") =
      .ok (.select (limitSelect (some 2))) := by decide +kernel
  have hk : Parser.LimitLiteral (bytes "SELECT b FROM t LIMIT 2;") ⟨2, by decide⟩ :=
    ⟨[⟨.identifier, bytes "SELECT"⟩, ⟨.identifier, bytes "b"⟩, ⟨.identifier, bytes "FROM"⟩,
      ⟨.identifier, bytes "t"⟩], bytes "LIMIT", bytes "2", [⟨.semicolon, bytes ";"⟩, ⟨.end, []⟩],
      by decide, by decide, by decide, .inr ⟨bytes ";", rfl⟩⟩
  have hrun : (execute (.byInsertion true) 1 (.select (limitSelect (some 2))) limitExecutor).1 =
      .ok ⟨true, bytes "selected rows", [bytes "b"], [[.null], [.string (bytes "x")]]⟩ := by
    decide
  obtain ⟨whole, hwhole, hiff⟩ := limit_iff (.byInsertion true) 0 hparse (by decide) hk hrun
  exact ⟨whole, hwhole, hiff.2 (.inl (by decide))⟩

/-- One row comes back for `LIMIT 0`. -/
theorem not_limit_zero : ∃ result whole,
    Parser.parse (bytes "SELECT b FROM t LIMIT 0") = .ok (.select (limitSelect (some 0))) ∧
    Parser.LimitLiteral (bytes "SELECT b FROM t LIMIT 0") ⟨0, by decide⟩ ∧
    (execute (.byInsertion true) 1 (.select (limitSelect (some 0))) limitExecutor).1 = .ok result ∧
    (execute (.byInsertion true) 1 (.select (limitSelect none)) limitExecutor).1 = .ok whole ∧
    (result.rows.length : ℤ) ≠ min 0 whole.rows.length := by
  refine ⟨⟨true, bytes "selected rows", [bytes "b"], [[.null]]⟩,
    ⟨true, bytes "selected rows", [bytes "b"], [[.null], [.string (bytes "x")], [.null]]⟩,
    by decide +kernel, ?_, by decide, by decide, by decide⟩
  exact ⟨[⟨.identifier, bytes "SELECT"⟩, ⟨.identifier, bytes "b"⟩, ⟨.identifier, bytes "FROM"⟩,
    ⟨.identifier, bytes "t"⟩], bytes "LIMIT", bytes "0", [⟨.end, []⟩], by decide, by decide,
    by decide, .inl rfl⟩

end QueryExecutor

end VertexDB
