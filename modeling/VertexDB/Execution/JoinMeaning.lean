import VertexDB.Execution.RowBounds
import VertexDB.Execution.SelectMeaning
import VertexDB.Lib.HashJoin

/-!
# JOIN means nested loops

`JoinedRows` says what a SELECT with a join gathers: the concatenations of the rows of the two
tables, in the order of two nested loops, for which the join columns are equal and the `WHERE`
tree holds.  `join_means` shows that the code, which goes through a map of the right rows by their
key and a second evaluator of predicates, answers the projection of those rows, sorted by the
`ORDER BY` column.
-/

namespace VertexDB

open Ascii

namespace QueryExecutor

/-! ### The `WHERE` tree -/

/-- A predicate holds of a row, given the positions of the columns. -/
def holdsOf (position : Str → Option ℕ) (row : Row) : Predicate → Bool
  | .and left right => holdsOf position row left && holdsOf position row right
  | .or left right => holdsOf position row left || holdsOf position row right
  | .comparison column op value =>
    (position column).any fun index => compare (row.at index) op value

/-- The position of a column of a join. -/
def joinPosition (joinedColumns : List Str) (column : Str) : Option ℕ :=
  match resolveResultColumn joinedColumns column with
  | .ok index => index
  | .error _ => none

/-- The `WHERE` clause of a join holds of a joined row. -/
def joinHolds (joinedColumns : List Str) (where_ : Option Predicate) (row : Row) : Bool :=
  where_.all (holdsOf (joinPosition joinedColumns) row)

/-- The evaluator agrees with the meaning, although it does not always evaluate both operands. -/
theorem holdsOf_of_evalPredicate {resolve : Str → Except Exception (Option ℕ)}
    {position : Str → Option ℕ} (hresolve : ∀ column index, resolve column = .ok index →
      position column = index) {row : Row} {predicate : Predicate} {holds : Bool}
    (h : evalPredicate resolve row predicate = .ok holds) :
    holdsOf position row predicate = holds := by
  induction predicate generalizing holds with
  | and left right ihl ihr =>
    obtain ⟨leftHolds, hleft, h⟩ := Failure.bind_eq_ok_iff.1 h
    rw [holdsOf, ihl hleft]
    cases leftHolds with
    | false => cases h; rfl
    | true => rw [Bool.true_and]; exact ihr h
  | or left right ihl ihr =>
    obtain ⟨leftHolds, hleft, h⟩ := Failure.bind_eq_ok_iff.1 h
    rw [holdsOf, ihl hleft]
    cases leftHolds with
    | false => rw [Bool.false_or]; exact ihr h
    | true => cases h; rfl
  | comparison column op value =>
    obtain ⟨index, hindex, h⟩ := Failure.bind_eq_ok_iff.1 h
    cases index with
    | none => cases h
    | some index =>
      cases h
      rw [holdsOf, hresolve column _ hindex]
      rfl

theorem filterRows_eq {test : Row → Except Exception Bool} {holds : Row → Bool}
    (htest : ∀ row passed, test row = .ok passed → holds row = passed) {rows kept : List Row}
    (h : filterRows test rows = .ok kept) : kept = rows.filter holds := by
  induction rows generalizing kept with
  | nil => cases h; rfl
  | cons row rows ih =>
    obtain ⟨passed, hpassed, h⟩ := Failure.bind_eq_ok_iff.1 h
    obtain ⟨rest, hrest, h⟩ := Failure.bind_eq_ok_iff.1 h
    cases h
    rw [List.filter_cons, htest row passed hpassed, ih hrest]

/-! ### What a join runs -/

/-- The key of a row in a join on one of its columns: rows match when the values are equal. -/
def rowKey (column : ℕ) (row : Row) : Value.Key := (row.at column).key

theorem rowKey_eq_rowKey_iff {column column' : ℕ} {row row' : Row} :
    rowKey column row = rowKey column' row' ↔ (row.at column).equal (row'.at column') = true :=
  Value.equal_iff.symm

/-- The rows of a join before `ORDER BY`: two nested loops over the rows of the tables. -/
def joinedRows (joinedColumns : List Str) (where_ : Option Predicate)
    (leftColumn rightColumn : ℕ) (leftRows rightRows : List Row) : List Row :=
  HashJoin.nestedLoop (rowKey leftColumn) (rowKey rightColumn) (· ++ ·)
    (joinHolds joinedColumns where_) leftRows rightRows

/-- The test of the `WHERE` clause of a join. -/
def joinPasses (joinedColumns : List Str) (where_ : Option Predicate) (row : Row) :
    Except Exception Bool :=
  match where_ with
  | none => return true
  | some predicate => evalPredicate (resolveResultColumn joinedColumns) row predicate

/-- The concatenations of the left rows with the right rows of the same key. -/
def matchedRows (leftColumn rightColumn : ℕ) (leftRows rightRows : List Row) : List Row :=
  HashJoin.probe (rowKey leftColumn) (· ++ ·) (rowsByKey rightColumn rightRows) leftRows

theorem joinHolds_of_joinPasses {joinedColumns : List Str} {where_ : Option Predicate} {row : Row}
    {passed : Bool} (h : joinPasses joinedColumns where_ row = .ok passed) :
    joinHolds joinedColumns where_ row = passed := by
  cases where_ with
  | none => cases h; rfl
  | some predicate =>
    refine holdsOf_of_evalPredicate (fun column index hindex => ?_) h
    rw [joinPosition, hindex]

theorem joinedRows_of_filterRows {joinedColumns : List Str} {where_ : Option Predicate}
    {leftColumn rightColumn : ℕ} {leftRows rightRows kept : List Row}
    (h : filterRows (joinPasses joinedColumns where_)
      (matchedRows leftColumn rightColumn leftRows rightRows) = .ok kept) :
    kept = joinedRows joinedColumns where_ leftColumn rightColumn leftRows rightRows := by
  rw [filterRows_eq (fun _ _ => joinHolds_of_joinPasses) h]
  exact HashJoin.filter_probe_eq_nestedLoop _ _ _ _ leftRows rightRows

variable {platform : Platform} {executor : QueryExecutor} {command : Select} {join : JoinClause}
  {leftTable rightTable : Table}

/-- The positions of the selected columns of a join. -/
def joinProjection (joinedColumns columns : List Str) : Except Exception (List ℕ) :=
  if columns = [bytes "*"] then pure (List.range joinedColumns.length)
  else resolveJoinColumns joinedColumns columns

/-- The steps of a join that returns normally, up to its limit. -/
structure JoinRun (platform : Platform) (executor : QueryExecutor) (command : Select)
    (join : JoinClause) (leftTable rightTable : Table) (leftColumn rightColumn : ℕ)
    (projection : List ℕ) (ordered : List Row) : Prop where
  left : executor.requireTable command.table = .ok leftTable
  right : executor.requireTable join.table = .ok rightTable
  leftColumn_eq : resolveTableColumn leftTable command.table join.leftColumn = some leftColumn
  rightColumn_eq : resolveTableColumn rightTable join.table join.rightColumn = some rightColumn
  projection_eq : joinProjection (joinedNames command.table leftTable join.table rightTable)
    command.columns = .ok projection
  evaluates : filterRows
    (joinPasses (joinedNames command.table leftTable join.table rightTable) command.where_)
    (matchedRows leftColumn rightColumn (executor.rowsSnapshotForRead leftTable)
      (executor.rowsSnapshotForRead rightTable)) =
    .ok (joinedRows (joinedNames command.table leftTable join.table rightTable) command.where_
      leftColumn rightColumn (executor.rowsSnapshotForRead leftTable)
      (executor.rowsSnapshotForRead rightTable))
  sorts : sortRows platform
    (resolveResultColumn (joinedNames command.table leftTable join.table rightTable))
    command.orderBy
    (joinedRows (joinedNames command.table leftTable join.table rightTable) command.where_
      leftColumn rightColumn (executor.rowsSnapshotForRead leftTable)
      (executor.rowsSnapshotForRead rightTable)) = .ok ordered

/-- What a join answers. -/
def joinAnswer (joinedColumns : List Str) (limit : Option ℕ) (projection : List ℕ)
    (ordered : List Row) : QueryResult :=
  ⟨true, bytes "selected rows", projection.map fun i => joinedColumns.getD i [],
    projectRows projection limit 0 ordered⟩

/-- The steps of a join after its tables and join columns are found. -/
theorem joinSelect_eq {leftColumn rightColumn : ℕ}
    (hleft : executor.requireTable command.table = .ok leftTable)
    (hright : executor.requireTable join.table = .ok rightTable)
    (hl : resolveTableColumn leftTable command.table join.leftColumn = some leftColumn)
    (hr : resolveTableColumn rightTable join.table join.rightColumn = some rightColumn) :
    executor.joinSelect platform command join = do
      let joinedColumns := joinedNames command.table leftTable join.table rightTable
      let projection ← joinProjection joinedColumns command.columns
      let rows ← filterRows (joinPasses joinedColumns command.where_)
        (matchedRows leftColumn rightColumn (executor.rowsSnapshotForRead leftTable)
          (executor.rowsSnapshotForRead rightTable))
      let rows ← sortRows platform (resolveResultColumn joinedColumns) command.orderBy rows
      return joinAnswer joinedColumns command.limit projection rows := by
  unfold joinSelect joinProjection
  rw [hleft, hright]
  simp only [Failure.ok_bind, hl, hr]
  split_ifs <;> rfl

/-- A join that returns normally runs through its steps. -/
theorem joinSelect_ok_iff {result : QueryResult} :
    executor.joinSelect platform command join = .ok result ↔
      ∃ leftTable rightTable leftColumn rightColumn projection ordered,
        JoinRun platform executor command join leftTable rightTable leftColumn rightColumn
          projection ordered ∧
        result = joinAnswer (joinedNames command.table leftTable join.table rightTable)
          command.limit projection ordered := by
  constructor
  · intro h
    obtain ⟨leftTable, hleft, hrest⟩ := Failure.bind_eq_ok_iff.1 h
    obtain ⟨rightTable, hright, hrest⟩ := Failure.bind_eq_ok_iff.1 hrest
    cases hl : resolveTableColumn leftTable command.table join.leftColumn with
    | none => rw [hl] at hrest; cases hrest
    | some leftColumn =>
      cases hr : resolveTableColumn rightTable join.table join.rightColumn with
      | none => rw [hl, hr] at hrest; cases hrest
      | some rightColumn =>
        rw [joinSelect_eq hleft hright hl hr] at h
        obtain ⟨projection, hprojection, h⟩ := Failure.bind_eq_ok_iff.1 h
        obtain ⟨kept, hkept, h⟩ := Failure.bind_eq_ok_iff.1 h
        obtain ⟨ordered, hordered, h⟩ := Failure.bind_eq_ok_iff.1 h
        cases h
        obtain rfl := joinedRows_of_filterRows hkept
        exact ⟨leftTable, rightTable, leftColumn, rightColumn, projection, ordered,
          ⟨hleft, hright, hl, hr, hprojection, hkept, hordered⟩, rfl⟩
  · rintro ⟨leftTable, rightTable, leftColumn, rightColumn, projection, ordered, h, rfl⟩
    rw [joinSelect_eq h.left h.right h.leftColumn_eq h.rightColumn_eq]
    exact Failure.bind_eq_ok_iff.2 ⟨projection, h.projection_eq, Failure.bind_eq_ok_iff.2
      ⟨_, h.evaluates, Failure.bind_eq_ok_iff.2 ⟨ordered, h.sorts, rfl⟩⟩⟩

/-! ### The meaning of a join -/

/-- What a SELECT with a join answers without a limit: the projection of the joined rows, in the
order of the `ORDER BY` clause, or in that of the loops if there is none. -/
def JoinMeans (platform : Platform) (command : Select) (join : JoinClause)
    (leftTable rightTable : Table) (result : QueryResult) : Prop :=
  ∃ leftColumn rightColumn projection ordered,
    resolveTableColumn leftTable command.table join.leftColumn = some leftColumn ∧
    resolveTableColumn rightTable join.table join.rightColumn = some rightColumn ∧
    joinProjection (joinedNames command.table leftTable join.table rightTable) command.columns =
      .ok projection ∧
    sortRows platform
      (resolveResultColumn (joinedNames command.table leftTable join.table rightTable))
      command.orderBy
      (joinedRows (joinedNames command.table leftTable join.table rightTable) command.where_
        leftColumn rightColumn leftTable.rowsSnapshot rightTable.rowsSnapshot) = .ok ordered ∧
    ordered.Perm (joinedRows (joinedNames command.table leftTable join.table rightTable)
      command.where_ leftColumn rightColumn leftTable.rowsSnapshot rightTable.rowsSnapshot) ∧
    (command.orderBy = none →
      ordered = joinedRows (joinedNames command.table leftTable join.table rightTable)
        command.where_ leftColumn rightColumn leftTable.rowsSnapshot rightTable.rowsSnapshot) ∧
    (∀ order, command.orderBy = some order → ∃ index,
      joinPosition (joinedNames command.table leftTable join.table rightTable) order.column =
        some index ∧ OrderedBy order.ascending index ordered) ∧
    result.columns = projection.map (fun i =>
      (joinedNames command.table leftTable join.table rightTable).getD i []) ∧
    result.rows = ordered.map (projected projection)

theorem sortRows_ok {joinedColumns : List Str} {orderBy : Option OrderBy} {rows ordered : List Row}
    (h : sortRows platform (resolveResultColumn joinedColumns) orderBy rows = .ok ordered) :
    ordered.Perm rows ∧ (orderBy = none → ordered = rows) ∧
      ∀ order, orderBy = some order → ∃ index,
        joinPosition joinedColumns order.column = some index ∧
          OrderedBy order.ascending index ordered := by
  cases orderBy with
  | none =>
    cases h
    exact ⟨.refl _, fun _ => rfl, nofun⟩
  | some order =>
    obtain ⟨found, hfound, h⟩ := Failure.bind_eq_ok_iff.1 h
    cases found with
    | none => cases h
    | some index =>
      cases h
      refine ⟨platform.sort_perm _ _, nofun, ?_⟩
      rintro _ ⟨⟩
      exact ⟨index, by rw [joinPosition, hfound], orderedBy_sort platform _ _ _⟩

theorem database_of_requireTable {name : Str} {table : Table}
    (h : executor.requireTable name = .ok table) :
    ∃ database, executor.database = some database ∧ database.table name = some table := by
  unfold requireTable at h
  split at h
  · cases h
  · split at h
    · cases h
    · cases h
      exact ⟨_, ‹_›, ‹_›⟩

/-- **A join means nested loops**, for whatever the rows of the two tables are. -/
theorem join_means (platform : Platform) (depth : ℕ) {s : QueryExecutor} {command : Select}
    {join : JoinClause} {result : QueryResult} (hread : s.activeTransaction = none)
    (hjoin : command.join = some join) (hlimit : command.limit = none)
    (h : (execute platform (depth + 1) (.select command) s).1 = .ok result) :
    ∃ db leftTable rightTable, s.database = some db ∧ db.table command.table = some leftTable ∧
      db.table join.table = some rightTable ∧
      JoinMeans platform command join leftTable rightTable result := by
  have hselect : (execute platform (depth + 1) (.select command) s).1 =
      s.joinSelect platform command join := by
    change s.select platform command = _
    simp only [select, hjoin]
  rw [hselect] at h
  obtain ⟨leftTable, rightTable, leftColumn, rightColumn, projection, ordered, hrun, rfl⟩ :=
    joinSelect_ok_iff.1 h
  have hsnapshot (table : Table) : s.rowsSnapshotForRead table = table.rowsSnapshot := by
    rw [rowsSnapshotForRead, readVersion, hread]
    rfl
  have hsorts := hrun.sorts
  rw [hsnapshot, hsnapshot] at hsorts
  obtain ⟨hperm, hnone, horder⟩ := sortRows_ok hsorts
  obtain ⟨db, hdb, hleft⟩ := database_of_requireTable hrun.left
  obtain ⟨db', hdb', hright⟩ := database_of_requireTable hrun.right
  rw [hdb] at hdb'
  cases hdb'
  refine ⟨db, leftTable, rightTable, hdb, hleft, hright, leftColumn, rightColumn, projection,
    ordered, hrun.leftColumn_eq, hrun.rightColumn_eq, hrun.projection_eq, hsorts, hperm, hnone,
    horder, rfl, ?_⟩
  rw [joinAnswer, hlimit]
  exact projectRows_none projection 0 ordered

/-- `SELECT * FROM t JOIN u ON b = u.b WHERE t.a > 1`. -/
def sampleJoinSelect : Select :=
  ⟨bytes "t", some ⟨bytes "u", bytes "b", bytes "u.b"⟩, [bytes "*"],
    some (.comparison (bytes "t.a") .greater (.int 1)), none, none⟩

/-- The join columns hold NULL in two rows of each table. -/
theorem join_means_sampleJoinSelect :
    JoinMeans (.byInsertion true) sampleJoinSelect ⟨bytes "u", bytes "b", bytes "u.b"⟩
      (Table.sampleTable.run sampleRows) (Table.sampleTable.run sampleRows)
      ⟨true, bytes "selected rows", [bytes "t.a", bytes "t.b", bytes "u.a", bytes "u.b"],
        [[.int 2, .null, .int 2, .null], [.int 2, .null, .int 1, .null],
          [.int 2, .string (bytes "x"), .int 2, .string (bytes "x")]]⟩ := by
  let db := putIn (putIn ⟨bytes "d", .empty⟩ (bytes "t") (Table.sampleTable.run sampleRows))
    (bytes "u") (Table.sampleTable.run sampleRows)
  have hrun : (execute (.byInsertion true) 1 (.select sampleJoinSelect)
      (sampleExecutor.withDatabase (some db))).1 =
        .ok ⟨true, bytes "selected rows", [bytes "t.a", bytes "t.b", bytes "u.a", bytes "u.b"],
          [[.int 2, .null, .int 2, .null], [.int 2, .null, .int 1, .null],
            [.int 2, .string (bytes "x"), .int 2, .string (bytes "x")]]⟩ := by
    decide
  obtain ⟨db', leftTable, rightTable, hdb, hleft, hright, hmeans⟩ := join_means (.byInsertion true)
    0 (s := sampleExecutor.withDatabase (some db)) rfl rfl rfl hrun
  cases hdb
  cases hleft
  cases hright
  exact hmeans

end QueryExecutor

end VertexDB
