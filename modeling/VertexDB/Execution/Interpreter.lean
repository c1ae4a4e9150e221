import VertexDB.Execution.Crashes
import VertexDB.Execution.Replies

/-!
# Sessions of a naive interpreter

The interpreter of `Reference` with all that a client can ask for: SELECT filters the rows of a
table or of a nested loop, puts them in some order that `ORDER BY` allows, and projects the first
ones; a transaction keeps a copy of the database; prepared statements are texts.  Where SQL leaves
something open, or files decide, more than one reply is allowed.

`dialogue_refines` shows that the executor is such an interpreter, text after text.
-/

namespace VertexDB

open Ascii QueryExecutor

namespace Reference

/-! ### SELECT -/

/-- What a SELECT reads: the names of the columns, how a name is found, and the rows. -/
structure Source where
  names : List Str
  position : Str → Except Exception (Option ℕ)
  rows : List Row

namespace Source

/-- The position of a column, which must exist. -/
def find (source : Source) (unknown : String) (column : Str) : Except Exception ℕ := do
  match ← source.position column with
  | none => throw (.runtimeError unknown)
  | some index => return index

/-- The positions of the selected columns. -/
def projection (source : Source) (columns : List Str) : Except Exception (List ℕ) :=
  if columns = [bytes "*"] then return List.range source.names.length
  else columns.mapM (source.find "unknown selected column")

/-- A row passes an optional `WHERE` clause. -/
def passes (source : Source) (where_ : Option Predicate) (row : Row) : Except Exception Bool :=
  match where_ with
  | none => return true
  | some predicate => evalPredicate source.position row predicate

/-- The position of the column of an optional `ORDER BY` clause. -/
def orderKey (source : Source) (orderBy : Option OrderBy) : Except Exception (Option ℕ) :=
  match orderBy with
  | none => return none
  | some order => do
    let key ← source.find "unknown ORDER BY column" order.column
    return some key

end Source

/-- The rows of a table with the names of its columns. -/
def tableSource (table : TableView) : Source :=
  ⟨table.schema.map Column.name, fun column => return columnIndex table.schema column, table.rows⟩

/-- The position of a join column, with or without its table in front. -/
def joinKey (schema : List Column) (tableName requested : Str) : Option ℕ :=
  let qualifier := tableName ++ [byte '.']
  columnIndex schema
    (if qualifier.isPrefixOf requested then requested.drop qualifier.length else requested)

/-- The pairs of rows with the same key. -/
def joinSource (leftName : Str) (left : TableView) (rightName : Str) (right : TableView)
    (leftKey rightKey : ℕ) : Source :=
  let names := (joinedSchema leftName left.schema rightName right.schema).map Column.name
  ⟨names, resolveResultColumn names, HashJoin.nestedLoop (rowKey leftKey) (rowKey rightKey)
    (· ++ ·) (fun _ => true) left.rows right.rows⟩

/-- What a SELECT reads of the database. -/
def source (command : Select) (database : Option DatabaseView) : Except Exception Source :=
  match command.join with
  | none => do
    let (_, table) ← requireTable database command.table
    return tableSource table
  | some join => do
    let (_, left) ← requireTable database command.table
    let (_, right) ← requireTable database join.table
    match joinKey left.schema command.table join.leftColumn,
      joinKey right.schema join.table join.rightColumn with
    | some leftKey, some rightKey =>
      return joinSource command.table left join.table right leftKey rightKey
    | _, _ => throw (.runtimeError "unknown join column")

/-- The rows that a SELECT has found, before they are put in order and projected. -/
structure Selection where
  names : List Str
  projection : List ℕ
  rows : List Row
  key : Option ℕ

/-- Filter the rows of a source. -/
def Source.selection (source : Source) (command : Select) : Except Exception Selection := do
  let projection ← source.projection command.columns
  let rows ← filterRows (source.passes command.where_) source.rows
  let key ← source.orderKey command.orderBy
  return ⟨projection.map fun i => source.names.getD i [], projection, rows, key⟩

/-- The rows are in some order that the `ORDER BY` clause allows, and the first ones are
projected. -/
def Selection.Presents (selection : Selection) (command : Select) (result : QueryResult) : Prop :=
  ∃ ordered : List Row, ordered.Perm selection.rows ∧
    (∀ order key, command.orderBy = some order → selection.key = some key →
      OrderedBy order.ascending key ordered) ∧
    result = ⟨true, bytes "selected rows", selection.names,
      (takeLimit command.limit ordered).map (projected selection.projection)⟩

/-- What a SELECT may reply. -/
inductive Selects (command : Select) (database : Option DatabaseView) : Outcome → Prop
  | rows {found : Source} {selection : Selection} {result : QueryResult}
    (hsource : source command database = .ok found)
    (hselection : found.selection command = .ok selection)
    (hresult : selection.Presents command result) : Selects command database (.ok result)
  | noSource {e : Exception} (h : source command database = .error e) :
    Selects command database (.error e)
  | noSelection {found : Source} {e : Exception} (hsource : source command database = .ok found)
    (h : found.selection command = .error e) : Selects command database (.error e)

/-! ### The steps of the executor -/

variable {platform : Platform} {command : Select} {found : Source} {database : Option DatabaseView}

/-- Sorting by a key that exists. -/
theorem sortRows_cases (platform : Platform) (found : Source) (orderBy : Option OrderBy)
    (rows : List Row) :
    (∃ e, found.orderKey orderBy = .error e ∧
      sortRows platform found.position orderBy rows = .error e) ∨
    ∃ key ordered, found.orderKey orderBy = .ok key ∧
      sortRows platform found.position orderBy rows = .ok ordered ∧ ordered.Perm rows ∧
      ∀ order index, orderBy = some order → key = some index →
        OrderedBy order.ascending index ordered := by
  cases orderBy with
  | none => exact .inr ⟨none, rows, rfl, rfl, .refl _, nofun⟩
  | some order =>
    simp only [Source.orderKey, Source.find, sortRows]
    cases found.position order.column with
    | error e => exact .inl ⟨e, rfl, rfl⟩
    | ok position =>
      cases position with
      | none => exact .inl ⟨_, rfl, rfl⟩
      | some index =>
        refine .inr ⟨some index, _, rfl, rfl, platform.sort_perm _ _, ?_⟩
        rintro _ _ ⟨⟩ ⟨⟩
        exact orderedBy_sort platform _ _ _

/-- Whatever the order in which the rows are collected, the rest of a SELECT replies as the
interpreter may. -/
theorem selects_of_steps (platform : Platform) (hsource : source command database = .ok found)
    (hlimit : ∀ n, command.limit = some n → 1 ≤ n) {collected : Except Exception (List Row)}
    (hcollected : Procedure.SameOutcome List.Perm collected
      (filterRows (found.passes command.where_) found.rows)) :
    Selects command database (do
      let projection ← found.projection command.columns
      let rows ← collected
      let ordered ← sortRows platform found.position command.orderBy rows
      return ⟨true, bytes "selected rows", projection.map fun i => found.names.getD i [],
        projectRows projection command.limit 0 ordered⟩) := by
  cases hprojection : found.projection command.columns with
  | error e =>
    refine .noSelection hsource ?_
    rw [Source.selection, hprojection]
    rfl
  | ok projection =>
    generalize hfiltered : filterRows (found.passes command.where_) found.rows = filtered
      at hcollected
    cases hcollected with
    | error e =>
      refine .noSelection hsource ?_
      rw [Source.selection, hprojection, Failure.ok_bind, hfiltered]
      rfl
    | @ok rows kept hperm =>
      rcases sortRows_cases platform found command.orderBy rows with
        ⟨e, hkey, hsort⟩ | ⟨key, ordered, hkey, hsort, hordered, horder⟩
      · simp only [Failure.ok_bind, hsort]
        refine .noSelection hsource ?_
        rw [Source.selection, hprojection, Failure.ok_bind, hfiltered, Failure.ok_bind, hkey]
        rfl
      · simp only [Failure.ok_bind, hsort]
        have hselection : found.selection command = .ok
            ⟨projection.map fun i => found.names.getD i [], projection, kept, key⟩ := by
          rw [Source.selection, hprojection, Failure.ok_bind, hfiltered, Failure.ok_bind, hkey]
          rfl
        refine .rows hsource hselection ⟨ordered, hordered.trans hperm, horder, ?_⟩
        rw [projectRows_eq projection hlimit]

theorem find_tableSource (table : TableView) (unknown : String) (column : Str) :
    (tableSource table).find unknown column = match columnIndex table.schema column with
      | none => throw (.runtimeError unknown)
      | some index => return index := rfl

theorem resolveColumns_eq (table : TableView) (columns : List Str) :
    resolveColumns table.schema columns =
      columns.mapM ((tableSource table).find "unknown selected column") := by
  induction columns with
  | nil => rfl
  | cons column columns ih =>
    rw [List.mapM_cons, ← ih, resolveColumns, find_tableSource]
    cases columnIndex table.schema column <;> rfl

theorem resolveProjection_eq (command : Select) (table : Table) :
    resolveProjection command table = (do
      let projection ← (tableSource table.view).projection command.columns
      return (projection, projection.map fun i => (tableSource table.view).names.getD i [])) := by
  unfold resolveProjection Source.projection
  split_ifs with hall
  · rw [Failure.pure_eq_ok, Failure.pure_eq_ok, Failure.ok_bind]
    have hnames := (fieldsAt_range table.schema).names
    have hlength : (tableSource table.view).names.length = table.schema.length :=
      List.length_map ..
    rw [hlength]
    exact congrArg (fun names => Except.ok (List.range table.schema.length, names)) hnames.symm
  · rw [← resolveColumns_eq]
    cases hcolumns : resolveColumns table.view.schema command.columns with
    | error e =>
      have hcode : resolveColumns table.schema command.columns = .error e := hcolumns
      rw [hcode]
      rfl
    | ok projection =>
      have hcode : resolveColumns table.schema command.columns = .ok projection := hcolumns
      rw [hcode, Failure.ok_bind, Failure.ok_bind]
      exact congrArg (fun names => Except.ok (projection, names)) (resolveColumns_names hcode)

theorem resolveJoinColumns_eq (found : Source)
    (hfound : found.position = resolveResultColumn found.names) (columns : List Str) :
    resolveJoinColumns found.names columns =
      columns.mapM (found.find "unknown selected column") := by
  induction columns with
  | nil => rfl
  | cons column columns ih =>
    rw [List.mapM_cons, ← ih, resolveJoinColumns, Source.find, hfound]
    cases resolveResultColumn found.names column with
    | error e => rfl
    | ok position => cases position <;> rfl

variable {s : QueryExecutor}

/-- Whatever the access path, the executor collects the rows that a scan finds. -/
theorem collectRows_sameOutcome {table : Table} (hreached : table.Reached)
    (hactive : s.activeTransaction = none) (command : Select) :
    Procedure.SameOutcome List.Perm (s.collectRows command table)
      (filterRows (QueryExecutor.passes table.schema command.where_) table.rowsSnapshot) := by
  rcases collectRows_cases hactive hreached.holds command with
    ⟨hall, collected, hok, hperm⟩ | ⟨-, e, herror⟩
  · rcases filterRows_cases table.schema command.where_ table.rowsSnapshot with
      ⟨-, hfilter⟩ | ⟨hnot, -⟩
    · rw [hok, hfilter]
      exact .ok hperm
    · exact absurd hall hnot
  · -- an index does not throw, so the rows have been scanned
    have hscan := herror
    rw [collectRows_eq] at hscan
    cases hindex : indexRowIds command table with
    | some rowIds => simp only [hindex] at hscan; cases hscan
    | none =>
      have hsnapshot : s.rowsSnapshotForRead table = table.rowsSnapshot := by
        rw [rowsSnapshotForRead, readVersion, hactive]
        rfl
      simp only [hindex, hsnapshot] at hscan
      rw [herror, hscan]
      exact .error e

theorem selects_selectFrom {table : Table} (hreached : table.Reached)
    (hactive : s.activeTransaction = none)
    (hsource : source command database = .ok (tableSource table.view))
    (hlimit : ∀ n, command.limit = some n → 1 ≤ n) :
    Selects command database (s.selectFrom platform command table) := by
  have hpasses : (tableSource table.view).passes command.where_ =
      QueryExecutor.passes table.schema command.where_ := by
    funext row
    cases command.where_ <;> rfl
  have hcollected := collectRows_sameOutcome hreached hactive command
  rw [← hpasses] at hcollected
  have hsteps := selects_of_steps platform hsource hlimit hcollected
  rw [selectFrom, resolveProjection_eq]
  cases hprojection : (tableSource table.view).projection command.columns with
  | error e =>
    rw [hprojection] at hsteps
    exact hsteps
  | ok projection =>
    rw [hprojection] at hsteps
    exact hsteps

/-- A hash join on the two tables. -/
theorem selects_joinSteps {join : JoinClause} {left right : Table} {leftKey rightKey : ℕ}
    (hactive : s.activeTransaction = none)
    (hsource : source command database =
      .ok (joinSource command.table left.view join.table right.view leftKey rightKey))
    (hlimit : ∀ n, command.limit = some n → 1 ≤ n) :
    Selects command database (do
      let joinedColumns := joinedNames command.table left join.table right
      let projection ← joinProjection joinedColumns command.columns
      let rows ← filterRows (joinPasses joinedColumns command.where_)
        (matchedRows leftKey rightKey (s.rowsSnapshotForRead left) (s.rowsSnapshotForRead right))
      let rows ← sortRows platform (resolveResultColumn joinedColumns) command.orderBy rows
      return joinAnswer joinedColumns command.limit projection rows) := by
  set found := joinSource command.table left.view join.table right.view leftKey rightKey with hfound
  have hnames : joinedNames command.table left join.table right = found.names :=
    (names_joinedSchema command.table left join.table right).symm
  have hsnapshot (table : Table) : s.rowsSnapshotForRead table = table.rowsSnapshot := by
    rw [rowsSnapshotForRead, readVersion, hactive]
    rfl
  have hrows : matchedRows leftKey rightKey (s.rowsSnapshotForRead left)
      (s.rowsSnapshotForRead right) = found.rows := by
    rw [hsnapshot, hsnapshot, matchedRows, hfound, joinSource]
    rw [← HashJoin.filter_probe_eq_nestedLoop, List.filter_true]
    rfl
  have hprojection : joinProjection found.names command.columns =
      found.projection command.columns := by
    rw [joinProjection, Source.projection, resolveJoinColumns_eq found rfl]
  have hpasses : joinPasses found.names command.where_ = found.passes command.where_ := by
    funext row
    cases command.where_ <;> rfl
  have hcollected : Procedure.SameOutcome List.Perm
      (filterRows (found.passes command.where_) found.rows)
      (filterRows (found.passes command.where_) found.rows) := by
    cases filterRows (found.passes command.where_) found.rows with
    | error e => exact .error e
    | ok kept => exact .ok (.refl _)
  have hsteps := selects_of_steps platform hsource hlimit hcollected
  simp only [hnames, hrows, hprojection, hpasses]
  exact hsteps

theorem selects_joinSelect (hs : s.Sound) (hactive : s.activeTransaction = none)
    {join : JoinClause} (hjoin : command.join = some join)
    (hlimit : ∀ n, command.limit = some n → 1 ≤ n) :
    Selects command s.view (s.joinSelect platform command join) := by
  rcases requireTable_cases hs command.table with ⟨db, left, hleft⟩ | ⟨e, hcode, hview⟩
  swap
  · rw [joinSelect, hcode]
    refine .noSource ?_
    rw [source, hjoin, hview]
    rfl
  rcases requireTable_cases hs join.table with ⟨db', right, hright⟩ | ⟨e, hcode, hview⟩
  swap
  · rw [joinSelect, hleft.requireTable_eq, hcode]
    refine .noSource ?_
    simp only [source, hjoin, hleft.requireTable_view, Failure.ok_bind, hview, Failure.error_bind]
  have hsource : source command s.view = match
      resolveTableColumn left command.table join.leftColumn,
      resolveTableColumn right join.table join.rightColumn with
    | some leftKey, some rightKey =>
      .ok (joinSource command.table left.view join.table right.view leftKey rightKey)
    | _, _ => .error (.runtimeError "unknown join column") := by
    simp only [source, hjoin, hleft.requireTable_view, Failure.ok_bind, hright.requireTable_view]
    rfl
  cases hl : resolveTableColumn left command.table join.leftColumn with
  | none =>
    simp only [joinSelect, hleft.requireTable_eq, hright.requireTable_eq, Failure.ok_bind, hl]
    exact .noSource (by rw [hsource, hl])
  | some leftKey =>
    cases hr : resolveTableColumn right join.table join.rightColumn with
    | none =>
      simp only [joinSelect, hleft.requireTable_eq, hright.requireTable_eq, Failure.ok_bind, hl, hr]
      exact .noSource (by rw [hsource, hl, hr])
    | some rightKey =>
      rw [hl, hr] at hsource
      rw [joinSelect_eq hleft.requireTable_eq hright.requireTable_eq hl hr]
      exact selects_joinSteps hactive hsource hlimit

/-- **The executor replies to a SELECT as the interpreter may.** -/
theorem selects_select (platform : Platform) (hs : s.Sound) (hactive : s.activeTransaction = none)
    (hlimit : ∀ n, command.limit = some n → 1 ≤ n) :
    Selects command s.view (s.select platform command) := by
  rw [select]
  cases hjoin : command.join with
  | some join => exact selects_joinSelect hs hactive hjoin hlimit
  | none =>
    rcases requireTable_cases hs command.table with ⟨db, table, h⟩ | ⟨e, hcode, hview⟩
    · rw [h.requireTable_eq]
      refine selects_selectFrom h.reached hactive ?_ hlimit
      rw [source, hjoin, h.requireTable_view]
      rfl
    · rw [hcode]
      refine .noSource ?_
      rw [source, hjoin, hview]
      rfl

/-! ### Sessions -/

/-- The state of the interpreter. -/
structure State where
  database : Option DatabaseView
  transactionSnapshot : Option DatabaseView
  transactionManager : TransactionManager
  activeTransaction : Option TransactionId
  preparedStatements : SortedMap Str Str

/-- The names of the tables. -/
def listTables (database : Option DatabaseView) : QueryResult :=
  match database with
  | none => messageResult false (bytes "no active database")
  | some view => ⟨true, bytes "listed tables", [bytes "table"],
      view.tables.keys.map fun name => [.string name]⟩

/-- What a SAVE replies when the files can be written. -/
def saved (database : Option DatabaseView) : QueryResult :=
  match database with
  | none => messageResult false (bytes "no active database")
  | some view => messageResult true (bytes "saved database " ++ view.name)

namespace State

/-- BEGIN keeps a copy of the database. -/
def begin (state : State) : QueryResult × State :=
  match state.database with
  | none => (messageResult false (bytes "no active database"), state)
  | some view =>
    if state.transactionSnapshot.isSome then
      (messageResult false (bytes "transaction already active"), state)
    else (messageResult true (bytes "began transaction"), { state with
      transactionSnapshot := some view
      transactionManager := state.transactionManager.begin.2
      activeTransaction := some state.transactionManager.begin.1 })

/-- The end of a transaction, with the database that it leaves. -/
def finish (state : State) (database : Option DatabaseView)
    (manager : TransactionId → Except Exception TransactionManager) (message : Str) :
    Outcome × State :=
  match state.transactionSnapshot, state.activeTransaction with
  | none, _ => (.ok (messageResult false (bytes "no active transaction")), state)
  | some _, none => (.ok (messageResult false (bytes "transaction state is inconsistent")), state)
  | some _, some id => match manager id with
    | .error e => (.error e, state)
    | .ok transactionManager => (.ok (messageResult true message), { state with
        database
        transactionSnapshot := none
        transactionManager
        activeTransaction := none })

/-- COMMIT forgets the copy. -/
def commit (state : State) : Outcome × State :=
  state.finish state.database state.transactionManager.commit (bytes "committed transaction")

/-- ROLLBACK goes back to the copy. -/
def rollback (state : State) : Outcome × State :=
  state.finish state.transactionSnapshot state.transactionManager.rollback
    (bytes "rolled back transaction")

/-- The text that an EXECUTE comes to. -/
def bindPreparedSql (state : State) (command : ExecutePrepared) : Except Exception Str :=
  match state.preparedStatements.find? command.name with
  | none => throw (.runtimeError "unknown prepared statement")
  | some sql => bindParameters sql command.parameters

/-- The command behind at most `depth` prepared statements. -/
def resolved (state : State) : ℕ → Query → Option Query
  | 0, _ => none
  | depth + 1, .executePrepared command => match state.bindPreparedSql command with
    | .error _ => none
    | .ok sql => match Parser.parse sql with
      | .error _ => none
      | .ok query => resolved state depth query
  | _ + 1, query => some query

/-- The command that a text comes to. -/
def comesTo (state : State) (depth : ℕ) (sql : Str) : Option Query :=
  match Parser.parse sql with
  | .error _ => none
  | .ok query => state.resolved depth query

end State

/-- The replies to a command, and what they leave. -/
inductive Replies (state : State) : Query → Outcome → State → Prop
  | change {change : Change} {effect : Effect} (h : step change state.database = .ok effect) :
    Replies state change.query (.ok effect.result) { state with database := effect.database }
  | changeFails {change : Change} {reason : Exception}
    (h : step change state.database = .error reason) (e : Exception) :
    Replies state change.query (.error e) state
  | select {command : Select} {outcome : Outcome} (h : Selects command state.database outcome) :
    Replies state (.select command) outcome state
  | listTables : Replies state .listTables (.ok (listTables state.database)) state
  | begin : Replies state .beginTransaction (.ok state.begin.1) state.begin.2
  | commit : Replies state .commitTransaction state.commit.1 state.commit.2
  | rollback : Replies state .rollbackTransaction state.rollback.1 state.rollback.2
  | prepare (command : PrepareStatement) : Replies state (.prepareStatement command)
      (.ok (messageResult true (bytes "prepared statement " ++ command.name)))
      { state with
        preparedStatements := state.preparedStatements.insert command.name command.sql }
  | save : Replies state .saveDatabase (.ok (saved state.database)) state
  | saveFails (e : Exception) : Replies state .saveDatabase (.error e) state
  /-- Which database is read is left to the files. -/
  | load (command : LoadDatabase) (view : DatabaseView) : Replies state (.loadDatabase command)
      (.ok (messageResult true (bytes "loaded database " ++ view.name)))
      { state with database := some view, transactionSnapshot := none }
  | loadFails (command : LoadDatabase) (e : Exception) :
    Replies state (.loadDatabase command) (.error e) state
  | exit : Replies state .exit (.ok (messageResult true (bytes "exit"))) state

/-- The replies to texts, one after the other. -/
inductive Dialogue (depth : ℕ) : State → List Str → List Outcome → State → Prop
  | nil (state : State) : Dialogue depth state [] [] state
  | refused {state state' : State} {sql : Str} {texts : List Str} {replies : List Outcome}
    (h : state.comesTo depth sql = none) (e : Exception)
    (hrest : Dialogue depth state texts replies state') :
    Dialogue depth state (sql :: texts) (.error e :: replies) state'
  | replied {state middle state' : State} {sql : Str} {query : Query} {outcome : Outcome}
    {texts : List Str} {replies : List Outcome} (h : state.comesTo depth sql = some query)
    (hreply : Replies state query outcome middle)
    (hrest : Dialogue depth middle texts replies state') :
    Dialogue depth state (sql :: texts) (outcome :: replies) state'

end Reference

namespace QueryExecutor

open Procedure Reference

/-- What the interpreter knows of an executor. -/
def seen (s : QueryExecutor) : State :=
  ⟨s.view, s.transactionSnapshot.map Database.view, s.transactionManager, s.activeTransaction,
    s.preparedStatements⟩

variable {platform : Platform} {depth : ℕ} {s s' : QueryExecutor} {query : Query}

theorem resolved_seen (s : QueryExecutor) (depth : ℕ) (query : Query) :
    s.seen.resolved depth query = s.resolved depth query := by
  induction depth generalizing query with
  | zero => rfl
  | succ depth ih =>
    cases query with
    | executePrepared command =>
      have hbind : s.seen.bindPreparedSql command = s.bindPreparedSql command := rfl
      rw [State.resolved, QueryExecutor.resolved, hbind]
      cases s.bindPreparedSql command with
      | error e => rfl
      | ok sql =>
        cases hparse : Parser.parse sql with
        | error e => simp only [hparse]
        | ok next =>
          simp only [hparse]
          exact ih next
    | _ => rfl

theorem comesTo_seen (s : QueryExecutor) (depth : ℕ) (sql : Str) :
    s.seen.comesTo depth sql = s.comesTo depth sql := by
  rw [State.comesTo, QueryExecutor.comesTo]
  cases Parser.parse sql with
  | error e => rfl
  | ok query => exact resolved_seen s depth query

/-! ### Commands that change the database -/

/-- Transactions and prepared statements are those of another executor. -/
structure SameBooks (s t : QueryExecutor) : Prop where
  transactionSnapshot : t.transactionSnapshot = s.transactionSnapshot
  transactionManager : t.transactionManager = s.transactionManager
  activeTransaction : t.activeTransaction = s.activeTransaction
  preparedStatements : t.preparedStatements = s.preparedStatements

theorem framed_sameBooks (s : QueryExecutor)
    (hquery : ∀ command, query ≠ .prepareStatement command) : Framed (SameBooks s) query where
  database _ _ ht := { ht with }
  prepared command heq := absurd heq (hquery command)
  append operation payload _ := by
    intro t ht
    obtain ⟨storage, happend⟩ := appendWal_storage operation payload t
    rw [happend]
    exact { ht with }
  publish _ _ _ _ ht := { ht with }
  reset _ _ ht := { ht with }

theorem seen_of_sameBooks {t : QueryExecutor} (h : SameBooks s t) :
    t.seen = { s.seen with database := t.view } := by
  rw [seen, seen, h.transactionSnapshot, h.transactionManager, h.activeTransaction,
    h.preparedStatements]

/-- A SELECT outside transactions with a limit that is not 0; a change that does not throw after a
part of it, or for want of room in the log. -/
structure Interpreted (platform : Platform) (s : QueryExecutor) (query : Query) : Prop where
  readsOutside : ReadsOutside s query
  limit : ∀ command n, query = .select command → command.limit = some n → 1 ≤ n
  wholeChange : ¬ PartialChange s.view query
  noFileFailure : ∀ change : Change, query = change.query → ∀ e,
    (executeUnlocked platform query s).1 = .error e → ¬ FileFailure e

/-- A change throws when that of the interpreter does. -/
theorem step_error_of_throws (hs : s.Valid false) {change : Change} {e : Exception}
    (hrun : executeUnlocked platform change.query s = (.error e, s')) (hfile : ¬ FileFailure e) :
    ∃ reason, step change s.view = .error reason := by
  cases hstep : step change s.view with
  | error reason => exact ⟨reason, rfl⟩
  | ok effect =>
    have hperforms := performs platform hs.sound change
    rcases hlog : logAll (if effect.changed then change.records else []) s with ⟨e' | _, mid⟩
    · obtain ⟨s'', hrun'⟩ := hperforms.logError effect e' mid hstep hlog
      rw [hrun] at hrun'
      cases hrun'
      exact absurd (logAll_error hs hlog) hfile
    · obtain ⟨_, hok, -⟩ := hperforms.ok effect mid hstep hlog
      rw [hrun] at hok
      cases hok

theorem replies_change (hs : s.Valid false) {change : Change} (hq : change.query.WellFormed)
    (h : Interpreted platform s change.query) :
    Replies s.seen change.query (executeUnlocked platform change.query s).1
      (executeUnlocked platform change.query s).2.seen := by
  have hprepare : ∀ command, change.query ≠ .prepareStatement command := by
    rintro command heq
    cases change <;> cases heq
  have hbooks : SameBooks s (executeUnlocked platform change.query s).2 :=
    (framed_sameBooks s hprepare).executeUnlocked change.calm platform s ⟨rfl, rfl, rfl, rfl⟩
  rw [seen_of_sameBooks hbooks]
  have hfile := h.noFileFailure change rfl
  rcases hrun : executeUnlocked platform change.query s with ⟨e | result, s'⟩
  · rw [hrun] at hfile
    have hview := (undone_executeUnlocked hs hq h.wholeChange e s' hrun (hfile e rfl)).1
    obtain ⟨reason, hstep⟩ := step_error_of_throws hs hrun (hfile e rfl)
    simp only [hview]
    exact .changeFails hstep e
  · obtain ⟨effect, _, _, hstep, rfl, -, -, -, hview⟩ :=
      (performs platform hs.sound change).of_ok hrun
    simp only [hview]
    exact .change hstep

/-! ### The other commands -/

theorem keeps_seen_appendWal (state : State) (operation : WalOperation) (payload : Str) :
    Keeps (fun t => t.seen = state) (appendWal operation payload) := by
  intro t ht
  obtain ⟨storage, happend⟩ := appendWal_storage operation payload t
  rw [happend]
  exact ht

theorem replies_save (s : QueryExecutor) :
    Replies s.seen .saveDatabase (executeSaveDatabase none s).1
      (executeSaveDatabase none s).2.seen := by
  have hseen : (executeSaveDatabase none s).2.seen = s.seen := by
    rw [executeSaveDatabase, get_bind]
    cases s.database with
    | none => rfl
    | some database =>
      exact ((keeps_seen_appendWal s.seen _ _).bind fun _ => Keeps.bind (fun _ ht => ht) fun _ =>
        Keeps.bind (fun _ ht => ht) fun _ => keeps_pure _) s rfl
  rw [hseen]
  cases hrun : (executeSaveDatabase none s).1 with
  | error e => exact .saveFails e
  | ok result =>
    have hresult : result = saved s.view := by
      rw [executeSaveDatabase, get_bind] at hrun
      cases hdatabase : s.database with
      | none =>
        have hview : s.view = none := by rw [view, hdatabase]; rfl
        rw [hdatabase] at hrun
        cases hrun
        rw [hview]
        rfl
      | some database =>
        have hyields : Yields (fun result => result = saved s.view) (do
            appendWal .saveDatabase database.name
            publish none database
            resetWal
            return messageResult true (bytes "saved database " ++ database.name)) := by
          have hview : s.view = some database.view := by rw [view, hdatabase]; rfl
          refine yields_bind fun _ => yields_bind fun _ => yields_bind fun _ => yields_pure ?_
          rw [hview]
          rfl
        rw [hdatabase] at hrun
        exact hyields s result hrun
    rw [hresult]
    exact .save

theorem replies_load (platform : Platform) (s : QueryExecutor) (command : LoadDatabase) :
    Replies s.seen (.loadDatabase command) (executeLoadDatabase platform command s).1
      (executeLoadDatabase platform command s).2.seen := by
  rw [executeLoadDatabase, get_bind]
  cases s.databaseToLoad platform command with
  | error e => exact .loadFails command e
  | ok database => exact .load command database.view

/-- The bookkeeping of transactions is that of the interpreter. -/
theorem replies_begin (hs : s.Valid false) :
    Replies s.seen .beginTransaction (executeBegin s).1 (executeBegin s).2.seen := by
  suffices hbegin : (executeBegin s).1 = .ok s.seen.begin.1 ∧
      (executeBegin s).2.seen = s.seen.begin.2 by
    rw [hbegin.1, hbegin.2]
    exact .begin
  have hdatabase : s.seen.database = s.database.map Database.view := rfl
  have hsnapshot : s.seen.transactionSnapshot = s.transactionSnapshot.map Database.view := rfl
  rw [executeBegin, get_bind, State.begin, hdatabase, hsnapshot]
  cases hdb : s.database with
  | none => exact ⟨rfl, rfl⟩
  | some database =>
    cases hold : s.transactionSnapshot with
    | some snapshot => exact ⟨rfl, rfl⟩
    | none =>
      obtain ⟨copy, hclone, -, hview⟩ := Database.view_clone (hs.sound database hdb)
      simp only [hclone, Option.map_some, Option.map_none, ← hview]
      have hlive : s.view = some copy.view := by
        rw [view, hdb, hview]
        rfl
      exact ⟨rfl, congrArg (fun live : Option DatabaseView => (⟨live, some copy.view,
        s.transactionManager.begin.2, some s.transactionManager.begin.1,
        s.preparedStatements⟩ : State)) hlive⟩

theorem replies_commit (s : QueryExecutor) :
    Replies s.seen .commitTransaction (executeCommit s).1 (executeCommit s).2.seen := by
  suffices hcommit : (executeCommit s).1 = s.seen.commit.1 ∧
      (executeCommit s).2.seen = s.seen.commit.2 by
    rw [hcommit.1, hcommit.2]
    exact .commit
  have hsnapshot : s.seen.transactionSnapshot = s.transactionSnapshot.map Database.view := rfl
  have hactive : s.seen.activeTransaction = s.activeTransaction := rfl
  rw [executeCommit, get_bind, State.commit, State.finish, hsnapshot, hactive]
  cases s.transactionSnapshot with
  | none => exact ⟨rfl, rfl⟩
  | some snapshot =>
    cases s.activeTransaction with
    | none => exact ⟨rfl, rfl⟩
    | some id =>
      have hmanager : s.seen.transactionManager = s.transactionManager := rfl
      simp only [Option.map_some, hmanager]
      cases s.transactionManager.commit id with
      | error e => exact ⟨rfl, rfl⟩
      | ok manager => exact ⟨rfl, rfl⟩

theorem replies_rollback (s : QueryExecutor) :
    Replies s.seen .rollbackTransaction (executeRollback s).1 (executeRollback s).2.seen := by
  suffices hrollback : (executeRollback s).1 = s.seen.rollback.1 ∧
      (executeRollback s).2.seen = s.seen.rollback.2 by
    rw [hrollback.1, hrollback.2]
    exact .rollback
  have hsnapshot : s.seen.transactionSnapshot = s.transactionSnapshot.map Database.view := rfl
  have hactive : s.seen.activeTransaction = s.activeTransaction := rfl
  rw [executeRollback, get_bind, State.rollback, State.finish, hsnapshot, hactive]
  cases s.transactionSnapshot with
  | none => exact ⟨rfl, rfl⟩
  | some snapshot =>
    cases s.activeTransaction with
    | none => exact ⟨rfl, rfl⟩
    | some id =>
      have hmanager : s.seen.transactionManager = s.transactionManager := rfl
      simp only [Option.map_some, hmanager]
      cases s.transactionManager.rollback id with
      | error e => exact ⟨rfl, rfl⟩
      | ok manager => exact ⟨rfl, rfl⟩

theorem listTables_seen (s : QueryExecutor) : s.listTables = Reference.listTables s.view := by
  rw [QueryExecutor.listTables, view]
  cases s.database with
  | none => rfl
  | some database =>
    have hkeys : database.view.tables.keys = database.listTables := SortedMap.keys_mapValues ..
    simp only [Option.map_some, Reference.listTables, hkeys]

/-- **Every command replies as the interpreter may.** -/
theorem replies_executeUnlocked (hs : s.Valid false) (hq : query.WellFormed)
    (hprepared : ∀ command, query ≠ .executePrepared command)
    (h : Interpreted platform s query) :
    Replies s.seen query (executeUnlocked platform query s).1
      (executeUnlocked platform query s).2.seen := by
  cases hchange : query.change? with
  | some change =>
    obtain rfl := Query.change?_eq_some_iff.1 hchange
    exact replies_change hs hq h
  | none =>
    cases query with
    | select command =>
      exact .select (selects_select platform hs.sound (h.readsOutside command rfl)
        fun n hn => h.limit command n rfl hn)
    | listTables =>
      have hreply : (executeUnlocked platform .listTables s).1 =
          .ok (Reference.listTables s.seen.database) := congrArg Except.ok (listTables_seen s)
      rw [hreply]
      exact .listTables
    | saveDatabase => exact replies_save s
    | loadDatabase command => exact replies_load platform s command
    | beginTransaction => exact replies_begin hs
    | commitTransaction => exact replies_commit s
    | rollbackTransaction => exact replies_rollback s
    | prepareStatement command => exact .prepare command
    | executePrepared command => exact absurd rfl (hprepared command)
    | exit => exact .exit
    | _ => cases hchange

/-- At the end of a chain there is no EXECUTE. -/
theorem ne_executePrepared_of_resolved {q : Query} (h : s.resolved depth query = some q)
    (command : ExecutePrepared) : q ≠ .executePrepared command := by
  induction depth generalizing query with
  | zero => cases h
  | succ depth ih =>
    cases query with
    | executePrepared found =>
      rw [resolved] at h
      cases hbind : s.bindPreparedSql found with
      | error e => simp only [hbind] at h; cases h
      | ok sql =>
        cases hparse : Parser.parse sql with
        | error e => simp only [hbind, hparse] at h; cases h
        | ok next =>
          simp only [hbind, hparse] at h
          exact ih h
    | _ => rintro rfl; cases h

/-- **The executor is the interpreter**: every session of texts that come to interpreted statements
has replies that the interpreter may give, and leaves the databases, transactions and prepared
statements that it has then. -/
theorem dialogue_refines (hs : Reachable platform s) {texts : List Str}
    (h : Allows platform depth (Interpreted platform) texts s) :
    Dialogue depth s.seen texts (converse platform depth texts s).1
      (converse platform depth texts s).2.seen := by
  induction texts generalizing s with
  | nil => exact .nil _
  | cons sql texts ih =>
    have hrest := ih (reachable_respond hs depth sql) h.2
    simp only [converse]
    rcases respond_comesTo platform depth s sql with ⟨q, hq, hwell, hrun⟩ | ⟨hnone, e, herror⟩
    · have hprepared : ∀ command, q ≠ .executePrepared command := by
        rw [comesTo] at hq
        cases hparse : Parser.parse sql with
        | error e => rw [hparse] at hq; cases hq
        | ok query =>
          rw [hparse] at hq
          exact ne_executePrepared_of_resolved hq
      have hreply := replies_executeUnlocked hs.valid hwell hprepared (h.1 q hq)
      rw [← hrun] at hreply
      exact .replied (by rw [comesTo_seen]; exact hq) hreply hrest
    · rw [herror] at hrest ⊢
      exact .refused (by rw [comesTo_seen]; exact hnone) e hrest

/-- A statement that returns, reads outside transactions without a limit, and is no UPDATE or
DELETE. -/
def Easy (platform : Platform) (s : QueryExecutor) (query : Query) : Prop :=
  ReadsOutside s query ∧ (match query with | .select command => command.limit | _ => none) = none ∧
    changesRows query = false ∧ (executeUnlocked platform query s).1.isOk

instance (platform : Platform) (s : QueryExecutor) (query : Query) :
    Decidable (Easy platform s query) := inferInstanceAs (Decidable (_ ∧ _ ∧ _ ∧ _))

theorem Easy.interpreted (h : Easy platform s query) : Interpreted platform s query := by
  obtain ⟨hreads, hlimit, hkind, hok⟩ := h
  refine ⟨hreads, ?_, ?_, ?_⟩
  · rintro command n rfl hn
    cases hlimit.symm.trans hn
  · cases query with
    | update command => cases hkind
    | delete command => cases hkind
    | _ => exact id
  · intro change hchange e he
    rw [he] at hok
    cases hok

/-- A transaction that is rolled back, a prepared join, and texts that come to nothing. -/
def dialogueTexts : List Str :=
  [bytes "BEGIN;", bytes "INSERT INTO people VALUES (3, NULL);", bytes "LIST TABLES;",
    bytes "ROLLBACK;", bytes "SELECT * FROM people;", bytes "EXECUTE p;",
    bytes "PREPARE p AS \"SELECT people.name FROM people JOIN pets ON id = owner;\";",
    bytes "EXECUTE p;", bytes "SELECT;"]

theorem dialogue_refines_dialogueTexts :
    Reference.Dialogue 2 peopleAndPets.seen dialogueTexts
      (converse (.byInsertion true) 2 dialogueTexts peopleAndPets).1
      (converse (.byInsertion true) 2 dialogueTexts peopleAndPets).2.seen := by
  have heasy : Allows (.byInsertion true) 2 (Easy (.byInsertion true)) dialogueTexts
      peopleAndPets := by decide +kernel
  exact dialogue_refines (Reachable.start.runSql _) (heasy.mono fun _ _ h => h.interpreted)

end QueryExecutor

end VertexDB
