import VertexDB.Execution.Limits
import VertexDB.Execution.RowBounds
import VertexDB.Execution.Sessions

/-!
# What replies look like

Every result is a table: it has one name for each column, and each of its rows has one value for
each column, which fits the column of the database that it is taken from, and only `SELECT` and
`LIST TABLES` return rows (`typed_replies`).  This holds for every statement in every reachable
state, with joins, repeated columns and transactions.

`message_executeUnlocked` says that the other statements return a message without rows, and only an
`EXIT` returns the message on which the shell stops.
-/

namespace VertexDB

open Ascii Procedure

/-- The rows of a result fit columns of these names. -/
structure QueryResult.TypedAs (result : QueryResult) (fields : List Column) : Prop where
  columns : result.columns = fields.map Column.name
  rows : ∀ row ∈ result.rows, RowFits fields row

namespace QueryExecutor

/-! ### Messages -/

/-- The message does not start like that of an `EXIT`. -/
def Announces (message : Str) : Prop := message.head?.any (· ≠ byte 'e') = true

instance (message : Str) : Decidable (Announces message) := inferInstanceAs (Decidable (_ = true))

theorem announces_append {message : Str} (h : Announces message) (rest : Str) :
    Announces (message ++ rest) := by
  cases message with
  | nil => cases h
  | cons first message => exact h

theorem Announces.ne_exit {message : Str} (h : Announces message) : message ≠ bytes "exit" := by
  rintro rfl
  revert h
  decide

/-- A message without a table, and not that of an `EXIT`. -/
structure IsMessage (result : QueryResult) : Prop where
  columns : result.columns = []
  rows : result.rows = []
  announces : Announces result.message

theorem isMessage_messageResult (success : Bool) {message : Str} (h : Announces message) :
    IsMessage (messageResult success message) := ⟨rfl, rfl, h⟩

variable {platform : Platform} {depth : ℕ} {s : QueryExecutor} {query : Query}

/-- The last step of a command that reports a change or that there was none. -/
theorem yields_answer {changed : Prop} [Decidable changed] {success : Bool} {log : Exec Unit}
    {done failed : Str} (hdone : Announces done) (hfailed : Announces failed) :
    Yields IsMessage (do
      if changed then log
      return messageResult success (if changed then done else failed)) := by
  have hend : Yields IsMessage (pure (messageResult success (if changed then done else failed)) :
      Exec QueryResult) := by
    refine yields_pure (isMessage_messageResult success ?_)
    split_ifs
    · exact hdone
    · exact hfailed
  exact yields_ite (fun _ => yields_bind fun _ => hend) fun _ => hend

/-- The last step of a command that counts rows. -/
theorem yields_count {count : ℕ} {log : Exec Unit} {message : Str} (h : Announces message) :
    Yields IsMessage (do
      if count ≠ 0 then log
      return messageResult true message) :=
  yields_ite (fun _ => yields_bind fun _ => yields_pure (isMessage_messageResult _ h))
    fun _ => yields_pure (isMessage_messageResult _ h)

theorem message_executeUnlocked (hselect : ∀ command, query ≠ .select command)
    (hlist : query ≠ .listTables) (hexit : query ≠ .exit) :
    Yields IsMessage (executeUnlocked platform query) := by
  cases query with
  | select command => exact absurd rfl (hselect command)
  | listTables => exact absurd rfl hlist
  | exit => exact absurd rfl hexit
  | createDatabase command =>
    refine yields_bind fun _ => yields_bind fun _ => yields_bind fun _ => yields_pure ?_
    exact isMessage_messageResult _ (announces_append (by decide) _)
  | createTable command =>
    refine yields_bind fun executor => ?_
    cases executor.database with
    | none => exact yields_pure (isMessage_messageResult _ (by decide))
    | some database =>
      refine yields_bind fun created => yields_bind fun _ => ?_
      exact yields_answer (announces_append (by decide) _) (by decide)
  | dropTable command =>
    refine yields_bind fun executor => ?_
    cases executor.database with
    | none => exact yields_pure (isMessage_messageResult _ (by decide))
    | some database =>
      refine yields_bind fun _ => ?_
      exact yields_answer (announces_append (by decide) _) (by decide)
  | renameTable command =>
    refine yields_bind fun executor => ?_
    cases executor.database with
    | none => exact yields_pure (isMessage_messageResult _ (by decide))
    | some database =>
      refine yields_bind fun renamed => yields_bind fun _ => ?_
      exact yields_answer (announces_append (by decide) _) (by decide)
  | insert command =>
    refine yields_bind fun _ => yields_bind fun _ => yields_bind fun _ => yields_bind fun _ => ?_
    exact yields_pure (isMessage_messageResult _
      (announces_append (announces_append (by decide) _) _))
  | update command =>
    refine yields_bind fun _ => yields_bind fun table => ?_
    cases columnIndex table.schema command.column with
    | none => exact yields_throw _
    | some target =>
      refine yields_bind fun count => ?_
      exact yields_count (announces_append (announces_append (by decide) _) _)
  | delete command =>
    refine yields_bind fun _ => yields_bind fun _ => yields_bind fun count => ?_
    exact yields_count (announces_append (announces_append (by decide) _) _)
  | createIndex command =>
    refine yields_bind fun _ => yields_bind fun table => yields_bind fun _ => ?_
    exact yields_answer (announces_append (by decide) _) (by decide)
  | saveDatabase =>
    refine yields_bind fun executor => ?_
    cases executor.database with
    | none => exact yields_pure (isMessage_messageResult _ (by decide))
    | some database =>
      refine yields_bind fun _ => yields_bind fun _ => yields_bind fun _ => ?_
      exact yields_pure (isMessage_messageResult _ (announces_append (by decide) _))
  | loadDatabase command =>
    refine yields_bind fun _ => yields_bind fun _ => yields_bind fun _ => ?_
    exact yields_pure (isMessage_messageResult _ (announces_append (by decide) _))
  | beginTransaction =>
    refine yields_bind fun executor => ?_
    cases executor.database with
    | none => exact yields_pure (isMessage_messageResult _ (by decide))
    | some database =>
      refine yields_ite (fun _ => yields_pure (isMessage_messageResult _ (by decide))) fun _ => ?_
      refine yields_bind fun _ => yields_bind fun _ => yields_bind fun _ => ?_
      exact yields_pure (isMessage_messageResult _ (by decide))
  | commitTransaction =>
    refine yields_bind fun executor => ?_
    cases executor.transactionSnapshot with
    | none => exact yields_pure (isMessage_messageResult _ (by decide))
    | some snapshot =>
      cases executor.activeTransaction with
      | none => exact yields_pure (isMessage_messageResult _ (by decide))
      | some id =>
        refine yields_bind fun _ => yields_bind fun _ => ?_
        exact yields_pure (isMessage_messageResult _ (by decide))
  | rollbackTransaction =>
    refine yields_bind fun executor => ?_
    cases executor.transactionSnapshot with
    | none => exact yields_pure (isMessage_messageResult _ (by decide))
    | some snapshot =>
      cases executor.activeTransaction with
      | none => exact yields_pure (isMessage_messageResult _ (by decide))
      | some id =>
        refine yields_bind fun _ => yields_bind fun _ => ?_
        exact yields_pure (isMessage_messageResult _ (by decide))
  | prepareStatement command =>
    refine yields_bind fun _ => ?_
    exact yields_pure (isMessage_messageResult _ (announces_append (by decide) _))
  | executePrepared command => exact yields_throw _

theorem message_select {command : Select} {result : QueryResult}
    (h : s.select platform command = .ok result) : result.message = bytes "selected rows" := by
  unfold select at h
  cases hjoin : command.join with
  | some join =>
    simp only [hjoin] at h
    obtain ⟨_, _, _, _, _, _, -, rfl⟩ := joinSelect_ok_iff.1 h
    rfl
  | none =>
    simp only [hjoin] at h
    obtain ⟨table, -, h⟩ := Failure.bind_eq_ok_iff.1 h
    obtain ⟨_, -, h⟩ := Failure.bind_eq_ok_iff.1 h
    obtain ⟨_, -, h⟩ := Failure.bind_eq_ok_iff.1 h
    obtain ⟨_, -, h⟩ := Failure.bind_eq_ok_iff.1 h
    cases h
    rfl

/-- Only an `EXIT` returns its message. -/
theorem message_eq_exit_iff {result : QueryResult}
    (h : (executeUnlocked platform query s).1 = .ok result) :
    result.message = bytes "exit" ↔ query = .exit := by
  constructor
  · intro hmessage
    by_contra hexit
    have hannounces : Announces result.message := by
      by_cases hselect : ∃ command, query = .select command
      · obtain ⟨command, rfl⟩ := hselect
        rw [message_select h]
        decide
      · by_cases hlist : query = .listTables
        · subst hlist
          cases h
          have hnone : Announces (bytes "no active database") := by decide
          have hlisted : Announces (bytes "listed tables") := by decide
          rw [listTables]
          cases s.database with
          | none => exact hnone
          | some database => exact hlisted
        · exact (message_executeUnlocked (fun command heq => hselect ⟨command, heq⟩) hlist
            hexit s result h).announces
    exact hannounces.ne_exit hmessage
  · rintro rfl
    cases h
    rfl

/-- A text comes to an `EXIT` when its reply has the message. -/
theorem comesTo_exit_iff {sql : Str} : s.comesTo depth sql = some .exit ↔
    ∃ result, (respond platform depth sql s).1 = .ok result ∧ result.message = bytes "exit" := by
  rcases respond_comesTo platform depth s sql with ⟨query, hquery, -, hrun⟩ | ⟨hnone, e, herror⟩
  · rw [hquery, hrun, Option.some_inj]
    constructor
    · rintro rfl
      exact ⟨_, rfl, rfl⟩
    · rintro ⟨result, hok, hmessage⟩
      exact (message_eq_exit_iff hok).1 hmessage
  · rw [hnone, herror]
    refine ⟨nofun, ?_⟩
    rintro ⟨_, hok, -⟩
    cases hok

/-! ### Columns -/

/-- The fields at some positions of a schema. -/
def FieldsAt (schema : List Column) (projection : List ℕ) (fields : List Column) : Prop :=
  List.Forall₂ (fun index field => schema[index]? = some field) projection fields

variable {schema fields : List Column} {projection : List ℕ} {row : Row}

theorem fieldsAt_range (schema : List Column) :
    FieldsAt schema (List.range schema.length) schema := by
  refine List.forall₂_iff_get.2 ⟨by simp, fun i h _ => ?_⟩
  simp

/-- The values at the positions of fields fit them. -/
theorem FieldsAt.rowFits (h : FieldsAt schema projection fields) (hrow : RowFits schema row) :
    RowFits fields (projected projection row) := by
  rw [projected, RowFits, List.forall₂_map_right_iff]
  refine h.flip.imp fun field index hfield => ?_
  obtain ⟨hlt, rfl⟩ := List.getElem?_eq_some_iff.1 hfield
  have hlength := hrow.length_eq
  rw [Row.at, List.getD_eq_getElem _ _ (hlength ▸ hlt)]
  exact (List.forall₂_iff_get.1 hrow).2 index hlt (hlength ▸ hlt)

theorem FieldsAt.subset (h : FieldsAt schema projection fields) : fields ⊆ schema := by
  intro field hfield
  obtain ⟨i, hi, rfl⟩ := List.mem_iff_getElem.1 hfield
  have hlt : i < projection.length := by
    rw [h.length_eq]
    exact hi
  exact List.mem_of_getElem? ((List.forall₂_iff_get.1 h).2 i hlt hi)

theorem FieldsAt.names (h : FieldsAt schema projection fields) :
    (projection.map fun i => (schema.map Column.name).getD i []) = fields.map Column.name := by
  induction h with
  | nil => rfl
  | cons hfield _ ih =>
    rw [List.map_cons, List.map_cons, ih, List.getD_eq_getElem?_getD, List.getElem?_map, hfield]
    rfl

theorem exists_fieldsAt (h : ∀ index ∈ projection, index < schema.length) :
    ∃ fields, FieldsAt schema projection fields := by
  induction projection with
  | nil => exact ⟨[], .nil⟩
  | cons index projection ih =>
    rw [List.forall_mem_cons] at h
    obtain ⟨fields, hfields⟩ := ih h.2
    exact ⟨schema[index] :: fields, .cons (List.getElem?_eq_getElem h.1) hfields⟩

theorem resolveColumns_names {columns : List Str}
    (h : resolveColumns schema columns = .ok projection) :
    columns = projection.map fun i => (schema.map Column.name).getD i [] := by
  induction columns generalizing projection with
  | nil => cases h; rfl
  | cons column columns ih =>
    rw [resolveColumns] at h
    cases hcolumn : columnIndex schema column with
    | none => rw [hcolumn] at h; cases h
    | some index =>
      rw [hcolumn] at h
      obtain ⟨rest, hrest, heq⟩ := Failure.bind_eq_ok_iff.1 h
      cases heq
      obtain ⟨hlt, hname, -⟩ := List.findIdx?_eq_some_iff_getElem.1 hcolumn
      rw [List.map_cons, ← ih hrest, List.getD_eq_getElem?_getD, List.getElem?_map,
        List.getElem?_eq_getElem hlt]
      exact congrArg (· :: columns) (of_decide_eq_true hname).symm

/-- The names of a result are those of the fields. -/
theorem resolveProjection_names {command : Select} {table : Table} {columns : List Str}
    (h : resolveProjection command table = .ok (projection, columns)) :
    columns = projection.map fun i => (table.schema.map Column.name).getD i [] := by
  unfold resolveProjection at h
  split_ifs at h
  · cases h
    rw [(fieldsAt_range table.schema).names]
  · obtain ⟨found, hfound, heq⟩ := Failure.bind_eq_ok_iff.1 h
    cases heq
    exact resolveColumns_names hfound

theorem mem_projectRows {limit : Option ℕ} {count : ℕ} {rows : List Row} {found : Row}
    (h : found ∈ projectRows projection limit count rows) :
    ∃ row ∈ rows, found = projected projection row := by
  induction rows generalizing count with
  | nil => cases h
  | cons row rows ih =>
    rw [projectRows, List.mem_cons] at h
    rcases h with rfl | h
    · exact ⟨row, List.mem_cons_self, rfl⟩
    · split_ifs at h
      · cases h
      · obtain ⟨row', hmem, hfound⟩ := ih h
        exact ⟨row', List.mem_cons_of_mem _ hmem, hfound⟩

/-! ### Typed results -/

/-- The name of a column with that of its table in front. -/
def qualify (table : Str) (column : Column) : Column :=
  { column with name := table ++ byte '.' :: column.name }

/-- The columns of a join. -/
def joinedSchema (leftName : Str) (left : List Column) (rightName : Str) (right : List Column) :
    List Column := left.map (qualify leftName) ++ right.map (qualify rightName)

/-- The columns of a table of the database. -/
def schemaIn (view : Option DatabaseView) (name : Str) : List Column :=
  match Reference.requireTable view name with
  | .ok (_, table) => table.schema
  | .error _ => []

/-- The statements that return rows. -/
def ReturnsRows : Query → Prop
  | .select _ | .listTables => True
  | _ => False

/-- The columns that a statement can return. -/
def offered (view : Option DatabaseView) : Query → List Column
  | .select command => match command.join with
    | none => schemaIn view command.table
    | some join => joinedSchema command.table (schemaIn view command.table) join.table
        (schemaIn view join.table)
  | .listTables => [⟨bytes "table", .string, false⟩]
  | _ => []

theorem names_joinedSchema (leftName : Str) (leftTable : Table) (rightName : Str)
    (rightTable : Table) :
    (joinedSchema leftName leftTable.schema rightName rightTable.schema).map Column.name =
      joinedNames leftName leftTable rightName rightTable := by
  rw [joinedSchema, joinedNames, List.map_append, List.map_map, List.map_map]
  rfl

theorem rowFits_qualify (name : Str) (h : RowFits schema row) :
    RowFits (schema.map (qualify name)) row := by
  rw [RowFits, List.forall₂_map_left_iff]
  refine h.imp fun column value hvalue => ?_
  cases hvalue with
  | null h => exact .null h
  | typed h => exact .typed h

/-- The tables of a sound executor have been reached. -/
theorem Sound.reached_requireTable (hs : s.Sound) {name : Str} {table : Table}
    (h : s.requireTable name = .ok table) :
    table.Reached ∧ schemaIn s.view name = table.schema := by
  obtain ⟨database, hdatabase, htable⟩ := database_of_requireTable h
  refine ⟨((hs database hdatabase).tables name table htable).2, ?_⟩
  have hfind : database.view.tables.find? name = some table.view := by
    rw [Database.find?_view, htable]
    rfl
  simp only [schemaIn, Reference.requireTable, view, hdatabase, Option.map_some, hfind]
  rfl

theorem returns_of_mem_rowsSnapshotForRead {table : Table}
    (h : row ∈ s.rowsSnapshotForRead table) : table.Returns row := by
  unfold rowsSnapshotForRead at h
  split at h
  · exact .snapshotAt _ h
  · exact .snapshot h

theorem returns_of_mem_collectRows {command : Select} {table : Table} {collected : List Row}
    (h : s.collectRows command table = .ok collected) (hrow : row ∈ collected) :
    table.Returns row := by
  rw [collectRows_eq] at h
  cases hindex : indexRowIds command table with
  | some rowIds =>
    simp only [hindex] at h
    cases h
    unfold rowsByIdForRead at hrow
    split at hrow
    · exact .byIdAt _ _ hrow
    · exact .byId _ hrow
  | none =>
    simp only [hindex] at h
    exact returns_of_mem_rowsSnapshotForRead ((mem_filterRows h).1 hrow).1

/-- Rows that are taken from rows of fields, at their positions, fit them. -/
theorem typedAs_projectRows (h : FieldsAt schema projection fields) {limit : Option ℕ}
    {rows : List Row} (hrows : ∀ row ∈ rows, RowFits schema row) (success : Bool) (message : Str) :
    (⟨success, message, projection.map fun i => (schema.map Column.name).getD i [],
      projectRows projection limit 0 rows⟩ : QueryResult).TypedAs fields where
  columns := h.names
  rows found hfound := by
    obtain ⟨row, hrow, rfl⟩ := mem_projectRows hfound
    exact h.rowFits (hrows row hrow)

theorem typed_selectFrom {command : Select} {table : Table} {result : QueryResult}
    (hreached : table.Reached) (h : s.selectFrom platform command table = .ok result) :
    ∃ fields ⊆ table.schema, result.TypedAs fields := by
  obtain ⟨⟨projection, columns⟩, hprojection, h⟩ := Failure.bind_eq_ok_iff.1 h
  obtain ⟨collected, hcollected, h⟩ := Failure.bind_eq_ok_iff.1 h
  obtain ⟨ordered, hordered, h⟩ := Failure.bind_eq_ok_iff.1 h
  cases h
  obtain ⟨fields, hfields⟩ := exists_fieldsAt (resolveProjection_lt hprojection)
  rw [resolveProjection_names hprojection]
  refine ⟨fields, hfields.subset, typedAs_projectRows hfields (fun row hrow => ?_) _ _⟩
  have hmem : row ∈ collected := (sortRows_perm hordered).mem_iff.1 hrow
  exact hreached.rowFits_of_returns (returns_of_mem_collectRows hcollected hmem)

theorem typed_joinSelect (hs : s.Sound) {command : Select} {join : JoinClause}
    {result : QueryResult} (h : s.joinSelect platform command join = .ok result) :
    ∃ fields ⊆ joinedSchema command.table (schemaIn s.view command.table) join.table
      (schemaIn s.view join.table), result.TypedAs fields := by
  obtain ⟨leftTable, rightTable, leftColumn, rightColumn, projection, ordered, hrun, rfl⟩ :=
    joinSelect_ok_iff.1 h
  obtain ⟨hleft, hleftSchema⟩ := hs.reached_requireTable hrun.left
  obtain ⟨hright, hrightSchema⟩ := hs.reached_requireTable hrun.right
  rw [hleftSchema, hrightSchema]
  have hnames := names_joinedSchema command.table leftTable join.table rightTable
  have hlt : ∀ index ∈ projection, index <
      (joinedSchema command.table leftTable.schema join.table rightTable.schema).length := by
    have hlength := congrArg List.length hnames
    rw [List.length_map] at hlength
    rw [hlength]
    have hprojection := hrun.projection_eq
    unfold joinProjection at hprojection
    split_ifs at hprojection
    · cases hprojection
      exact fun index hindex => List.mem_range.1 hindex
    · exact resolveJoinColumns_lt hprojection
  obtain ⟨fields, hfields⟩ := exists_fieldsAt hlt
  rw [joinAnswer, ← hnames]
  refine ⟨fields, hfields.subset, typedAs_projectRows hfields (fun row hrow => ?_) _ _⟩
  have hmem := (sortRows_perm hrun.sorts).mem_iff.1 hrow
  -- a joined row is a row of the left table with one of the right table behind it
  obtain ⟨left, hleftRow, right, hrightRow, -, -, rfl⟩ := HashJoin.mem_nestedLoop.1 hmem
  have hl := hleft.rowFits_of_returns (returns_of_mem_rowsSnapshotForRead hleftRow)
  have hr := hright.rowFits_of_returns (returns_of_mem_rowsSnapshotForRead hrightRow)
  exact List.rel_append (rowFits_qualify _ hl) (rowFits_qualify _ hr)

/-- Every other statement returns a message without a table. -/
theorem bare_of_not_returnsRows {result : QueryResult} (hquery : ¬ ReturnsRows query)
    (h : (executeUnlocked platform query s).1 = .ok result) :
    result.columns = [] ∧ result.rows = [] := by
  by_cases hexit : query = .exit
  · subst hexit
    cases h
    exact ⟨rfl, rfl⟩
  · have hselect : ∀ command, query ≠ .select command := by
      rintro command rfl
      exact hquery trivial
    have hlist : query ≠ .listTables := by
      rintro rfl
      exact hquery trivial
    have hmessage := message_executeUnlocked hselect hlist hexit s result h
    exact ⟨hmessage.columns, hmessage.rows⟩

theorem typed_executeUnlocked (hs : s.Sound) {result : QueryResult}
    (h : (executeUnlocked platform query s).1 = .ok result) :
    ∃ fields ⊆ offered s.view query, result.TypedAs fields := by
  by_cases hreturns : ReturnsRows query
  · cases query with
    | select command =>
      have hok : s.select platform command = .ok result := h
      rw [select] at hok
      rw [offered]
      cases hjoin : command.join with
      | some join =>
        rw [hjoin] at hok
        exact typed_joinSelect hs hok
      | none =>
        rw [hjoin] at hok
        obtain ⟨table, htable, hfrom⟩ := Failure.bind_eq_ok_iff.1 hok
        obtain ⟨hreached, hschema⟩ := hs.reached_requireTable htable
        simp only [hschema]
        exact typed_selectFrom hreached hfrom
    | listTables =>
      cases h
      rw [listTables]
      cases s.database with
      | none => exact ⟨[], List.nil_subset _, rfl, by rintro _ ⟨⟩⟩
      | some database =>
        refine ⟨_, List.Subset.refl _, rfl, fun row hrow => ?_⟩
        obtain ⟨name, -, rfl⟩ := List.mem_map.1 hrow
        exact .cons (.typed rfl) .nil
    | _ => exact hreturns.elim
  · obtain ⟨hcolumns, hrows⟩ := bare_of_not_returnsRows hreturns h
    refine ⟨[], List.nil_subset _, hcolumns, ?_⟩
    rw [hrows]
    rintro _ ⟨⟩

/-- **Replies are typed tables**: whatever a text comes to, in whatever state that sessions and
restarts lead to, the rows of the result fit columns that the statement can return, one for each
name of the result, and there are none unless the statement returns rows. -/
theorem typed_replies (hs : Reachable platform s) {sql : Str} {result : QueryResult}
    (h : (respond platform depth sql s).1 = .ok result) :
    ∃ query, s.comesTo depth sql = some query ∧
      (∃ fields ⊆ offered s.view query, result.TypedAs fields) ∧
      (¬ ReturnsRows query → result.rows = []) := by
  rcases respond_comesTo platform depth s sql with ⟨query, hquery, -, hrun⟩ | ⟨-, e, herror⟩
  · rw [hrun] at h
    exact ⟨query, hquery, typed_executeUnlocked hs.valid.sound h,
      fun hnot => (bare_of_not_returnsRows hnot h).2⟩
  · rw [herror] at h
    cases h

/-- Two tables with a column of the same name. -/
def peopleAndPets : QueryExecutor := runSql (.byInsertion true)
  ["CREATE DATABASE d;", "CREATE TABLE people (id INT, name STRING NULL);",
    "CREATE TABLE pets (owner INT, name STRING);",
    "INSERT INTO people VALUES (1, NULL), (2, \"b\");",
    "INSERT INTO pets VALUES (2, \"x\"), (1, \"y\");"]
  (start (.byInsertion true) .empty)

/-- A join that selects one column twice. -/
def petsText : Str :=
  bytes "SELECT pets.name, people.name, pets.name FROM people JOIN pets ON people.id = pets.owner;"

/-- The pets of the people. -/
def petsResult : QueryResult :=
  ⟨true, bytes "selected rows", [bytes "pets.name", bytes "people.name", bytes "pets.name"],
    [[.string (bytes "y"), .null, .string (bytes "y")],
      [.string (bytes "x"), .string (bytes "b"), .string (bytes "x")]]⟩

theorem typed_replies_pets : ∃ query, peopleAndPets.comesTo 1 petsText = some query ∧
    (∃ fields ⊆ offered peopleAndPets.view query, petsResult.TypedAs fields) ∧
    (¬ ReturnsRows query → petsResult.rows = []) := by
  have hreply : (respond (.byInsertion true) 1 petsText peopleAndPets).1 = .ok petsResult := by
    decide +kernel
  exact typed_replies (Reachable.start.runSql _) hreply

end QueryExecutor

end VertexDB
