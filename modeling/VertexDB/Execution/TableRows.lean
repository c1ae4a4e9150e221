import VertexDB.Execution.Transactions

/-!
# What a command leaves of the rows of a table

A command may take rows from a table: `DROP TABLE` and `RENAME TABLE` take those of the table they
name, `UPDATE` and `DELETE` those that their `WHERE` clause selects, and `CREATE DATABASE` and
`LOAD DATABASE`, which replace the active database, those of every table (`selects`).

Every other row stays, whether the command returns or throws (`covers_executeUnlocked`).  Only
`ROLLBACK` is different: it takes and restores rows without naming them.
-/

namespace VertexDB

open Ascii Procedure

/-- The rows of the table of that name, or none if there is no such table. -/
def DatabaseView.rowsOf (view : DatabaseView) (name : Str) : List Row :=
  ((view.tables.find? name).map TableView.rows).getD []

theorem DatabaseView.rowsOf_insert (view : DatabaseView) (name other : Str) (table : TableView) :
    DatabaseView.rowsOf { view with tables := view.tables.insert name table } other =
      if other = name then table.rows else view.rowsOf other := by
  rw [rowsOf, SortedMap.find?_insert]
  split_ifs <;> rfl

theorem DatabaseView.rowsOf_erase (view : DatabaseView) (name other : Str) :
    DatabaseView.rowsOf { view with tables := view.tables.erase name } other =
      if other = name then [] else view.rowsOf other := by
  rw [rowsOf, SortedMap.find?_erase]
  split_ifs <;> rfl

theorem DatabaseView.rowsOf_of_find? {view : DatabaseView} {name : Str} {table : TableView}
    (h : view.tables.find? name = some table) : view.rowsOf name = table.rows := by
  rw [rowsOf, h]
  rfl

theorem DatabaseView.rowsOf_of_contains {view : DatabaseView} {name : Str}
    (h : view.tables.contains name = false) : view.rowsOf name = [] := by
  rw [rowsOf, SortedMap.contains_eq_false_iff.1 h]
  rfl

namespace QueryExecutor

open Reference

/-- The rows of the table of that name in the active database. -/
def rowsOf (s : QueryExecutor) (name : Str) : List Row :=
  (s.view.map fun view => view.rowsOf name).getD []

/-- The `WHERE` clause is true of a row of the table. -/
def isMatch (s : QueryExecutor) (name : Str) (where_ : Option Predicate) (row : Row) : Bool :=
  match s.requireTable name with
  | .ok table => matching table.schema where_ row
  | .error _ => false

/-- The command may take the row from the table of that name. -/
def selects (s : QueryExecutor) (query : Query) (name : Str) (row : Row) : Bool :=
  match query with
  | .createDatabase _ | .loadDatabase _ => true
  | .dropTable command => name == command.name
  | .renameTable command => name == command.oldName
  | .update command => name == command.table && s.isMatch name command.where_ row
  | .delete command => name == command.table && s.isMatch name command.where_ row
  | _ => false

/-- The rows of a table that the command does not select. -/
def spared (s : QueryExecutor) (query : Query) (name : Str) : List Row :=
  (s.rowsOf name).filter fun row => !s.selects query name row

/-- Each table has at least these rows, with their multiplicities. -/
def Covers (rows : Str → List Row) (s : QueryExecutor) : Prop :=
  ∀ name, (rows name).Subperm (s.rowsOf name)

variable {platform : Platform} {s t : QueryExecutor} {rows : Str → List Row} {query : Query}

theorem rowsOf_eq_of_view {view : DatabaseView} (h : s.view = some view) (name : Str) :
    s.rowsOf name = view.rowsOf name := by
  rw [rowsOf, h]
  rfl

theorem rowsOf_of_database {database : Database} (h : s.database = some database) (name : Str) :
    s.rowsOf name = database.view.rowsOf name :=
  rowsOf_eq_of_view (by rw [view, h]; rfl) name

theorem rowsOf_congr (h : t.database = s.database) (name : Str) :
    t.rowsOf name = s.rowsOf name := by
  rw [rowsOf, rowsOf, view, view, h]

theorem Covers.of_database (hs : Covers rows s) (h : t.database = s.database) : Covers rows t := by
  intro name
  rw [rowsOf_congr h]
  exact hs name

theorem covers_spared (s : QueryExecutor) (query : Query) : Covers (s.spared query) s :=
  fun _ => List.filter_sublist.subperm

/-! ### Records -/

theorem covers_appendWal (operation : WalOperation) (payload : Str) :
    Keeps (Covers rows) (appendWal operation payload) :=
  fun s hs => hs.of_database (appendWal_database operation payload s)

/-- Log a change, if there was one, and answer. -/
theorem covers_logged {c : Prop} [Decidable c] (operation : WalOperation) (payload : Str)
    (result : QueryResult) : Keeps (Covers rows)
      (if c then (appendWal operation payload >>= fun _ => pure result : Exec QueryResult)
        else pure result) :=
  keeps_ite (fun _ => (covers_appendWal operation payload).bind fun _ => keeps_pure _)
    fun _ => keeps_pure _

/-! ### Commands on the collection of tables -/

/-- A command that leaves rows of each table in the view that it makes. -/
theorem covers_withDatabase {database database' : Database} (hd : s.database = some database)
    (h : ∀ name, ((database.view.rowsOf name).filter fun row => !s.selects query name row).Subperm
      (database'.view.rowsOf name)) :
    Covers (s.spared query) (s.withDatabase (some database')) := by
  intro name
  rw [spared, rowsOf_of_database hd, rowsOf_eq_of_view (view_withDatabase s database')]
  exact h name

/-- Taking out a table whose rows are all selected. -/
theorem subperm_erase {view view' : DatabaseView} {name taken : Str} {p : Row → Bool}
    (hview : { view with tables := view.tables.erase taken } = view')
    (hp : name = taken → ∀ row, p row = false) :
    ((view.rowsOf name).filter p).Subperm (view'.rowsOf name) := by
  rw [← hview, DatabaseView.rowsOf_erase]
  split_ifs with hname
  · rw [List.filter_eq_nil_iff.2 fun row _ => by simp [hp hname row]]
  · exact List.filter_sublist.subperm

/-- Putting in a table that has the rows of the one before. -/
theorem subperm_insert {view view' : DatabaseView} {name put : Str} {table : TableView}
    (hview : { view with tables := view.tables.insert put table } = view')
    (hrows : name = put → (view.rowsOf name).Subperm table.rows) :
    (view.rowsOf name).Subperm (view'.rowsOf name) := by
  rw [← hview, DatabaseView.rowsOf_insert]
  split_ifs with hname
  · exact hrows hname
  · rfl

theorem covers_executeCreateTable (hs : s.Sound) (command : CreateTable) :
    Covers (s.spared (.createTable command)) (executeCreateTable command s).2 := by
  rw [executeCreateTable, get_bind]
  cases hd : s.database with
  | none => exact covers_spared s _
  | some database =>
    have hspec := Database.view_createTable (hs database hd) command.name command.columns
    cases hc : database.createTable command.name command.columns with
    | error e => simp only [hc]; exact covers_spared s _
    | ok p =>
      obtain ⟨created, database'⟩ := p
      rw [hc] at hspec
      simp only [hc]
      refine covers_logged _ _ _ (s.withDatabase (some database'))
        (covers_withDatabase hd fun name => ?_)
      refine List.filter_sublist.subperm.trans ?_
      have hview := hspec.2
      rw [DatabaseView.createTable] at hview
      split_ifs at hview with hname hcolumns hfound
      · obtain ⟨-, hview⟩ := Prod.mk.inj (Except.ok.inj hview)
        rw [hview]
      · obtain ⟨-, hview⟩ := Prod.mk.inj (Except.ok.inj hview)
        exact subperm_insert hview fun hother => by
          rw [hother, DatabaseView.rowsOf_of_contains (Bool.eq_false_iff.2 hfound)]
          exact List.nil_subperm

theorem covers_executeDropTable (hs : s.Sound) (command : DropTable) :
    Covers (s.spared (.dropTable command)) (executeDropTable command s).2 := by
  rw [executeDropTable, get_bind]
  cases hd : s.database with
  | none => exact covers_spared s _
  | some database =>
    obtain ⟨-, hview⟩ := Database.view_dropTable (hs database hd) command.name
    rcases hc : database.dropTable command.name with ⟨dropped, database'⟩
    rw [hc] at hview
    simp only [hc]
    refine covers_logged _ _ _ (s.withDatabase (some database'))
      (covers_withDatabase hd fun name => ?_)
    rw [DatabaseView.dropTable] at hview
    split_ifs at hview with hfound
    · obtain ⟨rfl, hview⟩ := Prod.mk.inj hview
      exact subperm_erase hview (by simp [selects])
    · obtain ⟨rfl, hview⟩ := Prod.mk.inj hview
      rw [hview]
      exact List.filter_sublist.subperm

theorem covers_executeRenameTable (hs : s.Sound) (command : RenameTable) :
    Covers (s.spared (.renameTable command)) (executeRenameTable command s).2 := by
  rw [executeRenameTable, get_bind]
  cases hd : s.database with
  | none => exact covers_spared s _
  | some database =>
    have hspec := Database.view_renameTable (hs database hd) command.oldName command.newName
    rcases hc : database.renameTable command.oldName command.newName with ⟨e | renamed, database'⟩
    · rw [hc] at hspec
      simp only [hc]
      refine covers_withDatabase hd fun name => subperm_erase hspec.2.2.2.symm ?_
      simp [selects]
    · rw [hc] at hspec
      simp only [hc]
      refine covers_logged _ _ _ (s.withDatabase (some database'))
        (covers_withDatabase hd fun name => ?_)
      have hview := hspec.2
      rw [DatabaseView.renameTable] at hview
      cases hfind : database.view.tables.find? command.oldName with
      | none =>
        simp only [hfind] at hview
        obtain ⟨-, hview⟩ := Prod.mk.inj (Except.ok.inj hview)
        rw [hview]
        exact List.filter_sublist.subperm
      | some table =>
        simp only [hfind] at hview
        split_ifs at hview with hfound hempty
        · obtain ⟨-, hview⟩ := Prod.mk.inj (Except.ok.inj hview)
          rw [hview]
          exact List.filter_sublist.subperm
        · obtain ⟨-, hview⟩ := Prod.mk.inj (Except.ok.inj hview)
          -- the table moves: its rows leave the old name and come to the new one, which was free
          have herased : ((database.view.rowsOf name).filter fun row =>
              !s.selects (.renameTable command) name row).Subperm (DatabaseView.rowsOf
                { database.view with tables := database.view.tables.erase command.oldName }
                name) := subperm_erase rfl (by simp [selects])
          refine herased.trans (subperm_insert hview fun hother => ?_)
          rw [hother, DatabaseView.rowsOf_erase,
            DatabaseView.rowsOf_of_contains (Bool.eq_false_iff.2 hfound), ite_self]
          exact List.nil_subperm

/-! ### Commands on one table -/

/-- A command that leaves rows of the one table that it changes. -/
theorem covers_putTable {db : Database} {name : Str} {table : Table} {left : TableView}
    (h : Holding s db name table) (hview : t.view = some (Reference.putTable db.view name left))
    (hleft : (table.view.rows.filter fun row => !s.selects query name row).Subperm left.rows) :
    Covers (s.spared query) t := by
  intro other
  rw [spared, rowsOf_of_database h.database, rowsOf_eq_of_view hview, Reference.putTable,
    DatabaseView.rowsOf_insert]
  by_cases hother : other = name
  · rw [if_pos hother, hother, DatabaseView.rowsOf_of_find? h.find?_view]
    exact hleft
  · rw [if_neg hother]
    exact List.filter_sublist.subperm

/-- INSERT appends the first rows of the command, and all of them if it returns. -/
theorem rowsOf_executeInsert (hs : s.Sound) (command : Insert) :
    (∃ db table, Holding s db command.table table ∧
      ∃ inserted, (executeInsert command s).2.view = some (Reference.putTable db.view command.table
          { table.view with rows := table.view.rows ++ inserted }) ∧
        ∀ result, (executeInsert command s).1 = .ok result → inserted = command.rows) ∨
    (executeInsert command s).2 = s ∧ ∀ result, (executeInsert command s).1 ≠ .ok result := by
  rcases requireTable_cases hs command.table with ⟨db, table, h⟩ | ⟨e, he, -⟩
  swap
  · refine .inr ?_
    rw [executeInsert, get_bind, he]
    exact ⟨rfl, fun _ hok => by cases hok⟩
  rw [executeInsert, get_bind, h.requireTable_eq, lift_ok_bind]
  cases hval : validateRows table.schema command.rows with
  | error e => exact .inr ⟨rfl, fun _ hok => by cases hok⟩
  | ok _ =>
    rw [lift_ok_bind]
    refine .inl ⟨db, table, h, ?_⟩
    have hrows := validateRows_ok_iff.1 hval
    rcases hlog : logAll (command.rows.map fun row => (.insert, insertSql command.table row)) s with
      ⟨e | _, t⟩
    · obtain ⟨before, record, after, mid, hsplit, hlogged, hfails⟩ := logAll_eq_error_iff.1 hlog
      obtain ⟨first, rest, hcommand, rfl, hrest⟩ := List.map_eq_append_iff.1 hsplit
      obtain ⟨row, last, rfl, rfl, -⟩ := List.map_eq_cons_iff.1 hrest
      rw [hcommand] at hrows ⊢
      obtain ⟨db', hstop, hview⟩ := insertLoop_stops h
        (fun r hr => hrows r (List.mem_append_left _ hr)) hlogged hfails last
      rw [bind_of_error hstop]
      exact ⟨first, by rw [view_withDatabase, hview], fun _ hok => by cases hok⟩
    · obtain ⟨db', hok, -, hview⟩ := insertLoop_ok h hrows hlog
      rw [bind_of_ok hok]
      exact ⟨command.rows, by rw [← hview]; rfl, fun _ _ => rfl⟩

theorem covers_executeInsert (hs : s.Sound) (command : Insert) :
    Covers (s.spared (.insert command)) (executeInsert command s).2 := by
  rcases rowsOf_executeInsert hs command with ⟨db, table, h, inserted, hview, -⟩ | ⟨hsame, -⟩
  · exact covers_putTable h hview
      (List.filter_sublist.trans (List.sublist_append_left _ _)).subperm
  · rw [hsame]
    exact covers_spared s _

/-- UPDATE leaves the rows that its `WHERE` clause does not select, wherever it stops. -/
theorem sublist_updatedRow (command : Update) (schema : List Column) (target : ℕ)
    (rows : List Row) : (rows.filter fun row => !matching schema command.where_ row).Sublist
      (rows.map (updatedRow command schema target)) := by
  have hsame : (rows.filter fun row => !matching schema command.where_ row).map
      (updatedRow command schema target) =
        rows.filter fun row => !matching schema command.where_ row := by
    refine (List.map_congr_left fun row hrow => ?_).trans (List.map_id _)
    rw [updatedRow, if_neg (by simpa using (List.mem_filter.1 hrow).2)]
    rfl
  rw [← hsame]
  exact List.filter_sublist.map _

/-- The rows that a command selects with its `WHERE` clause. -/
theorem isMatch_eq {db : Database} {name : Str} {table : Table} (h : Holding s db name table)
    (where_ : Option Predicate) (row : Row) :
    s.isMatch name where_ row = matching table.schema where_ row := by
  rw [isMatch, h.requireTable_eq]

theorem covers_executeUpdate (hs : s.Sound) (command : Update) :
    Covers (s.spared (.update command)) (executeUpdate command s).2 := by
  rcases requireTable_cases hs command.table with ⟨db, table, h⟩ | ⟨e, he, -⟩
  swap
  · rw [executeUpdate, get_bind, he]
    exact covers_spared s _
  cases hcol : columnIndex table.schema command.column with
  | none =>
    rw [executeUpdate, get_bind, h.requireTable_eq, lift_ok_bind, hcol]
    exact covers_spared s _
  | some target =>
    have htarget : target < table.schema.length := (List.findIdx?_eq_some_iff_getElem.1 hcol).1
    have hselects : (fun row => !s.selects (.update command) command.table row) =
        fun row => !matching table.schema command.where_ row := by
      funext row
      simp [selects, isMatch_eq h]
    rw [executeUpdate_apply h hcol]
    refine Keeps.after (fun _ => covers_logged _ _ _) ?_
    rcases forall_or_exists_first (UpdatePasses command table.schema target) table.view.rows with
      hall | ⟨before, row, after, hrows, hbefore, hrow⟩
    · obtain ⟨db', hrun, -, hview⟩ := updateLoop_ok h htarget hall
      rw [hrun]
      refine covers_putTable h ((view_withDatabase s db').trans (congrArg some hview)) ?_
      rw [hselects]
      exact (sublist_updatedRow command table.schema target table.view.rows).subperm
    · obtain ⟨e, db', hrun, -, -, hview⟩ := updateLoop_stops h htarget hrows hbefore hrow
      rw [hrun]
      refine covers_putTable h ((view_withDatabase s db').trans (congrArg some hview)) ?_
      rw [hselects, hrows, List.filter_append]
      exact ((sublist_updatedRow command table.schema target before).append
        List.filter_sublist).subperm

theorem covers_executeDelete (hs : s.Sound) (command : Delete) :
    Covers (s.spared (.delete command)) (executeDelete command s).2 := by
  rcases requireTable_cases hs command.table with ⟨db, table, h⟩ | ⟨e, he, -⟩
  swap
  · rw [executeDelete, get_bind, he]
    exact covers_spared s _
  have hselects : (fun row => !s.selects (.delete command) command.table row) =
      fun row => !matching table.schema command.where_ row := by
    funext row
    simp [selects, isMatch_eq h]
  rw [executeDelete_apply h]
  refine Keeps.after (fun _ => covers_logged _ _ _) ?_
  rcases forall_or_exists_first
    (fun row => ∃ passed, passes table.schema command.where_ row = .ok passed)
    table.view.rows.reverse with hall | ⟨before, row, after, hrows, hbefore, hrow⟩
  · obtain ⟨db', hrun, -, hview⟩ := deleteLoop_ok h fun row hmem =>
      hall row (List.mem_reverse.2 hmem)
    rw [hrun]
    refine covers_putTable h ((view_withDatabase s db').trans (congrArg some hview)) ?_
    rw [hselects]
  · cases hp : passes table.schema command.where_ row with
    | ok passed => exact absurd ⟨passed, hp⟩ hrow
    | error e =>
      obtain ⟨db', hrun, -, hview⟩ := deleteLoop_stops h hrows hbefore hp
      rw [hrun]
      refine covers_putTable h ((view_withDatabase s db').trans (congrArg some hview)) ?_
      have hsplit : table.view.rows = (row :: after).reverse ++ before.reverse := by
        rw [← List.reverse_append, ← hrows, List.reverse_reverse]
      rw [hselects, hsplit, List.filter_append]
      exact (List.filter_sublist.append (List.Sublist.refl _)).subperm

theorem covers_executeCreateIndex (hs : s.Sound) (command : CreateIndex) :
    Covers (s.spared (.createIndex command)) (executeCreateIndex command s).2 := by
  rcases requireTable_cases hs command.table with ⟨db, table, h⟩ | ⟨e, he, -⟩
  swap
  · rw [executeCreateIndex, get_bind, he]
    exact covers_spared s _
  rw [executeCreateIndex, get_bind, h.requireTable_eq, lift_ok_bind]
  refine Keeps.after (fun _ => covers_logged _ _ _) ?_
  rw [h.putTable_apply]
  have hrows : (table.createIndex command.name command.column).2.view.rows = table.view.rows := by
    rw [(h.reached.view_createIndex command.name command.column).2.2.2, TableView.createIndex]
    split_ifs <;> rfl
  refine @covers_putTable s _ _ db command.table table _ h
    ((view_withDatabase s _).trans (congrArg some (view_putIn _ _ _))) (hrows ▸ ?_)
  exact List.filter_sublist.subperm

/-! ### Every command -/

theorem covers_executeSaveDatabase (command : Option StorageManager.SaveFault) :
    Keeps (Covers rows) (executeSaveDatabase command) := by
  refine keeps_get_bind fun s hs => ?_
  cases s.database with
  | none => exact hs
  | some database =>
    have hpublish : Keeps (Covers rows) (publish command database) := fun _ hs => hs
    have hreset : Keeps (Covers rows) resetWal := fun _ hs => hs
    exact ((covers_appendWal _ _).bind fun _ => hpublish.bind fun _ => hreset.bind fun _ =>
      keeps_pure _) s hs

theorem database_executeBegin (s : QueryExecutor) :
    (executeBegin s).2.database = s.database := by
  rw [executeBegin, get_bind]
  cases hd : s.database with
  | none => exact hd
  | some database =>
    by_cases hactive : s.transactionSnapshot.isSome = true
    · simp only [if_pos hactive]
      exact hd
    · simp only [if_neg hactive]
      cases database.clone with
      | error e => exact hd
      | ok copy => exact hd

theorem database_executeCommit (s : QueryExecutor) :
    (executeCommit s).2.database = s.database := by
  cases hcopy : s.transactionSnapshot with
  | none => rw [(end_idle hcopy).1]
  | some copy =>
    cases hid : s.activeTransaction with
    | none => rw [executeCommit, get_bind, hcopy, hid]; rfl
    | some id =>
      rw [executeCommit_active hcopy hid]
      cases s.transactionManager.commit id with
      | error e => rfl
      | ok manager => rfl

/-- **A command leaves every row that it does not select**, whether it returns or throws. -/
theorem covers_executeUnlocked (hs : s.Sound) (hquery : query ≠ .rollbackTransaction) :
    Covers (s.spared query) (executeUnlocked platform query s).2 := by
  have hall (hselects : ∀ name row, s.selects query name row = true) (t : QueryExecutor) :
      Covers (s.spared query) t := by
    intro name
    rw [spared, List.filter_eq_nil_iff.2 fun row _ => by simp [hselects name row]]
    exact List.nil_subperm
  cases query with
  | createDatabase command => exact hall (fun _ _ => rfl) _
  | createTable command => exact covers_executeCreateTable hs command
  | dropTable command => exact covers_executeDropTable hs command
  | renameTable command => exact covers_executeRenameTable hs command
  | insert command => exact covers_executeInsert hs command
  | update command => exact covers_executeUpdate hs command
  | delete command => exact covers_executeDelete hs command
  | createIndex command => exact covers_executeCreateIndex hs command
  | saveDatabase => exact covers_executeSaveDatabase none s (covers_spared s _)
  | loadDatabase command => exact hall (fun _ _ => rfl) _
  | beginTransaction => exact (covers_spared s _).of_database (database_executeBegin s)
  | commitTransaction => exact (covers_spared s _).of_database (database_executeCommit s)
  | rollbackTransaction => exact absurd rfl hquery
  | listTables => exact covers_spared s _
  | select command => exact covers_spared s _
  | prepareStatement command => exact covers_spared s _
  | executePrepared command => exact covers_spared s _
  | exit => exact covers_spared s _

end QueryExecutor

end VertexDB
