import VertexDB.Storage.Database

/-!
# What tables and databases are for: views

A `TableView` is a table as its users see it: a schema, a list of rows, and the definitions of
its indexes.  A `DatabaseView` is a collection of these under their names.  `Table.view` and
`Database.view` forget pages, versions and index structures, and one lemma per operation says
what it does to the view.

`Database.Sound` is the invariant of databases: every table is reached by table operations and
has the name it is filed under.
-/

namespace VertexDB

/-- A table as a schema with a list of rows and index definitions (name and column). -/
structure TableView where
  schema : List Column
  rows : List Row
  indexes : SortedMap Str Str
  deriving DecidableEq

/-- A database as a name with tables. -/
structure DatabaseView where
  name : Str
  tables : SortedMap Str TableView
  deriving DecidableEq

namespace TableView

/-- A new table. -/
def new (schema : List Column) : TableView := ⟨schema, [], .empty⟩

/-- Define an index, if the column exists and the name is free. -/
def createIndex (view : TableView) (name column : Str) : Bool × TableView :=
  if (columnIndex view.schema column).isSome ∧ view.indexes.contains name = false then
    (true, { view with indexes := view.indexes.insert name column })
  else (false, view)

/-- Define indexes one after the other. -/
def createIndexes (view : TableView) (definitions : List (Str × Str)) : TableView :=
  definitions.foldl (fun view item => (view.createIndex item.1 item.2).2) view

/-- Definitions with distinct names, on existing columns, are all added to a table without
indexes. -/
theorem createIndexes_eq (schema : List Column) (rows : List Row) (definitions : List (Str × Str))
    (hnames : definitions.Pairwise fun a b => a.1 ≠ b.1)
    (hcolumns : ∀ item ∈ definitions, (columnIndex schema item.2).isSome) :
    createIndexes ⟨schema, rows, .empty⟩ definitions =
      ⟨schema, rows, definitions.foldl (fun m item => m.insert item.1 item.2) .empty⟩ := by
  suffices h : ∀ m : SortedMap Str Str, (∀ item ∈ definitions, m.find? item.1 = none) →
      createIndexes ⟨schema, rows, m⟩ definitions =
        ⟨schema, rows, definitions.foldl (fun m item => m.insert item.1 item.2) m⟩ from
    h _ fun _ _ => rfl
  induction definitions with
  | nil => exact fun m _ => rfl
  | cons item definitions ih =>
    intro m hm
    obtain ⟨hne, hnames⟩ := List.pairwise_cons.1 hnames
    have hstep : (createIndex ⟨schema, rows, m⟩ item.1 item.2).2 =
        ⟨schema, rows, m.insert item.1 item.2⟩ := by
      rw [createIndex, if_pos]
      exact ⟨hcolumns item List.mem_cons_self,
        SortedMap.contains_eq_false_iff.2 (hm item List.mem_cons_self)⟩
    rw [createIndexes, List.foldl_cons, hstep, List.foldl_cons]
    refine ih hnames (fun i hi => hcolumns i (List.mem_cons_of_mem _ hi)) _ fun i hi => ?_
    rw [SortedMap.find?_insert, if_neg (Ne.symm (hne i hi))]
    exact hm i (List.mem_cons_of_mem _ hi)

end TableView

/-! ### Views of tables -/

namespace Table

/-- The view of a table. -/
def view (table : Table) : TableView :=
  ⟨table.schema, table.rowsSnapshot, table.indexColumns.mapValues fun _ c => table.columnName c⟩

theorem indexDefinitions_eq (table : Table) :
    table.indexDefinitions = table.view.indexes.entries := rfl

variable {table table' : Table} {rows : List Row}

theorem view_of_sameShape (hs : SameShape table table') (h : table'.Holds rows) :
    table'.view = { table.view with rows := rows } := by
  have hcol : table'.columnName = table.columnName := funext hs.columnName
  simp only [view, hs.schema, hs.indexColumns, h.rowsSnapshot_eq, hcol]

theorem Reached.fits (h : table.Reached) :
    ∀ row ∈ table.view.rows, validateRow table.view.schema row = .ok () := h.holds.fits

theorem Reached.schema_ne (h : table.Reached) : table.view.schema ≠ [] := h.holds.schema_ne

/-- The columns of the indexes exist. -/
theorem Reached.isSome_columnIndex (h : table.Reached) {item : Str × Str}
    (hi : item ∈ table.indexDefinitions) :
    (columnIndex table.view.schema item.2).isSome = true := by
  rw [indexDefinitions, List.mem_map] at hi
  obtain ⟨⟨name, c⟩, hmem, rfl⟩ := hi
  have := h.holds.columns name c (SortedMap.mem_entries_iff.1 hmem)
  exact Option.isSome_of_eq_some this

/-- The definitions of the indexes define them again. -/
theorem Reached.createIndexes_indexDefinitions (h : table.Reached) :
    TableView.createIndexes ⟨table.schema, table.rowsSnapshot, .empty⟩ table.indexDefinitions =
      table.view := by
  have := TableView.createIndexes_eq table.schema table.rowsSnapshot table.indexDefinitions
    (table.view.indexes.sorted.imp fun h => h.ne) fun item hi => h.isSome_columnIndex hi
  rw [this, indexDefinitions_eq, SortedMap.foldl_insert_entries]
  rfl

theorem view_make {name : Str} {schema : List Column} (h : make name schema = .ok table) :
    table.view = .new schema ∧ table.name = name ∧ table.Reached := by
  obtain ⟨hh, hname, hschema, hcols⟩ := holds_make h
  refine ⟨?_, hname, .make h⟩
  simp only [view, hschema, hh.rowsSnapshot_eq, hcols]
  rfl

theorem Reached.view_insert (h : table.Reached) {row : Row} {rowId : RowId}
    (hi : table.insert row = .ok (rowId, table')) :
    table'.Reached ∧ table'.name = table.name ∧
      table'.view = { table.view with rows := table.view.rows ++ [row] } := by
  obtain ⟨-, -, hh', hs, -⟩ := h.holds.insert hi
  exact ⟨h.insert hi, hs.name, view_of_sameShape hs hh'⟩

theorem Reached.view_erase (h : table.Reached) (rowId : RowId) :
    (table.erase rowId).1 = decide (rowId < table.view.rows.length) ∧
      (table.erase rowId).2.Reached ∧ (table.erase rowId).2.name = table.name ∧
      (table.erase rowId).2.view = { table.view with rows := table.view.rows.eraseIdx rowId } := by
  obtain ⟨herased, hh', hs, -⟩ := h.holds.erase rowId
  exact ⟨herased, h.apply (.erase rowId), hs.name, view_of_sameShape hs hh'⟩

theorem Reached.view_update (h : table.Reached) {rowId : RowId} {index : ℕ} {value : Value}
    {updated : Bool} (hu : table.update rowId index value = .ok (updated, table')) :
    (updated = true ↔ rowId < table.view.rows.length ∧ index < table.view.schema.length) ∧
      table'.Reached ∧ table'.name = table.name ∧ table'.view = { table.view with
        rows := if updated then table.view.rows.modify rowId (·.set index value)
          else table.view.rows } := by
  obtain ⟨hiff, hh', hs, -, -⟩ := h.holds.update hu
  exact ⟨hiff, h.update hu, hs.name, view_of_sameShape hs hh'⟩

theorem Reached.view_replaceRows (h : table.Reached) {new : List Row}
    (hr : table.replaceRows new = .ok table') :
    table'.Reached ∧ table'.name = table.name ∧
      table'.view = { table.view with rows := new } := by
  obtain ⟨-, hh', hs, -⟩ := h.holds.replaceRows hr
  exact ⟨h.replaceRows hr, hs.name, view_of_sameShape hs hh'⟩

theorem Reached.view_createIndex (h : table.Reached) (name column : Str) :
    (table.createIndex name column).2.Reached ∧
      (table.createIndex name column).2.name = table.name ∧
      (table.createIndex name column).1 = (table.view.createIndex name column).1 ∧
      (table.createIndex name column).2.view = (table.view.createIndex name column).2 := by
  obtain ⟨hh', hname, hschema, -, htrue, hfalse⟩ := h.holds.createIndex name column
  refine ⟨h.apply (.createIndex name column), hname, ?_⟩
  cases hc : (table.createIndex name column).1 with
  | true =>
    obtain ⟨hfree, c, hcol, hcols⟩ := htrue hc
    have hcn : table.columnName c = column := columnIndex_columnName hcol
    have hcolName : (table.createIndex name column).2.columnName = table.columnName := by
      funext i; rw [columnName, hschema]; rfl
    have hcond : (columnIndex table.view.schema column).isSome ∧
        table.view.indexes.contains name = false :=
      ⟨Option.isSome_of_eq_some hcol, by
        simpa [view, SortedMap.contains_eq_false_iff] using hfree⟩
    rw [TableView.createIndex, if_pos hcond]
    refine ⟨rfl, ?_⟩
    simp only [view, hschema, hh'.rowsSnapshot_eq, hcols, hcolName, SortedMap.mapValues_insert, hcn]
  | false =>
    obtain ⟨hor, hsame⟩ := hfalse hc
    have hcond : ¬ ((columnIndex table.view.schema column).isSome ∧
        table.view.indexes.contains name = false) := by
      rintro ⟨hsome, hfree⟩
      rcases hor with hnone | hcon
      · change (columnIndex table.schema column).isSome = true at hsome
        rw [hnone] at hsome
        cases hsome
      · rw [view, SortedMap.contains_mapValues, hcon] at hfree
        cases hfree
    rw [TableView.createIndex, if_neg hcond, hsame]
    exact ⟨rfl, rfl⟩

end Table

namespace Database

open Table

theorem view_createIndexes {table : Table} (h : table.Reached) (definitions : List (Str × Str)) :
    (createIndexes table definitions).Reached ∧
      (createIndexes table definitions).name = table.name ∧
      (createIndexes table definitions).view = table.view.createIndexes definitions := by
  induction definitions generalizing table with
  | nil => exact ⟨h, rfl, rfl⟩
  | cons item definitions ih =>
    obtain ⟨hreached, hname, -, hview⟩ := h.view_createIndex item.1 item.2
    obtain ⟨h1, h2, h3⟩ := ih hreached
    refine ⟨h1, h2.trans hname, h3.trans ?_⟩
    rw [hview]
    rfl

theorem view_insertRows {table : Table} (h : table.Reached) {rows : List Row}
    (hrows : ∀ row ∈ rows, validateRow table.view.schema row = .ok ()) :
    ∃ table', insertRows table rows = .ok table' ∧ table'.Reached ∧ table'.name = table.name ∧
      table'.view = { table.view with rows := table.view.rows ++ rows } := by
  induction rows generalizing table with
  | nil => exact ⟨table, rfl, h, rfl, by simp⟩
  | cons row rows ih =>
    obtain ⟨rowId, mid, hi⟩ := insert_ok (hrows row List.mem_cons_self)
    obtain ⟨hmid, hname, hview⟩ := h.view_insert hi
    obtain ⟨table', hok, h1, h2, h3⟩ := ih hmid fun r hr => by
      rw [hview]; exact hrows r (List.mem_cons_of_mem _ hr)
    refine ⟨table', ?_, h1, h2.trans hname, ?_⟩
    · rw [insertRows, hi]; exact hok
    · rw [h3, hview, List.append_assoc]; rfl

/-! ### Sound databases and their views -/

/-- The invariant of databases. -/
structure Sound (database : Database) : Prop where
  name_ne : database.name ≠ []
  tables : ∀ key table, database.tables.find? key = some table →
    table.name = key ∧ table.Reached

/-- The view of a database. -/
def view (database : Database) : DatabaseView :=
  ⟨database.name, database.tables.mapValues fun _ table => table.view⟩

variable {database database' : Database}

theorem find?_view (database : Database) (name : Str) :
    database.view.tables.find? name = (database.table name).map Table.view :=
  SortedMap.find?_mapValues ..

theorem contains_view (database : Database) (name : Str) :
    database.view.tables.contains name = database.tables.contains name :=
  SortedMap.contains_mapValues ..

/-- Filing a table under its name. -/
theorem Sound.insert (h : database.Sound) {table : Table} (ht : table.Reached) :
    Sound { database with tables := database.tables.insert table.name table } := by
  refine ⟨h.name_ne, fun key found hf => ?_⟩
  rw [SortedMap.find?_insert] at hf
  split_ifs at hf with hk
  · cases hf; exact ⟨hk.symm, ht⟩
  · exact h.tables key found hf

theorem view_insert (database : Database) (name : Str) (table : Table) :
    view { database with tables := database.tables.insert name table } =
      { database.view with tables := database.view.tables.insert name table.view } := by
  simp only [view, SortedMap.mapValues_insert]

theorem Sound.erase (h : database.Sound) (name : Str) :
    Sound { database with tables := database.tables.erase name } := by
  refine ⟨h.name_ne, fun key found hf => ?_⟩
  rw [SortedMap.find?_erase] at hf
  split_ifs at hf
  exact h.tables key found hf

theorem view_erase (database : Database) (name : Str) :
    view { database with tables := database.tables.erase name } =
      { database.view with tables := database.view.tables.erase name } := by
  simp only [view, SortedMap.mapValues_erase]

theorem sound_make {name : Str} (h : make name = .ok database) :
    database.Sound ∧ database.view = ⟨name, .empty⟩ ∧ name ≠ [] := by
  unfold make at h
  split_ifs at h with hn
  cases h
  exact ⟨⟨hn, fun _ _ hf => by cases hf⟩, rfl, hn⟩

theorem make_ok {name : Str} (h : name ≠ []) : ∃ database, make name = .ok database :=
  ⟨_, if_neg h⟩

end Database

/-! ### Operations on databases -/

namespace DatabaseView

/-- Create a table, if the name is free. -/
def createTable (view : DatabaseView) (name : Str) (schema : List Column) :
    Except Exception (Bool × DatabaseView) :=
  if name = [] then throw (.invalidArgument "table name cannot be empty")
  else if schema = [] then throw (.invalidArgument "table schema cannot be empty")
  else if view.tables.contains name then return (false, view)
  else return (true, { view with tables := view.tables.insert name (.new schema) })

/-- Drop a table, if it exists. -/
def dropTable (view : DatabaseView) (name : Str) : Bool × DatabaseView :=
  if view.tables.contains name then (true, { view with tables := view.tables.erase name })
  else (false, view)

/-- Move a table to another name, if it exists and that name is free. -/
def renameTable (view : DatabaseView) (oldName newName : Str) :
    Except Exception (Bool × DatabaseView) :=
  match view.tables.find? oldName with
  | none => return (false, view)
  | some table =>
    if view.tables.contains newName then return (false, view)
    else if newName = [] then throw (.invalidArgument "table name cannot be empty")
    else return (true, { view with tables := (view.tables.erase oldName).insert newName table })

end DatabaseView

namespace Database

variable {database : Database}

theorem view_createTable (h : database.Sound) (name : Str) (schema : List Column) :
    match database.createTable name schema with
    | .ok (created, database') =>
      database'.Sound ∧ database.view.createTable name schema = .ok (created, database'.view)
    | .error e => database.view.createTable name schema = .error e := by
  unfold createTable DatabaseView.createTable
  cases hm : Table.make name schema with
  | error e =>
    unfold Table.make at hm
    split_ifs at hm with h1 h2
    · cases hm; simp [h1]
    · cases hm; simp [h1, h2]
    · cases hm
  | ok table =>
    obtain ⟨hview, hname, hreached⟩ := Table.view_make hm
    have h1 : name ≠ [] := hname ▸ hreached.holds.name_ne
    have h2 : schema ≠ [] := by
      have := hreached.schema_ne
      rwa [hview] at this
    simp only [Failure.ok_bind, Failure.pure_eq_ok, if_neg h1, if_neg h2, contains_view]
    cases hc : database.tables.contains name with
    | true =>
      rw [SortedMap.tryEmplace_of_contains hc]
      exact ⟨h, rfl⟩
    | false =>
      rw [SortedMap.tryEmplace_of_find?_eq_none (SortedMap.contains_eq_false_iff.1 hc),
        view_insert, hview, ← hname]
      exact ⟨h.insert hreached, rfl⟩

theorem view_dropTable (h : database.Sound) (name : Str) :
    (database.dropTable name).2.Sound ∧ database.view.dropTable name =
      ((database.dropTable name).1, (database.dropTable name).2.view) := by
  unfold dropTable DatabaseView.dropTable
  rw [contains_view]
  split_ifs
  · exact ⟨h.erase name, by rw [view_erase]⟩
  · exact ⟨h, rfl⟩

/-- The table built for a new name has the view of the old one. -/
theorem view_replacement {table : Table} (h : table.Reached) {newName : Str} (hn : newName ≠ []) :
    ∃ table', replacement table newName = .ok table' ∧ table'.Reached ∧ table'.name = newName ∧
      table'.view = table.view := by
  have hmake : Table.make newName table.schema =
      .ok ⟨newName, table.schema, makePageRowStore, .empty, .empty, .empty, .empty, 1⟩ := by
    rw [Table.make, if_neg hn, if_neg h.holds.schema_ne]; rfl
  obtain ⟨hnew, hname, hreached⟩ := Table.view_make hmake
  set new : Table := ⟨newName, table.schema, makePageRowStore, .empty, .empty, .empty, .empty, 1⟩
  have hfits : ∀ row ∈ table.rowsSnapshot, validateRow new.view.schema row = .ok () := by
    rw [hnew]
    exact h.fits
  obtain ⟨filled, hfilled, h1, h2, h3⟩ := view_insertRows hreached hfits
  obtain ⟨h4, h5, h6⟩ := view_createIndexes h1 table.indexDefinitions
  refine ⟨_, ?_, h4, h5.trans (h2.trans hname), ?_⟩
  · rw [replacement, hmake, Failure.ok_bind, hfilled]; rfl
  · rw [h6, h3, hnew]
    exact h.createIndexes_indexDefinitions

theorem view_renameTable (h : database.Sound) (oldName newName : Str) :
    match database.renameTable oldName newName with
    | (.ok renamed, database') =>
      database'.Sound ∧ database.view.renameTable oldName newName = .ok (renamed, database'.view)
    | (.error e, database') =>
      database'.Sound ∧ database.view.renameTable oldName newName = .error e ∧ newName = [] ∧
        database'.view = { database.view with tables := database.view.tables.erase oldName } := by
  unfold renameTable DatabaseView.renameTable
  rw [find?_view, table]
  cases hf : database.tables.find? oldName with
  | none => exact ⟨h, rfl⟩
  | some old =>
    simp only [Option.map_some, contains_view]
    cases hc : database.tables.contains newName with
    | true => exact ⟨h, rfl⟩
    | false =>
      simp only [Bool.false_eq_true, if_false]
      by_cases hn : newName = []
      · have : replacement old newName =
            .error (.invalidArgument "table name cannot be empty") := by
          rw [replacement, Table.make, if_pos hn]; rfl
        rw [this, if_pos hn]
        exact ⟨h.erase oldName, rfl, hn, by rw [view_erase]⟩
      · obtain ⟨new, hok, hreached, hname, hview⟩ := view_replacement (h.tables _ _ hf).2 hn
        simp only [hok, if_neg hn, Failure.pure_eq_ok]
        have hfree : (database.tables.erase oldName).find? newName = none := by
          rw [SortedMap.find?_erase, SortedMap.contains_eq_false_iff.1 hc]; simp
        rw [SortedMap.tryEmplace_of_find?_eq_none hfree,
          view_insert { database with tables := database.tables.erase oldName } newName new,
          view_erase, hview, ← hname]
        exact ⟨(h.erase oldName).insert hreached, rfl⟩

/-! ### Copies -/

/-- The view of a copy of a table, made with these index definitions. -/
def copyView (definitions : Table → List (Str × Str)) (table : Table) : TableView :=
  TableView.createIndexes ⟨table.schema, table.rowsSnapshot, .empty⟩ (definitions table)

/-- Creating a table under a free name and filling it. -/
theorem view_fillTable {copy : Database} (hcopy : copy.Sound) {table : Table} (h : table.Reached)
    (definitions : Table → List (Str × Str)) (hfree : copy.tables.find? table.name = none)
    (message : String) :
    ∃ mid copy', copy.createNewTable table.name table.schema message = .ok mid ∧
      mid.fillTable table.name table.rowsSnapshot (definitions table) = .ok copy' ∧ copy'.Sound ∧
      copy'.view =
        { copy.view with
          tables := copy.view.tables.insert table.name (copyView definitions table) } := by
  have hmake : Table.make table.name table.schema =
      .ok ⟨table.name, table.schema, makePageRowStore, .empty, .empty, .empty, .empty, 1⟩ := by
    rw [Table.make, if_neg h.holds.name_ne, if_neg h.holds.schema_ne]; rfl
  obtain ⟨hnew, hname, hreached⟩ := Table.view_make hmake
  set new : Table := ⟨table.name, table.schema, makePageRowStore, .empty, .empty, .empty, .empty, 1⟩
  have hfits : ∀ row ∈ table.rowsSnapshot, validateRow new.schema row = .ok () := h.fits
  -- the rows fit the schema of the copy, which is the same
  obtain ⟨filled, hfilled⟩ := Table.replaceRows_ok hfits
  obtain ⟨h1, h2, h3⟩ := hreached.view_replaceRows hfilled
  obtain ⟨h4, h5, h6⟩ := view_createIndexes h1 (definitions table)
  have hrename : (createIndexes filled (definitions table)).name = table.name := h5.trans h2
  refine ⟨{ copy with tables := copy.tables.insert table.name new },
    { copy with
      tables := copy.tables.insert table.name (createIndexes filled (definitions table)) },
    ?_, ?_, ?_, ?_⟩
  · simp only [createNewTable, createTable, hmake, Failure.ok_bind, Failure.pure_eq_ok,
      SortedMap.contains_eq_false_iff.2 hfree, SortedMap.tryEmplace_of_find?_eq_none hfree]
    rfl
  · have hfind : Database.table { copy with tables := copy.tables.insert table.name new }
        table.name = some new := by simp [Database.table]
    simp only [fillTable, hfind, hfilled, Failure.ok_bind, Failure.pure_eq_ok, Except.ok.injEq,
      Database.mk.injEq, true_and]
    refine SortedMap.ext_find? fun k => ?_
    simp only [SortedMap.find?_insert]
    split_ifs <;> rfl
  · rw [← hrename]
    exact hcopy.insert h4
  · rw [view_insert, h6, h3, hnew]
    rfl

/-- Copying tables with free and distinct names. -/
theorem view_copyTables {copy : Database} (hcopy : copy.Sound) (message : String)
    (definitions : Table → List (Str × Str)) {tables : List Table}
    (hreached : ∀ table ∈ tables, table.Reached)
    (hnames : tables.Pairwise fun a b => a.name ≠ b.name)
    (hfree : ∀ table ∈ tables, copy.tables.find? table.name = none) :
    ∃ copy', copyTables message definitions copy tables = .ok copy' ∧ copy'.Sound ∧
      copy'.view = ⟨copy.name, tables.foldl
        (fun m table => m.insert table.name (copyView definitions table)) copy.view.tables⟩ := by
  induction tables generalizing copy with
  | nil => exact ⟨copy, rfl, hcopy, rfl⟩
  | cons table tables ih =>
    obtain ⟨hne, hnames⟩ := List.pairwise_cons.1 hnames
    obtain ⟨mid, next, hmid, hnext, hsound, hview⟩ := view_fillTable hcopy
      (hreached table List.mem_cons_self) definitions (hfree table List.mem_cons_self) message
    have hname : next.name = copy.name := congrArg DatabaseView.name hview
    have htables : next.view.tables =
      copy.view.tables.insert table.name (copyView definitions table) :=
      congrArg DatabaseView.tables hview
    obtain ⟨copy', hok, hsound', hview'⟩ := ih hsound
      (fun t ht => hreached t (List.mem_cons_of_mem _ ht)) hnames fun t ht => by
        have hcon : next.view.tables.contains t.name = false := by
          rw [htables, SortedMap.contains_eq_false_iff, SortedMap.find?_insert,
            if_neg (Ne.symm (hne t ht)), find?_view, Database.table,
            hfree t (List.mem_cons_of_mem _ ht)]
          rfl
        rwa [contains_view, SortedMap.contains_eq_false_iff] at hcon
    refine ⟨copy', ?_, hsound', ?_⟩
    · rw [copyTables, hmid, Failure.ok_bind, hnext]; exact hok
    · rw [hview', hname, htables]; rfl

/-- Rebuilding a sound database from its tables. -/
theorem view_rebuild (h : database.Sound) (message : String)
    (definitions : Table → List (Str × Str)) :
    ∃ copy copy', make database.name = .ok copy ∧
      copyTables message definitions copy database.tables.values = .ok copy' ∧ copy'.Sound ∧
      copy'.view =
        ⟨database.name, database.tables.mapValues fun _ table => copyView definitions table⟩ := by
  obtain ⟨copy, hmake⟩ := make_ok h.name_ne
  obtain ⟨hsound, hview, -⟩ := sound_make hmake
  have hfind : ∀ table ∈ database.tables.values, ∃ key, database.tables.find? key = some table := by
    intro table ht
    obtain ⟨⟨key, _⟩, hmem, rfl⟩ := List.mem_map.1 ht
    exact ⟨key, SortedMap.mem_entries_iff.1 hmem⟩
  have hkey : ∀ entry ∈ database.tables.entries, entry.2.name = entry.1 := fun entry he =>
    (h.tables _ _ (SortedMap.mem_entries_iff.1 he)).1
  -- a sound database has each table under its own name, so no name comes twice
  have hnames : database.tables.values.Pairwise fun a b => a.name ≠ b.name := by
    rw [SortedMap.values, List.pairwise_map]
    refine database.tables.sorted.imp_of_mem fun ha hb hab => ?_
    rw [hkey _ ha, hkey _ hb]
    exact hab.ne
  obtain ⟨copy', hok, hsound', hview'⟩ := view_copyTables hsound message definitions
    (fun t ht => let ⟨_, hf⟩ := hfind t ht; (h.tables _ _ hf).2) hnames
    fun t _ => by
      have hcon : copy.view.tables.contains t.name = false := by rw [hview]; rfl
      rwa [contains_view, SortedMap.contains_eq_false_iff] at hcon
  refine ⟨copy, copy', hmake, hok, hsound', ?_⟩
  have hname : copy.name = database.name := congrArg DatabaseView.name hview
  have hempty : copy.view.tables = .empty := congrArg DatabaseView.tables hview
  have hfold : database.tables.values.foldl
      (fun m table => m.insert table.name (copyView definitions table))
      (SortedMap.empty : SortedMap Str TableView) =
      (database.tables.mapValues fun _ table => copyView definitions table).entries.foldl
        (fun m b => m.insert b.1 b.2) .empty := by
    simp only [SortedMap.values, SortedMap.mapValues, List.foldl_map]
    exact List.foldl_ext _ _ _ fun m entry he => by rw [hkey entry he]
  rw [hview', hname, hempty, hfold, SortedMap.foldl_insert_entries]

/-- Definitions that describe the indexes of the tables make a copy that looks alike. -/
theorem mapValues_copyView {definitions : Table → List (Str × Str)}
    (h : ∀ key table, database.tables.find? key = some table →
      copyView definitions table = table.view) :
    (⟨database.name, database.tables.mapValues fun _ table => copyView definitions table⟩ :
      DatabaseView) = database.view := by
  simp only [view, DatabaseView.mk.injEq, true_and]
  refine SortedMap.ext_find? fun key => ?_
  rw [SortedMap.find?_mapValues, SortedMap.find?_mapValues]
  cases hf : database.tables.find? key with
  | none => rfl
  | some table => rw [Option.map_some, Option.map_some, h key table hf]

theorem view_clone (h : database.Sound) :
    ∃ copy, database.clone = .ok copy ∧ copy.Sound ∧ copy.view = database.view := by
  obtain ⟨copy, copy', hmake, hok, hsound, hview⟩ :=
    view_rebuild h "failed to clone table" Table.indexDefinitions
  refine ⟨copy', by rw [clone, hmake]; exact hok, hsound, ?_⟩
  rw [hview]
  exact mapValues_copyView fun key table hf =>
    (h.tables key table hf).2.createIndexes_indexDefinitions

end Database

/-! ### Lookups through indexes -/

namespace Table

variable {table table' : Table}

theorem indexOn_view (table : Table) (column : Str) : table.indexOn column =
    (table.view.indexes.entries.find? fun item => item.2 = column).map Prod.fst := by
  have hentries : table.view.indexes.entries =
      table.indexColumns.entries.map fun item => (item.1, table.columnName item.2) := rfl
  rw [indexOn, hentries, List.find?_map, Option.map_map]
  rfl

/-- A lookup finds no index on the column, or one that holds the rows of the view under their
values in that column. -/
theorem Reached.lookup_cases (h : table.Reached) (column : Str) :
    table.indexOn column = none ∨
      ∃ name c hash ordered, table.indexOn column = some name ∧
        columnIndex table.view.schema column = some c ∧
        table.indexes.find? name = some hash ∧ table.orderedIndexes.find? name = some ordered ∧
        InvertedIndex.IndexOf hash.entries (keysOf table.view.rows c) ∧
        InvertedIndex.IndexOf ordered.entries (keysOf table.view.rows c) := by
  by_cases hi : table.hasIndex column = true
  · obtain ⟨name, c, hname, hc, hcol⟩ := h.holds.indexOn_eq_some hi
    obtain ⟨hash, hhash, hidx⟩ := h.holds.find?_indexes hc
    obtain ⟨ordered, hordered, hidx'⟩ := h.holds.find?_orderedIndexes hc
    exact .inr ⟨name, c, hash, ordered, hname, hcol, hhash, hordered, hidx, hidx'⟩
  · refine .inl ?_
    rw [indexOn, Option.map_eq_none_iff, List.find?_eq_none]
    simpa [hasIndex] using hi

/-- Tables with the same view answer every lookup alike. -/
theorem Reached.lookup_eq (h : table.Reached) (h' : table'.Reached)
    (hview : table.view = table'.view) (column : Str) :
    (∀ value, table.indexedLookup column value = table'.indexedLookup column value) ∧
      ∀ op value, table.orderedLookup column op value = table'.orderedLookup column op value := by
  have hon : table.indexOn column = table'.indexOn column := by
    rw [indexOn_view, indexOn_view, hview]
  rcases h.lookup_cases column with hnone | ⟨name, c, hash, ordered, hname, hc, hh, ho, hi, hi'⟩
  · have hnone' := hon.symm.trans hnone
    constructor
    · intro value
      rw [indexedLookup, indexedLookup, hnone, hnone']
      rfl
    · intro op value
      rw [orderedLookup, orderedLookup, hnone, hnone']
      rfl
  · rcases h'.lookup_cases column with
      hnone | ⟨name', c', hash', ordered', hname', hc', hh', ho', hj, hj'⟩
    · rw [← hon, hname] at hnone
      cases hnone
    · rw [← hon, hname] at hname'
      cases hname'
      rw [← hview, hc] at hc'
      cases hc'
      rw [← hview] at hj hj'
      have hhash : hash.entries = hash'.entries := InvertedIndex.IndexOf.unique hi hj
      have hordered : ordered.entries = ordered'.entries := InvertedIndex.IndexOf.unique hi' hj'
      constructor
      · intro value
        rw [indexedLookup, indexedLookup, ← hon, hname, Option.map_some, Option.map_some, hh, hh',
          Option.getD_some, Option.getD_some, HashIndex.find, HashIndex.find, hhash]
      · intro op value
        simp only [orderedLookup, ← hon, hname, Option.map_some, ho, ho', Option.getD_some,
          BTreeIndex.find_eq, BTreeIndex.lessThan_eq, BTreeIndex.greaterThan_eq, hordered]

end Table

/-- Lookups through the indexes of the tables have the same answers in both databases. -/
def Database.SameLookups (database database' : Database) : Prop :=
  ∀ key table table', database.table key = some table → database'.table key = some table' →
    ∀ column, (∀ value, table.indexedLookup column value = table'.indexedLookup column value) ∧
      ∀ op value, table.orderedLookup column op value = table'.orderedLookup column op value

/-- Databases that look alike answer lookups alike. -/
theorem Database.Sound.sameLookups {database database' : Database} (h : database.Sound)
    (h' : database'.Sound) (hview : database.view = database'.view) :
    database.SameLookups database' := by
  intro key table table' hfind hfind' column
  refine (h.tables key table hfind).2.lookup_eq (h'.tables key table' hfind').2 ?_ column
  have hfound := Database.find?_view database key
  rw [hview, Database.find?_view, hfind, hfind', Option.map_some, Option.map_some] at hfound
  exact (Option.some.inj hfound).symm

end VertexDB
