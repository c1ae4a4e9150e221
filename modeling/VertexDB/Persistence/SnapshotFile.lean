import VertexDB.Persistence.RoundTrip

/-!
# What a snapshot file says

`SnapshotFile` is the contents of a snapshot file as it is laid out, before a database is built
of it: the type of a column is a byte, and an index definition is a pair of strings.  Whatever
`loadDatabase` accepts is such a file (`loadDatabase_inv`), and what is loaded shows the tables
of the file (`FileTable.view`).

The loaded database is well formed and comes back from a save exactly when the file is `Regular`
(`wellFormed_iff_regular`): no byte for a column type is out of range, and the order of the two
strings of an index definition does not matter on the platform.
-/

namespace VertexDB

open Ascii ByteCodec Failure

namespace StorageManager

variable {platform : Platform}

/-! ### The layout of a file -/

/-- A column of a schema. -/
structure FileColumn where
  name : Str
  type : Byte
  nullable : Bool
  deriving DecidableEq

/-- A table. -/
structure FileTable where
  name : Str
  columns : List FileColumn
  definitions : List (Str × Str)
  rows : List Row

/-- A snapshot. -/
structure SnapshotFile where
  name : Str
  tables : List FileTable

/-- Read a column as it is laid out. -/
def FileColumn.read : Reader Exception FileColumn := do
  let columnName ← readString
  let type ← readPod 1
  let nullable ← readPod 1
  return ⟨columnName, Fin.ofNat 256 type, nullable ≠ 0⟩

/-- Read the two strings of an index definition. -/
def readDefinition : Reader Exception (Str × Str) := do
  let first ← readString
  let second ← readString
  return (first, second)

/-- Read a table as it is laid out. -/
def FileTable.read : Reader Exception FileTable := do
  let tableName ← readString
  let columnCount ← readPod 8
  let columns ← readList columnCount FileColumn.read
  let indexCount ← readPod 8
  let definitions ← readList indexCount readDefinition
  let rowCount ← readPod 8
  let rows ← readList rowCount (readList columnCount readValue)
  return ⟨tableName, columns, definitions, rows⟩

/-- Read a snapshot as it is laid out. -/
def SnapshotFile.read : Reader Exception SnapshotFile := do
  let found ← readBytes (.runtimeError "failed to read database file") magic.length
  if found ≠ magic then throw (.runtimeError "invalid database file magic")
  let foundVersion ← readPod 4
  if foundVersion ≠ version then throw (.runtimeError "unsupported database file version")
  let name ← readString
  let tableCount ← readPod 8
  let tables ← readList tableCount FileTable.read
  return ⟨name, tables⟩

/-- The column that is built. -/
def FileColumn.column (column : FileColumn) : Column :=
  ⟨column.name, .ofCode column.type, column.nullable⟩

namespace FileTable

/-- The schema that is built. -/
def schema (table : FileTable) : List Column := table.columns.map FileColumn.column

/-- The index definitions in the order of the platform. -/
def definitionsRead (platform : Platform) (table : FileTable) : List (Str × Str) :=
  table.definitions.map (readBack platform)

/-- The column of the index of that name: the one of the first definition of the name that is
on a column of the table. -/
def indexColumn (platform : Platform) (table : FileTable) (name : Str) : Option Str :=
  ((table.definitionsRead platform).find? fun definition =>
    definition.1 = name ∧ table.columns.any (·.name = definition.2)).map Prod.snd

/-- The table that is built. -/
def view (platform : Platform) (table : FileTable) : TableView :=
  TableView.createIndexes ⟨table.schema, table.rows, .empty⟩ (table.definitionsRead platform)

end FileTable

/-- Every byte for a column type is one of an enumerator, and arguments are evaluated from left to
right or swapping the name and the column of each index gives an index. -/
structure SnapshotFile.Regular (platform : Platform) (file : SnapshotFile) : Prop where
  types : ∀ table ∈ file.tables, ∀ column ∈ table.columns, column.type.val < 3
  indexes : platform.leftToRight = true ∨ ∀ table ∈ file.tables, ∀ name column,
    table.indexColumn platform name = some column → table.indexColumn platform column = some name

/-! ### Loading reads the layout -/

theorem readList_map {α β : Type} {r : Reader Exception α} {r' : Reader Exception β} {f : α → β}
    (h : ∀ text y rest, r' text = .ok (y, rest) → ∃ x, r text = .ok (x, rest) ∧ y = f x) {n : ℕ}
    {text rest : Str} {ys : List β} (hread : readList n r' text = .ok (ys, rest)) :
    ∃ xs, readList n r text = .ok (xs, rest) ∧ ys = xs.map f := by
  induction n generalizing text ys with
  | zero => cases hread; exact ⟨[], rfl, rfl⟩
  | succ n ih =>
    obtain ⟨y, mid, hy, hread⟩ := bind_apply_eq_ok_iff.1 hread
    obtain ⟨tail, last, htail, hread⟩ := bind_apply_eq_ok_iff.1 hread
    cases hread
    obtain ⟨x, hx, rfl⟩ := h _ _ _ hy
    obtain ⟨xs, hxs, rfl⟩ := ih htail
    exact ⟨x :: xs, bind_apply_eq_ok_iff.2 ⟨x, mid, hx, bind_apply_eq_ok_iff.2 ⟨xs, _, hxs, rfl⟩⟩,
      rfl⟩

theorem ofCode_ofNat (n : ℕ) : ColumnType.ofCode (Fin.ofNat 256 n : Byte).val = .ofCode n := by
  simp [ColumnType.ofCode]

theorem readColumn_inv {text rest : Str} {column : Column}
    (h : readColumn text = .ok (column, rest)) :
    ∃ found, FileColumn.read text = .ok (found, rest) ∧ column = found.column := by
  obtain ⟨name, mid, hname, h⟩ := bind_apply_eq_ok_iff.1 h
  obtain ⟨type, mid', htype, h⟩ := bind_apply_eq_ok_iff.1 h
  obtain ⟨nullable, mid'', hnullable, h⟩ := bind_apply_eq_ok_iff.1 h
  cases h
  refine ⟨⟨name, Fin.ofNat 256 type, nullable ≠ 0⟩, ?_, ?_⟩
  · exact bind_apply_eq_ok_iff.2 ⟨_, _, hname, bind_apply_eq_ok_iff.2 ⟨_, _, htype,
      bind_apply_eq_ok_iff.2 ⟨_, _, hnullable, rfl⟩⟩⟩
  · rw [FileColumn.column, ofCode_ofNat]

theorem readIndex_inv {text rest : Str} {definition : Str × Str}
    (h : readIndex platform text = .ok (definition, rest)) :
    ∃ found, readDefinition text = .ok (found, rest) ∧ definition = readBack platform found := by
  obtain ⟨first, mid, hfirst, h⟩ := bind_apply_eq_ok_iff.1 h
  obtain ⟨second, mid', hsecond, h⟩ := bind_apply_eq_ok_iff.1 h
  cases h
  refine ⟨(first, second), ?_, rfl⟩
  exact bind_apply_eq_ok_iff.2 ⟨_, _, hfirst, bind_apply_eq_ok_iff.2 ⟨_, _, hsecond, rfl⟩⟩

theorem lift_eq_ok {α : Type} {r : Except Exception α} {text rest : Str} {x : α}
    (h : (liftM r : Reader Exception α) text = .ok (x, rest)) : r = .ok x ∧ rest = text := by
  cases r with
  | error e => cases h
  | ok y => cases h; exact ⟨rfl, rfl⟩

/-- A table that is read is a table of the file that is created and filled. -/
theorem readTable_inv {database database' : Database} {text rest : Str}
    (h : readTable platform database text = .ok (database', rest)) :
    ∃ table mid, FileTable.read text = .ok (table, rest) ∧
      database.createNewTable table.name table.schema "duplicate table in database file" =
        .ok mid ∧
      mid.fillTable table.name table.rows (table.definitionsRead platform) = .ok database' := by
  obtain ⟨name, _, hname, h⟩ := bind_apply_eq_ok_iff.1 h
  obtain ⟨columnCount, _, hcount, h⟩ := bind_apply_eq_ok_iff.1 h
  obtain ⟨schema, _, hschema, h⟩ := bind_apply_eq_ok_iff.1 h
  obtain ⟨mid, _, hmid, h⟩ := bind_apply_eq_ok_iff.1 h
  obtain ⟨indexCount, _, hindexCount, h⟩ := bind_apply_eq_ok_iff.1 h
  obtain ⟨definitions, _, hdefinitions, h⟩ := bind_apply_eq_ok_iff.1 h
  obtain ⟨rowCount, _, hrowCount, h⟩ := bind_apply_eq_ok_iff.1 h
  obtain ⟨rows, _, hrows, h⟩ := bind_apply_eq_ok_iff.1 h
  obtain ⟨hfill, rfl⟩ := lift_eq_ok h
  obtain ⟨hcreate, rfl⟩ := lift_eq_ok hmid
  obtain ⟨columns, hcolumns, rfl⟩ := readList_map (fun _ _ _ => readColumn_inv) hschema
  obtain ⟨found, hfound, rfl⟩ := readList_map (fun _ _ _ => readIndex_inv) hdefinitions
  refine ⟨⟨name, columns, found, rows⟩, mid, ?_, hcreate, hfill⟩
  exact bind_apply_eq_ok_iff.2 ⟨_, _, hname, bind_apply_eq_ok_iff.2 ⟨_, _, hcount,
    bind_apply_eq_ok_iff.2 ⟨_, _, hcolumns, bind_apply_eq_ok_iff.2 ⟨_, _, hindexCount,
    bind_apply_eq_ok_iff.2 ⟨_, _, hfound, bind_apply_eq_ok_iff.2 ⟨_, _, hrowCount,
    bind_apply_eq_ok_iff.2 ⟨_, _, hrows, rfl⟩⟩⟩⟩⟩⟩⟩

/-- Filling a new table. -/
theorem view_fillTable_ok {mid database' : Database} {view : DatabaseView} (hmid : mid.Sound)
    {table : FileTable} (hview : mid.view = { view with
      tables := view.tables.insert table.name (.new table.schema) })
    (hfill : mid.fillTable table.name table.rows (table.definitionsRead platform) =
      .ok database') :
    database'.view = { view with
      tables := view.tables.insert table.name (table.view platform) } := by
  have hfound := Database.find?_view mid table.name
  rw [hview, SortedMap.find?_insert, if_pos rfl] at hfound
  obtain ⟨new, hnew, hnewView⟩ := Option.map_eq_some_iff.1 hfound.symm
  unfold Database.fillTable at hfill
  rw [hnew] at hfill
  obtain ⟨filled, hfilled, heq⟩ := bind_eq_ok_iff.1 hfill
  cases heq
  obtain ⟨-, hreached⟩ := hmid.tables table.name new hnew
  obtain ⟨hfilledReached, -, hfilledView⟩ := hreached.view_replaceRows hfilled
  obtain ⟨-, -, hindexed⟩ :=
    Database.view_createIndexes hfilledReached (table.definitionsRead platform)
  rw [Database.view_insert, hview, hindexed, hfilledView, hnewView]
  simp only [DatabaseView.mk.injEq, true_and]
  refine SortedMap.ext_find? fun key => ?_
  simp only [SortedMap.find?_insert]
  split_ifs <;> rfl

/-- A table of the file has a name that is free and becomes a table of the database. -/
theorem view_of_fill {database mid database' : Database} (hsound : database.Sound)
    {table : FileTable} (hcreate : database.createNewTable table.name table.schema
      "duplicate table in database file" = .ok mid)
    (hfill : mid.fillTable table.name table.rows (table.definitionsRead platform) =
      .ok database') :
    database'.Sound ∧ database.view.tables.find? table.name = none ∧
      database'.view = { database.view with
        tables := database.view.tables.insert table.name (table.view platform) } := by
  have hmid := Database.sound_createNewTable hsound hcreate
  refine ⟨Database.sound_fillTable hmid hfill, ?_⟩
  obtain ⟨⟨created, made⟩, hmade, hcreated⟩ := bind_eq_ok_iff.1 hcreate
  have hspec := Database.view_createTable hsound table.name table.schema
  rw [hmade] at hspec
  have hview := hspec.2
  cases created with
  | false => cases hcreated
  | true =>
    obtain rfl : made = mid := by cases hcreated; rfl
    unfold DatabaseView.createTable at hview
    split_ifs at hview with hname hschema hused
    · cases hview
    have hfree : database.view.tables.find? table.name = none :=
      SortedMap.contains_eq_false_iff.1 (by simpa using hused)
    refine ⟨hfree, ?_⟩
    have hmidView : made.view = { database.view with
        tables := database.view.tables.insert table.name (.new table.schema) } :=
      (congrArg Prod.snd (Except.ok.inj hview)).symm
    exact view_fillTable_ok hmid hmidView hfill

/-- The database that a file builds. -/
def SnapshotFile.view (platform : Platform) (file : SnapshotFile) : DatabaseView :=
  ⟨file.name, file.tables.foldl
    (fun tables table => tables.insert table.name (table.view platform)) .empty⟩

theorem readTables_inv {count : ℕ} {database database' : Database} {text rest : Str}
    (hsound : database.Sound)
    (h : readTables platform count database text = .ok (database', rest)) :
    ∃ tables, readList count FileTable.read text = .ok (tables, rest) ∧ database'.Sound ∧
      (tables.Pairwise fun a b => a.name ≠ b.name) ∧
      (∀ table ∈ tables, database.view.tables.find? table.name = none) ∧
      database'.view = ⟨database.name, tables.foldl
        (fun tables table => tables.insert table.name (table.view platform))
        database.view.tables⟩ := by
  induction count generalizing database text with
  | zero =>
    cases h
    exact ⟨[], rfl, hsound, .nil, by simp, rfl⟩
  | succ count ih =>
    obtain ⟨mid, _, hfirst, h⟩ := bind_apply_eq_ok_iff.1 h
    obtain ⟨table, new, hread, hcreate, hfill⟩ := readTable_inv hfirst
    obtain ⟨hmid, hfree, hview⟩ := view_of_fill hsound hcreate hfill
    obtain ⟨tables, htables, hlast, hnames, hfrees, hviews⟩ := ih hmid h
    -- the names behind are free in `mid`, which has the first table already
    have hfreeAfter : ∀ other ∈ tables, table.name ≠ other.name ∧
        database.view.tables.find? other.name = none := by
      intro other hother
      have hnone := hfrees other hother
      rw [hview, SortedMap.find?_insert] at hnone
      split_ifs at hnone with hsame
      exact ⟨fun heq => hsame heq.symm, hnone⟩
    refine ⟨table :: tables, ?_, hlast, ?_, ?_, ?_⟩
    · exact bind_apply_eq_ok_iff.2 ⟨table, _, hread,
        bind_apply_eq_ok_iff.2 ⟨tables, _, htables, rfl⟩⟩
    · exact .cons (fun other hother => (hfreeAfter other hother).1) hnames
    · intro other hother
      rcases List.mem_cons.1 hother with rfl | hother
      · exact hfree
      · exact (hfreeAfter other hother).2
    · have hname : mid.name = database.name := congrArg DatabaseView.name hview
      rw [hviews, hview, hname]
      rfl

/-- What `loadDatabase` accepts is a snapshot file, and what it loads is what the file builds. -/
theorem loadDatabase_inv {disk : Disk} {name contents : Str} {database : Database}
    (hread : disk.read (pathFor name) = some contents)
    (h : loadDatabase platform disk name = .ok database) :
    ∃ file rest, SnapshotFile.read contents = .ok (file, rest) ∧ database.Sound ∧
      (file.tables.Pairwise fun a b => a.name ≠ b.name) ∧ database.view = file.view platform := by
  rw [loadDatabase, hread] at h
  obtain ⟨⟨loaded, rest⟩, h, heq⟩ := bind_eq_ok_iff.1 h
  cases heq
  obtain ⟨found, _, hfound, h⟩ := bind_apply_eq_ok_iff.1 h
  -- the two checks of the header are passed, as the load succeeded
  by_cases hmagic : found ≠ magic
  · rw [if_pos hmagic] at h
    cases h
  rw [if_neg hmagic] at h
  obtain ⟨foundVersion, _, hfoundVersion, h⟩ := bind_apply_eq_ok_iff.1 h
  by_cases hversion : foundVersion ≠ version
  · rw [if_pos hversion] at h
    cases h
  rw [if_neg hversion] at h
  obtain ⟨databaseName, _, hname, h⟩ := bind_apply_eq_ok_iff.1 h
  obtain ⟨made, _, hmade, h⟩ := bind_apply_eq_ok_iff.1 h
  obtain ⟨count, _, hcount, h⟩ := bind_apply_eq_ok_iff.1 h
  obtain ⟨hmake, hsame⟩ := lift_eq_ok hmade
  obtain ⟨hsound, hmadeView, -⟩ := Database.sound_make hmake
  obtain ⟨tables, htables, hlast, hnames, -, hview⟩ := readTables_inv hsound h
  subst hsame
  refine ⟨⟨databaseName, tables⟩, rest, ?_, hlast, hnames, ?_⟩
  · refine bind_apply_eq_ok_iff.2 ⟨found, _, hfound, ?_⟩
    rw [if_neg hmagic]
    refine bind_apply_eq_ok_iff.2 ⟨foundVersion, _, hfoundVersion, ?_⟩
    rw [if_neg hversion]
    exact bind_apply_eq_ok_iff.2 ⟨databaseName, _, hname, bind_apply_eq_ok_iff.2 ⟨count, _, hcount,
      bind_apply_eq_ok_iff.2 ⟨tables, _, htables, rfl⟩⟩⟩
  · have hmadeName : made.name = databaseName := congrArg DatabaseView.name hmadeView
    have hempty : made.view.tables = .empty := congrArg DatabaseView.tables hmadeView
    rw [hview, hmadeName, hempty]
    rfl

/-- The tables that a file builds are those of the file. -/
theorem find?_view_iff {file : SnapshotFile}
    (hnames : file.tables.Pairwise fun a b => a.name ≠ b.name)
    {key : Str} {found : TableView} : (file.view platform).tables.find? key = some found ↔
      ∃ table ∈ file.tables, table.name = key ∧ table.view platform = found := by
  have hfold : (file.view platform).tables =
      (file.tables.map fun table => (table.name, table.view platform)).foldl
        (fun tables entry => tables.insert entry.1 entry.2) .empty := by
    rw [List.foldl_map]
    rfl
  rw [hfold, SortedMap.find?_foldl_insert _ (List.pairwise_map.2 hnames)]
  simp

/-! ### Index definitions -/

theorem createIndex_cases (view : TableView) (name column : Str) :
    (columnIndex view.schema column).isSome = true ∧ view.indexes.find? name = none ∧
        (view.createIndex name column).2 =
          { view with indexes := view.indexes.insert name column } ∨
      ((columnIndex view.schema column).isSome = false ∨ (view.indexes.find? name).isSome = true) ∧
        (view.createIndex name column).2 = view := by
  unfold TableView.createIndex
  split_ifs with h
  · exact .inl ⟨h.1, SortedMap.contains_eq_false_iff.1 h.2, rfl⟩
  · refine .inr ⟨?_, rfl⟩
    by_cases hcolumn : (columnIndex view.schema column).isSome = true
    · refine .inr (Option.isSome_iff_ne_none.2 fun hnone => h ⟨hcolumn, ?_⟩)
      exact SortedMap.contains_eq_false_iff.2 hnone
    · exact .inl (by simpa using hcolumn)

theorem schema_createIndexes (view : TableView) (definitions : List (Str × Str)) :
    (view.createIndexes definitions).schema = view.schema ∧
      (view.createIndexes definitions).rows = view.rows := by
  induction definitions generalizing view with
  | nil => exact ⟨rfl, rfl⟩
  | cons definition definitions ih =>
    have hcons : view.createIndexes (definition :: definitions) =
        (view.createIndex definition.1 definition.2).2.createIndexes definitions := rfl
    obtain ⟨hschema, hrows⟩ := ih (view.createIndex definition.1 definition.2).2
    rw [hcons, hschema, hrows]
    rcases createIndex_cases view definition.1 definition.2 with ⟨-, -, heq⟩ | ⟨-, heq⟩
    · rw [heq]
      exact ⟨rfl, rfl⟩
    · rw [heq]
      exact ⟨rfl, rfl⟩

/-- The first definition of a name on an existing column defines the index. -/
theorem find?_createIndexes (view : TableView) (definitions : List (Str × Str)) (name : Str) :
    (view.createIndexes definitions).indexes.find? name =
      (view.indexes.find? name).or ((definitions.find? fun definition =>
        definition.1 = name ∧ (columnIndex view.schema definition.2).isSome).map Prod.snd) := by
  induction definitions generalizing view with
  | nil => simp [TableView.createIndexes]
  | cons definition definitions ih =>
    have hcons : view.createIndexes (definition :: definitions) =
        (view.createIndex definition.1 definition.2).2.createIndexes definitions := rfl
    rw [hcons, ih, List.find?_cons]
    rcases createIndex_cases view definition.1 definition.2 with
      ⟨hcolumn, hfree, heq⟩ | ⟨hor, heq⟩
    · rw [heq]
      simp only [SortedMap.find?_insert]
      by_cases hname : name = definition.1
      · subst hname
        simp [hcolumn, hfree]
      · simp [hname, Ne.symm hname]
    · rw [heq]
      by_cases hname : definition.1 = name
      · subst hname
        rcases hor with hcolumn | hused
        · simp [hcolumn]
        · obtain ⟨column, hfind⟩ := Option.isSome_iff_exists.1 hused
          simp [hfind]
      · simp [hname]

theorem isSome_columnIndex_schema (table : FileTable) (column : Str) :
    (columnIndex table.schema column).isSome = table.columns.any (·.name = column) := by
  rw [columnIndex, List.findIdx?_isSome, FileTable.schema, List.any_map]
  rfl

/-- The indexes of the table that is built. -/
theorem find?_indexes_view (table : FileTable) (name : Str) :
    (table.view platform).indexes.find? name = table.indexColumn platform name := by
  rw [FileTable.view, find?_createIndexes, FileTable.indexColumn]
  simp only [isSome_columnIndex_schema]
  rfl

/-! ### Sizes -/

theorem spans_readString : Reading.Spans (fun value => (writeString value).length) readString := by
  intro text value rest h
  obtain ⟨size, _, hsize, h⟩ := bind_apply_eq_ok_iff.1 h
  have hfield := spans_readLe _ 8 _ _ _ hsize
  have hbytes := spans_length_readBytes _ size _ _ _ h
  simp only [writeString, List.length_append, length_leBytes] at hfield hbytes ⊢
  omega

theorem spans_readValue : Reading.Spans (fun value => (writeValue value).length) readValue := by
  intro text value rest h
  obtain ⟨encodedType, _, htype, h⟩ := bind_apply_eq_ok_iff.1 h
  have htag := spans_readLe _ 1 _ _ _ htype
  by_cases hnull : encodedType = nullValueType
  · rw [if_pos hnull] at h
    cases h
    simpa [writeValue] using htag
  rw [if_neg hnull] at h
  cases htyped : ColumnType.ofCode encodedType with
  | int =>
    rw [htyped] at h
    obtain ⟨bits, _, hbits, h⟩ := bind_apply_eq_ok_iff.1 h
    cases h
    have hfield := spans_readLe _ 8 _ _ _ hbits
    simp only [writeValue, List.length_append, length_leBytes] at htag hfield ⊢
    omega
  | double =>
    rw [htyped] at h
    obtain ⟨bits, _, hbits, h⟩ := bind_apply_eq_ok_iff.1 h
    cases h
    have hfield := spans_readLe _ 8 _ _ _ hbits
    simp only [writeValue, List.length_append, length_leBytes] at htag hfield ⊢
    omega
  | string =>
    rw [htyped] at h
    obtain ⟨contents, _, hcontents, h⟩ := bind_apply_eq_ok_iff.1 h
    cases h
    have hfield := spans_readString _ _ _ hcontents
    simp only [writeValue, List.length_append, length_leBytes] at htag hfield ⊢
    omega
  | unknown raw =>
    rw [htyped] at h
    cases h

theorem spans_readColumn :
    Reading.Spans (fun column => (writeColumn column.column).length) FileColumn.read := by
  intro text column rest h
  obtain ⟨name, _, hname, h⟩ := bind_apply_eq_ok_iff.1 h
  obtain ⟨type, _, htype, h⟩ := bind_apply_eq_ok_iff.1 h
  obtain ⟨nullable, _, hnullable, h⟩ := bind_apply_eq_ok_iff.1 h
  cases h
  have h1 := spans_readString _ _ _ hname
  have h2 := spans_readLe _ 1 _ _ _ htype
  have h3 := spans_readLe _ 1 _ _ _ hnullable
  simp only [FileColumn.column, writeColumn, List.length_append, length_leBytes] at h1 h2 h3 ⊢
  omega

theorem spans_readDefinition :
    Reading.Spans (fun definition => (writeIndex definition).length) readDefinition := by
  intro text definition rest h
  obtain ⟨first, _, hfirst, h⟩ := bind_apply_eq_ok_iff.1 h
  obtain ⟨second, _, hsecond, h⟩ := bind_apply_eq_ok_iff.1 h
  cases h
  have h1 := spans_readString _ _ _ hfirst
  have h2 := spans_readString _ _ _ hsecond
  simp only [writeIndex, List.length_append] at h1 h2 ⊢
  omega

theorem spans_readRow (count : ℕ) :
    Reading.Spans (fun row => (writeRow row).length) (readList count readValue) := by
  have h := spans_readList spans_readValue count
  simp only [writeRow, List.length_flatMap]
  exact h

/-- The number of bytes of a table. -/
def FileTable.size (table : FileTable) : ℕ :=
  (writeString table.name).length +
    (8 + ((table.columns.map fun column => (writeColumn column.column).length).sum +
    (8 + ((table.definitions.map fun definition => (writeIndex definition).length).sum +
    (8 + (table.rows.map fun row => (writeRow row).length).sum)))))

/-- The number of bytes of a snapshot. -/
def SnapshotFile.size (file : SnapshotFile) : ℕ :=
  magic.length + (4 + ((writeString file.name).length + (8 + (file.tables.map FileTable.size).sum)))

theorem spans_readFileTable : Reading.Spans FileTable.size FileTable.read := by
  intro text table rest h
  obtain ⟨name, _, hname, h⟩ := bind_apply_eq_ok_iff.1 h
  obtain ⟨columnCount, _, hcount, h⟩ := bind_apply_eq_ok_iff.1 h
  obtain ⟨columns, _, hcolumns, h⟩ := bind_apply_eq_ok_iff.1 h
  obtain ⟨indexCount, _, hindexCount, h⟩ := bind_apply_eq_ok_iff.1 h
  obtain ⟨definitions, _, hdefinitions, h⟩ := bind_apply_eq_ok_iff.1 h
  obtain ⟨rowCount, _, hrowCount, h⟩ := bind_apply_eq_ok_iff.1 h
  obtain ⟨rows, _, hrows, h⟩ := bind_apply_eq_ok_iff.1 h
  cases h
  have h1 := spans_readString _ _ _ hname
  have h2 := spans_readLe _ 8 _ _ _ hcount
  have h3 := spans_readList spans_readColumn _ _ _ _ hcolumns
  have h4 := spans_readLe _ 8 _ _ _ hindexCount
  have h5 := spans_readList spans_readDefinition _ _ _ _ hdefinitions
  have h6 := spans_readLe _ 8 _ _ _ hrowCount
  have h7 := spans_readList (spans_readRow _) _ _ _ _ hrows
  simp only [FileTable.size] at h1 h2 h3 h4 h5 h6 h7 ⊢
  omega

theorem spans_readFile : Reading.Spans SnapshotFile.size SnapshotFile.read := by
  intro text file rest h
  obtain ⟨found, _, hfound, h⟩ := bind_apply_eq_ok_iff.1 h
  by_cases hmagic : found ≠ magic
  · rw [if_pos hmagic] at h
    cases h
  rw [if_neg hmagic] at h
  obtain ⟨foundVersion, _, hversion, h⟩ := bind_apply_eq_ok_iff.1 h
  by_cases hcurrent : foundVersion ≠ version
  · rw [if_pos hcurrent] at h
    cases h
  rw [if_neg hcurrent] at h
  obtain ⟨name, _, hname, h⟩ := bind_apply_eq_ok_iff.1 h
  obtain ⟨count, _, hcount, h⟩ := bind_apply_eq_ok_iff.1 h
  obtain ⟨tables, _, htables, h⟩ := bind_apply_eq_ok_iff.1 h
  cases h
  have h1 := spans_readBytes _ _ _ _ _ hfound
  have h2 := spans_readLe _ 4 _ _ _ hversion
  have h3 := spans_readString _ _ _ hname
  have h4 := spans_readLe _ 8 _ _ _ hcount
  have h5 := spans_readList spans_readFileTable _ _ _ _ htables
  simp only [SnapshotFile.size] at h1 h2 h3 h4 h5 ⊢
  omega

/-- The table with that name and view as it is written. -/
def writeView (name : Str) (view : TableView) : Str :=
  writeString name ++
    (leBytes 8 view.schema.length ++ (view.schema.flatMap writeColumn ++
    (leBytes 8 view.indexes.entries.length ++ (view.indexes.entries.flatMap writeIndex ++
    (leBytes 8 view.rows.length ++ view.rows.flatMap writeRow)))))

theorem length_writeIndex_readBack (definition : Str × Str) :
    (writeIndex (readBack platform definition)).length = (writeIndex definition).length := by
  unfold readBack
  split_ifs
  · rfl
  · simp only [writeIndex, List.length_append, Prod.fst_swap, Prod.snd_swap]
    omega

theorem nodup_entries {α : Type} (m : SortedMap Str α) : m.entries.Nodup :=
  m.sorted.imp fun h heq => h.ne (congrArg Prod.fst heq)

/-- A table takes no more room than in the file that it comes from. -/
theorem length_writeView_le (table : FileTable) :
    (writeView table.name (table.view platform)).length ≤ table.size := by
  have hdefinitions : (table.view platform).indexes.entries ⊆ table.definitionsRead platform := by
    rintro ⟨name, column⟩ hentry
    rcases mem_of_find?_createIndexes (SortedMap.mem_entries_iff.1 hentry) with hnone | hmem
    · cases hnone
    · exact hmem
  have hindexes := length_flatMap_le_of_subset writeIndex (nodup_entries _) hdefinitions
  obtain ⟨hschema, hrows⟩ :=
    schema_createIndexes ⟨table.schema, table.rows, .empty⟩ (table.definitionsRead platform)
  simp only [FileTable.definitionsRead, List.length_flatMap, List.map_map, Function.comp_def,
    length_writeIndex_readBack] at hindexes
  simp only [writeView, List.length_append, length_leBytes, List.length_flatMap, FileTable.size]
  rw [show (table.view platform).schema = table.schema from hschema,
    show (table.view platform).rows = table.rows from hrows, FileTable.schema, List.map_map]
  simp only [Function.comp_def]
  omega

/-- A loaded database takes no more room than the file that it comes from. -/
theorem length_encodeDatabase_le {file : SnapshotFile} {database : Database}
    (hsound : database.Sound) (hnames : file.tables.Pairwise fun a b => a.name ≠ b.name)
    (hview : database.view = file.view platform) :
    (encodeDatabase database).length ≤ file.size := by
  have hwrite : ∀ entry ∈ database.tables.entries,
      writeTable entry.2 = writeView entry.1 entry.2.view := by
    intro entry hentry
    obtain ⟨hname, -⟩ := hsound.tables entry.1 entry.2 (SortedMap.mem_entries_iff.1 hentry)
    rw [← hname]
    rfl
  have htables : database.tables.values.flatMap writeTable =
      (file.view platform).tables.entries.flatMap fun entry => writeView entry.1 entry.2 := by
    rw [← hview]
    simp only [SortedMap.values, Database.view, SortedMap.mapValues, List.flatMap_map]
    exact List.flatMap_congr hwrite
  have hsubset : (file.view platform).tables.entries ⊆
      file.tables.map fun table => (table.name, table.view platform) := by
    rintro ⟨key, found⟩ hentry
    obtain ⟨table, hmem, rfl, rfl⟩ := (find?_view_iff hnames).1 (SortedMap.mem_entries_iff.1 hentry)
    exact List.mem_map_of_mem hmem
  have hlength := length_flatMap_le_of_subset (fun entry : Str × TableView =>
    writeView entry.1 entry.2) (nodup_entries _) hsubset
  have hsum : (file.tables.map fun table =>
      (writeView table.name (table.view platform)).length).sum ≤
        (file.tables.map FileTable.size).sum :=
    List.sum_le_sum fun table _ => length_writeView_le table
  have hname : database.name = file.name := congrArg DatabaseView.name hview
  simp only [List.flatMap_map, List.length_flatMap] at hlength
  simp only [encodeDatabase, List.length_append, length_leBytes, htables, SnapshotFile.size, hname,
    List.length_flatMap]
  omega

/-! ### Databases accepted from disk -/

/-- What the rest of the engine assumes of a database. -/
structure WellFormed (database : Database) : Prop where
  names : (database.tables.values.map Table.name).Nodup
  name_ne : ∀ table ∈ database.tables.values, table.name ≠ []
  schema_ne : ∀ table ∈ database.tables.values, table.schema ≠ []
  types : ∀ table ∈ database.tables.values, ∀ column ∈ table.schema,
    column.type = .int ∨ column.type = .double ∨ column.type = .string
  indexes : ∀ table ∈ database.tables.values, ∀ definition ∈ table.indexDefinitions,
    ∃ column ∈ table.schema, column.name = definition.2

/-- Saving the database and loading it again gives the same database. -/
def Restored (platform : Platform) (database : Database) : Prop :=
  ∀ storage, ∃ storage', saveDatabase none database storage = (.ok (), storage') ∧
    ∃ copy, loadDatabase platform storage'.disk database.name = .ok copy ∧
      copy.view = database.view ∧ database.SameLookups copy

theorem restored_iff {database : Database} (hsound : database.Sound)
    (hsize : (encodeDatabase database).length < Disk.maxFileSize) :
    Restored platform database ↔ IndexesSurvive platform database.view := by
  have hlen : (encodeDatabase database).length < 2 ^ 64 := lt_trans hsize (by decide)
  constructor
  · intro h
    obtain ⟨storage', hsave, copy, hload, hview, -⟩ := h ⟨.empty, none, []⟩
    obtain ⟨-, -, -, hread, -⟩ := saveDatabase_ok hsave
    rw [← List.append_nil (encodeDatabase database)] at hread
    obtain ⟨copy', hload', -, hview'⟩ := loadDatabase_encode hsound hlen hread
    rw [hload] at hload'
    cases hload'
    exact (readBackView_eq_iff hsound).1 (hview'.symm.trans hview)
  · intro h storage
    have hroom : ¬ room none < (encodeDatabase database).length :=
      not_lt.2 (Nat.le_sub_one_of_lt hsize)
    have hsave := saveDatabase_eq none database storage
    rw [if_neg nofun, if_neg hroom] at hsave
    refine ⟨_, hsave, ?_⟩
    obtain ⟨-, -, -, hread, -⟩ := saveDatabase_ok hsave
    rw [← List.append_nil (encodeDatabase database)] at hread
    obtain ⟨copy, hload, hcopy, hview⟩ := loadDatabase_encode hsound hlen hread
    rw [(readBackView_eq_iff hsound).2 h] at hview
    exact ⟨copy, hload, hview, hsound.sameLookups hcopy hview.symm⟩

theorem mem_values_iff {database : Database} {table : Table} :
    table ∈ database.tables.values ↔ ∃ key, database.tables.find? key = some table := by
  constructor
  · intro h
    obtain ⟨⟨key, _⟩, hmem, rfl⟩ := List.mem_map.1 h
    exact ⟨key, SortedMap.mem_entries_iff.1 hmem⟩
  · rintro ⟨key, h⟩
    exact List.mem_map.2 ⟨(key, table), SortedMap.mem_entries_iff.2 h, rfl⟩

/-- A sound database is well formed if its column types are. -/
theorem wellFormed_iff {database : Database} (hsound : database.Sound) :
    WellFormed database ↔ ∀ table ∈ database.tables.values, ∀ column ∈ table.schema,
      column.type = .int ∨ column.type = .double ∨ column.type = .string := by
  refine ⟨WellFormed.types, fun htypes => ?_⟩
  have hnames : database.tables.values.map Table.name = database.tables.keys := by
    rw [SortedMap.values, SortedMap.keys, List.map_map]
    refine List.map_congr_left fun entry hentry => ?_
    exact (hsound.tables entry.1 entry.2 (SortedMap.mem_entries_iff.1 hentry)).1
  have hreached : ∀ table ∈ database.tables.values, table.Reached := by
    intro table hmem
    obtain ⟨key, hfind⟩ := mem_values_iff.1 hmem
    exact (hsound.tables key table hfind).2
  refine ⟨?_, ?_, ?_, htypes, ?_⟩
  · rw [hnames]
    exact database.tables.sorted_keys.imp fun h => h.ne
  · exact fun table hmem => (hreached table hmem).holds.name_ne
  · exact fun table hmem => (hreached table hmem).holds.schema_ne
  · intro table hmem definition hdefinition
    have hsome := (hreached table hmem).isSome_columnIndex hdefinition
    rw [columnIndex, List.findIdx?_isSome, List.any_eq_true] at hsome
    obtain ⟨column, hcolumn, hname⟩ := hsome
    exact ⟨column, hcolumn, by simpa using hname⟩

theorem ofCode_known_iff (b : Byte) : (ColumnType.ofCode b.val = .int ∨
    ColumnType.ofCode b.val = .double ∨ ColumnType.ofCode b.val = .string) ↔ b.val < 3 := by
  obtain ⟨n, hn⟩ := b
  simp only [ColumnType.ofCode, Nat.mod_eq_of_lt hn]
  rcases n with _ | _ | _ | n
  · simp
  · simp
  · simp
  · simp

/-- The types of a loaded database come from the bytes of the file. -/
theorem types_iff {file : SnapshotFile} {database : Database}
    (hnames : file.tables.Pairwise fun a b => a.name ≠ b.name)
    (hview : database.view = file.view platform) :
    (∀ table ∈ database.tables.values, ∀ column ∈ table.schema,
      column.type = .int ∨ column.type = .double ∨ column.type = .string) ↔
      ∀ table ∈ file.tables, ∀ column ∈ table.columns, column.type.val < 3 := by
  have hschema (table : FileTable) : (table.view platform).schema = table.schema :=
    (schema_createIndexes ⟨table.schema, table.rows, .empty⟩ (table.definitionsRead platform)).1
  constructor
  · intro h found hfound column hcolumn
    have hfind : database.view.tables.find? found.name = some (found.view platform) := by
      rw [hview]
      exact (find?_view_iff hnames).2 ⟨found, hfound, rfl, rfl⟩
    rw [Database.find?_view] at hfind
    obtain ⟨table, htable, heq⟩ := Option.map_eq_some_iff.1 hfind
    have hsame : table.schema = found.schema := by
      rw [← hschema found, ← heq]
      rfl
    refine (ofCode_known_iff column.type).1
      (h table (mem_values_iff.2 ⟨_, htable⟩) column.column ?_)
    rw [hsame]
    exact List.mem_map_of_mem hcolumn
  · intro h table htable column hcolumn
    obtain ⟨key, hfind⟩ := mem_values_iff.1 htable
    have hfindView : database.view.tables.find? key = some table.view := by
      rw [Database.find?_view, Database.table, hfind]
      rfl
    rw [hview] at hfindView
    obtain ⟨found, hfound, -, heq⟩ := (find?_view_iff hnames).1 hfindView
    have hsame : table.schema = found.schema := by
      rw [← hschema found, heq]
      rfl
    rw [hsame] at hcolumn
    obtain ⟨laid, hlaid, rfl⟩ := List.mem_map.1 hcolumn
    exact (ofCode_known_iff laid.type).2 (h found hfound laid hlaid)

/-- The index definitions of a loaded database are those of the file. -/
theorem indexesSurvive_iff {file : SnapshotFile} {database : Database}
    (hnames : file.tables.Pairwise fun a b => a.name ≠ b.name)
    (hview : database.view = file.view platform) :
    IndexesSurvive platform database.view ↔
      platform.leftToRight = true ∨ ∀ table ∈ file.tables, ∀ name column,
        table.indexColumn platform name = some column →
          table.indexColumn platform column = some name := by
  rw [IndexesSurvive, SwapClosed, hview]
  refine or_congr_right ⟨fun h table htable name column hcolumn => ?_, ?_⟩
  · have hfind := (find?_view_iff hnames).2 ⟨table, htable, rfl, Eq.refl (table.view platform)⟩
    have hback := h table.name _ hfind name column (by rw [find?_indexes_view, hcolumn])
    rwa [find?_indexes_view] at hback
  · intro h key found hfind name column hcolumn
    obtain ⟨table, htable, rfl, rfl⟩ := (find?_view_iff hnames).1 hfind
    rw [find?_indexes_view] at hcolumn ⊢
    exact h table htable name column hcolumn

/-- **A database accepted from disk is well formed and comes back from a save exactly when its
file is regular.** -/
theorem wellFormed_iff_regular {disk : Disk} {name contents : Str} {database : Database}
    (hread : disk.read (pathFor name) = some contents) (hsize : contents.length < Disk.maxFileSize)
    (hload : loadDatabase platform disk name = .ok database) :
    ∃ file rest, SnapshotFile.read contents = .ok (file, rest) ∧
      (WellFormed database ∧ Restored platform database ↔ file.Regular platform) := by
  obtain ⟨file, rest, hfile, hsound, hnames, hview⟩ := loadDatabase_inv hread hload
  refine ⟨file, rest, hfile, ?_⟩
  have hroom : (encodeDatabase database).length < Disk.maxFileSize := by
    have hsmaller := length_encodeDatabase_le hsound hnames hview
    have hspan := spans_readFile _ _ _ hfile
    omega
  rw [wellFormed_iff hsound, restored_iff hsound hroom, types_iff hnames hview,
    indexesSurvive_iff hnames hview]
  exact ⟨fun h => ⟨h.1, h.2⟩, fun h => ⟨h.types, h.indexes⟩⟩

/-- A snapshot with one table of one column, which has the given byte for its type. -/
def oneColumn (type : Byte) : Str :=
  magic ++ leBytes 4 version ++ writeString (bytes "d") ++ leBytes 8 1 ++ writeString (bytes "t") ++
    leBytes 8 1 ++ writeString (bytes "a") ++ [type, 0] ++ leBytes 8 0 ++ leBytes 8 0

/-- The disk with that snapshot. -/
def oneColumnDisk (type : Byte) : Disk := Disk.empty.write (pathFor (bytes "d")) (oneColumn type)

theorem wellFormed_iff_regular_oneColumn : ∃ database file rest,
    loadDatabase (.byInsertion true) (oneColumnDisk 0) (bytes "d") = .ok database ∧
      SnapshotFile.read (oneColumn 0) = .ok (file, rest) ∧
      (WellFormed database ∧ Restored (.byInsertion true) database ↔
        file.Regular (.byInsertion true)) := by
  obtain ⟨database, hload⟩ : ∃ database,
      loadDatabase (.byInsertion true) (oneColumnDisk 0) (bytes "d") = .ok database := ⟨_, rfl⟩
  have hread : (oneColumnDisk 0).read (pathFor (bytes "d")) = some (oneColumn 0) := rfl
  obtain ⟨file, rest, hfile, hiff⟩ := wellFormed_iff_regular hread (by decide) hload
  exact ⟨database, file, rest, hload, hfile, hiff⟩

/-- The byte 7 is accepted as the type of a column. -/
theorem not_wellFormed_oneColumn : ∃ database,
    loadDatabase (.byInsertion true) (oneColumnDisk 7) (bytes "d") = .ok database ∧
      ¬ WellFormed database := by
  obtain ⟨database, hload⟩ : ∃ database,
      loadDatabase (.byInsertion true) (oneColumnDisk 7) (bytes "d") = .ok database := ⟨_, rfl⟩
  refine ⟨database, hload, fun h => ?_⟩
  have hread : (oneColumnDisk 7).read (pathFor (bytes "d")) = some (oneColumn 7) := rfl
  obtain ⟨file, rest, hfile, hsound, hnames, hview⟩ := loadDatabase_inv hread hload
  have hlaid : SnapshotFile.read (oneColumn 7) =
      .ok (⟨bytes "d", [⟨bytes "t", [⟨bytes "a", 7, false⟩], [], []⟩]⟩, []) := rfl
  rw [hlaid] at hfile
  cases hfile
  have htypes := (types_iff hnames hview).1 ((wellFormed_iff hsound).1 h)
  have hseven := htypes _ List.mem_cons_self _ List.mem_cons_self
  revert hseven
  decide

end StorageManager

end VertexDB
