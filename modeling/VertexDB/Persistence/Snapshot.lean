import VertexDB.Persistence.LogFile
import VertexDB.Persistence.StorageManager
import VertexDB.Storage.DatabaseView

/-!
# Snapshots read back

Whatever a snapshot file contains, a database read from it is sound.  What is read from the
snapshot of a sound database is that database again, seen through its view, provided that the two
strings of an index definition come back in the order in which they were written: the platform
evaluates arguments from left to right, or swapping the two strings of every definition gives the
same definitions.
-/

namespace VertexDB

open Ascii ByteCodec Reading Failure

/-- The size of a string fits the field of 64 bits that it is written in. -/
def Value.Sized : Value → Prop
  | .string text => text.length < 2 ^ 64
  | _ => True

namespace Database

variable {database database' : Database}

theorem sound_createNewTable (h : database.Sound) {name : Str} {schema : List Column}
    {message : String} (hok : database.createNewTable name schema message = .ok database') :
    database'.Sound := by
  obtain ⟨⟨created, mid⟩, hcreate, hok⟩ := bind_eq_ok_iff.1 hok
  have hspec := view_createTable h name schema
  rw [hcreate] at hspec
  cases created with
  | false => cases hok
  | true => cases hok; exact hspec.1

theorem sound_fillTable (h : database.Sound) {name : Str} {rows : List Row}
    {definitions : List (Str × Str)}
    (hok : database.fillTable name rows definitions = .ok database') :
    database'.Sound := by
  unfold fillTable at hok
  cases hf : database.table name with
  | none => rw [hf] at hok; cases hok; exact h
  | some table =>
    rw [hf] at hok
    obtain ⟨filled, hfilled, hok⟩ := bind_eq_ok_iff.1 hok
    cases hok
    obtain ⟨hname, hreached⟩ := h.tables name table hf
    obtain ⟨h1, h2, -⟩ := hreached.view_replaceRows hfilled
    obtain ⟨h3, h4, -⟩ := view_createIndexes h1 definitions
    have hkey : (createIndexes filled definitions).name = name := h4.trans (h2.trans hname)
    rw [← hkey]
    exact h.insert h3

end Database

namespace StorageManager

variable {platform : Platform}

/-! ### What is read is sound -/

theorem ensures_any {α : Type} (r : Reader Exception α) :
    Ensures (fun _ => True) r fun _ => True := fun _ _ _ _ _ => ⟨trivial, trivial⟩

theorem ensures_sound_readTable {database : Database} (h : database.Sound) :
    Ensures (fun _ => True) (readTable platform database) Database.Sound := by
  refine (ensures_any _).bind fun _ _ => (ensures_any _).bind fun _ _ =>
    (ensures_any _).bind fun _ _ => ?_
  refine (ensures_lift fun _ hok => Database.sound_createNewTable h hok).bind fun mid hmid => ?_
  refine (ensures_any _).bind fun _ _ => (ensures_any _).bind fun _ _ =>
    (ensures_any _).bind fun _ _ =>
    (ensures_any _).bind fun _ _ => ?_
  exact ensures_lift fun _ hok => Database.sound_fillTable hmid hok

theorem ensures_sound_readTables (count : ℕ) {database : Database} (h : database.Sound) :
    Ensures (fun _ => True) (readTables platform count database) Database.Sound := by
  induction count generalizing database with
  | zero => exact ensures_pure h
  | succ count ih => exact (ensures_sound_readTable h).bind fun _ hmid => ih hmid

theorem ensures_sound_readDatabase :
    Ensures (fun _ => True) (readDatabase platform) Database.Sound := by
  refine (ensures_any _).bind fun _ _ => ensures_ite
    (fun _ => (ensures_throw _).bind fun _ (h : False) => h.elim) fun _ => ?_
  refine (ensures_any _).bind fun _ _ => ensures_ite
    (fun _ => (ensures_throw _).bind fun _ (h : False) => h.elim) fun _ => ?_
  refine (ensures_any _).bind fun _ _ => ?_
  refine (ensures_lift fun _ hok => (Database.sound_make hok).1).bind fun _ hmade => ?_
  exact (ensures_any _).bind fun _ _ => ensures_sound_readTables _ hmade

theorem sound_loadDatabase {disk : Disk} {name : Str} {database : Database}
    (h : loadDatabase platform disk name = .ok database) : database.Sound := by
  unfold loadDatabase at h
  cases hread : disk.read (pathFor name) with
  | none => rw [hread] at h; cases h
  | some contents =>
    rw [hread] at h
    obtain ⟨⟨found, rest⟩, hfound, h⟩ := bind_eq_ok_iff.1 h
    cases h
    exact (ensures_sound_readDatabase _ _ _ trivial hfound).1

theorem sound_loadFirstDatabase {disk : Disk} {database : Database}
    (h : loadFirstDatabase platform disk = .ok database) : database.Sound := by
  unfold loadFirstDatabase at h
  split at h
  · cases h
  · split at h
    · exact sound_loadDatabase h
    · cases h

/-! ### Reading back what was written -/

theorem reads_readPod {width n : ℕ} (h : n < 256 ^ width) :
    Reads (readPod width) n (leBytes width n) := reads_readLe _ h

theorem reads_readString_of_lt {value : Str} (h : value.length < 2 ^ 64) :
    Reads readString value (writeString value) :=
  (reads_readPod h).bind (reads_readBytes _ value)

theorem reads_readString {value : Str} (h : (writeString value).length < 2 ^ 64) :
    Reads readString value (writeString value) := by
  refine reads_readString_of_lt ?_
  rw [writeString, List.length_append] at h
  omega

theorem reads_readValue_of_sized {value : Value} (h : value.Sized) :
    Reads readValue value (writeValue value) := by
  cases value with
  | null =>
    refine (reads_readPod (by decide)).bind_nil ?_
    exact reads_pure Value.null
  | int i =>
    refine (reads_readPod (by decide)).bind ?_
    refine (reads_readPod i.toBits_lt).bind_nil ?_
    rw [I64.ofBits_toBits]
    exact reads_pure _
  | double d =>
    refine (reads_readPod (by decide)).bind ?_
    refine (reads_readPod d.bits.isLt).bind_nil ?_
    rw [Fin.ofNat_val_eq_self]
    exact reads_pure _
  | string text =>
    refine (reads_readPod (by decide)).bind ?_
    exact (reads_readString_of_lt h).bind_nil (reads_pure _)

theorem reads_readValue {value : Value} (h : (writeValue value).length < 2 ^ 64) :
    Reads readValue value (writeValue value) := by
  refine reads_readValue_of_sized ?_
  cases value with
  | string text =>
    simp only [writeValue, writeString, List.length_append] at h
    change text.length < 2 ^ 64
    omega
  | null | int | double => trivial

theorem reads_readColumn {column : Column} (h : (writeColumn column).length < 2 ^ 64) :
    Reads readColumn column (writeColumn column) := by
  rw [writeColumn, List.length_append] at h
  refine (reads_readString (by omega)).bind ?_
  refine (reads_readPod column.type.code_lt).bind ?_
  refine (reads_readPod (by split_ifs <;> decide)).bind_nil ?_
  rw [ColumnType.ofCode_code]
  obtain ⟨name, type, nullable⟩ := column
  cases nullable <;> exact reads_pure _

/-- An index definition as it comes back. -/
def readBack (platform : Platform) (definition : Str × Str) : Str × Str :=
  if platform.leftToRight then definition else definition.swap

theorem reads_readIndex {definition : Str × Str} (h : (writeIndex definition).length < 2 ^ 64) :
    Reads (readIndex platform) (readBack platform definition) (writeIndex definition) := by
  rw [writeIndex, List.length_append] at h
  refine (reads_readString (by omega)).bind ?_
  refine (reads_readString (by omega)).bind_nil ?_
  exact reads_pure _

/-- Elements that come back as they are. -/
theorem reads_readList_same {α : Type} {r : Reader Exception α} {enc : α → Str} {xs : List α}
    (h : ∀ x ∈ xs, Reads r x (enc x)) : Reads (readList xs.length r) xs (xs.flatMap enc) := by
  have hid : ∀ x ∈ xs, Reads r (id x) (enc x) := h
  have := reads_readList hid
  rwa [List.map_id] at this

theorem reads_readRow {row : Row} (h : (writeRow row).length < 2 ^ 64) :
    Reads (readList row.length readValue) row (writeRow row) :=
  reads_readList_same fun _ hmem =>
    reads_readValue (lt_of_le_of_lt (length_le_flatMap_of_mem writeValue hmem) h)

theorem reads_lift {α : Type} {r : Except Exception α} {x : α} (h : r = .ok x) :
    Reads (liftM r : Reader Exception α) x [] := by
  subst h; exact fun _ => rfl

theorem length_writeValue_pos (value : Value) : 0 < (writeValue value).length := by
  cases value <;> simp [writeValue, leBytes]

theorem length_writeRow_pos {row : Row} (h : row ≠ []) : 0 < (writeRow row).length := by
  have := length_le_length_flatMap writeValue row fun value _ => length_writeValue_pos value
  have hpos := List.length_pos_iff.2 h
  exact lt_of_lt_of_le hpos this

theorem length_of_validateRow {schema : List Column} {row : Row}
    (h : validateRow schema row = .ok ()) : row.length = schema.length := by
  unfold validateRow at h
  split_ifs at h with hlen
  exact not_not.1 hlen

/-- A table is read back into a database. -/
theorem reads_readTable {table : Table} (hreached : table.Reached)
    (h : (writeTable table).length < 2 ^ 64) {copy mid copy' : Database}
    (hmid : copy.createNewTable table.name table.schema "duplicate table in database file" =
      .ok mid)
    (hfill : mid.fillTable table.name table.rowsSnapshot
      (table.indexDefinitions.map (readBack platform)) = .ok copy') :
    Reads (readTable platform copy) copy' (writeTable table) := by
  simp only [writeTable, List.length_append, length_leBytes] at h
  have hwidth : ∀ row ∈ table.rowsSnapshot, row.length = table.schema.length := fun row hmem =>
    length_of_validateRow (hreached.fits row hmem)
  -- every entry takes a byte at least, so the counts fit because the file does
  have hcolumns : table.schema.length < 256 ^ 8 := by
    have := length_le_length_flatMap writeColumn table.schema fun column _ => by
      simp [writeColumn, writeString, leBytes]
    omega
  have hindexes : table.indexDefinitions.length < 256 ^ 8 := by
    have := length_le_length_flatMap writeIndex table.indexDefinitions
      fun definition _ => by simp [writeIndex, writeString, leBytes]
    omega
  have hrows : table.rowsSnapshot.length < 256 ^ 8 := by
    have := length_le_length_flatMap writeRow table.rowsSnapshot
      fun row hmem => length_writeRow_pos fun hnil => by
        have := hwidth row hmem
        rw [hnil] at this
        exact hreached.schema_ne (List.length_eq_zero_iff.1 this.symm)
    omega
  refine (reads_readString (by omega)).bind ?_
  refine (reads_readPod hcolumns).bind ?_
  refine (reads_readList_same fun column hmem => reads_readColumn ?_).bind ?_
  · have := length_le_flatMap_of_mem writeColumn hmem
    omega
  refine (reads_lift hmid).nil_bind ?_
  refine (reads_readPod hindexes).bind ?_
  refine (reads_readList fun definition hmem => reads_readIndex ?_).bind ?_
  · have := length_le_flatMap_of_mem writeIndex hmem
    omega
  refine (reads_readPod hrows).bind ?_
  refine (reads_readList_same fun row hmem => ?_).bind_nil (reads_lift hfill)
  have := length_le_flatMap_of_mem writeRow hmem
  rw [← hwidth row hmem]
  exact reads_readRow (by omega)

/-- Tables are read back as copies. -/
theorem reads_readTables {tables : List Table} (hreached : ∀ table ∈ tables, table.Reached)
    (h : (tables.flatMap writeTable).length < 2 ^ 64) {copy copy' : Database}
    (hcopy : Database.copyTables "duplicate table in database file"
      (fun table => table.indexDefinitions.map (readBack platform)) copy tables = .ok copy') :
    Reads (readTables platform tables.length copy) copy' (tables.flatMap writeTable) := by
  induction tables generalizing copy with
  | nil => cases hcopy; exact reads_pure _
  | cons table tables ih =>
    rw [List.flatMap_cons, List.length_append] at h
    obtain ⟨mid, hmid, hcopy⟩ := bind_eq_ok_iff.1 hcopy
    obtain ⟨next, hnext, hcopy⟩ := bind_eq_ok_iff.1 hcopy
    refine (reads_readTable (hreached table List.mem_cons_self) (by omega) hmid hnext).bind ?_
    exact ih (fun t ht => hreached t (List.mem_cons_of_mem _ ht)) (by omega) hcopy

/-! ### The order of the strings of an index definition -/

/-- Swapping the name and the column of every index definition gives an index definition. -/
def SwapClosed (view : DatabaseView) : Prop :=
  ∀ key table, view.tables.find? key = some table → ∀ name column,
    table.indexes.find? name = some column → table.indexes.find? column = some name

/-- The index definitions of a database survive a snapshot. -/
def IndexesSurvive (platform : Platform) (view : DatabaseView) : Prop :=
  platform.leftToRight = true ∨ SwapClosed view

theorem createIndexes_swap {table : Table} (h : table.Reached)
    (hswap : ∀ name column, table.view.indexes.find? name = some column →
      table.view.indexes.find? column = some name) :
    TableView.createIndexes ⟨table.schema, table.rowsSnapshot, .empty⟩
      (table.indexDefinitions.map Prod.swap) = table.view := by
  have hmem : ∀ {item : Str × Str}, item ∈ table.indexDefinitions ↔
      table.view.indexes.find? item.1 = some item.2 := by
    intro item
    rw [Table.indexDefinitions_eq]
    exact SortedMap.mem_entries_iff
  -- two indexes of one column would be swapped to one name
  have hnames : (table.indexDefinitions.map Prod.swap).Pairwise fun a b => a.1 ≠ b.1 := by
    rw [List.pairwise_map]
    refine table.view.indexes.sorted.imp_of_mem fun {a b} ha hb hab heq => ?_
    have h1 := hswap _ _ (hmem.1 ha)
    have h2 := hswap _ _ (hmem.1 hb)
    rw [show a.2 = b.2 from heq, h2] at h1
    exact hab.ne (Option.some.inj h1).symm
  have hcolumns : ∀ item ∈ table.indexDefinitions.map Prod.swap,
      (columnIndex table.schema item.2).isSome = true := by
    intro item hi
    obtain ⟨definition, hd, rfl⟩ := List.mem_map.1 hi
    exact h.isSome_columnIndex (hmem.2 (hswap _ _ (hmem.1 hd)))
  have hmap : (table.indexDefinitions.map Prod.swap).foldl (fun m item => m.insert item.1 item.2)
      .empty = table.view.indexes := by
    refine SortedMap.ext_find? fun name => Option.ext fun column => ?_
    rw [SortedMap.find?_foldl_insert _ hnames]
    constructor
    · rintro (hi | ⟨-, hi⟩)
      · obtain ⟨definition, hd, heq⟩ := List.mem_map.1 hi
        cases heq
        exact hswap _ _ (hmem.1 hd)
      · cases hi
    · intro hfind
      exact .inl (List.mem_map.2 ⟨(column, name), hmem.2 (hswap _ _ hfind), rfl⟩)
  rw [TableView.createIndexes_eq _ _ _ hnames hcolumns, hmap]
  rfl

/-- The index definitions of a table as they come back. -/
def definitionsBack (platform : Platform) (table : Table) : List (Str × Str) :=
  table.indexDefinitions.map (readBack platform)

theorem copyView_definitionsBack {database : Database} (hsound : database.Sound)
    (h : IndexesSurvive platform database.view) {key : Str} {table : Table}
    (hf : database.tables.find? key = some table) :
    Database.copyView (definitionsBack platform) table = table.view := by
  obtain ⟨-, hreached⟩ := hsound.tables key table hf
  unfold Database.copyView definitionsBack
  cases horder : platform.leftToRight with
  | true =>
    have hid : readBack platform = id := by funext definition; rw [readBack, if_pos horder]; rfl
    rw [hid, List.map_id]
    exact hreached.createIndexes_indexDefinitions
  | false =>
    have hswap : readBack platform = Prod.swap := by
      funext definition; rw [readBack, if_neg (by simp [horder])]
    rw [hswap]
    refine createIndexes_swap hreached ?_
    rcases h with h | h
    · rw [horder] at h; cases h
    · refine h key table.view ?_
      rw [Database.find?_view, Database.table, hf]
      rfl

/-- What a snapshot of the database shows: the index definitions are as they come back. -/
def readBackView (platform : Platform) (database : Database) : DatabaseView :=
  ⟨database.name, database.tables.mapValues fun _ table =>
    Database.copyView (definitionsBack platform) table⟩

/-- **A snapshot reads back as a copy of the database**, whatever its index definitions are. -/
theorem reads_readDatabase {database : Database} (hsound : database.Sound)
    (hlen : (encodeDatabase database).length < 2 ^ 64) :
    ∃ copy, Reads (readDatabase platform) copy (encodeDatabase database) ∧ copy.Sound ∧
      copy.view = readBackView platform database := by
  obtain ⟨new, copy, hmake, hcopy, hcopySound, hview⟩ := Database.view_rebuild hsound
    "duplicate table in database file" (definitionsBack platform)
  refine ⟨copy, ?_, hcopySound, hview⟩
  have hreached : ∀ table ∈ database.tables.values, table.Reached := by
    intro table ht
    obtain ⟨⟨key, _⟩, hmem, rfl⟩ := List.mem_map.1 ht
    exact (hsound.tables key _ (SortedMap.mem_entries_iff.1 hmem)).2
  simp only [encodeDatabase, List.length_append, length_leBytes] at hlen
  have hcount : database.tables.values.length < 256 ^ 8 := by
    have := length_le_length_flatMap writeTable database.tables.values fun table _ => by
      simp [writeTable, writeString, leBytes]
    omega
  refine (reads_readBytes _ magic).bind ?_
  rw [if_neg (not_not.2 rfl)]
  refine (reads_readPod (by decide)).bind ?_
  rw [if_neg (not_not.2 rfl)]
  refine (reads_readString (by omega)).bind ?_
  refine (reads_lift hmake).nil_bind ?_
  refine (reads_readPod hcount).bind ?_
  exact reads_readTables hreached (by omega) hcopy

/-- An index of a copy was defined. -/
theorem mem_of_find?_createIndexes {table : TableView} {definitions : List (Str × Str)}
    {name column : Str} (h : (table.createIndexes definitions).indexes.find? name = some column) :
    table.indexes.find? name = some column ∨ (name, column) ∈ definitions := by
  induction definitions generalizing table with
  | nil => exact .inl h
  | cons item definitions ih =>
    rcases ih h with hmid | hmem
    · replace hmid : (table.createIndex item.1 item.2).2.indexes.find? name = some column := hmid
      unfold TableView.createIndex at hmid
      split_ifs at hmid
      · rw [SortedMap.find?_insert] at hmid
        split_ifs at hmid with hname
        · cases hmid
          rw [hname]
          exact .inr List.mem_cons_self
        · exact .inl hmid
      · exact .inl hmid
    · exact .inr (List.mem_cons_of_mem _ hmem)

/-- If the definitions come back swapped and the copy looks like the table, then swapping them gives
the same definitions. -/
theorem find?_of_copyView (horder : platform.leftToRight = false) {table : Table}
    (h : Database.copyView (definitionsBack platform) table = table.view) {name column : Str}
    (hfind : table.view.indexes.find? name = some column) :
    table.view.indexes.find? column = some name := by
  rw [← h] at hfind
  rcases mem_of_find?_createIndexes hfind with hnone | hmem
  · cases hnone
  · obtain ⟨definition, hdefinition, heq⟩ := List.mem_map.1 hmem
    rw [readBack, if_neg (by simp [horder])] at heq
    rw [Table.indexDefinitions_eq] at hdefinition
    have := SortedMap.mem_entries_iff.1 hdefinition
    rwa [← Prod.swap_swap definition, heq] at this

/-- **A snapshot shows the database it was made of exactly when the index definitions survive.** -/
theorem readBackView_eq_iff {database : Database} (hsound : database.Sound) :
    readBackView platform database = database.view ↔ IndexesSurvive platform database.view := by
  constructor
  · intro h
    by_cases horder : platform.leftToRight = true
    · exact .inl horder
    refine .inr fun key found hfound name column hfind => ?_
    have htable := congrArg (fun view => view.tables.find? key) h
    simp only [readBackView, hfound, SortedMap.find?_mapValues, Option.map_eq_some_iff] at htable
    obtain ⟨table, htable, hcopy⟩ := htable
    rw [Database.find?_view, Database.table, htable] at hfound
    cases hfound
    exact find?_of_copyView (by simpa using horder) hcopy hfind
  · intro h
    exact Database.mapValues_copyView fun key table hf => copyView_definitionsBack hsound h hf

/-! ### Publishing -/

theorem append_ne_of_getLast? {name suffix other : Str} (hsuffix : suffix ≠ [])
    (h : suffix.getLast? ≠ other.getLast?) : name ++ suffix ≠ other := by
  rintro rfl
  exact h (List.getLast?_append_of_ne_nil name hsuffix).symm

theorem pathFor_ne_path (name : Str) : pathFor name ≠ WriteAheadLog.path :=
  append_ne_of_getLast? (by decide) (by decide)

theorem temporaryPathFor_ne_path (name : Str) : temporaryPathFor name ≠ WriteAheadLog.path :=
  append_ne_of_getLast? (by decide) (by decide)

theorem temporaryPathFor_ne_pathFor (name other : Str) :
    temporaryPathFor name ≠ pathFor other := by
  refine append_ne_of_getLast? (by decide) ?_
  rw [pathFor, List.getLast?_append_of_ne_nil _ (by decide)]
  decide

/-- The room for the temporary file. -/
def room : Option SaveFault → ℕ
  | some (.write written) => written
  | _ => Disk.maxFileSize - 1

/-- The temporary file has been written. -/
def written (fault : Option SaveFault) (database : Database) (disk : Disk) : Disk :=
  disk.createDirectories.write (temporaryPathFor database.name)
    ((encodeDatabase database).take (room fault))

/-- The temporary file has been removed again, after the old snapshot or not. -/
def unpublished (removed : Bool) (database : Database) (disk : Disk) : Disk :=
  (if removed then disk.remove (pathFor database.name) else disk).remove
    (temporaryPathFor database.name)

/-- The temporary file has become the snapshot. -/
def published (database : Database) (disk : Disk) : Disk :=
  (disk.remove (temporaryPathFor database.name)).write (pathFor database.name)
    (encodeDatabase database)

/-- The ways in which a save ends. -/
theorem saveDatabase_eq (fault : Option SaveFault) (database : Database) (storage : Storage) :
    saveDatabase fault database storage =
      if fault = some .openTemporary then
        (.error (.runtimeError "failed to open temporary database file for writing"),
          { storage with disk := storage.disk.createDirectories })
      else if room fault < (encodeDatabase database).length then
        (.error (.runtimeError "failed to write database file"),
          { storage with disk := written fault database storage.disk })
      else match fault with
        | some (.publish removed) => (.error (.runtimeError "failed to publish database snapshot"),
          ⟨unpublished removed database (written fault database storage.disk), storage.nextLsn,
            storage.faults⟩)
        | _ => (.ok (),
          ⟨published database (written fault database storage.disk), storage.nextLsn,
            storage.faults⟩) := by
  have hroom : ∀ (f : Option SaveFault) (x y : Procedure Storage Exception Unit) (s : Storage),
      (if room f < (encodeDatabase database).length then x else y) s =
        if room f < (encodeDatabase database).length then x s else y s := by
    intros
    split_ifs <;> rfl
  rcases fault with _ | (_ | n | removed)
  · exact hroom none _ _ _
  · rfl
  · exact hroom (some (.write n)) _ _ _
  · cases removed <;> exact hroom (some (.publish _)) _ _ _

/-- A save that fails leaves the files, but for the temporary one; a fault of publishing may also
have removed the old snapshot. -/
theorem saveDatabase_error {fault : Option SaveFault} {database : Database}
    {storage storage' : Storage} {e : Exception}
    (h : saveDatabase fault database storage = (.error e, storage')) :
    storage'.nextLsn = storage.nextLsn ∧ storage'.disk.rootExists = true ∧
      ∀ name, name ≠ temporaryPathFor database.name →
        (storage'.disk.read name = storage.disk.read name ∨
          fault = some (.publish true) ∧ name = pathFor database.name ∧
            storage'.disk.read name = none) := by
  rw [saveDatabase_eq] at h
  split_ifs at h
  · cases h
    exact ⟨rfl, rfl, fun name _ => .inl rfl⟩
  · cases h
    exact ⟨rfl, rfl, fun name hname => .inl (by simp [written, hname])⟩
  · rcases fault with _ | (_ | n | removed)
    · cases h
    · cases h
    · cases h
    · cases h
      cases removed with
      | false => exact ⟨rfl, rfl, fun name hname => .inl (by simp [unpublished, written, hname])⟩
      | true =>
        refine ⟨rfl, rfl, fun name hname => ?_⟩
        by_cases hp : name = pathFor database.name
        · exact .inr ⟨rfl, hp, by simp [unpublished, written, hp]⟩
        · exact .inl (by simp [unpublished, written, hname, hp])

/-- A save that succeeds replaces the snapshot. -/
theorem saveDatabase_ok {fault : Option SaveFault} {database : Database}
    {storage storage' : Storage} (h : saveDatabase fault database storage = (.ok (), storage')) :
    storage'.nextLsn = storage.nextLsn ∧ storage'.disk.rootExists = true ∧
      (encodeDatabase database).length ≤ room fault ∧
      storage'.disk.read (pathFor database.name) = some (encodeDatabase database) ∧
      storage'.disk.read (temporaryPathFor database.name) = none ∧
      ∀ name, name ≠ pathFor database.name → name ≠ temporaryPathFor database.name →
        storage'.disk.read name = storage.disk.read name := by
  rw [saveDatabase_eq] at h
  split_ifs at h with h1 h2
  · cases h
  · cases h
  have hfiles : storage' =
      ⟨published database (written fault database storage.disk), storage.nextLsn,
        storage.faults⟩ := by
    rcases fault with _ | (_ | n | removed) <;> cases h <;> rfl
  subst hfiles
  refine ⟨rfl, rfl, not_lt.1 h2, by simp [published], ?_,
    fun name hp ht => by simp [published, written, hp, ht]⟩
  simp [published, temporaryPathFor_ne_pathFor]

/-- Saving touches files only, and not the log. -/
theorem saveDatabase_log (fault : Option SaveFault) (database : Database) (storage : Storage) :
    (saveDatabase fault database storage).2 =
        { storage with disk := (saveDatabase fault database storage).2.disk } ∧
      (saveDatabase fault database storage).2.disk.read WriteAheadLog.path =
        storage.disk.read WriteAheadLog.path := by
  have hp := (pathFor_ne_path database.name).symm
  have ht := (temporaryPathFor_ne_path database.name).symm
  refine ⟨?_, ?_⟩
  · rw [saveDatabase_eq]
    split_ifs
    · rfl
    · rfl
    · rcases fault with _ | (_ | n | removed) <;> rfl
  · rcases h : saveDatabase fault database storage with ⟨e | _, storage'⟩
    · obtain ⟨-, -, hread⟩ := saveDatabase_error h
      rcases hread _ ht with hsame | ⟨-, heq, -⟩
      · exact hsame
      · exact absurd heq hp
    · obtain ⟨-, -, -, -, -, hread⟩ := saveDatabase_ok h
      exact hread _ hp ht

end StorageManager

end VertexDB
