import VertexDB.Persistence.SavedSnapshot

/-!
# Saving and loading

A database that was made by any calls of the operations of databases and tables is written by
`saveDatabase` and read by `loadDatabase`.  Reading always succeeds, also when more bytes follow,
and gives back the name, the tables, their schemas and rows.  The index definitions come back with
their two strings in the order of the platform, so that `roundTrips_iff` holds exactly when that
order does not matter.
-/

namespace VertexDB

open Ascii Reading

namespace Table

variable {table : Table}

theorem Reached.name_apply (h : table.Reached) (op : Op) : (table.apply op).name = table.name := by
  cases op with
  | insert row =>
    cases hi : table.insert row with
    | error e => simp only [Table.apply, hi]
    | ok p => simp only [Table.apply, hi]; exact (h.view_insert hi).2.1
  | erase rowId => exact (h.view_erase rowId).2.2.1
  | update rowId index value =>
    cases hu : table.update rowId index value with
    | error e => simp only [Table.apply, hu]
    | ok p => simp only [Table.apply, hu]; exact (h.view_update hu).2.2.1
  | createIndex name column => exact (h.view_createIndex name column).2.1
  | replaceRows rows =>
    cases hr : table.replaceRows rows with
    | error e => simp only [Table.apply, hr]
    | ok table' => simp only [Table.apply, hr]; exact (h.view_replaceRows hr).2.1

end Table

namespace Database

variable {database : Database}

theorem Sound.createTable (h : database.Sound) {database' : Database} {name : Str}
    {schema : List Column} {created : Bool}
    (hok : database.createTable name schema = .ok (created, database')) : database'.Sound := by
  have hspec := view_createTable h name schema
  rw [hok] at hspec
  exact hspec.1

theorem Sound.renameTable (h : database.Sound) (oldName newName : Str) :
    (database.renameTable oldName newName).2.Sound := by
  have hspec := view_renameTable h oldName newName
  rcases hrename : database.renameTable oldName newName with ⟨e | renamed, database'⟩
  · rw [hrename] at hspec
    exact hspec.1
  · rw [hrename] at hspec
    exact hspec.1

theorem Sound.onTable (h : database.Sound) {name : Str} {table : Table}
    (hfind : database.table name = some table) (op : Table.Op) :
    Sound { database with tables := database.tables.insert name (table.apply op) } := by
  obtain ⟨hname, hreached⟩ := h.tables name table hfind
  have hkey : (table.apply op).name = name := (hreached.name_apply op).trans hname
  have hsound := h.insert (hreached.apply op)
  rwa [hkey] at hsound

theorem Sound.clone (h : database.Sound) {copy : Database} (hok : database.clone = .ok copy) :
    copy.Sound := by
  obtain ⟨copy', hclone, hsound, -⟩ := view_clone h
  rw [hok] at hclone
  cases hclone
  exact hsound

/-- The databases that calls of the operations of databases and tables make; a call that throws
leaves what it has done. -/
inductive Made : Database → Prop
  | make {name : Str} {database : Database} (h : make name = .ok database) : Made database
  | createTable {database database' : Database} (h : Made database) {name : Str}
    {schema : List Column} {created : Bool}
    (hok : database.createTable name schema = .ok (created, database')) : Made database'
  | dropTable {database : Database} (h : Made database) (name : Str) :
    Made (database.dropTable name).2
  | renameTable {database : Database} (h : Made database) (oldName newName : Str) :
    Made (database.renameTable oldName newName).2
  | onTable {database : Database} (h : Made database) {name : Str} {table : Table}
    (hfind : database.table name = some table) (op : Table.Op) :
    Made { database with tables := database.tables.insert name (table.apply op) }
  | clone {database copy : Database} (h : Made database) (hok : database.clone = .ok copy) :
    Made copy

theorem Made.sound {database : Database} (h : database.Made) : database.Sound := by
  induction h with
  | make h => exact (sound_make h).1
  | createTable _ hok ih => exact ih.createTable hok
  | dropTable _ name ih => exact (view_dropTable ih name).1
  | renameTable _ oldName newName ih => exact ih.renameTable oldName newName
  | onTable _ hfind op ih => exact ih.onTable hfind op
  | clone _ hok ih => exact ih.clone hok

/-- Any number of calls on a table. -/
theorem Made.run {name key : Str} {tables : SortedMap Str Table} {table : Table}
    (h : Made ⟨name, tables.insert key table⟩) (ops : List Table.Op) :
    Made ⟨name, tables.insert key (table.run ops)⟩ := by
  induction ops generalizing table with
  | nil => exact h
  | cons op ops ih =>
    have hfind : Database.table ⟨name, tables.insert key table⟩ key = some table := by
      simp [Database.table]
    have hone := h.onTable hfind op
    have hsame : (tables.insert key table).insert key (table.apply op) =
        tables.insert key (table.apply op) := by
      refine SortedMap.ext_find? fun k => ?_
      simp only [SortedMap.find?_insert]
      split_ifs <;> rfl
    simp only [hsame] at hone
    exact ih hone

/-- A database with an indexed table. -/
def indexed : Database :=
  ⟨bytes "d", SortedMap.empty.insert (bytes "t") (Table.sampleTable.run Table.sampleOps)⟩

theorem made_indexed : indexed.Made := by
  have hempty : Database.Made ⟨bytes "d", .empty⟩ := .make (show make (bytes "d") = _ from rfl)
  have hcreate : Database.createTable ⟨bytes "d", .empty⟩ (bytes "t") Table.sampleTable.schema =
      .ok (true, ⟨bytes "d", SortedMap.empty.insert (bytes "t") Table.sampleTable⟩) := rfl
  exact (hempty.createTable hcreate).run _

end Database

namespace StorageManager

variable {platform : Platform} {database : Database} {storage storage' : Storage}

/-- Whatever follows them, the bytes load as a database that looks like the one given and answers
lookups like it. -/
def LoadsAs (platform : Platform) (contents : Str) (database : Database) : Prop :=
  ∀ extra disk, disk.read (pathFor database.name) = some (contents ++ extra) →
    ∃ copy, loadDatabase platform disk database.name = .ok copy ∧ copy.view = database.view ∧
      database.SameLookups copy

/-- What a saved database loads as. -/
theorem loadDatabase_encode (hsound : database.Sound)
    (hlen : (encodeDatabase database).length < 2 ^ 64) {disk : Disk} {extra : Str}
    (hread : disk.read (pathFor database.name) = some (encodeDatabase database ++ extra)) :
    ∃ copy, loadDatabase platform disk database.name = .ok copy ∧ copy.Sound ∧
      copy.view = readBackView platform database := by
  obtain ⟨copy, hreads, hcopy, hview⟩ := reads_readDatabase hsound hlen
  refine ⟨copy, ?_, hcopy, hview⟩
  rw [loadDatabase, hread]
  simp only [hreads extra]
  rfl

/-- A database that loads as it was has index definitions that survive. -/
theorem LoadsAs.indexesSurvive (hsound : database.Sound)
    (hlen : (encodeDatabase database).length < 2 ^ 64)
    (h : LoadsAs platform (encodeDatabase database) database) :
    IndexesSurvive platform database.view := by
  set disk : Disk := Disk.empty.write (pathFor database.name) (encodeDatabase database)
  have hread : disk.read (pathFor database.name) = some (encodeDatabase database ++ []) := by
    rw [Disk.read_write, if_pos rfl, List.append_nil]
  obtain ⟨copy, hload, hview, -⟩ := h [] disk hread
  obtain ⟨copy', hload', -, hview'⟩ := loadDatabase_encode hsound hlen hread
  rw [hload] at hload'
  cases hload'
  exact (readBackView_eq_iff hsound).1 (hview'.symm.trans hview)

/-- **Snapshot files round-trip exactly when the order of the two strings of an index definition
does not matter**: for every database, what a save writes loads as the database, whatever bytes
follow. -/
theorem roundTrips_iff (platform : Platform) (hmade : database.Made)
    (hok : saveDatabase none database storage = (.ok (), storage')) :
    (∃ contents, storage'.disk.read (pathFor database.name) = some contents ∧
      LoadsAs platform contents database) ↔ IndexesSurvive platform database.view := by
  have hsound := hmade.sound
  obtain ⟨-, -, hsize, hread, -, -⟩ := saveDatabase_ok hok
  have hlen : (encodeDatabase database).length < 2 ^ 64 := lt_of_le_of_lt hsize (by decide)
  constructor
  · rintro ⟨contents, hcontents, hloads⟩
    rw [hread] at hcontents
    cases hcontents
    exact hloads.indexesSurvive hsound hlen
  · intro hindexes
    refine ⟨encodeDatabase database, hread, fun extra disk hdisk => ?_⟩
    obtain ⟨copy, hload, hcopy, hview⟩ := loadDatabase_encode hsound hlen hdisk
    rw [(readBackView_eq_iff hsound).2 hindexes] at hview
    exact ⟨copy, hload, hview, hsound.sameLookups hcopy hview.symm⟩

theorem length_encode_indexed : (encodeDatabase Database.indexed).length < 2 ^ 63 := by
  decide +kernel

/-- The database is saved to an empty storage root. -/
theorem saveDatabase_indexed : saveDatabase none Database.indexed ⟨.empty, none, []⟩ =
    (.ok (), ⟨published Database.indexed (written none Database.indexed .empty), none, []⟩) := by
  have hroom : ¬ room none < (encodeDatabase Database.indexed).length :=
    not_lt.2 (Nat.le_sub_one_of_lt length_encode_indexed)
  rw [saveDatabase_eq, if_neg nofun, if_neg hroom]

theorem roundTrips_iff_indexed :
    ∃ contents, (published Database.indexed (written none Database.indexed .empty)).read
        (pathFor (bytes "d")) = some contents ∧
      LoadsAs (.byInsertion true) contents Database.indexed :=
  (roundTrips_iff (.byInsertion true) Database.made_indexed saveDatabase_indexed).2 (.inl rfl)

/-- Where arguments are evaluated from right to left, the index is not read back. -/
theorem not_loadsAs_indexed :
    Database.indexed.Made ∧
      saveDatabase none Database.indexed ⟨.empty, none, []⟩ =
        (.ok (), ⟨published Database.indexed (written none Database.indexed .empty), none, []⟩) ∧
      ¬ ∃ contents, (published Database.indexed (written none Database.indexed .empty)).read
          (pathFor (bytes "d")) = some contents ∧
        LoadsAs (.byInsertion false) contents Database.indexed := by
  refine ⟨Database.made_indexed, saveDatabase_indexed, ?_⟩
  rintro ⟨contents, hread, hloads⟩
  obtain ⟨-, -, -, hread', -, -⟩ := saveDatabase_ok saveDatabase_indexed
  have hcontents : encodeDatabase Database.indexed = contents :=
    Option.some.inj (hread'.symm.trans hread)
  subst hcontents
  rcases hloads.indexesSurvive Database.made_indexed.sound
    (lt_trans length_encode_indexed (by decide)) with horder | hswap
  · cases horder
  · -- the index `i` is on the column `a`, and there is no index `a`
    have hback := hswap (bytes "t") (Table.sampleTable.run Table.sampleOps).view (by decide +kernel)
      (bytes "i") (bytes "a") (by decide +kernel)
    have hnone : (Table.sampleTable.run Table.sampleOps).view.indexes.find? (bytes "a") = none := by
      decide +kernel
    rw [hnone] at hback
    cases hback

end StorageManager

end VertexDB
