import VertexDB.Lib.Relational
import VertexDB.Persistence.SavedSnapshot
import VertexDB.Persistence.SnapshotFile
import VertexDB.Storage.Agreement

/-!
# The sequence numbers of the log

A storage counts its records from a cached number, or from the log when nothing is cached, and the
two counts can differ after an append that failed.  Nobody looks at the numbers:
`Storage.SameButNumbers` relates storages with the same files but for the sequence numbers in the
log, and everything that is done with a storage keeps it and has the same outcome.
-/

namespace VertexDB

open Ascii Procedure StorageManager WriteAheadLog

/-- What a record says, without its number. -/
def WalRecord.entry (record : WalRecord) : WalOperation × Str := (record.operation, record.payload)

/-- The same files, but for the sequence numbers in the log. -/
structure Storage.SameButNumbers (storage storage' : Storage) : Prop where
  root : storage.disk.rootExists = storage'.disk.rootExists
  exist : ∀ file, (storage.disk.read file).isSome = (storage'.disk.read file).isSome
  read : ∀ file, file ≠ path → storage.disk.read file = storage'.disk.read file
  log : ∃ records records', Holds storage records ∧ Holds storage' records' ∧
    records.map WalRecord.entry = records'.map WalRecord.entry

namespace Storage.SameButNumbers

variable {storage storage' : Storage}

theorem refl {records : List WalRecord} (h : Holds storage records) :
    storage.SameButNumbers storage :=
  ⟨rfl, fun _ => rfl, fun _ _ => rfl, records, records, h, h, rfl⟩

/-- A new executor has cached nothing. -/
theorem restart (h : storage.SameButNumbers storage') :
    SameButNumbers ⟨storage.disk, none, []⟩ storage' := by
  obtain ⟨records, records', hholds, hholds', hentries⟩ := h.log
  exact ⟨h.root, h.exist, h.read, records, records', hholds.restart, hholds', hentries⟩

/-! ### Files other than the log -/

theorem createDirectories (h : storage.SameButNumbers storage') :
    SameButNumbers { storage with disk := storage.disk.createDirectories }
      { storage' with disk := storage'.disk.createDirectories } := by
  obtain ⟨records, records', hholds, hholds', hentries⟩ := h.log
  exact ⟨rfl, h.exist, h.read, records, records', hholds.of_read_eq rfl, hholds'.of_read_eq rfl,
    hentries⟩

theorem write (h : storage.SameButNumbers storage') {file : Str} (hfile : file ≠ path)
    (contents : Str) : SameButNumbers { storage with disk := storage.disk.write file contents }
      { storage' with disk := storage'.disk.write file contents } := by
  obtain ⟨records, records', hholds, hholds', hentries⟩ := h.log
  refine ⟨h.root, fun other => ?_, fun other hother => ?_, records, records', ?_, ?_, hentries⟩
  · rw [Disk.read_write, Disk.read_write]
    split_ifs
    · rfl
    · exact h.exist other
  · rw [Disk.read_write, Disk.read_write]
    split_ifs
    · rfl
    · exact h.read other hother
  · exact hholds.of_read_eq (by rw [Disk.read_write, if_neg hfile.symm])
  · exact hholds'.of_read_eq (by rw [Disk.read_write, if_neg hfile.symm])

theorem remove (h : storage.SameButNumbers storage') {file : Str} (hfile : file ≠ path) :
    SameButNumbers { storage with disk := storage.disk.remove file }
      { storage' with disk := storage'.disk.remove file } := by
  obtain ⟨records, records', hholds, hholds', hentries⟩ := h.log
  refine ⟨h.root, fun other => ?_, fun other hother => ?_, records, records', ?_, ?_, hentries⟩
  · rw [Disk.read_remove, Disk.read_remove]
    split_ifs
    · rfl
    · exact h.exist other
  · rw [Disk.read_remove, Disk.read_remove]
    split_ifs
    · rfl
    · exact h.read other hother
  · exact hholds.of_read_eq (by rw [Disk.read_remove, if_neg hfile.symm])
  · exact hholds'.of_read_eq (by rw [Disk.read_remove, if_neg hfile.symm])

/-! ### The log -/

/-- Logs that say the same are equally long. -/
theorem length_log {records records' : List WalRecord}
    (h : records.map WalRecord.entry = records'.map WalRecord.entry) :
    (records.flatMap encodeRecord).length = (records'.flatMap encodeRecord).length := by
  have hlength : ∀ records : List WalRecord, (records.flatMap encodeRecord).length =
      ((records.map WalRecord.entry).map fun entry => 25 + entry.2.length).sum := by
    intro records
    rw [List.length_flatMap, List.map_map]
    congr 1
    exact List.map_congr_left fun record _ => length_encodeRecord record
  rw [hlength, hlength, h]

/-- New contents of the log file that say the same. -/
theorem writeLog (h : storage.SameButNumbers storage') {contents contents' : Str}
    {next next' : ℕ} {records records' : List WalRecord}
    (hholds : Holds
      ⟨storage.disk.createDirectories.write path contents, some next, storage.faults⟩ records)
    (hholds' : Holds
      ⟨storage'.disk.createDirectories.write path contents', some next', storage'.faults⟩ records')
    (hentries : records.map WalRecord.entry = records'.map WalRecord.entry) :
    SameButNumbers ⟨storage.disk.createDirectories.write path contents, some next, storage.faults⟩
      ⟨storage'.disk.createDirectories.write path contents', some next', storage'.faults⟩ := by
  refine ⟨rfl, fun other => ?_, fun other hother => ?_, _, _, hholds, hholds', hentries⟩
  · rw [Disk.read_write, Disk.read_write]
    split_ifs
    · rfl
    · exact h.exist other
  · rw [Disk.read_write, Disk.read_write, if_neg hother, if_neg hother]
    exact h.read other hother

end Storage.SameButNumbers

open Storage

/-- Appending finds room in both logs or in none. -/
theorem relates_append (fails : Exception → Prop) (operation : WalOperation) (payload : Str) :
    Relates fails SameButNumbers (fun _ _ => True) (append operation payload)
      (append operation payload) := by
  intro storage storage' h
  obtain ⟨records, records', hholds, hholds', hentries⟩ := h.log
  have hcreated : Holds { storage with disk := storage.disk.createDirectories } records :=
    hholds.of_read_eq rfl
  have hcreated' : Holds { storage' with disk := storage'.disk.createDirectories } records' :=
    hholds'.of_read_eq rfl
  obtain ⟨lsn, next, hlsn, hnext, hrun⟩ := hcreated.nextLsn_eq
  obtain ⟨lsn', next', hlsn', hnext', hrun'⟩ := hcreated'.nextLsn_eq
  have hsame : (records ++ [WalRecord.mk lsn operation payload]).map WalRecord.entry =
      (records' ++ [WalRecord.mk lsn' operation payload]).map WalRecord.entry := by
    rw [List.map_append, List.map_append, hentries]
    rfl
  have hlength := SameButNumbers.length_log hsame
  rw [List.flatMap_append, List.flatMap_append, List.flatMap_singleton,
    List.flatMap_singleton] at hlength
  rw [hholds.append_eq hrun, hholds'.append_eq hrun', ← hlength]
  split_ifs with hsize
  · refine .error _ ⟨rfl, h.exist, h.read, records, records', ?_, ?_, hentries⟩
    · exact ⟨hholds.contents, hholds.fits, by rintro _ ⟨⟩; exact hnext, hholds.faults⟩
    · exact ⟨hholds'.contents, hholds'.fits, by rintro _ ⟨⟩; exact hnext', hholds'.faults⟩
  · exact .ok trivial (h.writeLog (hholds.written hlsn hnext hsize)
      (hholds'.written hlsn' hnext' (hlength ▸ hsize)) hsame)

theorem relates_reset (fails : Exception → Prop) : Relates fails SameButNumbers Eq reset reset := by
  intro storage storage' h
  rw [reset_eq, reset_eq]
  obtain ⟨records, records', hholds, hholds', -⟩ := h.log
  exact .ok rfl (h.writeLog (holds_reset _ hholds.faults) (holds_reset _ hholds'.faults) rfl)

/-! ### Snapshots -/

/-- The tables of a snapshot as the database shows them. -/
theorem flatMap_writeTable {database : Database} (h : database.Sound) :
    database.tables.values.flatMap writeTable =
      database.view.tables.entries.flatMap fun entry => writeView entry.1 entry.2 := by
  simp only [SortedMap.values, Database.view, SortedMap.mapValues, List.flatMap_map]
  refine List.flatMap_congr fun entry hentry => ?_
  obtain ⟨hname, -⟩ := h.tables entry.1 entry.2 (SortedMap.mem_entries_iff.1 hentry)
  rw [← hname]
  rfl

/-- The contents of a snapshot are those of what the database shows. -/
theorem encodeDatabase_eq {database database' : Database}
    (h : database.Agree (fun _ => True) database') :
    encodeDatabase database = encodeDatabase database' := by
  obtain ⟨hsound, hsound', hview⟩ := Database.agree_true_iff.1 h
  have hlength : ∀ database : Database,
      database.tables.values.length = database.view.tables.entries.length := by
    intro database
    rw [SortedMap.values, Database.view, SortedMap.mapValues, List.length_map, List.length_map]
  rw [encodeDatabase, encodeDatabase, flatMap_writeTable hsound, flatMap_writeTable hsound',
    hlength, hlength, hview, h.name]

/-- Databases with the same contents are saved alike, also when the save fails. -/
theorem relates_saveDatabase (fails : Exception → Prop) (fault : Option SaveFault)
    {database database' : Database} (h : database.Agree (fun _ => True) database') :
    Relates fails SameButNumbers Eq (saveDatabase fault database)
      (saveDatabase fault database') := by
  have htemporary := temporaryPathFor_ne_path database.name
  have hsnapshot := pathFor_ne_path database.name
  intro storage storage' hs
  have hwritten := hs.createDirectories.write htemporary
    ((encodeDatabase database).take (room fault))
  simp only [saveDatabase_eq, written, unpublished, published, ← encodeDatabase_eq h, ← h.name]
  split_ifs
  · exact .error _ hs.createDirectories
  · exact .error _ hwritten
  · rcases fault with _ | (_ | n | _ | _)
    · exact .ok rfl ((hwritten.remove htemporary).write hsnapshot _)
    · exact .ok rfl ((hwritten.remove htemporary).write hsnapshot _)
    · exact .ok rfl ((hwritten.remove htemporary).write hsnapshot _)
    · exact .error _ (hwritten.remove htemporary)
    · exact .error _ ((hwritten.remove hsnapshot).remove htemporary)

/-- Loading reads the same files. -/
theorem Storage.SameButNumbers.loadDatabase_eq {storage storage' : Storage}
    (h : storage.SameButNumbers storage') (platform : Platform) (name : Str) :
    loadDatabase platform storage.disk name = loadDatabase platform storage'.disk name :=
  loadDatabase_congr (h.read _ (pathFor_ne_path name))

theorem Storage.SameButNumbers.loadFirstDatabase_eq {storage storage' : Storage}
    (h : storage.SameButNumbers storage') (platform : Platform) :
    loadFirstDatabase platform storage.disk = loadFirstDatabase platform storage'.disk := by
  have hkeys : storage.disk.files.keys = storage'.disk.files.keys := by
    have hmap : storage.disk.files.mapValues (fun _ _ => ()) =
        storage'.disk.files.mapValues fun _ _ => () := by
      refine SortedMap.ext_find? fun file => ?_
      rw [SortedMap.find?_mapValues, SortedMap.find?_mapValues]
      have hexist := h.exist file
      rw [Disk.read, Disk.read] at hexist
      cases hfind : storage.disk.files.find? file <;>
        cases hfind' : storage'.disk.files.find? file <;> simp_all
    have hkeys := congrArg SortedMap.keys hmap
    rwa [SortedMap.keys_mapValues, SortedMap.keys_mapValues] at hkeys
  simp only [loadFirstDatabase, h.root, hkeys, h.loadDatabase_eq platform]

end VertexDB
