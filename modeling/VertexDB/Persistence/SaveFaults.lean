import VertexDB.Persistence.Snapshot

/-!
# Saves whose file operations fail

`saveUnder` is `saveDatabase` with a fate of its own for every file operation; the faults of
`saveDatabase` are some of these patterns (`saveDatabase_eq_saveUnder`).  A save that throws keeps
the snapshot that was there unless it got to the fallback of publishing, removed the snapshot, and
could not rename after that: the only copy left is then removed as well
(`keeps_snapshot_iff_not_loses`).
-/

namespace VertexDB

open Ascii

/-- `std::filesystem::rename`, which replaces a file that is there. -/
def Disk.rename (disk : Disk) (source target : Str) : Disk :=
  match disk.read source with
  | some contents => (disk.remove source).write target contents
  | none => disk

namespace StorageManager

/-- Which file operations of a save fail. -/
structure FileFaults where
  /-- What `create_directories` throws. -/
  createDirectories : Option Exception := none
  openTemporary : Bool := false
  /-- Only so many bytes reach the temporary file. -/
  stopsAfter : Option ℕ := none
  /-- The stream reports that, rather than fail only when it is closed. -/
  reported : Bool := true
  rename : Bool := false
  removeTarget : Bool := false
  renameAgain : Bool := false
  /-- What the last `remove` throws. -/
  removeTemporary : Option Exception := none
  deriving DecidableEq

/-- The number of bytes that the temporary file can take. -/
def FileFaults.room (faults : FileFaults) : ℕ := faults.stopsAfter.getD (Disk.maxFileSize - 1)

/-- Run an operation on the files. -/
def onDisk (f : Disk → Disk) : Procedure Storage Exception Unit :=
  modify fun storage => { storage with disk := f storage.disk }

/-- The temporary file is written. -/
def writeTemporary (faults : FileFaults) (name contents : Str) :
    Procedure Storage Exception Unit := do
  if faults.openTemporary then
    throw (.runtimeError "failed to open temporary database file for writing")
  onDisk (·.write (temporaryPathFor name) (contents.take faults.room))
  if faults.room < contents.length ∧ faults.reported then
    throw (.runtimeError "failed to write database file")

/-- The temporary file becomes the snapshot. -/
def publish (faults : FileFaults) (name : Str) : Procedure Storage Exception Unit :=
  if !faults.rename then onDisk (·.rename (temporaryPathFor name) (pathFor name))
  else do
    -- the fallback: without the old snapshot the rename may succeed
    if !faults.removeTarget then onDisk (·.remove (pathFor name))
    if !faults.renameAgain then onDisk (·.rename (temporaryPathFor name) (pathFor name))
    else match faults.removeTemporary with
      | some e => throw e
      | none => do
        onDisk (·.remove (temporaryPathFor name))
        throw (.runtimeError "failed to publish database snapshot")

/-- `StorageManager::saveDatabase`, every file operation of which may fail. -/
def saveUnder (faults : FileFaults) (database : Database) : Procedure Storage Exception Unit :=
  match faults.createDirectories with
  | some e => throw e
  | none => do
    onDisk Disk.createDirectories
    writeTemporary faults database.name (encodeDatabase database)
    publish faults database.name

/-- The pattern of a `SaveFault`. -/
def SaveFault.files : Option SaveFault → FileFaults
  | none => {}
  | some .openTemporary => { openTemporary := true }
  | some (.write written) => { stopsAfter := some written }
  | some (.publish removed) => { rename := true, removeTarget := !removed, renameAgain := true }

/-- The temporary file is written, or is taken to be. -/
def Written (faults : FileFaults) (database : Database) : Prop :=
  faults.createDirectories = none ∧ faults.openTemporary = false ∧
    ¬ (faults.room < (encodeDatabase database).length ∧ faults.reported = true)

/-- The save gets to the fallback, removes the old snapshot and cannot rename after that. -/
def Loses (faults : FileFaults) (database : Database) : Prop :=
  Written faults database ∧
    faults.rename = true ∧ faults.removeTarget = false ∧ faults.renameAgain = true

variable {faults : FileFaults} {database : Database}

/-! ### The stages of a save -/

theorem onDisk_bind (f : Disk → Disk) (x : Unit → Procedure Storage Exception Unit)
    (storage : Storage) :
    (onDisk f >>= x) storage = x () { storage with disk := f storage.disk } := rfl

/-- The files when the temporary one has been written. -/
def wroteTemporary (faults : FileFaults) (database : Database) (disk : Disk) : Disk :=
  disk.createDirectories.write (temporaryPathFor database.name)
    ((encodeDatabase database).take faults.room)

theorem saveUnder_of_written (h : Written faults database) (storage : Storage) :
    saveUnder faults database storage =
      publish faults database.name
        { storage with disk := wroteTemporary faults database storage.disk } := by
  obtain ⟨hroot, hopen, hwrite⟩ := h
  simp only [saveUnder, hroot, onDisk_bind, writeTemporary, hopen, Bool.false_eq_true, if_false,
    if_neg hwrite]
  rfl

theorem saveUnder_of_short (hroot : faults.createDirectories = none)
    (hopen : faults.openTemporary = false)
    (hwrite : faults.room < (encodeDatabase database).length ∧ faults.reported = true)
    (storage : Storage) :
    saveUnder faults database storage = (.error (.runtimeError "failed to write database file"),
      { storage with disk := wroteTemporary faults database storage.disk }) := by
  simp only [saveUnder, hroot, onDisk_bind, writeTemporary, hopen, Bool.false_eq_true, if_false,
    if_pos hwrite]
  rfl

/-- A save that fails before it publishes touches the temporary file only. -/
theorem saveUnder_of_not_written (h : ¬ Written faults database) (storage : Storage) :
    ∃ e storage', saveUnder faults database storage = (.error e, storage') ∧
      ∀ name, name ≠ temporaryPathFor database.name →
        storage'.disk.read name = storage.disk.read name := by
  cases hroot : faults.createDirectories with
  | some e => exact ⟨e, storage, by rw [saveUnder, hroot]; rfl, fun _ _ => rfl⟩
  | none =>
    by_cases hopen : faults.openTemporary = true
    · refine ⟨.runtimeError "failed to open temporary database file for writing",
        { storage with disk := storage.disk.createDirectories }, ?_, fun _ _ => rfl⟩
      simp only [saveUnder, hroot, onDisk_bind, writeTemporary, hopen, if_true]
      rfl
    · have hopen' : faults.openTemporary = false := by simpa using hopen
      have hwrite : faults.room < (encodeDatabase database).length ∧ faults.reported = true := by
        by_contra hwrite
        exact h ⟨hroot, hopen', hwrite⟩
      exact ⟨_, _, saveUnder_of_short hroot hopen' hwrite storage, fun name hne => by
        simp [wroteTemporary, hne]⟩

/-- Publishing fails when both renames do; the old snapshot is then there or not. -/
theorem publish_of_fails {name : Str} (hrename : faults.rename = true)
    (hagain : faults.renameAgain = true) (storage : Storage) :
    ∃ e storage', publish faults name storage = (.error e, storage') ∧
      storage'.disk.read (pathFor name) =
        if faults.removeTarget then storage.disk.read (pathFor name) else none := by
  have hne := (temporaryPathFor_ne_pathFor name name).symm
  cases hremove : faults.removeTarget with
  | true =>
    cases hlast : faults.removeTemporary with
    | some e =>
      exact ⟨e, storage, by simp only [publish, hrename, hremove, hagain, hlast]; rfl, rfl⟩
    | none =>
      refine ⟨_, { storage with disk := storage.disk.remove (temporaryPathFor name) },
        by simp only [publish, hrename, hremove, hagain, hlast]; rfl, by simp [hne]⟩
  | false =>
    cases hlast : faults.removeTemporary with
    | some e =>
      refine ⟨e, { storage with disk := storage.disk.remove (pathFor name) },
        by simp only [publish, hrename, hremove, hagain, hlast]; rfl, by simp⟩
    | none =>
      refine ⟨_, { storage with
          disk := (storage.disk.remove (pathFor name)).remove (temporaryPathFor name) },
        by simp only [publish, hrename, hremove, hagain, hlast]; rfl, by simp⟩

/-- Otherwise it succeeds. -/
theorem publish_of_succeeds {name : Str}
    (h : ¬ (faults.rename = true ∧ faults.renameAgain = true)) (storage : Storage) :
    ∃ storage', publish faults name storage = (.ok (), storage') := by
  cases hrename : faults.rename with
  | false => exact ⟨_, by simp only [publish, hrename]; rfl⟩
  | true =>
    have hagain : faults.renameAgain = false := by simpa [hrename] using h
    cases hremove : faults.removeTarget with
    | true => exact ⟨_, by simp only [publish, hrename, hremove, hagain]; rfl⟩
    | false => exact ⟨_, by simp only [publish, hrename, hremove, hagain]; rfl⟩

/-- **A failed save keeps the snapshot exactly if it does not get to lose it**: the old bytes are
still there after every save that throws, unless the first rename failed, the old snapshot was
removed and the second rename failed too. -/
theorem keeps_snapshot_iff_not_loses (faults : FileFaults) (database : Database)
    {storage : Storage} {old : Str}
    (hold : storage.disk.read (pathFor database.name) = some old) :
    (∀ e storage', saveUnder faults database storage = (.error e, storage') →
      storage'.disk.read (pathFor database.name) = some old) ↔ ¬ Loses faults database := by
  have hne := (temporaryPathFor_ne_pathFor database.name database.name).symm
  constructor
  · rintro hkeeps ⟨hwritten, hrename, hremove, hagain⟩
    obtain ⟨e, storage', hpublish, hread⟩ := publish_of_fails hrename hagain
      { storage with disk := wroteTemporary faults database storage.disk }
    -- such a save throws, and the removed snapshot is not there any more
    have hlost := hkeeps e storage' ((saveUnder_of_written hwritten storage).trans hpublish)
    rw [hread, hremove] at hlost
    exact absurd hlost (by rintro ⟨⟩)
  · intro hnot e storage' hsave
    by_cases hwritten : Written faults database
    · rw [saveUnder_of_written hwritten] at hsave
      by_cases hfails : faults.rename = true ∧ faults.renameAgain = true
      · obtain ⟨e', after, hpublish, hread⟩ := publish_of_fails hfails.1 hfails.2
          { storage with disk := wroteTemporary faults database storage.disk }
        -- both renames failed, so the old snapshot could not be removed either
        have hremove : faults.removeTarget = true := by
          by_contra hremove
          exact hnot ⟨hwritten, hfails.1, by simpa using hremove, hfails.2⟩
        rw [hsave] at hpublish
        rw [(Prod.mk.inj hpublish).2, hread, if_pos hremove, ← hold]
        simp [wroteTemporary, hne]
      · obtain ⟨after, hpublish⟩ := publish_of_succeeds hfails
          { storage with disk := wroteTemporary faults database storage.disk }
        rw [hsave] at hpublish
        exact absurd (Prod.mk.inj hpublish).1 (by rintro ⟨⟩)
    · obtain ⟨e', after, hfailed, hsame⟩ := saveUnder_of_not_written hwritten storage
      rw [hsave] at hfailed
      rw [(Prod.mk.inj hfailed).2, hsame _ hne, hold]

/-- A database without tables. -/
def bare : Database := ⟨bytes "d", .empty⟩

/-- Both renames fail, and the old snapshot can be removed. -/
def bothRenames : FileFaults := { rename := true, renameAgain := true }

theorem written_bare {faults : FileFaults} (hroot : faults.createDirectories = none)
    (hopen : faults.openTemporary = false) (hwrite : faults.stopsAfter = none) :
    Written faults bare := by
  refine ⟨hroot, hopen, fun h => ?_⟩
  have hlength : (encodeDatabase bare).length = 29 := by decide
  rw [FileFaults.room, hwrite, hlength, Option.getD_none, Disk.maxFileSize] at h
  omega

/-- Nothing but the renames fails, yet the snapshot that was there is gone, and the new one too. -/
theorem lost_bothRenames : ∃ storage storage' e,
    storage.disk.read (pathFor bare.name) = some (encodeDatabase bare) ∧
      saveUnder bothRenames bare storage = (.error e, storage') ∧
      storage'.disk.read (pathFor bare.name) = none := by
  obtain ⟨e, storage', hpublish, hread⟩ := @publish_of_fails bothRenames bare.name rfl rfl
    ⟨wroteTemporary bothRenames bare (Disk.empty.write (pathFor bare.name) (encodeDatabase bare)),
      none, []⟩
  exact ⟨⟨Disk.empty.write (pathFor bare.name) (encodeDatabase bare), none, []⟩, storage', e,
    by rw [Disk.read_write, if_pos rfl],
    (saveUnder_of_written (written_bare rfl rfl rfl) _).trans hpublish, hread⟩

/-- The first rename fails, then the old snapshot cannot be removed and not replaced. -/
theorem keeps_snapshot_iff_not_loses_bare : ∃ storage : Storage,
    storage.disk.read (pathFor bare.name) = some (encodeDatabase bare) ∧
      ∀ e storage', saveUnder { bothRenames with removeTarget := true } bare storage =
          (.error e, storage') →
        storage'.disk.read (pathFor bare.name) = some (encodeDatabase bare) := by
  have hold : (Disk.empty.write (pathFor bare.name) (encodeDatabase bare)).read
      (pathFor bare.name) = some (encodeDatabase bare) := by rw [Disk.read_write, if_pos rfl]
  refine ⟨⟨_, none, []⟩, hold, (@keeps_snapshot_iff_not_loses
    { bothRenames with removeTarget := true }
    bare ⟨_, none, []⟩ _ hold).2 ?_⟩
  rintro ⟨-, -, hremove, -⟩
  exact absurd hremove (by decide)

/-! ### The faults of `saveDatabase` -/

/-- A rename of the temporary file, as `saveDatabase` does it. -/
theorem rename_wroteTemporary (h : (encodeDatabase database).length ≤ faults.room) (disk : Disk) :
    (wroteTemporary faults database disk).rename (temporaryPathFor database.name)
        (pathFor database.name) =
      ((wroteTemporary faults database disk).remove (temporaryPathFor database.name)).write
        (pathFor database.name) (encodeDatabase database) := by
  have hread : (wroteTemporary faults database disk).read (temporaryPathFor database.name) =
      some (encodeDatabase database) := by
    rw [wroteTemporary, Disk.read_write, if_pos rfl, List.take_of_length_le h]
  rw [Disk.rename, hread]

/-- The faults that `saveDatabase` is given are some of the patterns. -/
theorem saveDatabase_eq_saveUnder (fault : Option SaveFault) (database : Database)
    (storage : Storage) :
    saveDatabase fault database storage = saveUnder (SaveFault.files fault) database storage := by
  have hroom : room fault = (SaveFault.files fault).room := by
    rcases fault with _ | (_ | n | removed) <;> rfl
  have hroot : (SaveFault.files fault).createDirectories = none := by
    rcases fault with _ | (_ | n | removed) <;> rfl
  have hdisk : written fault database storage.disk =
      wroteTemporary (SaveFault.files fault) database storage.disk := by
    rw [written, wroteTemporary, hroom]
  rw [saveDatabase_eq, hdisk, hroom]
  by_cases hopen : fault = some .openTemporary
  · subst hopen
    rfl
  have hopen' : (SaveFault.files fault).openTemporary = false := by
    rcases fault with _ | (_ | n | removed)
    · rfl
    · exact absurd rfl hopen
    · rfl
    · rfl
  rw [if_neg hopen]
  by_cases hshort : (SaveFault.files fault).room < (encodeDatabase database).length
  · have hreported : (SaveFault.files fault).reported = true := by
      rcases fault with _ | (_ | n | removed) <;> rfl
    rw [if_pos hshort, saveUnder_of_short hroot hopen' ⟨hshort, hreported⟩]
  · have hwritten : Written (SaveFault.files fault) database :=
      ⟨hroot, hopen', fun h => hshort h.1⟩
    -- everything was written, so both sides go on to publish the temporary file
    have hrename := rename_wroteTemporary (not_lt.1 hshort) storage.disk
    rw [if_neg hshort, saveUnder_of_written hwritten, published, ← hrename]
    rcases fault with _ | (_ | n | removed)
    · rfl
    · exact absurd rfl hopen
    · rfl
    · cases removed with
      | false => rfl
      | true => rfl

end StorageManager

end VertexDB
