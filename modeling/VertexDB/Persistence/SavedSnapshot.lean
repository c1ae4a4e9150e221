import VertexDB.Persistence.Snapshot

/-!
# The snapshot on disk

`Saved name disk saved` says what a new executor loads from a storage root in which every snapshot
was saved under one name: nothing, or the database of the only snapshot file.  Saves under that
name keep it, whether they succeed or fail, and so does everything done with the log.
-/

namespace VertexDB

open Ascii

namespace StorageManager

/-- What is loaded at startup: `none` when there is no snapshot, else the view of the only one,
which was saved under `name`. -/
def Saved (platform : Platform) (name : Str) (disk : Disk) : Option DatabaseView → Prop
  | none => ∀ file contents, disk.read file = some contents → Disk.extension file ≠ extension
  | some view => name ≠ [] ∧ disk.rootExists = true ∧
      (∀ file contents, disk.read file = some contents → Disk.extension file = extension →
        file = pathFor name) ∧
      ∃ database, loadDatabase platform disk name = .ok database ∧ database.Sound ∧
        database.view = view

variable {platform : Platform} {name : Str} {disk disk' : Disk} {saved : Option DatabaseView}

/-! ### File names -/

theorem extension_path : Disk.extension WriteAheadLog.path ≠ extension := by
  decide

/-- The extension of a name is what was appended, from its last dot on. -/
theorem extension_append {suffix : Str} (hname : name ≠ []) (hdot : byte '.' ∉ suffix) :
    Disk.extension (name ++ byte '.' :: suffix) = byte '.' :: suffix := by
  obtain ⟨first, rest, rfl⟩ := List.exists_cons_of_ne_nil hname
  have hreversed : (first :: rest ++ byte '.' :: suffix).tail.reverse =
      suffix.reverse ++ byte '.' :: rest.reverse := by simp
  have hall : ∀ b ∈ suffix.reverse, (decide (b ≠ byte '.')) = true := by
    intro b hb
    refine decide_eq_true fun heq => hdot ?_
    rw [← heq]
    exact List.mem_reverse.1 hb
  simp only [Disk.extension, hreversed]
  rw [if_pos (by simp), List.takeWhile_append_of_pos hall, List.takeWhile_cons_of_neg (by simp)]
  simp

theorem extension_pathFor (hname : name ≠ []) : Disk.extension (pathFor name) = extension := by
  have hdot : byte '.' ∉ bytes "tcrdb" := by decide
  exact extension_append hname hdot

theorem extension_temporaryPathFor (name : Str) :
    Disk.extension (temporaryPathFor name) ≠ extension := by
  have hdot : byte '.' ∉ bytes "tmp" := by decide
  have hne : name ++ extension ≠ [] := by simp [extension, bytes]
  have htmp : Disk.extension (temporaryPathFor name) = bytes ".tmp" := extension_append hne hdot
  rw [htmp]
  decide

theorem stem_pathFor (hname : name ≠ []) : Disk.stem (pathFor name) = name := by
  rw [Disk.stem, extension_pathFor hname, pathFor, List.length_append, Nat.add_sub_cancel,
    List.take_left]

/-! ### Loading at startup -/

theorem mem_listing_iff {file : Str} :
    file ∈ platform.listing disk.files.keys ↔ ∃ contents, disk.read file = some contents :=
  (platform.listing_perm _).mem_iff.trans SortedMap.mem_keys_iff

/-- Without a snapshot nothing is loaded. -/
theorem loadFirstDatabase_none (h : Saved platform name disk none) :
    ∃ e, loadFirstDatabase platform disk = .error e := by
  unfold loadFirstDatabase
  split_ifs
  · exact ⟨_, rfl⟩
  · rw [List.find?_eq_none.2]
    · exact ⟨_, rfl⟩
    · intro file hfile
      obtain ⟨contents, hread⟩ := mem_listing_iff.1 hfile
      simpa using h file contents hread

theorem read_of_loadDatabase {database : Database}
    (h : loadDatabase platform disk name = .ok database) :
    ∃ contents, disk.read (pathFor name) = some contents := by
  unfold loadDatabase at h
  split at h
  · cases h
  · exact ⟨_, ‹_›⟩

theorem Saved.read_pathFor {view : DatabaseView} (h : Saved platform name disk (some view)) :
    ∃ contents, disk.read (pathFor name) = some contents := by
  obtain ⟨-, -, -, database, hload, -, -⟩ := h
  exact read_of_loadDatabase hload

/-- The only snapshot is loaded. -/
theorem loadFirstDatabase_some {view : DatabaseView} (h : Saved platform name disk (some view)) :
    ∃ database, loadFirstDatabase platform disk = .ok database ∧ database.Sound ∧
      database.view = view := by
  obtain ⟨hname, hroot, honly, database, hload, hsound, hview⟩ := h
  refine ⟨database, ?_, hsound, hview⟩
  rw [loadFirstDatabase, if_neg (by simp [hroot])]
  cases hfind : (platform.listing disk.files.keys).find? (Disk.extension · = extension) with
  | none =>
    have hmem : pathFor name ∈ platform.listing disk.files.keys :=
      mem_listing_iff.2 (read_of_loadDatabase hload)
    exact absurd (extension_pathFor hname) (by simpa using List.find?_eq_none.1 hfind _ hmem)
  | some file =>
    obtain ⟨contents, hread⟩ := mem_listing_iff.1 (List.mem_of_find?_eq_some hfind)
    have hext : Disk.extension file = extension := by simpa using List.find?_some hfind
    rw [honly file contents hread hext]
    simp only [stem_pathFor hname, hload]

/-! ### What keeps the snapshot -/

theorem loadDatabase_congr (h : disk'.read (pathFor name) = disk.read (pathFor name)) :
    loadDatabase platform disk' name = loadDatabase platform disk name := by
  simp only [loadDatabase, h]

/-- Files that are not snapshots do not matter. -/
theorem Saved.of_read_eq (h : Saved platform name disk saved)
    (hroot : disk.rootExists = true → disk'.rootExists = true)
    (hread : ∀ file, Disk.extension file = extension → disk'.read file = disk.read file) :
    Saved platform name disk' saved := by
  cases saved with
  | none =>
    intro file contents hcontents hext
    rw [hread file hext] at hcontents
    exact h file contents hcontents hext
  | some view =>
    obtain ⟨hname, hexists, honly, database, hload, hsound, hview⟩ := h
    refine ⟨hname, hroot hexists, fun file contents hcontents hext => ?_, database, ?_, hsound,
      hview⟩
    · rw [hread file hext] at hcontents
      exact honly file contents hcontents hext
    · rw [← hload]
      exact loadDatabase_congr (hread _ (extension_pathFor hname))

theorem Saved.of_sameFiles (h : Saved platform name disk saved)
    (hfiles : WriteAheadLog.SameFiles disk disk') : Saved platform name disk' saved :=
  h.of_read_eq hfiles.root fun file hext => hfiles.read file fun hpath =>
    extension_path (hpath ▸ hext)

variable {fault : Option SaveFault} {database : Database} {storage storage' : Storage}

/-- A save that succeeds makes a copy of its database the snapshot. -/
theorem Saved.of_saveDatabase (h : Saved platform name storage.disk saved)
    (hsound : database.Sound) (hname : database.name = name) (hne : name ≠ [])
    (hok : saveDatabase none database storage = (.ok (), storage')) :
    Saved platform name storage'.disk (some (readBackView platform database)) := by
  obtain ⟨-, hroot, hlen, hread, htmp, hothers⟩ := saveDatabase_ok hok
  rw [hname] at hread htmp hothers
  have hsize : (encodeDatabase database).length < 2 ^ 64 := 
    lt_of_le_of_lt hlen (by decide)
  obtain ⟨copy, hcopy, hcopySound, hview⟩ := reads_readDatabase hsound hsize
  refine ⟨hne, hroot, fun file contents hcontents hext => ?_, copy, ?_, hcopySound, hview⟩
  · by_contra hfile
    have hfile' : file ≠ temporaryPathFor name := fun heq =>
      extension_temporaryPathFor name (heq ▸ hext)
    rw [hothers file hfile hfile'] at hcontents
    cases saved with
    | none => exact h file contents hcontents hext
    | some view => exact hfile (h.2.2.1 file contents hcontents hext)
  · have hall := hcopy []
    rw [List.append_nil] at hall
    rw [loadDatabase, hread]
    simp only [hall]
    rfl

/-- A save that fails keeps the snapshot, if it has not removed it. -/
theorem Saved.of_saveDatabase_error (h : Saved platform name storage.disk saved)
    (hname : database.name = name)
    (hfault : fault = some (.publish true) → saved = none) {e : Exception}
    (herror : saveDatabase fault database storage = (.error e, storage')) :
    Saved platform name storage'.disk saved := by
  obtain ⟨-, hroot, hread⟩ := saveDatabase_error herror
  rw [hname] at hread
  have hnotTemporary : ∀ file, Disk.extension file = extension → file ≠ temporaryPathFor name :=
    fun file hext heq => extension_temporaryPathFor name (heq ▸ hext)
  cases saved with
  | none =>
    intro file contents hcontents hext
    rcases hread file (hnotTemporary file hext) with hsame | ⟨-, -, hnone⟩
    · rw [hsame] at hcontents
      exact h file contents hcontents hext
    · rw [hnone] at hcontents
      cases hcontents
  | some view =>
    refine h.of_read_eq (fun _ => hroot) fun file hext => ?_
    rcases hread file (hnotTemporary file hext) with hsame | ⟨hremoved, -, -⟩
    · exact hsame
    · exact absurd (hfault hremoved) (by simp)

end StorageManager

end VertexDB
