import VertexDB.Persistence.LogSequence
import VertexDB.Persistence.RoundTrip

/-!
# Files that are cut short

A prefix of the log file consists of whole records and a part of the next one.  Reading it gives
those records when there is no such part, and fails otherwise (`readAll_cut`).  The readers of a
snapshot never look ahead, so that a prefix of a snapshot, which would be read as the snapshot if
it were read at all, is not read (`loadDatabase_cut`).
-/

namespace VertexDB

open Ascii ByteCodec Reading

/-! ### The log -/

/-- A prefix of a concatenation: whole parts, and a part of one more. -/
theorem exists_take_of_prefix_flatMap {α β : Type} (encode : α → List β) {xs : List α}
    {cut : List β} (h : cut <+: xs.flatMap encode) :
    ∃ k ≤ xs.length, cut = (xs.take k).flatMap encode ∨
      ∃ x tail, xs[k]? = some x ∧ cut = (xs.take k).flatMap encode ++ tail ∧ tail ≠ [] ∧
        tail <+: encode x ∧ tail ≠ encode x := by
  induction xs generalizing cut with
  | nil => exact ⟨0, le_rfl, .inl (List.prefix_nil.1 h)⟩
  | cons x xs ih =>
    rw [List.flatMap_cons] at h
    rcases List.prefix_or_prefix_of_prefix h (List.prefix_append (encode x) _) with hin | hbeyond
    · -- the cut is within the first part
      by_cases hnil : cut = []
      · exact ⟨0, Nat.zero_le _, .inl hnil⟩
      · by_cases hwhole : cut = encode x
        · exact ⟨1, Nat.succ_le_succ (Nat.zero_le _), .inl (by simpa using hwhole)⟩
        · exact ⟨0, Nat.zero_le _, .inr ⟨x, cut, rfl, rfl, hnil, hin, hwhole⟩⟩
    · obtain ⟨rest, rfl⟩ := hbeyond
      obtain ⟨k, hk, hcut⟩ := ih ((List.prefix_append_right_inj (encode x)).1 h)
      refine ⟨k + 1, Nat.succ_le_succ hk, ?_⟩
      rw [List.take_succ_cons, List.flatMap_cons]
      rcases hcut with rfl | ⟨next, tail, hnext, rfl, htail⟩
      · exact .inl rfl
      · exact .inr ⟨next, tail, hnext, (List.append_assoc _ _ _).symm, htail⟩

namespace WriteAheadLog

/-- Appends to a log, all of which have succeeded, by one process after the other: these are the
records. -/
inductive Appended (start : Storage) : List WalRecord → Storage → Prop
  | start : Appended start [] start
  | append {records : List WalRecord} {storage storage' : Storage}
    (h : Appended start records storage) {operation : WalOperation} {payload : Str} {lsn : ℕ}
    (hok : append operation payload storage = (.ok lsn, storage')) :
    Appended start (records ++ [⟨lsn, operation, payload⟩]) storage'
  | reopen {records : List WalRecord} {storage : Storage} (h : Appended start records storage) :
    Appended start records ⟨storage.disk, none, []⟩

variable {start storage : Storage} {records : List WalRecord}

theorem Appended.holds (h : Appended start records storage) (hstart : Unused start) :
    Holds storage records := by
  induction h with
  | start =>
    refine ⟨hstart.1, fun _ hmem => absurd hmem List.not_mem_nil, fun lsn hlsn => ?_, hstart.2.2⟩
    rw [hstart.2.1] at hlsn
    exact absurd hlsn (by rintro ⟨⟩)
  | @append records storage storage' _ operation payload lsn hok ih =>
    obtain ⟨after, -, ⟨lsn', happended, hafter⟩ | ⟨hfailed, -⟩⟩ := ih.append_cases operation payload
    · rw [hok] at happended
      obtain ⟨hlsn, hsame⟩ := Prod.mk.inj happended
      rw [Except.ok.inj hlsn, hsame]
      exact hafter
    · rw [hok] at hfailed
      exact absurd (congrArg Prod.fst hfailed) (by rintro ⟨⟩)
  | reopen _ ih => exact ih.restart

theorem readAll_of_read {disk : Disk} {contents : Str} (h : disk.read path = some contents) :
    readAll disk = readRecords contents.length contents := by
  rw [readAll, h]

/-- **The log reader never invents or alters records.**  A prefix of the log file that ends right
after a record reads as the records up to it; any other prefix is not read. -/
theorem readAll_cut (h : Appended start records storage) (hstart : Unused start)
    {contents cut : Str} (hfile : storage.disk.read path = some contents) (hcut : cut <+: contents)
    {disk : Disk} (hdisk : disk.read path = some cut) :
    (∃ k ≤ records.length, cut = (records.take k).flatMap encodeRecord ∧
      readAll disk = .ok (records.take k)) ∨
    (∀ k ≤ records.length, cut ≠ (records.take k).flatMap encodeRecord) ∧
      ∃ e, readAll disk = .error e := by
  have hholds := h.holds hstart
  have hcontents := hholds.contents
  rw [hfile, Option.getD_some] at hcontents
  have hfits (k : ℕ) : ∀ record ∈ records.take k, Fits record := fun record hmem =>
    hholds.fits record (List.mem_of_mem_take hmem)
  have hwhole (k : ℕ) (heq : cut = (records.take k).flatMap encodeRecord) :
      readAll disk = .ok (records.take k) := by
    rw [readAll_of_read hdisk, heq]
    exact readRecords_flatMap (hfits k) (length_records_le _)
  rw [hcontents] at hcut
  obtain ⟨k, hk, heq | ⟨record, tail, hnext, heq, hne, htail, htorn⟩⟩ :=
    exists_take_of_prefix_flatMap encodeRecord hcut
  · exact .inl ⟨k, hk, heq, hwhole k heq⟩
  · have herror : ∃ e, readAll disk = .error e := by
      rw [readAll_of_read hdisk, heq]
      exact readRecords_torn (hfits k) (hholds.fits record (List.mem_of_getElem? hnext)) hne htail
        htorn
    refine .inr ⟨fun k' _ heq' => ?_, herror⟩
    obtain ⟨e, he⟩ := herror
    rw [hwhole k' heq'] at he
    exact absurd he (by rintro ⟨⟩)

/-- The payload of the one record looks like a header; the file is cut within it. -/
theorem readAll_cut_header : ∃ contents disk,
    (append .insert (leBytes 4 walMagic) ⟨.empty, none, []⟩).2.disk.read path = some contents ∧
      disk.read path = some (contents.take 27) ∧ ∃ e, readAll disk = .error e := by
  have hok : (append .insert (leBytes 4 walMagic) ⟨.empty, none, []⟩).1 = .ok 1 := by decide
  have happended := Appended.start.append (Procedure.eq_of_fst_eq hok)
  have hfile : (append .insert (leBytes 4 walMagic) ⟨.empty, none, []⟩).2.disk.read path =
      some (encodeRecord ⟨1, .insert, leBytes 4 walMagic⟩) := by decide
  set contents := encodeRecord ⟨1, .insert, leBytes 4 walMagic⟩ with hcontents
  have hdisk : (Disk.empty.write path (contents.take 27)).read path = some (contents.take 27) := by
    rw [Disk.read_write, if_pos rfl]
  refine ⟨contents, _, hfile, hdisk, ?_⟩
  rcases readAll_cut happended ⟨rfl, rfl, rfl⟩ hfile (List.take_prefix 27 contents) hdisk with
    ⟨k, hk, hcut, -⟩ | ⟨-, herror⟩
  · rw [hcontents] at hcut
    match k, hk with
    | 0, _ => exact absurd hcut (by decide)
    | 1, _ => exact absurd hcut (by decide)
  · exact herror

end WriteAheadLog

/-! ### Snapshots -/

namespace StorageManager

variable {platform : Platform} {α : Type}

theorem local_lift (result : Except Exception α) : Local (liftM result : Reader Exception α) := by
  match result with
  | .ok x => exact local_pure x
  | .error e => exact local_throw e

theorem local_readList {r : Reader Exception α} (h : Local r) (n : ℕ) : Local (readList n r) := by
  induction n with
  | zero => exact local_pure []
  | succ n ih => exact h.bind fun x => ih.bind fun xs => local_pure _

theorem local_readPod (width : ℕ) : Local (readPod width) := local_readLe _ width

theorem local_readString : Local readString :=
  (local_readPod 8).bind fun _ => local_readBytes _ _

theorem local_readValue : Local readValue := by
  refine (local_readPod 1).bind fun encodedType => local_ite (local_pure _) ?_
  match ColumnType.ofCode encodedType with
  | .int => exact (local_readPod 8).bind fun _ => local_pure _
  | .double => exact (local_readPod 8).bind fun _ => local_pure _
  | .string => exact local_readString.bind fun _ => local_pure _
  | .unknown _ => exact local_throw _

theorem local_readColumn : Local readColumn :=
  local_readString.bind fun _ => (local_readPod 1).bind fun _ => (local_readPod 1).bind fun _ =>
    local_pure _

theorem local_readIndex : Local (readIndex platform) :=
  local_readString.bind fun _ => local_readString.bind fun _ => local_pure _

theorem local_readTable (database : Database) : Local (readTable platform database) := by
  refine local_readString.bind fun _ => (local_readPod 8).bind fun columnCount => ?_
  refine (local_readList local_readColumn _).bind fun _ => (local_lift _).bind fun _ => ?_
  refine (local_readPod 8).bind fun _ => (local_readList local_readIndex _).bind fun _ => ?_
  refine (local_readPod 8).bind fun _ => ?_
  exact (local_readList (local_readList local_readValue _) _).bind fun _ => local_lift _

theorem local_readTables (count : ℕ) (database : Database) :
    Local (readTables platform count database) := by
  induction count generalizing database with
  | zero => exact local_pure database
  | succ count ih => exact (local_readTable database).bind fun _ => ih _

theorem local_readDatabase : Local (readDatabase platform) := by
  refine (local_readBytes _ _).bind fun _ => local_ite (local_throw _) ?_
  refine (local_readPod 4).bind fun _ => local_ite (local_throw _) ?_
  refine local_readString.bind fun _ => (local_lift _).bind fun _ => ?_
  exact (local_readPod 8).bind fun _ => local_readTables _ _

/-- **Truncated snapshots are always rejected**: no proper prefix of what a save writes loads,
wherever it ends. -/
theorem loadDatabase_cut {database : Database} (hmade : database.Made)
    {storage storage' : Storage} (hok : saveDatabase none database storage = (.ok (), storage'))
    {contents cut : Str} (hfile : storage'.disk.read (pathFor database.name) = some contents)
    (hcut : cut <+: contents)
    (hne : cut ≠ contents) (platform : Platform) {disk : Disk} {name : Str}
    (hdisk : disk.read (pathFor name) = some cut) :
    ∃ e, loadDatabase platform disk name = .error e := by
  obtain ⟨-, -, hsize, hread, -, -⟩ := saveDatabase_ok hok
  have hcontents : encodeDatabase database = contents := Option.some.inj (hread.symm.trans hfile)
  have hlen : (encodeDatabase database).length < 2 ^ 64 := lt_of_le_of_lt hsize (by decide)
  obtain ⟨copy, hreads, -, -⟩ := @reads_readDatabase platform database hmade.sound hlen
  rw [hcontents] at hreads
  obtain ⟨e, he⟩ := local_readDatabase.error_of_torn hreads hcut hne
  refine ⟨e, ?_⟩
  rw [loadDatabase, hdisk]
  simp only [he]
  rfl

/-- The snapshot of a database with an indexed table, without its last byte. -/
theorem loadDatabase_cut_last : ∃ contents disk,
    (published Database.indexed (written none Database.indexed .empty)).read (pathFor (bytes "d")) =
      some contents ∧ disk.read (pathFor (bytes "d")) = some contents.dropLast ∧
      ∃ e, loadDatabase (.byInsertion true) disk (bytes "d") = .error e := by
  obtain ⟨-, -, -, hread, -, -⟩ := saveDatabase_ok saveDatabase_indexed
  set contents := encodeDatabase Database.indexed
  have hdisk : (Disk.empty.write (pathFor (bytes "d")) contents.dropLast).read
      (pathFor (bytes "d")) = some contents.dropLast := by rw [Disk.read_write, if_pos rfl]
  have hpos : 0 < contents.length := by decide +kernel
  have hne : contents.dropLast ≠ contents := by
    intro heq
    have := congrArg List.length heq
    rw [List.length_dropLast] at this
    omega
  exact ⟨contents, _, hread, hdisk, loadDatabase_cut Database.made_indexed saveDatabase_indexed
    hread (List.dropLast_prefix contents) hne (.byInsertion true) hdisk⟩

end StorageManager

end VertexDB
