import VertexDB.Persistence.WriteAheadLog

/-!
# The records of the log file

`Holds storage records` says that the log file consists of these records.  Reading gives them
back (`Holds.readAll_eq`), appending adds one and resetting leaves none, so the file stays a
sequence of records whatever is done with the log.
-/

namespace VertexDB

open Ascii ByteCodec Reading

namespace WriteAheadLog

/-- The fields of a record fit their width. -/
def Fits (record : WalRecord) : Prop := record.lsn < 2 ^ 64 ∧ record.payload.length < 2 ^ 64

/-- The log file consists of these records, and no append to come fails. -/
structure Holds (storage : Storage) (records : List WalRecord) : Prop where
  contents : (storage.disk.read path).getD [] = records.flatMap encodeRecord
  fits : ∀ record ∈ records, Fits record
  next : ∀ lsn, storage.nextLsn = some lsn → lsn < 2 ^ 64
  faults : storage.faults = []

variable {storage : Storage} {records : List WalRecord}

/-! ### Reading -/

theorem reads_readPod {width n : ℕ} (h : n < 256 ^ width) :
    Reads (readPod width) n (leBytes width n) := reads_readLe _ h

theorem reads_readRecord {record : WalRecord} (h : Fits record) :
    Reads readRecord record (encodeRecord record) := by
  refine (reads_readPod (by decide)).bind ?_
  refine (reads_readPod (by decide)).bind ?_
  rw [if_neg (by simp)]
  refine (reads_readPod h.1).bind ?_
  refine (reads_readPod record.operation.code_lt).bind ?_
  refine (reads_readPod h.2).bind ?_
  refine (reads_readBytes _ record.payload).bind_nil ?_
  rw [WalOperation.ofCode_code]
  exact reads_pure record

theorem length_encodeRecord (record : WalRecord) :
    (encodeRecord record).length = 25 + record.payload.length := by
  simp only [encodeRecord, List.length_append, length_leBytes]
  omega

theorem readRecords_flatMap {fuel : ℕ} (hfits : ∀ record ∈ records, Fits record)
    (hfuel : records.length ≤ fuel) :
    readRecords fuel (records.flatMap encodeRecord) = .ok records := by
  induction records generalizing fuel with
  | nil => cases fuel <;> rfl
  | cons record records ih =>
    obtain ⟨fuel, rfl⟩ : ∃ n, fuel = n + 1 := ⟨fuel - 1, by simp at hfuel; omega⟩
    have hread := reads_readRecord (hfits record List.mem_cons_self) (records.flatMap encodeRecord)
    have hrest := ih (fun r hr => hfits r (List.mem_cons_of_mem _ hr)) (by simpa using hfuel)
    rw [List.flatMap_cons]
    cases hc : encodeRecord record ++ records.flatMap encodeRecord with
    | nil =>
      have := congrArg List.length hc
      rw [List.length_append, length_encodeRecord] at this
      simp at this
    | cons b bs =>
      rw [hc] at hread
      rw [readRecords, hread, Failure.ok_bind]
      simp only [hrest]
      rfl
      rintro ⟨⟩

theorem length_records_le (records : List WalRecord) :
    records.length ≤ (records.flatMap encodeRecord).length :=
  length_le_length_flatMap encodeRecord records fun record _ => by rw [length_encodeRecord]; omega

theorem Holds.readAll_eq (h : Holds storage records) : readAll storage.disk = .ok records := by
  unfold readAll
  have hcontents := h.contents
  cases hread : storage.disk.read path with
  | none =>
    rw [hread, Option.getD_none] at hcontents
    have := length_records_le records
    rw [← hcontents] at this
    rw [List.length_eq_zero_iff.1 (Nat.le_zero.1 this)]
    rfl
  | some contents =>
    rw [hread, Option.getD_some] at hcontents
    subst hcontents
    exact readRecords_flatMap h.fits (length_records_le records)

theorem Holds.isSome_read (h : Holds storage records) (hne : records ≠ []) :
    (storage.disk.read path).isSome = true := by
  cases hread : storage.disk.read path with
  | some contents => rfl
  | none =>
    have hcontents := h.contents
    rw [hread, Option.getD_none] at hcontents
    have := length_records_le records
    rw [← hcontents] at this
    exact absurd (List.length_eq_zero_iff.1 (Nat.le_zero.1 this)) hne

/-! ### Torn records -/

theorem local_readRecord : Local readRecord := by
  refine (local_readLe _ _).bind fun magic => (local_readLe _ _).bind fun version => ?_
  refine local_ite (local_throw _) ?_
  refine (local_readLe _ _).bind fun lsn => (local_readLe _ _).bind fun operation => ?_
  refine (local_readLe _ _).bind fun payloadSize => ?_
  exact (local_readBytes _ _).bind fun payload => local_pure _

/-- Reading a record consumes its bytes. -/
theorem spans_readRecord : Spans (fun record => (encodeRecord record).length) readRecord := by
  intro text record rest h
  obtain ⟨magic, text₁, hmagic, h⟩ := Failure.bind_apply_eq_ok_iff.1 h
  obtain ⟨version, text₂, hversion, h⟩ := Failure.bind_apply_eq_ok_iff.1 h
  split_ifs at h
  · cases h
  · obtain ⟨lsn, text₃, hlsn, h⟩ := Failure.bind_apply_eq_ok_iff.1 h
    obtain ⟨operation, text₄, hoperation, h⟩ := Failure.bind_apply_eq_ok_iff.1 h
    obtain ⟨payloadSize, text₅, hsize, h⟩ := Failure.bind_apply_eq_ok_iff.1 h
    obtain ⟨payload, text₆, hpayload, h⟩ := Failure.bind_apply_eq_ok_iff.1 h
    cases h
    have hmagic := spans_readLe _ 4 _ _ _ hmagic
    have hversion := spans_readLe _ 4 _ _ _ hversion
    have hlsn := spans_readLe _ 8 _ _ _ hlsn
    have hoperation := spans_readLe _ 1 _ _ _ hoperation
    have hsize := spans_readLe _ 8 _ _ _ hsize
    have hpayload := spans_length_readBytes _ _ _ _ _ hpayload
    dsimp only at hmagic hversion hlsn hoperation hsize hpayload
    simp only [length_encodeRecord]
    omega

/-- Records followed by a part of one more are not read. -/
theorem readRecords_torn {fuel : ℕ} (hfits : ∀ record ∈ records, Fits record) {record : WalRecord}
    (hrecord : Fits record) {tail : Str} (hne : tail ≠ []) (htail : tail <+: encodeRecord record)
    (htorn : tail ≠ encodeRecord record) :
    ∃ e, readRecords fuel (records.flatMap encodeRecord ++ tail) = .error e := by
  induction records generalizing fuel with
  | nil =>
    obtain ⟨b, bs, rfl⟩ := List.exists_cons_of_ne_nil hne
    obtain ⟨e, he⟩ := local_readRecord.error_of_torn (reads_readRecord hrecord) htail htorn
    cases fuel with
    | zero => exact ⟨.outOfFuel, rfl⟩
    | succ fuel =>
      refine ⟨e, ?_⟩
      rw [List.flatMap_nil, List.nil_append, readRecords, he]
      · rfl
      · rintro ⟨⟩
  | cons first records ih =>
    rw [List.flatMap_cons, List.append_assoc]
    have hread := reads_readRecord (hfits first List.mem_cons_self)
      (records.flatMap encodeRecord ++ tail)
    cases hc : encodeRecord first ++ (records.flatMap encodeRecord ++ tail) with
    | nil =>
      have := congrArg List.length hc
      rw [List.length_append, length_encodeRecord] at this
      simp at this
    | cons b bs =>
      cases fuel with
      | zero => exact ⟨.outOfFuel, rfl⟩
      | succ fuel =>
        -- the first record is whole, so the error is the one behind it
        obtain ⟨e, he⟩ := @ih fuel fun r hr => hfits r (List.mem_cons_of_mem _ hr)
        refine ⟨e, ?_⟩
        rw [hc] at hread
        rw [readRecords, hread, Failure.ok_bind]
        · simp only [he, Failure.error_bind]
        · rintro ⟨⟩

/-! ### Writing -/

/-- Nothing but the log file differs. -/
structure SameFiles (disk disk' : Disk) : Prop where
  root : disk.rootExists = true → disk'.rootExists = true
  read : ∀ name, name ≠ path → disk'.read name = disk.read name

theorem SameFiles.refl (disk : Disk) : SameFiles disk disk := ⟨id, fun _ _ => rfl⟩

theorem SameFiles.trans {disk disk' disk'' : Disk} (h : SameFiles disk disk')
    (h' : SameFiles disk' disk'') : SameFiles disk disk'' :=
  ⟨h'.root ∘ h.root, fun name hne => (h'.read name hne).trans (h.read name hne)⟩

theorem sameFiles_write (disk : Disk) (contents : Str) :
    SameFiles disk (disk.createDirectories.write path contents) where
  root _ := rfl
  read name hne := by rw [Disk.read_write, if_neg hne, Disk.read_createDirectories]

theorem lsnAfter_lt (records : List WalRecord) : lsnAfter records < 2 ^ 64 := by
  unfold lsnAfter
  suffices h : ∀ next, next < 2 ^ 64 → records.foldl
      (fun next record => max next ((record.lsn + 1) % 2 ^ 64)) next < 2 ^ 64 from h 1 (by norm_num)
  induction records with
  | nil => exact fun _ h => h
  | cons record records ih =>
    intro next hnext
    exact ih _ (max_lt hnext (Nat.mod_lt _ (by norm_num)))

/-- The next sequence number is found, and the file is not touched. -/
theorem Holds.nextLsn_eq (h : Holds storage records) :
    ∃ lsn next, lsn < 2 ^ 64 ∧ next < 2 ^ 64 ∧
      nextLsn storage = (.ok lsn, { storage with nextLsn := some next }) := by
  have hmod : ∀ n, n % 2 ^ 64 < 2 ^ 64 := fun n => Nat.mod_lt _ (by norm_num)
  cases hn : storage.nextLsn with
  | some lsn =>
    refine ⟨lsn, (lsn + 1) % 2 ^ 64, h.next lsn hn, hmod _, ?_⟩
    rw [nextLsn, Procedure.get_bind, hn]
    rfl
  | none =>
    refine ⟨lsnAfter records, (lsnAfter records + 1) % 2 ^ 64, lsnAfter_lt records, hmod _, ?_⟩
    rw [nextLsn, Procedure.get_bind, hn]
    simp only [h.readAll_eq]
    rfl

theorem append_of_faults_eq_nil (h : storage.faults = []) (operation : WalOperation)
    (payload : Str) :
    append operation payload storage = appendUnder none operation payload storage := by
  obtain ⟨disk, next, faults⟩ := storage
  cases h
  rfl

/-- The exception of a log file that cannot be extended. -/
def appendFailure : Exception := .runtimeError "failed to append WAL record"

/-- Appending under the sequence number that is found. -/
theorem Holds.append_eq (h : Holds storage records) {lsn next : ℕ}
    (hrun : nextLsn { storage with disk := storage.disk.createDirectories } =
      (.ok lsn, ⟨storage.disk.createDirectories, some next, storage.faults⟩))
    (operation : WalOperation) (payload : Str) :
    append operation payload storage =
      if Disk.maxFileSize ≤ (records.flatMap encodeRecord ++
          encodeRecord ⟨lsn, operation, payload⟩).length then
        (.error appendFailure, ⟨storage.disk.createDirectories, some next, storage.faults⟩)
      else (.ok lsn, ⟨storage.disk.createDirectories.write path (records.flatMap encodeRecord ++
        encodeRecord ⟨lsn, operation, payload⟩), some next, storage.faults⟩) := by
  have hcontents : (storage.disk.createDirectories.read path).getD [] =
      records.flatMap encodeRecord := h.contents
  rw [append_of_faults_eq_nil h.faults]
  unfold appendUnder
  simp only [Procedure.modify_bind, Procedure.bind_of_ok hrun, Procedure.get_bind, hcontents,
    reduceCtorEq, if_false]
  split_ifs <;> rfl

/-- The file with one more record. -/
theorem Holds.written (h : Holds storage records) {record : WalRecord} {next : ℕ}
    (hlsn : record.lsn < 2 ^ 64) (hnext : next < 2 ^ 64)
    (hsize : ¬ Disk.maxFileSize ≤ (records.flatMap encodeRecord ++ encodeRecord record).length) :
    Holds ⟨storage.disk.createDirectories.write path (records.flatMap encodeRecord ++
      encodeRecord record), some next, storage.faults⟩ (records ++ [record]) where
  contents := by simp
  fits := by
    rw [List.forall_mem_append]
    refine ⟨h.fits, List.forall_mem_singleton.2 ⟨hlsn, ?_⟩⟩
    rw [List.length_append, length_encodeRecord, Disk.maxFileSize] at hsize
    omega
  next := by
    rintro _ ⟨⟩
    exact hnext
  faults := h.faults

theorem nextLsn_disk (storage : Storage) : (nextLsn storage).2.disk = storage.disk := by
  rw [nextLsn, Procedure.get_bind]
  cases storage.nextLsn with
  | some next => rfl
  | none => cases readAll storage.disk <;> rfl

/-- Appending writes the log file or nothing, whatever fails and whatever that file holds. -/
theorem appendUnder_disk (fault : Option AppendFault) (operation : WalOperation) (payload : Str)
    (storage : Storage) :
    (appendUnder fault operation payload storage).2.disk = storage.disk ∨
      (appendUnder fault operation payload storage).2.disk = storage.disk.createDirectories ∨
      ∃ contents, (appendUnder fault operation payload storage).2.disk =
        storage.disk.createDirectories.write path contents := by
  have hdisk := nextLsn_disk { storage with disk := storage.disk.createDirectories }
  rcases hrun : nextLsn { storage with disk := storage.disk.createDirectories } with ⟨e | lsn, mid⟩
  · -- the log could not be read for the next number
    rw [hrun] at hdisk
    unfold appendUnder
    split
    · exact .inl rfl
    · simp only [Procedure.modify_bind, Procedure.bind_of_error hrun]
      exact .inr (.inl hdisk)
  · rw [hrun] at hdisk
    have hwrite (contents : Str) : mid.disk.write path contents =
        storage.disk.createDirectories.write path contents := congrArg (Disk.write · path _) hdisk
    unfold appendUnder
    split
    · exact .inl rfl
    · simp only [Procedure.modify_bind, Procedure.bind_of_ok hrun]
      split_ifs
      · exact .inr (.inl hdisk)
      · simp only [Procedure.get_bind]
        split
        · exact .inr (.inr ⟨_, hwrite _⟩)
        · split_ifs
          · exact .inr (.inl hdisk)
          · exact .inr (.inr ⟨_, hwrite _⟩)

theorem append_disk (operation : WalOperation) (payload : Str) (storage : Storage) :
    (append operation payload storage).2.disk = storage.disk ∨
      (append operation payload storage).2.disk = storage.disk.createDirectories ∨
      ∃ contents, (append operation payload storage).2.disk =
        storage.disk.createDirectories.write path contents :=
  appendUnder_disk _ operation payload { storage with faults := storage.faults.tail }

/-- Appending adds a record, or fails and leaves the records. -/
theorem Holds.append_cases (h : Holds storage records) (operation : WalOperation) (payload : Str) :
    ∃ storage', SameFiles storage.disk storage'.disk ∧
      ((∃ lsn, append operation payload storage = (.ok lsn, storage') ∧
        Holds storage' (records ++ [⟨lsn, operation, payload⟩])) ∨
      append operation payload storage = (.error appendFailure, storage') ∧
        Holds storage' records) := by
  have hcreated : Holds { storage with disk := storage.disk.createDirectories } records :=
    ⟨h.contents, h.fits, h.next, h.faults⟩
  obtain ⟨lsn, next, hlsn, hnext, hrun⟩ := hcreated.nextLsn_eq
  have happ := h.append_eq hrun operation payload
  by_cases hsize : Disk.maxFileSize ≤ (records.flatMap encodeRecord ++
      encodeRecord ⟨lsn, operation, payload⟩).length
  · rw [if_pos hsize] at happ
    refine ⟨⟨storage.disk.createDirectories, some next, storage.faults⟩,
      ⟨fun _ => rfl, fun _ _ => rfl⟩,
      .inr ⟨happ, h.contents, h.fits, ?_, h.faults⟩⟩
    rintro _ ⟨⟩
    exact hnext
  · rw [if_neg hsize] at happ
    exact ⟨_, sameFiles_write storage.disk _, .inl ⟨lsn, happ, h.written hlsn hnext hsize⟩⟩

theorem reset_eq (storage : Storage) : reset storage =
    (.ok (), ⟨storage.disk.createDirectories.write path [], some 1, storage.faults⟩) := rfl

theorem holds_reset (disk : Disk) (hfaults : storage.faults = []) :
    Holds ⟨disk.createDirectories.write path [], some 1, storage.faults⟩ [] where
  contents := by simp
  fits _ h := absurd h List.not_mem_nil
  next := by rintro _ ⟨⟩; norm_num
  faults := hfaults

theorem holds_empty : Holds ⟨.empty, none, []⟩ [] where
  contents := rfl
  fits _ h := absurd h List.not_mem_nil
  next := by rintro _ ⟨⟩
  faults := rfl

/-- A new executor reads the same log. -/
theorem Holds.restart (h : Holds storage records) : Holds ⟨storage.disk, none, []⟩ records where
  contents := h.contents
  fits := h.fits
  next := by rintro _ ⟨⟩
  faults := rfl

/-- Files other than the log do not matter to it. -/
theorem Holds.of_read_eq (h : Holds storage records) {disk : Disk}
    (hread : disk.read path = storage.disk.read path) :
    Holds { storage with disk := disk } records where
  contents := by rw [← h.contents, ← hread]
  fits := h.fits
  next := h.next
  faults := h.faults

end WriteAheadLog

end VertexDB
