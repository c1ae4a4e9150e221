import VertexDB.Execution.Transactions

/-!
# A torn record at the end of the log

A crash while a record is being appended leaves a part of it at the end of the log file.  Reading
the log then throws.  Recovery takes that as an empty log, and loses the whole records before the
torn one too (`start_torn`); the next append reads the log to find its sequence number, and throws
(`appendWal_torn`).
-/

namespace VertexDB

open Ascii Procedure WriteAheadLog

namespace QueryExecutor

variable {platform : Platform} {s : QueryExecutor} {disk : Disk}

/-- The files with this log. -/
def withLog (disk : Disk) (contents : Str) : Disk := disk.write WriteAheadLog.path contents

/-- The log is `records`, all whole, and a part of one more. -/
structure Torn (records : List WalRecord) (tail : Str) : Prop where
  fits : ∀ record ∈ records, Fits record
  tail_ne : tail ≠ []
  torn : ∃ record, Fits record ∧ tail <+: encodeRecord record ∧ tail ≠ encodeRecord record

theorem readAll_withLog (disk : Disk) (contents : Str) :
    readAll (withLog disk contents) = readRecords contents.length contents := by
  rw [readAll, withLog, Disk.read_write, if_pos rfl]

theorem readAll_torn {records : List WalRecord} {tail : Str} (h : Torn records tail) (disk : Disk) :
    ∃ e, readAll (withLog disk (records.flatMap encodeRecord ++ tail)) = .error e := by
  obtain ⟨record, hrecord, htail, htorn⟩ := h.torn
  rw [readAll_withLog]
  exact readRecords_torn h.fits hrecord h.tail_ne htail htorn

/-- Recovery ignores a log that it cannot read. -/
theorem start_unreadable {e : Exception} (h : readAll disk = .error e) :
    start platform disk =
      ⟨(StorageManager.loadFirstDatabase platform disk).toOption, none, ⟨disk, none, []⟩,
        .new, none,
        .empty, false⟩ := by
  rw [start, recoverFromStorage]
  cases StorageManager.loadFirstDatabase platform disk with
  | error _ => simp only [recoverFromWal, h]; rfl
  | ok database => simp only [recoverFromWal, h]; rfl

/-- Recovery from a torn log is recovery from no log. -/
theorem start_torn {records : List WalRecord} {tail : Str} (h : Torn records tail) (disk : Disk) :
    (start platform (withLog disk (records.flatMap encodeRecord ++ tail))).view =
      (StorageManager.loadFirstDatabase platform
        (withLog disk (records.flatMap encodeRecord ++ tail))).toOption.map Database.view := by
  obtain ⟨e, he⟩ := readAll_torn h disk
  rw [start_unreadable he]
  rfl

/-- Without a cached number, an append to a log that cannot be read throws. -/
theorem appendWal_unreadable {e : Exception} (hread : readAll s.storage.disk = .error e)
    (hcached : s.storage.nextLsn = none) (hfaults : s.storage.faults = [])
    (hreplaying : s.replayingWal = false) (operation : WalOperation) (payload : Str) :
    (appendWal operation payload s).1 = .error e := by
  have hnext : nextLsn { s.storage with disk := s.storage.disk.createDirectories } =
      (.error e, { s.storage with disk := s.storage.disk.createDirectories }) := by
    have hread' : readAll s.storage.disk.createDirectories = .error e := hread
    rw [nextLsn, get_bind]
    simp only [hcached, hread']
    rfl
  have happend : (WriteAheadLog.append operation payload s.storage).1 = .error e := by
    rw [append_of_faults_eq_nil hfaults]
    unfold appendUnder
    simp only [modify_bind, bind_of_error hnext]
  rw [appendWal_apply, if_neg (by rw [hreplaying]; simp), happend]
  rfl

theorem appendWal_torn {records : List WalRecord} {tail : Str} (h : Torn records tail)
    (platform : Platform) (disk : Disk) (operation : WalOperation) (payload : Str) :
    ∃ e, (appendWal operation payload
      (start platform (withLog disk (records.flatMap encodeRecord ++ tail)))).1 = .error e := by
  obtain ⟨e, he⟩ := readAll_torn h disk
  rw [start_unreadable he]
  exact ⟨e, appendWal_unreadable he rfl rfl rfl operation payload⟩

/-- The torn record is lost and nothing else: recovery is that from the whole records, and some
record can be appended after it. -/
structure SurvivesTear (platform : Platform) (disk : Disk) (records : List WalRecord)
    (tail : Str) : Prop where
  recovered : (start platform (withLog disk (records.flatMap encodeRecord ++ tail))).view =
    (start platform (withLog disk (records.flatMap encodeRecord))).view
  appends : ∃ operation payload s', appendWal operation payload
    (start platform (withLog disk (records.flatMap encodeRecord ++ tail))) = (.ok (), s')

/-- **No torn log is survived**, wherever the record is cut and whatever comes before it: nothing
can be appended any more. -/
theorem not_survivesTear_of_torn {records : List WalRecord} {tail : Str} (h : Torn records tail)
    (platform : Platform) (disk : Disk) : ¬ SurvivesTear platform disk records tail := by
  rintro ⟨-, operation, payload, s', hok⟩
  obtain ⟨e, he⟩ := appendWal_torn h platform disk operation payload
  rw [hok] at he
  cases he

/-- The record of `CREATE DATABASE d;`. -/
def madeRecord : WalRecord := ⟨1, .createDatabase, bytes "d"⟩

/-- The first five bytes of the next record. -/
def fiveBytes : Str := (encodeRecord ⟨2, .createTable, bytes "CREATE TABLE t (a INT);"⟩).take 5

theorem torn_fiveBytes : Torn [madeRecord] fiveBytes where
  fits := List.forall_mem_singleton.2 ⟨by decide, by decide⟩
  tail_ne := by decide
  torn := by
    refine ⟨⟨2, .createTable, bytes "CREATE TABLE t (a INT);"⟩, ⟨by decide, by decide⟩,
      List.take_prefix _ _, ?_⟩
    intro heq
    have := congrArg List.length heq
    rw [fiveBytes, List.length_take, length_encodeRecord] at this
    simp only at this
    omega

theorem not_survivesTear_fiveBytes :
    ¬ SurvivesTear (.byInsertion true) .empty [madeRecord] fiveBytes :=
  not_survivesTear_of_torn torn_fiveBytes (.byInsertion true) .empty

/-- An executor makes a database and crashes while it logs the next command.  The database is
gone, although its record is whole. -/
theorem lost_fiveBytes :
    madeDatabase.storage.disk.read WriteAheadLog.path = some ([madeRecord].flatMap encodeRecord) ∧
      Torn [madeRecord] fiveBytes ∧
      ¬ SurvivesTear (.byInsertion true) madeDatabase.storage.disk [madeRecord] fiveBytes := by
  refine ⟨by decide +kernel, torn_fiveBytes, fun h => ?_⟩
  have hwhole : (start (.byInsertion true) (withLog madeDatabase.storage.disk
      ([madeRecord].flatMap encodeRecord))).view.isSome = true := by decide +kernel
  have htorn : (start (.byInsertion true) (withLog madeDatabase.storage.disk
      ([madeRecord].flatMap encodeRecord ++ fiveBytes))).view.isSome = false := by decide +kernel
  rw [h.recovered, hwhole] at htorn
  cases htorn

end QueryExecutor

end VertexDB
