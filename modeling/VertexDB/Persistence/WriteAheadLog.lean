import VertexDB.Lib.Failure
import VertexDB.Persistence.Disk

/-!
# The write-ahead log

The log is a file of records: a header, a sequence number, the kind of operation and a payload,
which is the text of a statement or the name of a database.  `WriteAheadLog.append` finds the
next sequence number by reading the log when it has not yet done so.

`AppendFault` lists the ways in which the file operations of an append can fail; a storage says
which of them happen to the appends to come.
-/

namespace VertexDB

open Ascii ByteCodec

/-- `WalOperation`, an enumeration over one byte.  `unknown` are the byte values without an
enumerator. -/
inductive WalOperation
  | createDatabase
  | createTable
  | dropTable
  | renameTable
  | insert
  | update
  | delete
  | createIndex
  | saveDatabase
  | unknown (raw : Fin 247)
  deriving DecidableEq

namespace WalOperation

/-- The numeric value of the enumeration. -/
def code : WalOperation → ℕ
  | createDatabase => 0
  | createTable => 1
  | dropTable => 2
  | renameTable => 3
  | insert => 4
  | update => 5
  | delete => 6
  | createIndex => 7
  | saveDatabase => 8
  | unknown raw => raw.val + 9

/-- `static_cast<WalOperation>`. -/
def ofCode (n : ℕ) : WalOperation :=
  match n % 256 with
  | 0 => createDatabase
  | 1 => createTable
  | 2 => dropTable
  | 3 => renameTable
  | 4 => insert
  | 5 => update
  | 6 => delete
  | 7 => createIndex
  | 8 => saveDatabase
  | m + 9 => unknown (Fin.ofNat _ m)

theorem code_lt (op : WalOperation) : op.code < 256 := by
  cases op with
  | unknown raw => have := raw.isLt; simp only [code]; omega
  | _ => decide

theorem ofCode_code (op : WalOperation) : ofCode op.code = op := by
  cases op with
  | unknown raw =>
    have h := raw.isLt
    have hm : (raw.val + 9) % 256 = raw.val + 9 := Nat.mod_eq_of_lt (by omega)
    simp only [ofCode, code, hm, unknown.injEq]
    apply Fin.ext
    simp
  | _ => rfl

end WalOperation

/-- `WalRecord`; the sequence number is a `std::uint64_t`. -/
structure WalRecord where
  lsn : ℕ
  operation : WalOperation
  payload : Str
  deriving DecidableEq

/-- How the file operations of an append fail. -/
inductive AppendFault
  /-- `create_directories` throws. -/
  | createDirectories (what : String)
  /-- The log file cannot be opened. -/
  | openLog
  /-- Writing the record stops after some bytes, before its last one. -/
  | write (written : ℕ)
  deriving DecidableEq

/-- What the storage of an executor consists of: the files, and the sequence number that the log
has cached. -/
structure Storage where
  disk : Disk
  nextLsn : Option ℕ
  /-- What fails in the appends to come; in those after the last of these nothing does. -/
  faults : List (Option AppendFault)
  deriving DecidableEq

namespace WriteAheadLog

/-- The name of the log file. -/
def path : Str := bytes "VertexDB.wal"

/-- `kWalMagic`. -/
def walMagic : ℕ := 0x54435741

/-- `kWalVersion`. -/
def walVersion : ℕ := 1

/-- The bytes of a record. -/
def encodeRecord (record : WalRecord) : Str :=
  leBytes 4 walMagic ++ (leBytes 4 walVersion ++ (leBytes 8 record.lsn ++
    (leBytes 1 record.operation.code ++ (leBytes 8 record.payload.length ++ record.payload))))

/-- `readPod`. -/
def readPod (width : ℕ) : Reader Exception ℕ :=
  readLe (.runtimeError "failed to read WAL record") width

/-- Read one record. -/
def readRecord : Reader Exception WalRecord := do
  let magic ← readPod 4
  let version ← readPod 4
  if magic ≠ walMagic ∨ version ≠ walVersion then
    throw (.runtimeError "invalid WAL record header")
  let lsn ← readPod 8
  let operation ← readPod 1
  let payloadSize ← readPod 8
  let payload ← readBytes (.runtimeError "truncated WAL payload") payloadSize
  return ⟨lsn, .ofCode operation, payload⟩

/-- The loop of `WriteAheadLog::readAll`; every iteration consumes a header, so the length of the
file bounds their number. -/
def readRecords : ℕ → Str → Except Exception (List WalRecord)
  | _, [] => return []
  | 0, _ => throw .outOfFuel
  | fuel + 1, contents => do
    let (record, rest) ← readRecord contents
    let records ← readRecords fuel rest
    return record :: records

/-- `WriteAheadLog::readAll`. -/
def readAll (disk : Disk) : Except Exception (List WalRecord) :=
  match disk.read path with
  | none => return []
  | some contents => readRecords contents.length contents

/-- The sequence number after those of the records. -/
def lsnAfter (records : List WalRecord) : ℕ :=
  records.foldl (fun next record => max next ((record.lsn + 1) % 2 ^ 64)) 1

/-- `WriteAheadLog::nextLsn`. -/
def nextLsn : Procedure Storage Exception ℕ := do
  let storage ← get
  match storage.nextLsn with
  | some next =>
    modify fun storage => { storage with nextLsn := some ((next + 1) % 2 ^ 64) }
    return next
  | none =>
    let records ← Procedure.lift (readAll storage.disk)
    let next := lsnAfter records
    modify fun storage => { storage with nextLsn := some ((next + 1) % 2 ^ 64) }
    return next

/-- `WriteAheadLog::append`, one of whose file operations may fail; it also fails when the file
would grow too large. -/
def appendUnder (fault : Option AppendFault) (operation : WalOperation) (payload : Str) :
    Procedure Storage Exception ℕ := do
  if let some (.createDirectories what) := fault then throw (.runtimeError what)
  modify fun storage => { storage with disk := storage.disk.createDirectories }
  let lsn ← nextLsn
  if fault = some .openLog then throw (.runtimeError "failed to open WAL for append")
  let storage ← get
  let contents := (storage.disk.read path).getD []
  let record := encodeRecord ⟨lsn, operation, payload⟩
  if let some (.write written) := fault then
    modify fun storage => { storage with
      disk := storage.disk.write path (contents ++ record.dropLast.take written) }
    throw (.runtimeError "failed to append WAL record")
  if Disk.maxFileSize ≤ (contents ++ record).length then
    throw (.runtimeError "failed to append WAL record")
  modify fun storage => { storage with disk := storage.disk.write path (contents ++ record) }
  return lsn

/-- `WriteAheadLog::append`, with the fault that is due. -/
def append (operation : WalOperation) (payload : Str) : Procedure Storage Exception ℕ := do
  let storage ← get
  modify fun storage => { storage with faults := storage.faults.tail }
  appendUnder storage.faults.head?.join operation payload

/-- `WriteAheadLog::reset`. -/
def reset : Procedure Storage Exception Unit :=
  modify fun storage => { storage with
    disk := storage.disk.createDirectories.write path [], nextLsn := some 1 }

end WriteAheadLog

end VertexDB
