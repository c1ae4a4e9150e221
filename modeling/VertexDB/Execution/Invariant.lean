import VertexDB.Execution.Frames
import VertexDB.Persistence.Snapshot

/-!
# The invariant of the executor

In every state that the executor reaches, whether its commands return or throw, the active
database and the copy taken at `BEGIN` are sound (`Consistent`), whatever the log file holds.  If
the log file is a sequence of records to begin with, it stays one (`Valid`).
-/

namespace VertexDB

open Ascii

namespace QueryExecutor

/-- The databases are sound; `replaying` says whether the log is being replayed. -/
structure Consistent (replaying : Bool) (s : QueryExecutor) : Prop where
  sound : s.Sound
  snapshot : ∀ database, s.transactionSnapshot = some database → database.Sound
  replaying_eq : s.replayingWal = replaying

/-- The invariant; `replaying` says whether the log is being replayed. -/
structure Valid (replaying : Bool) (s : QueryExecutor) : Prop where
  sound : s.Sound
  snapshot : ∀ database, s.transactionSnapshot = some database → database.Sound
  log : ∃ records, WriteAheadLog.Holds s.storage records
  replaying_eq : s.replayingWal = replaying

variable {platform : Platform} {replaying : Bool} {s : QueryExecutor}

open Procedure

/-! ### Steps of commands -/

theorem Consistent.withDatabase (h : s.Consistent replaying) {database : Database}
    (hs : database.Sound) : (s.withDatabase (some database)).Consistent replaying :=
  ⟨sound_withDatabase hs, h.snapshot, h.replaying_eq⟩

theorem consistent_putDatabase {database : Database} (h : database.Sound) :
    Keeps (Consistent replaying) (putDatabase database) := fun _ hs => hs.withDatabase h

theorem consistent_appendWal (operation : WalOperation) (payload : Str) :
    Keeps (Consistent replaying) (appendWal operation payload) := by
  intro s hs
  obtain ⟨storage, happend⟩ := appendWal_storage operation payload s
  rw [happend]
  exact ⟨hs.sound, hs.snapshot, hs.replaying_eq⟩

/-- Log a change, if there was one, and answer. -/
theorem consistent_logged {c : Prop} [Decidable c] (operation : WalOperation) (payload : Str)
    (result : QueryResult) : Keeps (Consistent replaying)
      (if c then (appendWal operation payload >>= fun _ => pure result : Exec QueryResult)
        else pure result) :=
  keeps_ite (fun _ => (consistent_appendWal operation payload).bind fun _ => keeps_pure _)
    fun _ => keeps_pure _

/-! ### Commands on the collection of tables -/

theorem consistent_executeCreateDatabase (command : CreateDatabase) :
    Keeps (Consistent replaying) (executeCreateDatabase command) := by
  refine (consistent_appendWal _ _).bind fun _ => ?_
  cases hmake : Database.make command.name with
  | error e => exact fun _ hs => hs
  | ok database =>
    rw [lift_ok_bind]
    exact (consistent_putDatabase (Database.sound_make hmake).1).bind fun _ => keeps_pure _

theorem consistent_executeCreateTable (command : CreateTable) :
    Keeps (Consistent replaying) (executeCreateTable command) := by
  refine keeps_get_bind fun s hs => ?_
  cases hd : s.database with
  | none => exact hs
  | some database =>
    have hspec := Database.view_createTable (hs.sound database hd) command.name command.columns
    cases hc : database.createTable command.name command.columns with
    | error e => simp only [hc]; exact hs
    | ok p =>
      obtain ⟨created, database'⟩ := p
      rw [hc] at hspec
      simp only [hc]
      exact ((consistent_putDatabase hspec.1).bind fun _ => consistent_logged _ _ _) s hs

theorem consistent_executeDropTable (command : DropTable) :
    Keeps (Consistent replaying) (executeDropTable command) := by
  refine keeps_get_bind fun s hs => ?_
  cases hd : s.database with
  | none => exact hs
  | some database =>
    have hspec := Database.view_dropTable (hs.sound database hd) command.name
    exact ((consistent_putDatabase hspec.1).bind fun _ => consistent_logged _ _ _) s hs

theorem consistent_executeRenameTable (command : RenameTable) :
    Keeps (Consistent replaying) (executeRenameTable command) := by
  refine keeps_get_bind fun s hs => ?_
  cases hd : s.database with
  | none => exact hs
  | some database =>
    have hspec := Database.view_renameTable (hs.sound database hd) command.oldName command.newName
    rcases hc : database.renameTable command.oldName command.newName with ⟨e | renamed, database'⟩
    · rw [hc] at hspec
      simp only [hc]
      exact hs.withDatabase hspec.1
    · rw [hc] at hspec
      simp only [hc]
      exact ((consistent_putDatabase hspec.1).bind fun _ => consistent_logged _ _ _) s hs

/-! ### Commands on one table -/

theorem Consistent.put {db : Database} {name : Str} {table table' : Table}
    (hs : s.Consistent replaying) (h : Holding s db name table) (hr : table'.Reached)
    (hname : table'.name = table.name) :
    (s.withDatabase (some (putIn db name table'))).Consistent replaying :=
  hs.withDatabase (h.put hr hname).sound

theorem consistent_insertLoop {db : Database} {name : Str} {table : Table} (rows : List Row)
    (hs : s.Consistent replaying) (h : Holding s db name table) :
    (insertLoop name table rows s).2.Consistent replaying := by
  induction rows generalizing s db table with
  | nil => exact hs
  | cons row rows ih =>
    rw [insertLoop]
    rcases happ : appendWal .insert (insertSql name row) s with ⟨e | _, mid⟩
    · rw [bind_of_error happ]
      have := consistent_appendWal .insert (insertSql name row) s hs
      rwa [happ] at this
    · rw [bind_of_ok happ]
      have hmid := consistent_appendWal .insert (insertSql name row) s hs
      have hdb := appendWal_database .insert (insertSql name row) s
      rw [happ] at hmid hdb
      have hh : Holding mid db name table := ⟨hdb.trans h.database, h.sound, h.find⟩
      cases hi : table.insert row with
      | error e => exact hmid
      | ok p =>
        obtain ⟨rowId, table'⟩ := p
        obtain ⟨hreached, hname, -⟩ := h.reached.view_insert hi
        rw [lift_ok_bind]
        change ((QueryExecutor.putTable name table' >>= fun _ => insertLoop name table' rows)
          mid).2.Consistent replaying
        rw [hh.putTable_bind]
        exact ih (hmid.put hh hreached hname) (hh.put hreached hname)

theorem consistent_executeInsert (command : Insert) :
    Keeps (Consistent replaying) (executeInsert command) := by
  refine keeps_get_bind fun s hs => ?_
  rcases requireTable_cases hs.sound command.table with ⟨db, table, h⟩ | ⟨e, he, -⟩
  · rw [h.requireTable_eq, lift_ok_bind]
    cases hval : validateRows table.schema command.rows with
    | error e => exact hs
    | ok _ =>
      rw [lift_ok_bind]
      exact Keeps.after (fun _ => keeps_pure _) (consistent_insertLoop command.rows hs h)
  · rw [he]; exact hs

theorem consistent_updateLoop {db : Database} {command : Update} {target : ℕ} {table : Table}
    {rowId : RowId} {rows : List Row} {count : ℕ} (hs : s.Consistent replaying)
    (h : Holding s db command.table table) :
    (updateLoop command target table rowId rows count s).2.Consistent replaying := by
  induction rows generalizing s db table rowId count with
  | nil => exact hs
  | cons row rows ih =>
    rw [updateLoop]
    cases passes table.schema command.where_ row with
    | error e => exact hs
    | ok passed =>
      rw [lift_ok_bind]
      cases passed with
      | false => exact ih hs h
      | true =>
        rw [if_pos rfl]
        cases hu : table.update rowId target command.value with
        | error e => exact hs
        | ok p =>
          obtain ⟨updated, table'⟩ := p
          obtain ⟨-, hreached, hname, -⟩ := h.reached.view_update hu
          rw [lift_ok_bind]
          change ((QueryExecutor.putTable command.table table' >>= fun _ =>
            updateLoop command target table' (rowId + 1) rows
              (if updated then count + 1 else count)) s).2.Consistent replaying
          rw [h.putTable_bind]
          exact ih (hs.put h hreached hname) (h.put hreached hname)

theorem consistent_executeUpdate (command : Update) :
    Keeps (Consistent replaying) (executeUpdate command) := by
  refine keeps_get_bind fun s hs => ?_
  rcases requireTable_cases hs.sound command.table with ⟨db, table, h⟩ | ⟨e, he, -⟩
  · rw [h.requireTable_eq, lift_ok_bind]
    cases columnIndex table.schema command.column with
    | none => exact hs
    | some target =>
      exact Keeps.after (fun _ => consistent_logged _ _ _) (consistent_updateLoop hs h)
  · rw [he]; exact hs

theorem consistent_deleteLoop {db : Database} {command : Delete} {table : Table} {rows : List Row}
    {count : ℕ} (hs : s.Consistent replaying) (h : Holding s db command.table table) :
    (deleteLoop command table rows count s).2.Consistent replaying := by
  induction rows generalizing s db table count with
  | nil => exact hs
  | cons row rows ih =>
    rw [deleteLoop]
    cases passes table.schema command.where_ row with
    | error e => exact hs
    | ok passed =>
      rw [lift_ok_bind]
      cases passed with
      | false => exact ih hs h
      | true =>
        obtain ⟨-, hreached, hname, -⟩ := h.reached.view_erase rows.length
        rcases he : table.erase rows.length with ⟨erased, table'⟩
        rw [he] at hreached hname
        rw [if_pos rfl]
        change ((QueryExecutor.putTable command.table table' >>= fun _ => deleteLoop command table'
          rows (if erased then count + 1 else count)) s).2.Consistent replaying
        rw [h.putTable_bind]
        exact ih (hs.put h hreached hname) (h.put hreached hname)

theorem consistent_executeDelete (command : Delete) :
    Keeps (Consistent replaying) (executeDelete command) := by
  refine keeps_get_bind fun s hs => ?_
  rcases requireTable_cases hs.sound command.table with ⟨db, table, h⟩ | ⟨e, he, -⟩
  · rw [h.requireTable_eq, lift_ok_bind]
    exact Keeps.after (fun _ => consistent_logged _ _ _) (consistent_deleteLoop hs h)
  · rw [he]; exact hs

theorem consistent_executeCreateIndex (command : CreateIndex) :
    Keeps (Consistent replaying) (executeCreateIndex command) := by
  refine keeps_get_bind fun s hs => ?_
  rcases requireTable_cases hs.sound command.table with ⟨db, table, h⟩ | ⟨e, he, -⟩
  · obtain ⟨hreached, hname, -, -⟩ := h.reached.view_createIndex command.name command.column
    rw [h.requireTable_eq, lift_ok_bind]
    refine Keeps.after (fun _ => consistent_logged _ _ _) ?_
    rw [h.putTable_apply]
    exact hs.put h hreached hname
  · rw [he]; exact hs

/-! ### Commands on the storage and on transactions -/

theorem consistent_publish (fault : Option StorageManager.SaveFault) (database : Database) :
    Keeps (Consistent replaying) (publish fault database) :=
  fun _ hs => ⟨hs.sound, hs.snapshot, hs.replaying_eq⟩

theorem consistent_resetWal : Keeps (Consistent replaying) resetWal :=
  fun _ hs => ⟨hs.sound, hs.snapshot, hs.replaying_eq⟩

theorem consistent_executeSaveDatabase (fault : Option StorageManager.SaveFault) :
    Keeps (Consistent replaying) (executeSaveDatabase fault) := by
  refine keeps_get_bind fun s hs => ?_
  cases s.database with
  | none => exact hs
  | some database =>
    exact ((consistent_appendWal _ _).bind fun _ => (consistent_publish _ _).bind fun _ =>
      consistent_resetWal.bind fun _ => keeps_pure _) s hs

theorem sound_databaseToLoad {command : LoadDatabase} {database : Database}
    (h : s.databaseToLoad platform command = .ok database) : database.Sound := by
  unfold databaseToLoad at h
  split at h
  · exact StorageManager.sound_loadDatabase h
  · exact StorageManager.sound_loadDatabase h
  · exact StorageManager.sound_loadFirstDatabase h

theorem consistent_executeLoadDatabase (platform : Platform) (command : LoadDatabase) :
    Keeps (Consistent replaying) (executeLoadDatabase platform command) := by
  refine keeps_get_bind fun s hs => ?_
  cases hload : s.databaseToLoad platform command with
  | error e => exact hs
  | ok database =>
    refine ⟨?_, ?_, hs.replaying_eq⟩
    · rintro _ ⟨⟩; exact sound_databaseToLoad hload
    · rintro _ ⟨⟩

theorem consistent_executeBegin : Keeps (Consistent replaying) executeBegin := by
  refine keeps_get_bind fun s hs => ?_
  cases hd : s.database with
  | none => exact hs
  | some database =>
    by_cases hactive : s.transactionSnapshot.isSome = true
    · simp only [if_pos hactive]; exact hs
    · obtain ⟨copy, hcopy, hsound, -⟩ := Database.view_clone (hs.sound database hd)
      simp only [if_neg hactive, hcopy]
      refine ⟨hs.sound, ?_, hs.replaying_eq⟩
      rintro _ ⟨⟩
      exact hsound

theorem consistent_executeCommit : Keeps (Consistent replaying) executeCommit := by
  refine keeps_get_bind fun s hs => ?_
  cases s.transactionSnapshot with
  | none => exact hs
  | some snapshot =>
    cases s.activeTransaction with
    | none => exact hs
    | some id =>
      cases hc : s.transactionManager.commit id with
      | error e => simp only [hc]; exact hs
      | ok manager =>
        simp only [hc]
        exact ⟨hs.sound, by rintro _ ⟨⟩, hs.replaying_eq⟩

theorem consistent_executeRollback : Keeps (Consistent replaying) executeRollback := by
  refine keeps_get_bind fun s hs => ?_
  cases hsnap : s.transactionSnapshot with
  | none => exact hs
  | some snapshot =>
    cases s.activeTransaction with
    | none => exact hs
    | some id =>
      cases hc : s.transactionManager.rollback id with
      | error e => simp only [hc]; exact hs
      | ok manager =>
        simp only [hc]
        refine ⟨?_, by rintro _ ⟨⟩, hs.replaying_eq⟩
        rintro _ ⟨⟩
        exact hs.snapshot snapshot hsnap

/-! ### Every command -/

/-- **Every command keeps the databases sound**, whether it returns or throws. -/
theorem consistent_executeUnlocked (platform : Platform) (query : Query) :
    Keeps (Consistent replaying) (executeUnlocked platform query) := by
  cases query with
  | createDatabase command => exact consistent_executeCreateDatabase command
  | createTable command => exact consistent_executeCreateTable command
  | dropTable command => exact consistent_executeDropTable command
  | renameTable command => exact consistent_executeRenameTable command
  | listTables => exact fun _ hs => hs
  | insert command => exact consistent_executeInsert command
  | select command => exact fun _ hs => hs
  | update command => exact consistent_executeUpdate command
  | delete command => exact consistent_executeDelete command
  | createIndex command => exact consistent_executeCreateIndex command
  | saveDatabase => exact consistent_executeSaveDatabase none
  | loadDatabase command => exact consistent_executeLoadDatabase platform command
  | beginTransaction => exact consistent_executeBegin
  | commitTransaction => exact consistent_executeCommit
  | rollbackTransaction => exact consistent_executeRollback
  | prepareStatement command =>
    exact fun s hs => ⟨hs.sound, hs.snapshot, hs.replaying_eq⟩
  | executePrepared command => exact fun _ hs => hs
  | exit => exact fun _ hs => hs

/-! ### The log file -/

/-- The log file is a sequence of records. -/
def Logs (s : QueryExecutor) : Prop := ∃ records, WriteAheadLog.Holds s.storage records

theorem valid_iff : s.Valid replaying ↔ s.Consistent replaying ∧ s.Logs :=
  ⟨fun h => ⟨⟨h.sound, h.snapshot, h.replaying_eq⟩, h.log⟩,
    fun h => ⟨h.1.sound, h.1.snapshot, h.2, h.1.replaying_eq⟩⟩

theorem Valid.consistent (h : s.Valid replaying) : s.Consistent replaying := (valid_iff.1 h).1

/-- A step that keeps the databases sound and the log a sequence of records. -/
theorem keeps_valid {α : Type} {x : Exec α} (hc : Keeps (Consistent replaying) x)
    (hl : Keeps Logs x) : Keeps (Valid replaying) x := by
  intro s hs
  exact valid_iff.2 ⟨hc s hs.consistent, hl s hs.log⟩

theorem logs_appendWal (operation : WalOperation) (payload : Str) :
    Keeps Logs (appendWal operation payload) := by
  rintro s ⟨records, hrecords⟩
  rw [appendWal_apply]
  split_ifs
  · exact ⟨records, hrecords⟩
  · obtain ⟨storage', -, ⟨lsn, happ, hholds⟩ | ⟨happ, hholds⟩⟩ :=
      hrecords.append_cases operation payload
    · rw [happ]; exact ⟨_, hholds⟩
    · rw [happ]; exact ⟨_, hholds⟩

theorem logs_publish (fault : Option StorageManager.SaveFault) (database : Database) :
    Keeps Logs (publish fault database) := by
  rintro s ⟨records, hrecords⟩
  obtain ⟨hsame, hread⟩ := StorageManager.saveDatabase_log fault database s.storage
  have hholds := hrecords.of_read_eq hread
  rw [← hsame] at hholds
  exact ⟨records, hholds⟩

theorem logs_resetWal : Keeps Logs resetWal := by
  rintro s ⟨_, hrecords⟩
  exact ⟨[], WriteAheadLog.holds_reset s.storage.disk hrecords.faults⟩

theorem framed_logs (query : Query) : Framed Logs query where
  database _ _ hs := hs
  prepared _ _ _ _ hs := hs
  append operation payload _ := logs_appendWal operation payload
  publish _ := logs_publish
  reset _ := logs_resetWal

theorem keeps_logs_of_storage {α : Type} {x : Exec α}
    (h : ∀ s, (x s).2.storage = s.storage) : Keeps Logs x := by
  intro s hs
  rw [Logs, h s]
  exact hs

/-! ### The invariant with the log -/

theorem Valid.withDatabase (h : s.Valid replaying) {database : Database} (hs : database.Sound) :
    (s.withDatabase (some database)).Valid replaying :=
  valid_iff.2 ⟨h.consistent.withDatabase hs, h.log⟩

theorem Valid.put {db : Database} {name : Str} {table table' : Table} (hs : s.Valid replaying)
    (h : Holding s db name table) (hr : table'.Reached) (hname : table'.name = table.name) :
    (s.withDatabase (some (putIn db name table'))).Valid replaying :=
  hs.withDatabase (h.put hr hname).sound

/-! ### The commands on transactions -/

/-- The state differs in the databases and the bookkeeping of transactions at most. -/
def SameRest (s t : QueryExecutor) : Prop :=
  ∃ database transactionSnapshot transactionManager activeTransaction,
    t = { s with database, transactionSnapshot, transactionManager, activeTransaction }

theorem SameRest.refl (s : QueryExecutor) : SameRest s s := ⟨_, _, _, _, rfl⟩

theorem sameRest_executeLoadDatabase (platform : Platform) (command : LoadDatabase)
    (s : QueryExecutor) : SameRest s (executeLoadDatabase platform command s).2 := by
  rw [executeLoadDatabase, get_bind]
  cases s.databaseToLoad platform command with
  | error e => exact .refl s
  | ok database => exact ⟨_, _, _, _, rfl⟩

theorem sameRest_executeBegin (s : QueryExecutor) : SameRest s (executeBegin s).2 := by
  rw [executeBegin, get_bind]
  cases s.database with
  | none => exact .refl s
  | some database =>
    by_cases hactive : s.transactionSnapshot.isSome = true
    · simp only [if_pos hactive]; exact .refl s
    · simp only [if_neg hactive]
      cases database.clone with
      | error e => exact ⟨_, _, _, _, rfl⟩
      | ok copy => exact ⟨_, _, _, _, rfl⟩

theorem sameRest_executeCommit (s : QueryExecutor) : SameRest s (executeCommit s).2 := by
  rw [executeCommit, get_bind]
  cases s.transactionSnapshot with
  | none => exact .refl s
  | some snapshot =>
    cases s.activeTransaction with
    | none => exact .refl s
    | some id =>
      simp only
      cases s.transactionManager.commit id with
      | error e => exact .refl s
      | ok manager => exact ⟨_, _, _, _, rfl⟩

theorem sameRest_executeRollback (s : QueryExecutor) : SameRest s (executeRollback s).2 := by
  rw [executeRollback, get_bind]
  cases s.transactionSnapshot with
  | none => exact .refl s
  | some snapshot =>
    cases s.activeTransaction with
    | none => exact .refl s
    | some id =>
      simp only
      cases s.transactionManager.rollback id with
      | error e => exact .refl s
      | ok manager => exact ⟨_, _, _, _, rfl⟩

/-- The commands on transactions touch nothing else. -/
theorem sameRest_executeUnlocked {query : Query} (h : ¬ query.Calm) (platform : Platform)
    (s : QueryExecutor) : SameRest s (executeUnlocked platform query s).2 := by
  cases query with
  | loadDatabase command => exact sameRest_executeLoadDatabase platform command s
  | beginTransaction => exact sameRest_executeBegin s
  | commitTransaction => exact sameRest_executeCommit s
  | rollbackTransaction => exact sameRest_executeRollback s
  | _ => exact absurd trivial h

/-- The commands on transactions leave the files alone. -/
theorem storage_executeUnlocked {query : Query} (h : ¬ query.Calm) (platform : Platform)
    (s : QueryExecutor) : (executeUnlocked platform query s).2.storage = s.storage := by
  obtain ⟨_, _, _, _, hrest⟩ := sameRest_executeUnlocked h platform s
  rw [hrest]

/-! ### Every command -/

theorem keeps_appendWal (operation : WalOperation) (payload : Str) :
    Keeps (Valid replaying) (appendWal operation payload) :=
  keeps_valid (consistent_appendWal operation payload) (logs_appendWal operation payload)

theorem keeps_publish (fault : Option StorageManager.SaveFault) (database : Database) :
    Keeps (Valid replaying) (publish fault database) :=
  keeps_valid (consistent_publish fault database) (logs_publish fault database)

theorem keeps_executeSaveDatabase (fault : Option StorageManager.SaveFault) :
    Keeps (Valid replaying) (executeSaveDatabase fault) :=
  keeps_valid (consistent_executeSaveDatabase fault) ((framed_logs _).executeSaveDatabase fault)

theorem keeps_executeLoadDatabase (platform : Platform) (command : LoadDatabase) :
    Keeps (Valid replaying) (executeLoadDatabase platform command) :=
  keeps_valid (consistent_executeLoadDatabase platform command)
    (keeps_logs_of_storage (@storage_executeUnlocked (.loadDatabase command) id platform))

/-- The log stays a sequence of records. -/
theorem logs_executeUnlocked (platform : Platform) (query : Query) :
    Keeps Logs (executeUnlocked platform query) := by
  by_cases hcalm : query.Calm
  · exact (framed_logs query).executeUnlocked hcalm platform
  · exact keeps_logs_of_storage (storage_executeUnlocked hcalm platform)

/-- **Every command keeps the invariant**, whether it returns or throws. -/
theorem keeps_executeUnlocked (platform : Platform) (query : Query) :
    Keeps (Valid replaying) (executeUnlocked platform query) :=
  keeps_valid (consistent_executeUnlocked platform query) (logs_executeUnlocked platform query)

/-- What every command keeps, every statement keeps. -/
theorem keeps_execute_of {P : QueryExecutor → Prop}
    (h : ∀ query, Keeps P (executeUnlocked platform query)) (depth : ℕ) (query : Query) :
    Keeps P (execute platform depth query) := by
  induction depth generalizing query with
  | zero => exact keeps_throw _
  | succ depth ih =>
    by_cases hprepared : ∃ command, query = .executePrepared command
    · obtain ⟨command, rfl⟩ := hprepared
      refine keeps_get_bind fun s hs => ?_
      exact ((keeps_lift _).bind fun _ => (keeps_lift _).bind fun q => ih q) s hs
    · rw [execute]
      · exact h query
      · exact fun command heq => hprepared ⟨command, heq⟩

theorem keeps_execute (depth : ℕ) (query : Query) :
    Keeps (Valid replaying) (execute platform depth query) :=
  keeps_execute_of (keeps_executeUnlocked platform) depth query

/-! ### Recovery -/

/-- What the replay of each record keeps, the replay of all keeps. -/
theorem keeps_replayRecords_of {P : QueryExecutor → Prop} {records : List WalRecord}
    (h : ∀ record ∈ records, Keeps P (replayRecord platform record)) :
    Keeps P (replayRecords platform records) := by
  induction records with
  | nil => exact keeps_pure _
  | cons record records ih =>
    exact (h record List.mem_cons_self).bind fun _ =>
      ih fun r hr => h r (List.mem_cons_of_mem _ hr)

/-- Replaying a record makes a database or runs the command of its text. -/
theorem keeps_replayRecord_of {P : QueryExecutor → Prop} {record : WalRecord}
    (hdatabase : ∀ database, Database.make record.payload = .ok database →
      Keeps P (putDatabase database))
    (h : record.operation ≠ .saveDatabase →
      ¬ (record.operation = .createDatabase ∧ byte ' ' ∉ record.payload) →
      ∀ query, Parser.parse record.payload = .ok query → Keeps P (executeUnlocked platform query)) :
    Keeps P (replayRecord platform record) := by
  refine keeps_ite (fun _ => keeps_pure _) fun hsave => keeps_ite (fun _ => ?_) fun hcreate => ?_
  · cases hmake : Database.make record.payload with
    | error e => exact fun _ hs => hs
    | ok database => exact hdatabase database hmake
  · cases hparse : Parser.parse record.payload with
    | error e => exact fun _ hs => hs
    | ok query => exact (h hsave hcreate query hparse).bind fun _ => keeps_pure _

theorem mem_of_mem_afterLastSave {records : List WalRecord} {record : WalRecord}
    (h : record ∈ afterLastSave records) : record ∈ records := by
  induction records with
  | nil => exact h
  | cons first records ih =>
    rw [afterLastSave] at h
    split_ifs at h
    · exact List.mem_cons_of_mem _ (ih h)
    · exact List.mem_cons_of_mem _ h
    · exact h

/-- What the replay of the records of the log keeps, recovery from the log keeps, if it does not
matter to it whether the log is being replayed nor whether there is a database. -/
theorem recoverFromWal_of {P : QueryExecutor → Prop}
    (hreplaying : ∀ s replayingWal, P s → P { s with replayingWal })
    (hnone : ∀ s, P s → P { s with database := none, replayingWal := false })
    (h : ∀ records, WriteAheadLog.readAll s.storage.disk = .ok records → ∀ record ∈ records,
      Keeps P (replayRecord platform record))
    (loadedSnapshot : Bool) (hs : P s) : P (recoverFromWal platform loadedSnapshot s) := by
  rw [recoverFromWal]
  cases hread : WriteAheadLog.readAll s.storage.disk with
  | error e => exact hs
  | ok records =>
    cases records with
    | nil => exact hs
    | cons record records =>
      have hkeeps : Keeps P (replayRecords platform (if loadedSnapshot = true then
          afterLastSave (record :: records) else record :: records)) := by
        refine keeps_replayRecords_of fun r hr => h _ hread r ?_
        split_ifs at hr
        · exact mem_of_mem_afterLastSave hr
        · exact hr
      have hrun := hkeeps { s with replayingWal := true } (hreplaying s true hs)
      simp only
      rcases hreplay : replayRecords platform (if loadedSnapshot = true then
        afterLastSave (record :: records) else record :: records)
          { s with replayingWal := true } with ⟨e | _, s'⟩
      · rw [hreplay] at hrun
        exact hnone s' hrun
      · rw [hreplay] at hrun
        exact hreplaying s' false hrun

/-- What holds of an executor with the database of the snapshot, or with none, and is kept by the
replay of the records of the log, holds of a new executor. -/
theorem start_of {P : QueryExecutor → Prop} {disk : Disk}
    (hreplaying : ∀ s replayingWal, P s → P { s with replayingWal })
    (hnone : ∀ s, P s → P { s with database := none, replayingWal := false })
    (h : ∀ records, WriteAheadLog.readAll disk = .ok records → ∀ record ∈ records,
      Keeps P (replayRecord platform record))
    (hstart : ∀ database, (∀ d, database = some d → d.Sound) →
      P ⟨database, none, ⟨disk, none, []⟩, .new, none, .empty, false⟩) :
    P (start platform disk) := by
  rw [start, recoverFromStorage]
  cases hload : StorageManager.loadFirstDatabase platform disk with
  | error e =>
    simp only
    exact recoverFromWal_of hreplaying hnone h false (hstart none (by rintro _ ⟨⟩))
  | ok database =>
    simp only
    refine recoverFromWal_of hreplaying hnone h true (hstart (some database) ?_)
    rintro _ ⟨⟩
    exact StorageManager.sound_loadFirstDatabase hload

theorem replayingWal_recoverFromWal (loadedSnapshot : Bool) (h : s.replayingWal = false) :
    (recoverFromWal platform loadedSnapshot s).replayingWal = false := by
  rw [recoverFromWal]
  split
  · exact h
  · exact h
  · simp only
    split <;> rfl

theorem replayingWal_start (platform : Platform) (disk : Disk) :
    (start platform disk).replayingWal = false := by
  rw [start, recoverFromStorage]
  split <;> exact replayingWal_recoverFromWal _ rfl

/-- The databases of a new executor are sound, whatever the files hold. -/
theorem consistent_start (platform : Platform) (disk : Disk) :
    (start platform disk).Consistent false := by
  have h : ∃ replaying, (start platform disk).Consistent replaying := by
    refine start_of (P := fun s => ∃ replaying, s.Consistent replaying) ?_ ?_ ?_ ?_
    · rintro s replayingWal ⟨_, hs⟩
      exact ⟨replayingWal, hs.sound, hs.snapshot, rfl⟩
    · rintro s ⟨_, hs⟩
      exact ⟨false, by rintro _ ⟨⟩, hs.snapshot, rfl⟩
    · rintro records - record - s ⟨replaying, hs⟩
      refine ⟨replaying, keeps_replayRecord_of ?_ ?_ s hs⟩
      · exact fun _ hmake => consistent_putDatabase (Database.sound_make hmake).1
      · exact fun _ _ query _ => consistent_executeUnlocked platform query
    · exact fun database hsound => ⟨false, hsound, by rintro _ ⟨⟩, rfl⟩
  obtain ⟨_, hs⟩ := h
  exact ⟨hs.sound, hs.snapshot, replayingWal_start platform disk⟩

/-- A new executor satisfies the invariant. -/
theorem valid_start {storage : Storage} {records : List WalRecord}
    (h : WriteAheadLog.Holds storage records) : (start platform storage.disk).Valid false := by
  refine valid_iff.2 ⟨consistent_start platform storage.disk, ?_⟩
  refine start_of (fun _ _ hs => hs) (fun _ hs => hs) ?_ fun _ _ => ⟨records, h.restart⟩
  rintro _ - record - s hs
  exact keeps_replayRecord_of (fun _ _ _ hs => hs)
    (fun _ _ query _ => logs_executeUnlocked platform query) s hs

end QueryExecutor

end VertexDB
