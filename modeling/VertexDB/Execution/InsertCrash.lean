import VertexDB.Execution.LogRecords
import VertexDB.Execution.SnapshotRuns

/-!
# A crash during INSERT

INSERT appends a record for each of its rows.  A process that crashes between two of them leaves
the records of the first rows, and recovery inserts these and no others (`recovers_firstRows`).
-/

namespace VertexDB

open Ascii Procedure StorageManager

namespace QueryExecutor

open Reference

variable {platform : Platform} {s t : QueryExecutor} {v : Option DatabaseView}

/-! ### The log file is older than the snapshots -/

/-- The log file exists, or there is no snapshot. -/
def LogFirst (s : QueryExecutor) : Prop :=
  (s.storage.disk.rootExists = true ∧
      (s.storage.disk.read WriteAheadLog.path).isSome = true) ∨
    ∀ file contents, s.storage.disk.read file = some contents →
      Disk.extension file ≠ StorageManager.extension

theorem logFirst_appendWal (operation : WalOperation) (payload : Str) :
    Keeps LogFirst (appendWal operation payload) := by
  intro s hs
  rw [appendWal_apply]
  split_ifs
  · exact hs
  · rcases WriteAheadLog.append_disk operation payload s.storage with
      hdisk | hdisk | ⟨contents, hdisk⟩
    · unfold LogFirst
      simp only [hdisk]
      exact hs
    · unfold LogFirst
      simp only [hdisk]
      rcases hs with ⟨-, hlog⟩ | hnone
      · exact .inl ⟨rfl, hlog⟩
      · exact .inr hnone
    · refine .inl ?_
      simp only [hdisk]
      exact ⟨rfl, by rw [Disk.read_write, if_pos rfl]; rfl⟩

/-- A save that fails makes no snapshot; one that succeeds writes the log file last. -/
theorem logFirst_executeSaveDatabase (fault : Option SaveFault) :
    Keeps LogFirst (executeSaveDatabase fault) := by
  refine keeps_get_bind fun s hs => ?_
  cases hdb : s.database with
  | none => exact hs
  | some database =>
    have happend := logFirst_appendWal .saveDatabase database.name s hs
    rcases hrun : appendWal .saveDatabase database.name s with ⟨e | _, mid⟩
    · rw [hrun] at happend
      simp only [bind_of_error hrun]
      exact happend
    rw [hrun] at happend
    simp only [bind_of_ok hrun]
    rcases hsave : saveDatabase fault database mid.storage with ⟨e | _, storage'⟩
    · have hpublish : publish fault database mid =
        (.error e, { mid with storage := storage' }) := by
        rw [publish, focus_apply, hsave]
      rw [bind_of_error hpublish]
      -- the save has left all files but its temporary one and, at most, a removed snapshot
      obtain ⟨-, hroot, hread⟩ := saveDatabase_error hsave
      rcases happend with ⟨-, hlog⟩ | hnone
      · refine .inl ⟨hroot, ?_⟩
        rcases hread _ (temporaryPathFor_ne_path database.name).symm with hsame | ⟨-, hpath, -⟩
        · rwa [hsame]
        · exact absurd hpath.symm (pathFor_ne_path database.name)
      · refine .inr fun file contents hcontents hext => ?_
        have hfile : file ≠ temporaryPathFor database.name := by
          rintro rfl
          exact extension_temporaryPathFor database.name hext
        rcases hread file hfile with hsame | ⟨-, -, hremoved⟩
        · rw [hsame] at hcontents
          exact hnone file contents hcontents hext
        · rw [hremoved] at hcontents
          cases hcontents
    · have hpublish : publish fault database mid = (.ok (), { mid with storage := storage' }) := by
        rw [publish, focus_apply, hsave]
      rw [bind_of_ok hpublish]
      refine .inl ⟨rfl, ?_⟩
      change ((storage'.disk.createDirectories.write WriteAheadLog.path []).read
        WriteAheadLog.path).isSome = true
      rw [Disk.read_write, if_pos rfl]
      rfl

theorem logFirst_executeUnlocked (platform : Platform) (query : Query) :
    Keeps LogFirst (executeUnlocked platform query) := by
  by_cases hcalm : query.Calm
  · by_cases hsave : query = .saveDatabase
    · subst hsave
      exact logFirst_executeSaveDatabase none
    · have hframed : Framed LogFirst query := {
        database := fun _ _ hs => hs
        prepared := fun _ _ _ _ hs => hs
        append := fun operation payload _ => logFirst_appendWal operation payload
        publish := fun heq => absurd heq hsave
        reset := fun heq => absurd heq hsave }
      exact hframed.executeUnlocked hcalm platform
  · intro s hs
    rw [LogFirst, storage_executeUnlocked hcalm platform]
    exact hs

theorem logFirst_start {disk : Disk}
    (h : ∀ database, LogFirst ⟨database, none, ⟨disk, none, []⟩, .new, none, .empty, false⟩) :
    (start platform disk).LogFirst := by
  refine start_of (fun _ _ hs => hs) (fun _ hs => hs) ?_ fun database _ => h database
  rintro _ - record - s hs
  exact keeps_replayRecord_of (fun _ _ _ hs => hs)
    (fun _ _ query _ => logFirst_executeUnlocked platform query) s hs

theorem Reachable.logFirst (h : Reachable platform s) : s.LogFirst := by
  induction h with
  | start => exact logFirst_start fun _ => .inr nofun
  | restart _ ih => exact logFirst_start fun _ => ih
  | statement _ _ depth ih =>
    exact keeps_execute_of (logFirst_executeUnlocked platform) depth _ _ ih

/-- Appending to the log does not change which snapshot is loaded first. -/
theorem LogFirst.loadFirstDatabase_eq (h : LogFirst s)
    (hfiles : WriteAheadLog.SameFiles s.storage.disk t.storage.disk)
    (hlog : (t.storage.disk.read WriteAheadLog.path).isSome = true) (platform : Platform) :
    (loadFirstDatabase platform t.storage.disk).toOption =
      (loadFirstDatabase platform s.storage.disk).toOption := by
  rcases h with ⟨hroot, hlog'⟩ | hnone
  · have hkeys : t.storage.disk.files.keys = s.storage.disk.files.keys := by
      refine Table.keys_eq_of_rel (r := fun _ _ => True) fun file => ?_
      change Option.Rel _ (s.storage.disk.read file) (t.storage.disk.read file)
      by_cases hpath : file = WriteAheadLog.path
      · rw [hpath]
        obtain ⟨contents, hread⟩ := Option.isSome_iff_exists.1 hlog'
        obtain ⟨contents', hread'⟩ := Option.isSome_iff_exists.1 hlog
        rw [hread, hread']
        exact .some trivial
      · rw [hfiles.read file hpath]
        cases s.storage.disk.read file with
        | none => exact .none
        | some contents => exact .some trivial
    unfold loadFirstDatabase
    rw [hkeys, hroot, hfiles.root hroot]
    cases (platform.listing s.storage.disk.files.keys).find?
        (Disk.extension · = StorageManager.extension) with
    | none => rfl
    | some file =>
      have hsame := hfiles.read _ (pathFor_ne_path (Disk.stem file))
      simp only [loadDatabase_congr hsame]
  · have hsaved : Saved platform [] s.storage.disk none := hnone
    obtain ⟨e, he⟩ := loadFirstDatabase_none hsaved
    obtain ⟨e', he'⟩ := loadFirstDatabase_none (hsaved.of_sameFiles hfiles)
    rw [he, he']
    rfl

/-! ### Replaying the records of some rows -/

/-- What recovery makes of a database and of the records of rows: the rows are inserted, and if one
of them cannot be, recovery gives up. -/
def afterInsert (table : Str) (rows : List Row) (v : Option DatabaseView) : Option DatabaseView :=
  if rows = [] then v
  else match step (.insert ⟨table, rows⟩) v with
    | .ok effect => effect.database
    | .error _ => none

/-- The executor at the end of recovery. -/
def finishReplay : Except Exception Unit × QueryExecutor → QueryExecutor
  | (.ok _, executor) => { executor with replayingWal := false }
  | (.error _, executor) => { executor with database := none, replayingWal := false }

theorem recoverFromWal_finish (hr : s.replayingWal = false) {records : List WalRecord}
    (h : WriteAheadLog.readAll s.storage.disk = .ok records) (loadedSnapshot : Bool) :
    recoverFromWal platform loadedSnapshot s =
      finishReplay (replayRecords platform
        (if loadedSnapshot then afterLastSave records else records)
          { s with replayingWal := true }) := by
  rw [recoverFromWal, h]
  cases records with
  | nil =>
    have hnil : (if loadedSnapshot = true then afterLastSave [] else []) = [] := by
      split_ifs <;> rfl
    rw [hnil]
    change s = { s with replayingWal := false }
    rw [← hr]
  | cons record records =>
    simp only
    rcases replayRecords platform (if loadedSnapshot = true then afterLastSave (record :: records)
      else record :: records) { s with replayingWal := true } with ⟨e | _, t⟩
    · rfl
    · rfl

theorem replayRecord_error (platform : Platform) (hs : s.Sound) {table : Str} {row : Row}
    {e : Exception} (h : step (.insert ⟨table, [row]⟩) s.view = .error e) {record : WalRecord}
    (hop : record.operation = .insert) (hpayload : record.payload = insertSql table row)
    (hp : (Logged.insert table row).Printable) :
    ∃ e' t, replayRecord platform record s = (.error e', t) := by
  have hparse : Parser.parse record.payload = .ok (Change.insert ⟨table, [row]⟩).query :=
    parse_payload (.insert table row) hpayload hp
  obtain ⟨e', t, herror⟩ := (performs platform hs (.insert ⟨table, [row]⟩)).error e h
  refine ⟨e', t, ?_⟩
  rw [replayRecord, if_neg (by simp [hop]), if_neg (by simp [hop]), hparse, lift_ok_bind,
    bind_of_error herror]

/-- If the rows cannot all be inserted, replaying their records throws. -/
theorem replayRecords_insert_error (platform : Platform) {table : Str} {rows : List Row}
    (hne : rows ≠ []) {records : List WalRecord}
    (hrecords : records.map (fun record => (record.operation, record.payload)) =
      rows.map fun row => (WalOperation.insert, insertSql table row))
    (hprintable : ∀ row ∈ rows, (Logged.insert table row).Printable) (hs : s.Sound)
    (hr : s.replayingWal = true) {e : Exception}
    (h : step (.insert ⟨table, rows⟩) s.view = .error e) :
    ∃ e' t, replayRecords platform records s = (.error e', t) := by
  induction rows generalizing s records e with
  | nil => exact absurd rfl hne
  | cons row rows ih =>
    cases records with
    | nil => simp at hrecords
    | cons record records =>
      simp only [List.map_cons, List.cons.injEq, Prod.mk.injEq] at hrecords
      obtain ⟨⟨hop, hpayload⟩, hrest⟩ := hrecords
      have hp := hprintable row List.mem_cons_self
      cases hfirst : step (.insert ⟨table, [row]⟩) s.view with
      | error e' =>
        obtain ⟨e'', t, herror⟩ := replayRecord_error platform hs hfirst hop hpayload hp
        exact ⟨e'', t, by rw [replayRecords, bind_of_error herror]⟩
      | ok effect =>
        have hparse : Parser.parse record.payload = .ok (Change.insert ⟨table, [row]⟩).query :=
          parse_payload (.insert table row) hpayload hp
        obtain ⟨d, hrun, hsound, hview⟩ :=
          replays_query platform hfirst (by simp [hop]) (by simp [hop]) hparse s hs hr rfl
        rw [replayRecords_singleton, bind_eq_ok_iff] at hrun
        obtain ⟨_, mid, hrecord, hmid⟩ := hrun
        cases hmid
        -- the first row is inserted, so one of the others cannot be
        obtain ⟨view, found, hv, hfind, hvalid, -, hdb⟩ := step_insert_ok hfirst
        have hrows : rows ≠ [] := by
          rintro rfl
          rw [hfirst] at h
          cases h
        cases hsecond : step (.insert ⟨table, rows⟩) (s.withDatabase d).view with
        | error e' =>
          obtain ⟨e'', t, herror⟩ := ih hrows hrest
            (fun r hr => hprintable r (List.mem_cons_of_mem _ hr)) hsound hr hsecond
          exact ⟨e'', t, by rw [replayRecords, bind_of_ok hrecord, herror]⟩
        | ok effect' =>
          exfalso
          rw [hview, hdb] at hsecond
          obtain ⟨_, found', hv', hfind', hvalid', -, -⟩ := step_insert_ok hsecond
          cases hv'
          simp only [Reference.putTable, SortedMap.find?_insert, if_true,
            Option.some.injEq] at hfind'
          subst hfind'
          obtain ⟨all, hall, -⟩ := step_insert hfind
            (List.forall_mem_cons.2 ⟨hvalid row List.mem_cons_self, hvalid'⟩)
          rw [hv, hall] at h
          cases h

/-- Replaying the records of rows. -/
theorem replayRecords_insert (platform : Platform) {table : Str} {rows : List Row}
    {records : List WalRecord}
    (hrecords : records.map (fun record => (record.operation, record.payload)) =
      rows.map fun row => (WalOperation.insert, insertSql table row))
    (hprintable : ∀ row ∈ rows, (Logged.insert table row).Printable) (hs : s.Sound)
    (hr : s.replayingWal = true) :
    (finishReplay (replayRecords platform records s)).view = afterInsert table rows s.view := by
  unfold afterInsert
  by_cases hrows : rows = []
  · subst hrows
    obtain rfl : records = [] := by simpa using hrecords
    rfl
  · rw [if_neg hrows]
    cases hstep : step (.insert ⟨table, rows⟩) s.view with
    | ok effect =>
      obtain ⟨d, hrun, -, hview⟩ := replays_insert hrecords hprintable hstep s hs hr rfl
      rw [hrun]
      exact hview
    | error e =>
      obtain ⟨e', t, herror⟩ :=
        replayRecords_insert_error platform hrows hrecords hprintable hs hr hstep
      rw [herror]
      rfl

theorem afterInsert_none (table : Str) (rows : List Row) : afterInsert table rows none = none := by
  unfold afterInsert
  by_cases hrows : rows = []
  · rw [if_pos hrows]
  · rw [if_neg hrows]
    rfl

/-! ### Replaying the same records on two disks -/

/-- Two executors that replay a log show the same database. -/
structure Alike (s s' : QueryExecutor) : Prop where
  sound : s.Sound
  sound' : s'.Sound
  replaying : s.replayingWal = true
  replaying' : s'.replayingWal = true
  view : s.view = s'.view

/-- Two runs both throw, or end with executors that show the same database. -/
def EndAlike : Except Exception Unit × QueryExecutor → Except Exception Unit × QueryExecutor → Prop
  | (.ok _, t), (.ok _, t') => Alike t t'
  | (.error _, _), (.error _, _) => True
  | _, _ => False

/-- What a change does depends on the database that the executor shows. -/
theorem Alike.change {s' : QueryExecutor} (h : Alike s s') (platform : Platform) (change : Change) :
    EndAlike ((executeUnlocked platform change.query >>= fun _ => pure ()) s)
      ((executeUnlocked platform change.query >>= fun _ => pure ()) s') := by
  have hs := performs platform h.sound change
  have hs' := performs platform h.sound' change
  rw [← h.view] at hs'
  cases hstep : step change s.view with
  | error e =>
    obtain ⟨_, _, hrun⟩ := hs.error e hstep
    obtain ⟨_, _, hrun'⟩ := hs'.error e hstep
    rw [bind_of_error hrun, bind_of_error hrun']
    trivial
  | ok effect =>
    obtain ⟨d, hrun, hsound, hview⟩ := hs.ok effect s hstep (logAll_of_replaying h.replaying _)
    obtain ⟨d', hrun', hsound', hview'⟩ := hs'.ok effect s' hstep
      (logAll_of_replaying h.replaying' _)
    rw [bind_of_ok hrun, bind_of_ok hrun']
    exact ⟨hsound, hsound', h.replaying, h.replaying', hview.trans hview'.symm⟩

theorem Alike.replayRecord {s' : QueryExecutor} (h : Alike s s') {record : WalRecord}
    (hchanges : record.Changes) :
    EndAlike (replayRecord platform record s) (replayRecord platform record s') := by
  unfold QueryExecutor.replayRecord
  by_cases hsave : record.operation = .saveDatabase
  · rw [if_pos hsave]
    exact h
  rw [if_neg hsave]
  by_cases hcreate : record.operation = .createDatabase ∧ byte ' ' ∉ record.payload
  · rw [if_pos hcreate]
    cases hmake : Database.make record.payload with
    | error e => exact trivial
    | ok database =>
      have hsound := (Database.sound_make hmake).1
      refine ⟨?_, ?_, h.replaying, h.replaying', rfl⟩
      · rintro _ ⟨⟩
        exact hsound
      · rintro _ ⟨⟩
        exact hsound
  · rw [if_neg hcreate]
    cases hparse : Parser.parse record.payload with
    | error e => exact trivial
    | ok query =>
      obtain ⟨change, rfl⟩ := ((hchanges.resolve_left hsave).resolve_left hcreate) query hparse
      exact h.change platform change

theorem Alike.replayRecords {s' : QueryExecutor} (h : Alike s s') {records : List WalRecord}
    (hchanges : ∀ record ∈ records, record.Changes) :
    EndAlike (replayRecords platform records s) (replayRecords platform records s') := by
  induction records generalizing s s' with
  | nil => exact h
  | cons record records ih =>
    rw [List.forall_mem_cons] at hchanges
    have hfirst : EndAlike (QueryExecutor.replayRecord platform record s)
        (QueryExecutor.replayRecord platform record s') := h.replayRecord hchanges.1
    rw [QueryExecutor.replayRecords]
    rcases hrun : QueryExecutor.replayRecord platform record s with ⟨e | _, t⟩ <;>
      rcases hrun' : QueryExecutor.replayRecord platform record s' with ⟨e' | _, t'⟩
    · rw [bind_of_error hrun, bind_of_error hrun']
      trivial
    · rw [hrun, hrun'] at hfirst
      exact hfirst.elim
    · rw [hrun, hrun'] at hfirst
      exact hfirst.elim
    · rw [hrun, hrun'] at hfirst
      rw [bind_of_ok hrun, bind_of_ok hrun']
      exact ih hfirst hchanges.2

/-- Recovery from the log with the records of some rows at its end. -/
theorem recoverFromWal_append {database : Option Database}
    (hsound : ∀ d, database = some d → d.Sound) {disk disk' : Disk} {records new : List WalRecord}
    (hread : WriteAheadLog.readAll disk = .ok records)
    (hread' : WriteAheadLog.readAll disk' = .ok (records ++ new))
    (hchanges : ∀ record ∈ records, record.Changes) {table : Str} {rows : List Row}
    (hnew : new.map (fun record => (record.operation, record.payload)) =
      rows.map fun row => (WalOperation.insert, insertSql table row))
    (hprintable : ∀ row ∈ rows, (Logged.insert table row).Printable) (loadedSnapshot : Bool) :
    (recoverFromWal platform loadedSnapshot
        ⟨database, none, ⟨disk', none, []⟩, .new, none, .empty, false⟩).view =
      afterInsert table rows (recoverFromWal platform loadedSnapshot
        ⟨database, none, ⟨disk, none, []⟩, .new, none, .empty, false⟩).view := by
  -- a save record would hide the records before it
  have hnoSave : ∀ record ∈ new, record.operation ≠ .saveDatabase := by
    intro record hrecord
    have hmem := List.mem_map_of_mem
      (f := fun record : WalRecord => (record.operation, record.payload)) hrecord
    rw [hnew] at hmem
    obtain ⟨row, -, heq⟩ := List.mem_map.1 hmem
    have hop : WalOperation.insert = record.operation := congrArg Prod.fst heq
    rw [← hop]
    exact WalOperation.noConfusion
  have hpending : (if loadedSnapshot then afterLastSave (records ++ new) else records ++ new) =
      (if loadedSnapshot then afterLastSave records else records) ++ new := by
    split_ifs
    · exact afterLastSave_append hnoSave
    · rfl
  -- the two executors differ in their files, which replaying does not read
  have halike : Alike ⟨database, none, ⟨disk, none, []⟩, .new, none, .empty, true⟩
      ⟨database, none, ⟨disk', none, []⟩, .new, none, .empty, true⟩ :=
        ⟨hsound, hsound, rfl, rfl, rfl⟩
  have hend := @Alike.replayRecords platform _ _ halike
    (if loadedSnapshot then afterLastSave records else records) ?_
  swap
  · intro record hrecord
    split_ifs at hrecord
    · exact hchanges record (mem_of_mem_afterLastSave hrecord)
    · exact hchanges record hrecord
  rw [recoverFromWal_finish rfl hread', recoverFromWal_finish rfl hread, hpending,
    replayRecords_append]
  rcases hrun : replayRecords platform (if loadedSnapshot then afterLastSave records else records)
      ⟨database, none, ⟨disk, none, []⟩, .new, none, .empty, true⟩ with ⟨e | _, mid⟩ <;>
    rcases hrun' : replayRecords platform
        (if loadedSnapshot then afterLastSave records else records)
        ⟨database, none, ⟨disk', none, []⟩, .new, none, .empty, true⟩ with ⟨e' | _, mid'⟩
  · rw [bind_of_error hrun']
    exact (afterInsert_none table rows).symm
  · rw [hrun, hrun'] at hend
    exact hend.elim
  · rw [hrun, hrun'] at hend
    exact hend.elim
  · rw [hrun, hrun'] at hend
    rw [bind_of_ok hrun', replayRecords_insert platform hnew hprintable hend.sound' hend.replaying',
      ← hend.view]
    rfl

/-! ### The crash -/

/-- The process crashes while it runs an INSERT that passes validation, when the loop has logged and
inserted the first `count` rows: `t` is the executor at that time. -/
def CrashesAt (s : QueryExecutor) (command : Insert) (count : ℕ) (t : QueryExecutor) : Prop :=
  ∃ table, s.requireTable command.table = .ok table ∧
    validateRows table.schema command.rows = .ok () ∧
    insertLoop command.table table (command.rows.take count) s = (.ok (), t)

/-- At the crash the log has the records of the first rows at its end. -/
theorem CrashesAt.logged {command : Insert} {count : ℕ} (h : CrashesAt s command count t)
    (hs : s.Valid false) {records : List WalRecord}
    (hrecords : WriteAheadLog.Holds s.storage records) :
    ∃ new, new.map (fun record => (record.operation, record.payload)) =
        (command.rows.take count).map (fun row =>
          (WalOperation.insert, insertSql command.table row)) ∧
      WriteAheadLog.Holds t.storage (records ++ new) ∧
      WriteAheadLog.SameFiles s.storage.disk t.storage.disk := by
  obtain ⟨table, hfound, hvalid, hloop⟩ := h
  rcases requireTable_cases hs.sound command.table with ⟨db, table', hholding⟩ | ⟨e, he, -⟩
  · rw [hholding.requireTable_eq] at hfound
    cases hfound
    have hrows : ∀ row ∈ command.rows.take count, validateRow table.view.schema row = .ok () :=
      fun row hrow => validateRows_ok_iff.1 hvalid row (List.mem_of_mem_take hrow)
    rcases hlog : logAll ((command.rows.take count).map fun row =>
      (.insert, insertSql command.table row)) s with ⟨e | _, s'⟩
    · obtain ⟨_, hfails⟩ := insertLoop_error hholding hrows hlog
      rw [hfails] at hloop
      cases hloop
    · obtain ⟨db', hran, -⟩ := insertLoop_ok hholding hrows hlog
      rw [hran] at hloop
      cases hloop
      obtain ⟨new, hnew, hholds, hfiles, -⟩ := logAll_ok hs.replaying_eq hrecords hlog
      exact ⟨new, hnew, hholds, hfiles⟩
  · rw [he] at hfound
    cases hfound

theorem start_afterInsert (h : Reachable platform s) {command : Insert} {count : ℕ}
    (hprintable : ∀ row ∈ command.rows, (Logged.insert command.table row).Printable)
    (hcrash : CrashesAt s command count t) :
    (start platform t.storage.disk).view =
      afterInsert command.table (command.rows.take count) (start platform s.storage.disk).view := by
  obtain ⟨records, hrecords, hchanges⟩ := h.changeLog
  obtain ⟨new, hnew, hholds, hfiles⟩ := hcrash.logged h.valid hrecords
  have hrows : ∀ row ∈ command.rows.take count, (Logged.insert command.table row).Printable :=
    fun row hrow => hprintable row (List.mem_of_mem_take hrow)
  by_cases hnone : command.rows.take count = []
  · -- before the first append nothing has happened
    obtain ⟨table, -, -, hloop⟩ := hcrash
    rw [hnone] at hloop ⊢
    cases hloop
    rfl
  have hlog : (t.storage.disk.read WriteAheadLog.path).isSome = true := by
    refine hholds.isSome_read fun hempty => hnone ?_
    obtain ⟨-, rfl⟩ := List.append_eq_nil_iff.1 hempty
    exact List.map_eq_nil_iff.1 hnew.symm
  -- the snapshots are as they were, so recovery differs in the log only
  have hload := h.logFirst.loadFirstDatabase_eq hfiles hlog platform
  rw [start, start, recoverFromStorage, recoverFromStorage]
  cases hfirst : loadFirstDatabase platform s.storage.disk with
  | error e =>
    rw [hfirst] at hload
    cases hfirst' : loadFirstDatabase platform t.storage.disk with
    | error e' =>
      refine recoverFromWal_append ?_ hrecords.readAll_eq hholds.readAll_eq hchanges
        hnew hrows false
      rintro _ ⟨⟩
    | ok database =>
      rw [hfirst'] at hload
      cases hload
  | ok database =>
    rw [hfirst] at hload
    cases hfirst' : loadFirstDatabase platform t.storage.disk with
    | error e' =>
      rw [hfirst'] at hload
      cases hload
    | ok database' =>
      rw [hfirst'] at hload
      cases hload
      refine recoverFromWal_append ?_ hrecords.readAll_eq hholds.readAll_eq hchanges
        hnew hrows true
      rintro _ ⟨⟩
      exact sound_loadFirstDatabase hfirst

theorem afterInsert_of_valid {view : DatabaseView} {table : Str} {found : TableView}
    {rows : List Row}
    (hfind : view.tables.find? table = some found)
    (hvalid : ∀ row ∈ rows, validateRow found.schema row = .ok ()) :
    afterInsert table rows (some view) =
      some (Reference.putTable view table { found with rows := found.rows ++ rows }) := by
  unfold afterInsert
  by_cases hrows : rows = []
  · rw [if_pos hrows, hrows, List.append_nil, Reference.putTable, SortedMap.insert_self hfind]
  · obtain ⟨effect, hstep, hdatabase⟩ := step_insert hfind hvalid
    rw [if_neg hrows, hstep, ← hdatabase]

/-- **After a crash during INSERT, recovery gives what it would have given before the statement,
with the rows whose records were appended**: these are the first rows of the statement.  Where
recovery would have given the live database, they are appended to its table and the rest is
unchanged. -/
theorem recovers_firstRows (h : Reachable platform s) {sql : Str} {query : Query}
    (hparse : Parser.parse sql = .ok query) {depth : ℕ} {command : Insert}
    (hq : s.resolved depth query = some (.insert command))
    (hdouble : (Query.insert command).NoDouble) {count : ℕ} (hcrash : CrashesAt s command count t) :
    (start platform t.storage.disk).view =
        afterInsert command.table (command.rows.take count) (start platform s.storage.disk).view ∧
      (Recovers platform s → ∃ view table, s.view = some view ∧
        view.tables.find? command.table = some table ∧
        (start platform t.storage.disk).view = some (Reference.putTable view command.table
          { table with rows := table.rows ++ command.rows.take count })) := by
  have hwell : (Query.insert command).WellFormed := (execute_of_resolved platform hparse hq).1
  have hprintable : (Change.insert command).Printable := Change.printable hwell hdouble
  have hstart := start_afterInsert h hprintable hcrash
  refine ⟨hstart, fun hrecovers => ?_⟩
  obtain ⟨table, hfound, hvalid, -⟩ := hcrash
  rcases requireTable_cases h.valid.sound command.table with ⟨db, table', hholding⟩ | ⟨e, he, -⟩
  · rw [hholding.requireTable_eq] at hfound
    cases hfound
    have hview : s.view = some db.view := by rw [QueryExecutor.view, hholding.database]; rfl
    refine ⟨db.view, table.view, hview, hholding.find?_view, ?_⟩
    have hbefore : (start platform s.storage.disk).view = some db.view := hrecovers.trans hview
    rw [hstart, hbefore]
    exact afterInsert_of_valid hholding.find?_view fun row hrow =>
      validateRows_ok_iff.1 hvalid row (List.mem_of_mem_take hrow)
  · rw [he] at hfound
    cases hfound

/-- `INSERT INTO t VALUES (3), (4);`. -/
def twoMore : Insert := ⟨bytes "t", [[.int 3], [.int 4]]⟩

/-- The process crashes between the two appends. -/
theorem crashesAt_twoMore : ∃ t, CrashesAt twoRows twoMore 1 t := by
  have hruns : ((twoRows.requireTable twoMore.table).toOption.any fun table =>
      validateRows table.schema twoMore.rows = .ok () ∧
        (insertLoop twoMore.table table (twoMore.rows.take 1) twoRows).1 = .ok ()) = true := by
    decide +kernel
  rw [Option.any_eq_true] at hruns
  obtain ⟨table, hfound, hran⟩ := hruns
  rw [decide_eq_true_eq] at hran
  cases hrequire : twoRows.requireTable twoMore.table with
  | error e =>
    rw [hrequire] at hfound
    cases hfound
  | ok table' =>
    rw [hrequire] at hfound
    cases hfound
    exact ⟨_, table, hrequire, hran.1, eq_of_fst_eq hran.2⟩

theorem recovers_firstRows_twoMore : ∃ t, CrashesAt twoRows twoMore 1 t ∧
    (start (.byInsertion true) t.storage.disk).view = some ⟨bytes "d", SortedMap.empty.insert
      (bytes "t") ⟨[⟨bytes "a", .int, false⟩], [[.int 1], [.int 2], [.int 3]], .empty⟩⟩ := by
  obtain ⟨t, hcrash⟩ := crashesAt_twoMore
  have hparse : Parser.parse (bytes "INSERT INTO t VALUES (3), (4);") = .ok (.insert twoMore) := by
    decide +kernel
  have hbefore : afterInsert twoMore.table (twoMore.rows.take 1)
      (start (.byInsertion true) twoRows.storage.disk).view =
        some ⟨bytes "d", SortedMap.empty.insert
          (bytes "t") ⟨[⟨bytes "a", .int, false⟩], [[.int 1], [.int 2], [.int 3]], .empty⟩⟩ := by
    decide +kernel
  refine ⟨t, hcrash, ?_⟩
  rw [← hbefore]
  have hresolved : twoRows.resolved 1 (.insert twoMore) = some (.insert twoMore) := rfl
  exact (recovers_firstRows reachable_twoRows hparse hresolved (by decide) hcrash).1

/-- **The recovered table has one of the two rows**: recovery gives neither the database before the
statement nor the one after it. -/
theorem not_allOrNothing_twoMore :
    Reachable (.byInsertion true) twoRows ∧ twoRows.activeTransaction = none ∧
      Parser.parse (bytes "INSERT INTO t VALUES (3), (4);") = .ok (.insert twoMore) ∧
      ∃ t, CrashesAt twoRows twoMore 1 t ∧
        (start (.byInsertion true) t.storage.disk).view ≠ twoRows.view ∧
        (start (.byInsertion true) t.storage.disk).view ≠
          (execute (.byInsertion true) 1 (.insert twoMore) twoRows).2.view := by
  obtain ⟨t, hcrash⟩ := crashesAt_twoMore
  have hparse : Parser.parse (bytes "INSERT INTO t VALUES (3), (4);") = .ok (.insert twoMore) := by
    decide +kernel
  have hprintable : (Change.insert twoMore).Printable :=
    Change.printable (Parser.wellFormed_of_parse hparse) (by decide)
  refine ⟨reachable_twoRows, by decide +kernel, hparse, t, hcrash, ?_⟩
  rw [start_afterInsert reachable_twoRows hprintable hcrash]
  exact ⟨by decide +kernel, by decide +kernel⟩

end QueryExecutor

end VertexDB
