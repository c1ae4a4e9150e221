import VertexDB.Execution.RecoveryRuns

/-!
# A save that stops early

SAVE appends its record to the log, publishes the snapshot and then empties the log.  It stops
early when the process crashes between two of these steps, or when an exception of a file
operation ends it.  From the record on, recovery skips the log when it finds any snapshot, so a
save that has not published must not leave an older snapshot behind.  `recovers_interrupted` says
that this is enough in every run with interrupted saves.
-/

namespace VertexDB

open Ascii Procedure StorageManager

namespace QueryExecutor

variable {platform : Platform} {name : Str} {s s' : QueryExecutor} {v : Option DatabaseView}

/-- Where a save stops: before the snapshot is published, by an exception of a file operation, or
before the log is emptied. -/
inductive SaveStop
  | appended
  | failed (fault : Option SaveFault)
  | published
  deriving DecidableEq

/-- The state that an interrupted save leaves. -/
inductive StopsAt (s : QueryExecutor) : SaveStop → QueryExecutor → Prop
  | appended {database : Database} {s' : QueryExecutor} (hdb : s.database = some database)
    (happend : appendWal .saveDatabase database.name s = (.ok (), s')) : StopsAt s .appended s'
  | failed {fault : Option SaveFault} {e : Exception} {s' : QueryExecutor}
    (herror : executeSaveDatabase fault s = (.error e, s')) : StopsAt s (.failed fault) s'
  | published {database : Database} {mid s' : QueryExecutor} (hdb : s.database = some database)
    (happend : appendWal .saveDatabase database.name s = (.ok (), mid))
    (hpublish : publish none database mid = (.ok (), s')) : StopsAt s .published s'

/-- There is no snapshot on disk, or it shows the live database. -/
def NoOlderSnapshot (platform : Platform) (s : QueryExecutor) : Prop :=
  ∀ database, loadFirstDatabase platform s.storage.disk = .ok database →
    s.view = some database.view

/-- What a save must find if it stops early: no older snapshot before it has published, no
snapshot at all if it removes the old one and cannot put the new one in its place, and index
definitions that read back if it publishes. -/
def StopsSafely (platform : Platform) (s : QueryExecutor) : SaveStop → Prop
  | .appended => NoOlderSnapshot platform s
  | .failed (some (.publish true)) => ∃ e, loadFirstDatabase platform s.storage.disk = .error e
  | .failed _ => NoOlderSnapshot platform s
  | .published => SavesIndexes platform s .saveDatabase

/-! ### After the record of a save -/

/-- The record of a save does no harm unless there is an older snapshot. -/
theorem leads_appended {storage : Storage} {records : List WalRecord} {record : WalRecord}
    (hrecord : record.operation = .saveDatabase)
    (hholds : WriteAheadLog.Holds storage (records ++ [record])) {saved : Option DatabaseView}
    (hsaved : Saved platform name storage.disk saved)
    (hreplay : Replays platform (pending saved records) saved v)
    (hlive : saved = none ∨ saved = v) : Leads platform name storage v := by
  refine ⟨records ++ [record], saved, hholds, hsaved, ?_⟩
  cases saved with
  | none => exact hreplay.append (replays_save hrecord v)
  | some view =>
    obtain rfl : some view = v := by simpa using hlive
    rw [pending, if_pos Option.isSome_some, afterLastSave_of_save hrecord]
    exact replays_nil _

theorem Saved.none_or_live {saved : Option DatabaseView}
    (h : Saved platform name s.storage.disk saved) (hlive : NoOlderSnapshot platform s) :
    saved = none ∨ saved = s.view := by
  cases saved with
  | none => exact .inl rfl
  | some view =>
    obtain ⟨database, hload, -, rfl⟩ := loadFirstDatabase_some h
    exact .inr (hlive database hload).symm

theorem Saved.eq_none {saved : Option DatabaseView} (h : Saved platform name s.storage.disk saved)
    (hnone : ∃ e, loadFirstDatabase platform s.storage.disk = .error e) : saved = none := by
  cases saved with
  | none => rfl
  | some view =>
    obtain ⟨database, hload, -, -⟩ := loadFirstDatabase_some h
    obtain ⟨e, herror⟩ := hnone
    rw [hload] at herror
    cases herror

theorem StopsSafely.failed {fault : Option SaveFault}
    (hsafe : StopsSafely platform s (.failed fault)) {saved : Option DatabaseView}
    (h : Saved platform name s.storage.disk saved) :
    (saved = none ∨ saved = s.view) ∧ (fault = some (.publish true) → saved = none) := by
  unfold StopsSafely at hsafe
  split at hsafe
  · contradiction
  · have hnone := Saved.eq_none h hsafe
    exact ⟨.inl hnone, fun _ => hnone⟩
  · next hnot heq =>
    cases heq
    exact ⟨Saved.none_or_live h hsafe, fun hfault => (hnot (by rw [hfault])).elim⟩
  · contradiction

/-- The exceptions that end a save: of the log, or of the snapshot. -/
theorem executeSaveDatabase_error {fault : Option SaveFault} {e : Exception}
    (h : executeSaveDatabase fault s = (.error e, s')) :
    ∃ database, s.database = some database ∧
      (appendWal .saveDatabase database.name s = (.error e, s') ∨
        ∃ mid, appendWal .saveDatabase database.name s = (.ok (), mid) ∧
          publish fault database mid = (.error e, s')) := by
  rw [executeSaveDatabase, get_bind] at h
  cases hdb : s.database with
  | none => rw [hdb] at h; cases h
  | some database =>
    rw [hdb] at h
    refine ⟨database, rfl, ?_⟩
    rcases bind_eq_error_iff.1 h with happend | ⟨_, mid, happend, hrest⟩
    · exact .inl happend
    · rcases bind_eq_error_iff.1 hrest with hpublish | ⟨_, _, -, hreset⟩
      · exact .inr ⟨mid, happend, hpublish⟩
      · rcases bind_eq_error_iff.1 hreset with hreset | ⟨_, _, -, hpure⟩
        · cases hreset
        · cases hpure

theorem appendWal_failed (hr : s.replayingWal = false) {records : List WalRecord}
    (h : WriteAheadLog.Holds s.storage records) {operation : WalOperation} {payload : Str}
    {e : Exception} (herror : appendWal operation payload s = (.error e, s')) :
    WriteAheadLog.Holds s'.storage records ∧
      WriteAheadLog.SameFiles s.storage.disk s'.storage.disk ∧
        s' = { s with storage := s'.storage } := by
  rw [appendWal_apply, if_neg (by simp [hr])] at herror
  obtain ⟨storage', hfiles, ⟨lsn, hrun, -⟩ | ⟨hrun, hholds⟩⟩ := h.append_cases operation payload
  · rw [hrun] at herror
    cases herror
  · rw [hrun] at herror
    cases herror
    exact ⟨hholds, hfiles, rfl⟩

/-- A save that fails leaves the live database, and what is on disk leads to it. -/
theorem Durable.fail (h : Durable platform name s) (hunder : SaveUnder name s .saveDatabase)
    {fault : Option SaveFault} (hsafe : StopsSafely platform s (.failed fault)) {e : Exception}
    (herror : executeSaveDatabase fault s = (.error e, s')) :
    Leads platform name s'.storage s'.view := by
  obtain ⟨records, saved, hholds, hsaved, hreplay⟩ := h.leads
  obtain ⟨hlive, hremoved⟩ := hsafe.failed hsaved
  obtain ⟨database, hdb, happend | ⟨mid, happend, hpublish⟩⟩ := executeSaveDatabase_error herror
  · obtain ⟨hholds', hfiles, hsame⟩ := appendWal_failed h.valid.replaying_eq hholds happend
    rw [show s'.view = s.view by rw [hsame]; rfl]
    exact ⟨records, saved, hholds', hsaved.of_sameFiles hfiles, hreplay⟩
  · obtain ⟨record, hrecord, hholds', hfiles, hsame⟩ :=
      appendSave_ok h.valid.replaying_eq hholds happend
    have hmid : mid.view = s.view := by rw [hsame]; rfl
    rcases hrun : saveDatabase fault database mid.storage with ⟨e' | _, storage'⟩
    swap
    · rw [publish, focus_apply, hrun] at hpublish
      cases hpublish
    rw [publish, focus_apply, hrun] at hpublish
    cases hpublish
    have hname := hunder rfl database hdb
    have hsaved' := (hsaved.of_sameFiles hfiles).of_saveDatabase_error hname hremoved hrun
    obtain ⟨hsame', hread⟩ := saveDatabase_log fault database mid.storage
    rw [hrun] at hsame' hread
    have hlog : WriteAheadLog.Holds storage' (records ++ [record]) := by
      have := hholds'.of_read_eq hread
      rwa [← hsame'] at this
    change Leads platform name storage' mid.view
    rw [hmid]
    exact leads_appended hrecord hlog hsaved' hreplay hlive

/-- A save that stops safely leaves a disk that leads to the live database. -/
theorem Durable.stop (h : Durable platform name s) (hunder : SaveUnder name s .saveDatabase)
    {stop : SaveStop} (hsafe : StopsSafely platform s stop) (hstop : StopsAt s stop s') :
    Durable platform name s' := by
  obtain ⟨records, saved, hholds, hsaved, hreplay⟩ := h.leads
  cases hstop with
  | @failed fault e _ herror =>
    refine ⟨?_, h.fail hunder hsafe herror⟩
    have := keeps_executeSaveDatabase fault s h.valid
    rwa [herror] at this
  | @appended database _ hdb happend =>
    obtain ⟨record, hrecord, hholds', hfiles, hsame⟩ :=
      appendSave_ok h.valid.replaying_eq hholds happend
    -- the record is logged and the snapshot is still the old one
    have hvalid := keeps_appendWal .saveDatabase database.name s h.valid
    rw [happend] at hvalid
    refine ⟨hvalid, ?_⟩
    rw [show s'.view = s.view by rw [hsame]; rfl]
    exact leads_appended hrecord hholds' (hsaved.of_sameFiles hfiles) hreplay
      (Saved.none_or_live hsaved hsafe)
  | @published database mid _ hdb happend hpublish =>
    obtain ⟨record, hrecord, hholds', hfiles, hsame⟩ :=
      appendSave_ok h.valid.replaying_eq hholds happend
    have hview : s.view = some database.view := by rw [view, hdb]; rfl
    have hsound := h.valid.sound database hdb
    -- the new snapshot is there, and the log is not checkpointed yet
    obtain ⟨-, hleads, hsame'⟩ := leads_publish hsound (hunder rfl _ hdb)
      (hsaved.of_sameFiles hfiles) hrecord hholds' hpublish
    rw [(readBackView_eq_iff hsound).2 (hsafe rfl _ hview)] at hleads
    have hvalid := ((keeps_appendWal .saveDatabase database.name).bind
      fun _ => keeps_publish none database) s h.valid
    rw [bind_of_ok happend, hpublish] at hvalid
    refine ⟨hvalid, ?_⟩
    have hview' : s'.view = s.view := by rw [hsame', hsame]; rfl
    rw [hview', hview]
    exact hleads

/-! ### Runs with interrupted saves -/

/-- The states that an executor reaches from an empty storage root by restarts, by statements,
which may throw, and by saves that stop early.  Statements and interruptions must be allowed in the
state in which they happen. -/
inductive InterruptedRun (platform : Platform) (allowed : QueryExecutor → Query → Prop)
    (mayStop : QueryExecutor → SaveStop → Prop) : QueryExecutor → Prop
  | start : InterruptedRun platform allowed mayStop (start platform .empty)
  | restart {s : QueryExecutor} (h : InterruptedRun platform allowed mayStop s) :
    InterruptedRun platform allowed mayStop (QueryExecutor.start platform s.storage.disk)
  | returns {s s' : QueryExecutor} (h : InterruptedRun platform allowed mayStop s) {sql : Str}
    {query q : Query} (hparse : Parser.parse sql = .ok query) (depth : ℕ)
    (hq : s.resolved depth query = some q) (hallowed : allowed s q) {result : QueryResult}
    (hok : execute platform depth query s = (.ok result, s')) :
    InterruptedRun platform allowed mayStop s'
  | throws {s s' : QueryExecutor} (h : InterruptedRun platform allowed mayStop s) {sql : Str}
    {query : Query} (hparse : Parser.parse sql = .ok query) (depth : ℕ)
    (hallowed : ∀ q, s.resolved depth query = some q → allowed s q) {e : Exception}
    (herror : execute platform depth query s = (.error e, s')) (hfile : ¬ FileFailure e) :
    InterruptedRun platform allowed mayStop s'
  | interrupted {s s' : QueryExecutor} (h : InterruptedRun platform allowed mayStop s)
    {stop : SaveStop} (hmay : mayStop s stop) (hstop : StopsAt s stop s') :
    InterruptedRun platform allowed mayStop s'

/-- A command of a transaction. -/
def Transactional : Query → Prop
  | .beginTransaction | .commitTransaction | .rollbackTransaction => True
  | _ => False

instance (query : Query) : Decidable (Transactional query) := match query with
  | .beginTransaction | .commitTransaction | .rollbackTransaction => instDecidableTrue
  | .createDatabase _ | .createTable _ | .dropTable _ | .renameTable _ | .createIndex _
  | .insert _ | .update _ | .delete _ | .select _ | .listTables | .saveDatabase
  | .loadDatabase _ | .prepareStatement _ | .executePrepared _ | .exit => instDecidableFalse

/-- A statement outside transactions, without doubles; a save is under the name. -/
structure OutsideStatement (name : Str) (s : QueryExecutor) (query : Query) : Prop where
  outside : ¬ Transactional query
  noDouble : query.NoDouble
  saveUnder : SaveUnder name s query

instance (name : Str) (s : QueryExecutor) (query : Query) :
    Decidable (OutsideStatement name s query) :=
  decidable_of_iff (¬ Transactional query ∧ query.NoDouble ∧ SaveUnder name s query)
    ⟨fun h => ⟨h.1, h.2.1, h.2.2⟩, fun h => ⟨h.1, h.2, h.3⟩⟩

theorem PlainStatement.outside {query : Query} (h : PlainStatement name s query) :
    OutsideStatement name s query := by
  refine ⟨?_, h.noDouble, h.saveUnder⟩
  have hplain := h.plain
  cases query <;> first | exact id | exact absurd hplain id

/-- LOAD reads the database that is live. -/
def LoadsLive (platform : Platform) (s : QueryExecutor) (query : Query) : Prop :=
  ∀ command database, query = .loadDatabase command →
    s.databaseToLoad platform command = .ok database → s.view = some database.view

theorem Durable.load (h : Durable platform name s) {command : LoadDatabase}
    (hlive : LoadsLive platform s (.loadDatabase command)) {result : QueryResult}
    (hok : executeLoadDatabase platform command s = (.ok result, s')) :
    Durable platform name s' := by
  have hvalid : s'.Valid false := by
    have := keeps_executeLoadDatabase platform command s h.valid
    rwa [hok] at this
  rw [executeLoadDatabase, get_bind] at hok
  cases hload : s.databaseToLoad platform command with
  | error e => rw [hload] at hok; cases hok
  | ok database =>
    rw [hload] at hok
    cases hok
    exact h.of_same hvalid rfl (hlive command database rfl hload).symm

theorem Durable.returns (h : Durable platform name s) {query : Query} (hwell : query.WellFormed)
    (hstatement : OutsideStatement name s query) (hindexes : SavesIndexes platform s query)
    (hload : LoadsLive platform s query) {result : QueryResult}
    (hok : executeUnlocked platform query s = (.ok result, s')) : Durable platform name s' := by
  by_cases hloads : ∃ command, query = .loadDatabase command
  · obtain ⟨command, rfl⟩ := hloads
    exact h.load hload hok
  · refine h.step hwell hstatement.noDouble (fun hl => hloads ?_) hstatement.saveUnder hindexes
      ?_ hok
    · cases query <;> first | exact ⟨_, rfl⟩ | exact hl.elim
    · rintro rfl
      exact (hstatement.outside trivial).elim

theorem Durable.throws (h : Durable platform name s) {query : Query} (hwell : query.WellFormed)
    (hchanges : ¬ PartialChange s.view query) {e : Exception}
    (herror : executeUnlocked platform query s = (.error e, s')) (hfile : ¬ FileFailure e) :
    Durable platform name s' := by
  have hvalid := keeps_executeUnlocked platform query s h.valid
  rw [herror] at hvalid
  obtain ⟨hview, hstorage⟩ := undone_executeUnlocked h.valid hwell hchanges e s' herror hfile
  exact h.of_same hvalid hstorage hview

/-- **SAVE is crash safe** in every run in which interrupted saves stop safely, completed saves
write index definitions that read back, LOAD reads the live database, and no UPDATE or DELETE
throws after it has changed a row. -/
theorem recovers_interrupted (h : InterruptedRun platform
    (fun s query => OutsideStatement name s query ∧ SavesIndexes platform s query ∧
      LoadsLive platform s query ∧ ¬ PartialChange s.view query)
    (fun s stop => SaveUnder name s .saveDatabase ∧ StopsSafely platform s stop) s) :
    Recovers platform s := by
  suffices hdurable : Durable platform name s from hdurable.recovers
  induction h with
  | start => exact leads_empty.durable_start
  | restart _ ih => exact ih.leads.durable_start
  | @returns s s' _ sql query q hparse depth hq hallowed result hok ih =>
    obtain ⟨hstatement, hindexes, hload, -⟩ := hallowed
    obtain ⟨hwell, hrun⟩ := execute_of_resolved platform hparse hq
    rw [hrun] at hok
    exact ih.returns hwell hstatement hindexes hload hok
  | @throws s s' _ sql query hparse depth hallowed e herror hfile ih =>
    rcases execute_parsed platform s depth hparse with ⟨q, hq, hwell, hrun⟩ | ⟨-, e', hrun⟩
    · rw [hrun] at herror
      exact ih.throws hwell (hallowed q hq).2.2.2 herror hfile
    · rw [hrun] at herror
      cases herror
      exact ih
  | interrupted _ hmay hstop ih => exact ih.stop hmay.1 hmay.2 hstop

theorem Run.interruptedRun {allowed allowed' : QueryExecutor → Query → Prop}
    {mayStop : QueryExecutor → SaveStop → Prop} (himp : ∀ s q, allowed s q → allowed' s q)
    (h : Run platform allowed s) : InterruptedRun platform allowed' mayStop s := by
  induction h with
  | start => exact .start
  | restart _ ih => exact .restart ih
  | statement _ hparse depth hq hallowed hok ih =>
    exact .returns ih hparse depth hq (himp _ _ hallowed) hok

/-- `INSERT INTO t VALUES (3);`. -/
def insertThree : Query := .insert ⟨bytes "t", [[.int 3]]⟩

/-- The commands that make `twoRows` and add a row to it. -/
def threeInserts : List Query :=
  [.createDatabase ⟨bytes "d"⟩, .createTable ⟨bytes "t", [⟨bytes "a", .int, false⟩]⟩,
    .insert ⟨bytes "t", [[.int 1], [.int 2]]⟩, insertThree]

/-- The first save, which fails while it writes the temporary file. -/
def failedSave : QueryExecutor := (executeSaveDatabase (some (.write 10)) twoRows).2

/-- A row inserted after the save that failed. -/
def afterFailedSave : QueryExecutor := (execute (.byInsertion true) 1 insertThree failedSave).2

theorem recovers_interrupted_afterFailedSave :
    afterFailedSave.view = some ⟨bytes "d", SortedMap.empty.insert (bytes "t")
      ⟨[⟨bytes "a", .int, false⟩],
        [[.int ⟨1, by decide⟩], [.int ⟨2, by decide⟩], [.int ⟨3, by decide⟩]], .empty⟩⟩ ∧
      Recovers (.byInsertion true) afterFailedSave := by
  have hallowed : ∀ (s : QueryExecutor) (q : Query), q ∈ threeInserts →
      OutsideStatement (bytes "d") s q ∧ SavesIndexes (.byInsertion true) s q ∧
        LoadsLive (.byInsertion true) s q ∧ ¬ PartialChange s.view q := by
    intro s q hq
    simp only [threeInserts, List.mem_cons, List.not_mem_nil, or_false] at hq
    rcases hq with rfl | rfl | rfl | rfl <;>
      exact ⟨⟨by decide, by decide, nofun⟩, nofun, nofun, id⟩
  have htwo : Run (.byInsertion true) (fun _ q => q ∈ threeInserts) twoRows :=
    Run.start.runSql (by decide +kernel)
  have hunder : SaveUnder (bytes "d") twoRows .saveDatabase := by decide +kernel
  have hsafe : StopsSafely (.byInsertion true) twoRows (.failed (some (.write 10))) := by
    intro database hload
    have hnone : (loadFirstDatabase (.byInsertion true) twoRows.storage.disk).isOk = false := by
      decide +kernel
    rw [hload] at hnone
    cases hnone
  have hwrite : (executeSaveDatabase (some (.write 10)) twoRows).1 =
      .error (.runtimeError "failed to write database file") := by decide +kernel
  have hparse : Parser.parse (bytes "INSERT INTO t VALUES (3);") = .ok insertThree := by
    decide +kernel
  have hinsert : (execute (.byInsertion true) 1 insertThree failedSave).1 =
      .ok (messageResult true (bytes "inserted 1 row(s)")) := by decide +kernel
  refine ⟨by decide +kernel, recovers_interrupted (.returns (.interrupted
    (htwo.interruptedRun hallowed) ⟨hunder, hsafe⟩ (.failed (eq_of_fst_eq hwrite))) hparse 1 rfl
    (hallowed _ _ (by decide)) (eq_of_fst_eq hinsert))⟩

/-- A row inserted after a save. -/
def insertedAfterSave : QueryExecutor :=
  runSql (.byInsertion true) ["INSERT INTO t VALUES (3);"] (savedTable (.byInsertion true))

/-- The next save has appended its record and not yet published its snapshot. -/
def interruptedSave : QueryExecutor := (appendWal .saveDatabase (bytes "d") insertedAfterSave).2

/-- Recovery skips the record of the row, and loads the snapshot without it. -/
theorem not_recovers_interruptedSave :
    InterruptedRun (.byInsertion true) (OutsideStatement (bytes "d"))
        (fun s _ => SaveUnder (bytes "d") s .saveDatabase) interruptedSave ∧
      ¬ Recovers (.byInsertion true) interruptedSave := by
  have hinserted : Run (.byInsertion true) (OutsideStatement (bytes "d")) insertedAfterSave :=
    (run_savedTable.mono fun _ _ h => h.outside).runSql (by decide +kernel)
  have hname : insertedAfterSave.database.map Database.name = some (bytes "d") := by decide +kernel
  obtain ⟨database, hdb, hname⟩ := Option.map_eq_some_iff.1 hname
  have hunder : SaveUnder (bytes "d") insertedAfterSave .saveDatabase := by decide +kernel
  have happend : (appendWal .saveDatabase (bytes "d") insertedAfterSave).1 = .ok () := by
    decide +kernel
  refine ⟨.interrupted (hinserted.interruptedRun fun _ _ => id) hunder
    (.appended hdb ?_), by unfold Recovers; decide +kernel⟩
  rw [hname]
  exact eq_of_fst_eq happend

end QueryExecutor

end VertexDB
