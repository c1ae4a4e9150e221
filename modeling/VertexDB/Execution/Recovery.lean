import VertexDB.Execution.Atomicity
import VertexDB.Execution.Replay
import VertexDB.Persistence.SavedSnapshot

/-!
# Recovery

A new executor loads the snapshot on disk and replays the log from the last checkpoint on.
`Durable name s` says that this leads to the database that `s` shows: what was saved under `name`,
with the pending records replayed, is the live database.  Every change of the database keeps it,
because the log grows by records that replay to the change, and so does a save whose snapshot
reads back (`Durable.step`).
-/

namespace VertexDB

open Ascii Procedure StorageManager

namespace QueryExecutor

open Reference

variable {platform : Platform} {name : Str} {s s' : QueryExecutor} {v : Option DatabaseView}
  {disk disk' : Disk}

/-! ### Changes without an effect -/

theorem requireTable_ok {table : Str} {view : DatabaseView} {found : TableView}
    (h : Reference.requireTable v table = .ok (view, found)) :
    v = some view ∧ view.tables.find? table = some found := by
  unfold Reference.requireTable at h
  split at h
  · cases h
  · split at h
    · cases h
    · next hfind =>
      cases h
      exact ⟨rfl, hfind⟩

/-- No row matches, so every row is mapped to itself. -/
theorem update_of_not_changed {command : Update} {effect : Effect}
    (h : Reference.update command v = .ok effect) (hc : effect.changed = false) :
    effect.database = v := by
  obtain ⟨⟨view, found⟩, hfound, hrun⟩ := Failure.bind_eq_ok_iff.1 h
  obtain ⟨rfl, hfind⟩ := requireTable_ok hfound
  simp only at hrun
  cases hcol : columnIndex found.schema command.column with
  | none => rw [hcol] at hrun; cases hrun
  | some target =>
    rw [hcol] at hrun
    obtain ⟨⟨count, table⟩, htable, hrun⟩ := Failure.bind_eq_ok_iff.1 hrun
    cases hrun
    have hcount : count = 0 := by simpa using hc
    rcases updateTable_cases command target found with ⟨-, hok⟩ | ⟨-, e, herr⟩
    · rw [hok] at htable
      cases htable
      rw [List.countP_eq_zero] at hcount
      have hrows : found.rows.map (updatedRow command found.schema target) = found.rows.map id :=
        List.map_inj_left.2 fun row hr => if_neg (hcount row hr)
      rw [hrows, List.map_id]
      exact congrArg some (putTable_self hfind)
    · rw [herr] at htable
      cases htable

/-- No row matches, so every row is kept. -/
theorem delete_of_not_changed {command : Delete} {effect : Effect}
    (h : Reference.delete command v = .ok effect) (hc : effect.changed = false) :
    effect.database = v := by
  obtain ⟨⟨view, found⟩, hfound, hrun⟩ := Failure.bind_eq_ok_iff.1 h
  obtain ⟨rfl, hfind⟩ := requireTable_ok hfound
  obtain ⟨⟨count, table⟩, htable, hrun⟩ := Failure.bind_eq_ok_iff.1 hrun
  cases hrun
  obtain ⟨_, -, htable⟩ := Failure.bind_eq_ok_iff.1 htable
  cases htable
  have hcount : found.rows.countP (matching found.schema command.where_) = 0 := by simpa using hc
  rw [List.countP_eq_zero] at hcount
  have hrows : found.rows.filter (fun row => !matching found.schema command.where_ row) =
      found.rows := List.filter_eq_self.2 fun row hr => by simp [hcount row hr]
  rw [hrows]
  exact congrArg some (putTable_self hfind)

theorem createIndex_of_not_changed {command : CreateIndex} {effect : Effect}
    (h : Reference.createIndex command v = .ok effect) (hc : effect.changed = false) :
    effect.database = v := by
  obtain ⟨⟨view, found⟩, hfound, hrun⟩ := Failure.bind_eq_ok_iff.1 h
  obtain ⟨rfl, hfind⟩ := requireTable_ok hfound
  simp only at hrun
  rcases hcreate : found.createIndex command.name command.column with ⟨created, table⟩
  rw [hcreate] at hrun
  cases hrun
  unfold TableView.createIndex at hcreate
  split_ifs at hcreate
  · rw [← congrArg Prod.fst hcreate] at hc
    cases hc
  · have hsame : found = table := congrArg Prod.snd hcreate
    rw [← hsame]
    exact congrArg some (putTable_self hfind)

/-- A command that reports no change leaves the database. -/
theorem database_of_not_changed {change : Change} {effect : Effect}
    (h : step change v = .ok effect) (hc : effect.changed = false) : effect.database = v := by
  cases change with
  | createDatabase command =>
    have hcreate : Reference.createDatabase command = .ok effect := by cases v <;> exact h
    unfold Reference.createDatabase at hcreate
    split_ifs at hcreate
    cases hcreate
    cases hc
  | insert command =>
    obtain ⟨table, rows⟩ := command
    obtain ⟨_, _, -, -, -, hchanged, -⟩ := step_insert_ok h
    rw [hchanged] at hc
    cases hc
  | createTable command =>
    cases v with
    | none => cases h; rfl
    | some view =>
      obtain ⟨⟨created, view'⟩, hcreate, h⟩ := Failure.bind_eq_ok_iff.1 h
      cases h
      obtain rfl : created = false := hc
      unfold DatabaseView.createTable at hcreate
      split_ifs at hcreate <;> cases hcreate
      rfl
  | dropTable command =>
    cases v with
    | none => cases h; rfl
    | some view =>
      cases h
      have hdropped : (view.dropTable command.name).1 = false := hc
      have hsame : (view.dropTable command.name).2 = view := by
        unfold DatabaseView.dropTable at hdropped ⊢
        split_ifs at hdropped ⊢
        rfl
      exact congrArg some hsame
  | renameTable command =>
    cases v with
    | none => cases h; rfl
    | some view =>
      obtain ⟨⟨renamed, view'⟩, hrename, h⟩ := Failure.bind_eq_ok_iff.1 h
      cases h
      obtain rfl : renamed = false := hc
      unfold DatabaseView.renameTable at hrename
      split at hrename
      · cases hrename; rfl
      · split_ifs at hrename <;> cases hrename
        rfl
  | update command =>
    replace h : Reference.update command v = .ok effect := by cases v <;> exact h
    exact update_of_not_changed h hc
  | delete command =>
    replace h : Reference.delete command v = .ok effect := by cases v <;> exact h
    exact delete_of_not_changed h hc
  | createIndex command =>
    replace h : Reference.createIndex command v = .ok effect := by cases v <;> exact h
    exact createIndex_of_not_changed h hc

/-! ### The records that are replayed -/

/-- The records that recovery replays. -/
def pending (saved : Option DatabaseView) (records : List WalRecord) : List WalRecord :=
  if saved.isSome then afterLastSave records else records

theorem afterLastSave_append {records new : List WalRecord}
    (h : ∀ record ∈ new, record.operation ≠ .saveDatabase) :
    afterLastSave (records ++ new) = afterLastSave records ++ new := by
  have hany : new.any (·.operation = .saveDatabase) = false := by
    rw [List.any_eq_false]
    simpa using h
  induction records with
  | nil =>
    cases new with
    | nil => rfl
    | cons record new =>
      rw [List.any_cons, Bool.or_eq_false_iff] at hany
      simpa [afterLastSave, hany.2] using h record List.mem_cons_self
  | cons record records ih =>
    rw [List.cons_append, afterLastSave, afterLastSave, List.any_append, hany, Bool.or_false, ih]
    split_ifs <;> rfl

theorem afterLastSave_of_save {records : List WalRecord} {record : WalRecord}
    (h : record.operation = .saveDatabase) : afterLastSave (records ++ [record]) = [] := by
  induction records with
  | nil => simp [afterLastSave, h]
  | cons first records ih =>
    rw [List.cons_append, afterLastSave, if_pos (by simp [h]), ih]

theorem pending_append {saved : Option DatabaseView} {records new : List WalRecord}
    (h : ∀ record ∈ new, record.operation ≠ .saveDatabase) :
    pending saved (records ++ new) = pending saved records ++ new := by
  unfold pending
  split_ifs
  · exact afterLastSave_append h
  · rfl

theorem operation_ne_save (change : Change) {entry : WalOperation × Str}
    (h : entry ∈ change.records) : entry.1 ≠ .saveDatabase := by
  cases change with
  | insert command =>
    obtain ⟨row, -, rfl⟩ := List.mem_map.1 h
    exact WalOperation.noConfusion
  | _ =>
    rw [List.mem_singleton.1 h]
    exact WalOperation.noConfusion

/-- Appending records extends the log and leaves everything else. -/
theorem logAll_ok (hr : s.replayingWal = false) {records : List WalRecord}
    (h : WriteAheadLog.Holds s.storage records) {entries : List (WalOperation × Str)}
    (hok : logAll entries s = (.ok (), s')) :
    ∃ new, new.map (fun record => (record.operation, record.payload)) = entries ∧
      WriteAheadLog.Holds s'.storage (records ++ new) ∧
      WriteAheadLog.SameFiles s.storage.disk s'.storage.disk ∧
        s' = { s with storage := s'.storage } := by
  induction entries generalizing s records with
  | nil =>
    cases hok
    exact ⟨[], rfl, by rwa [List.append_nil], .refl _, rfl⟩
  | cons entry entries ih =>
    obtain ⟨_, mid, happ, hok⟩ := bind_eq_ok_iff.1 hok
    rw [appendWal_apply, if_neg (by simp [hr])] at happ
    obtain ⟨storage', hfiles, ⟨lsn, hrun, hholds⟩ | ⟨hrun, -⟩⟩ := h.append_cases entry.1 entry.2
    · rw [hrun] at happ
      cases happ
      set mid : QueryExecutor := { s with storage := storage' } with hmid
      have hr' : mid.replayingWal = false := hr
      obtain ⟨new, hnew, hlast, hfiles', hsame⟩ := ih hr' hholds hok
      refine ⟨⟨lsn, entry.1, entry.2⟩ :: new, ?_, ?_, hfiles.trans hfiles', hsame⟩
      · rw [List.map_cons, hnew]
      · simpa using hlast
    · rw [hrun] at happ
      cases happ

/-! ### Recovery leads to the live database -/

/-- What is on disk leads to a database. -/
def Leads (platform : Platform) (name : Str) (storage : Storage) (v : Option DatabaseView) : Prop :=
  ∃ records saved, WriteAheadLog.Holds storage records ∧ Saved platform name storage.disk saved ∧
    Replays platform (pending saved records) saved v

/-- The executor is in a valid state and what is on disk leads to its database. -/
structure Durable (platform : Platform) (name : Str) (s : QueryExecutor) : Prop where
  valid : s.Valid false
  leads : Leads platform name s.storage s.view

/-- A new executor shows the database that the live one shows. -/
def Recovers (platform : Platform) (s : QueryExecutor) : Prop :=
  (start platform s.storage.disk).view = s.view

theorem recoverFromWal_eq (hs : s.Sound) (hr : s.replayingWal = false) {records : List WalRecord}
    (h : WriteAheadLog.Holds s.storage records) {loadedSnapshot : Bool}
    (hreplay : Replays platform (if loadedSnapshot then afterLastSave records else records)
      s.view v) :
    ∃ d, recoverFromWal platform loadedSnapshot s = s.withDatabase d ∧
      (s.withDatabase d).view = v := by
  obtain ⟨d, hrun, -, hview⟩ := hreplay { s with replayingWal := true } hs rfl rfl
  refine ⟨d, ?_, hview⟩
  rw [recoverFromWal, h.readAll_eq]
  cases records with
  | nil =>
    have hnil : (if loadedSnapshot = true then afterLastSave [] else []) = [] := by
      split_ifs <;> rfl
    rw [hnil] at hrun
    have hd : s.database = d := congrArg (fun p => p.2.database) hrun
    exact (withDatabase_self hd).symm
  | cons record records =>
    simp only [hrun]
    rw [← hr]
    rfl

/-- A new executor shows the database that the disk leads to, and has not written anything. -/
theorem Leads.start {storage : Storage} (h : Leads platform name storage v) :
    (start platform storage.disk).view = v ∧
      (start platform storage.disk).storage = ⟨storage.disk, none, []⟩ := by
  obtain ⟨records, saved, hholds, hsaved, hreplay⟩ := h
  rw [QueryExecutor.start, recoverFromStorage]
  cases saved with
  | none =>
    obtain ⟨e, hload⟩ := loadFirstDatabase_none hsaved
    simp only [hload]
    set fresh : QueryExecutor := ⟨none, none, ⟨storage.disk, none, []⟩, .new, none, .empty, false⟩
    have hsound : fresh.Sound := by rintro _ ⟨⟩
    have hlog : WriteAheadLog.Holds fresh.storage records := hholds.restart
    replace hreplay : Replays platform (if false then afterLastSave records else records)
      fresh.view v := hreplay
    obtain ⟨d, hrun, hview⟩ := recoverFromWal_eq hsound rfl hlog hreplay
    rw [hrun]
    exact ⟨hview, rfl⟩
  | some view =>
    obtain ⟨database, hload, hdatabase, rfl⟩ := loadFirstDatabase_some hsaved
    simp only [hload]
    set loaded : QueryExecutor :=
      ⟨some database, none, ⟨storage.disk, none, []⟩, .new, none, .empty, false⟩
    have hsound : loaded.Sound := by rintro _ ⟨⟩; exact hdatabase
    have hlog : WriteAheadLog.Holds loaded.storage records := hholds.restart
    replace hreplay : Replays platform (if true then afterLastSave records else records)
      loaded.view v := hreplay
    obtain ⟨d, hrun, hview⟩ := recoverFromWal_eq hsound rfl hlog hreplay
    rw [hrun]
    exact ⟨hview, rfl⟩

theorem Durable.recovers (h : Durable platform name s) : Recovers platform s := h.leads.start.1

/-- The files lead to the same database when no sequence number is cached. -/
theorem Leads.restarted {storage : Storage} (h : Leads platform name storage v)
    (hstorage : s.storage = ⟨storage.disk, none, []⟩) (hview : s.view = v) :
    Leads platform name s.storage s.view := by
  obtain ⟨records, saved, hholds, hsaved, hreplay⟩ := h
  rw [hstorage, hview]
  exact ⟨records, saved, hholds.restart, hsaved, hreplay⟩

/-- A new executor is in a durable state again. -/
theorem Leads.durable_start {storage : Storage} (h : Leads platform name storage v) :
    Durable platform name (QueryExecutor.start platform storage.disk) := by
  obtain ⟨hview, hstorage⟩ := h.start
  refine ⟨?_, h.restarted hstorage hview⟩
  obtain ⟨records, saved, hholds, -, -⟩ := h
  exact valid_start hholds

/-- An empty storage root leads to no database. -/
theorem leads_empty : Leads platform name ⟨.empty, none, []⟩ none := by
  refine ⟨[], none, WriteAheadLog.holds_empty, ?_, replays_nil none⟩
  rintro file contents ⟨⟩

/-! ### What commands do to it -/

/-- A command that leaves the storage and what the database shows. -/
theorem Durable.of_same (h : Durable platform name s) (hs : s'.Valid false)
    (hstorage : s'.storage = s.storage) (hview : s'.view = s.view) : Durable platform name s' :=
  ⟨hs, by rw [hstorage, hview]; exact h.leads⟩

/-- A change appends the records that lead to it. -/
theorem Durable.change (h : Durable platform name s) {change : Change}
    (hprintable : change.Printable) {result : QueryResult}
    (hok : executeUnlocked platform change.query s = (.ok result, s')) :
    Durable platform name s' := by
  have hvalid := keeps_executeUnlocked platform change.query s h.valid
  rw [hok] at hvalid
  refine ⟨hvalid, ?_⟩
  obtain ⟨effect, mid, d, hstep, -, hlog, rfl, -, hview⟩ :=
    (performs platform h.valid.sound change).of_ok hok
  obtain ⟨records, saved, hholds, hsaved, hreplay⟩ := h.leads
  rw [hview]
  cases hchanged : effect.changed with
  | false =>
    rw [hchanged] at hlog
    cases hlog
    rw [database_of_not_changed hstep hchanged]
    exact ⟨records, saved, hholds, hsaved, hreplay⟩
  | true =>
    rw [hchanged, if_pos rfl] at hlog
    obtain ⟨new, hnew, hholds', hfiles, -⟩ := logAll_ok h.valid.replaying_eq hholds hlog
    refine ⟨records ++ new, saved, hholds', hsaved.of_sameFiles hfiles, ?_⟩
    rw [pending_append]
    · exact hreplay.append (replays_change hprintable hstep hnew)
    · intro record hmem
      have hentry : (record.operation, record.payload) ∈ change.records := by
        rw [← hnew]
        exact List.mem_map_of_mem hmem
      exact operation_ne_save change hentry

/-- The three steps of a save that succeeds. -/
theorem executeSaveDatabase_ok {database : Database} (hdb : s.database = some database)
    {fault : Option SaveFault} {result : QueryResult}
    (h : executeSaveDatabase fault s = (.ok result, s')) :
    ∃ appended published, appendWal .saveDatabase database.name s = (.ok (), appended) ∧
      publish fault database appended = (.ok (), published) ∧
      resetWal published = (.ok (), s') := by
  rw [executeSaveDatabase, get_bind, hdb] at h
  obtain ⟨_, appended, happend, h⟩ := bind_eq_ok_iff.1 h
  obtain ⟨_, published, hpublish, h⟩ := bind_eq_ok_iff.1 h
  obtain ⟨_, last, hreset, h⟩ := bind_eq_ok_iff.1 h
  cases h
  exact ⟨appended, published, happend, hpublish, hreset⟩

/-- The first step adds the record of a save. -/
theorem appendSave_ok (hr : s.replayingWal = false) {records : List WalRecord}
    (h : WriteAheadLog.Holds s.storage records) {text : Str}
    (hok : appendWal .saveDatabase text s = (.ok (), s')) :
    ∃ record, record.operation = .saveDatabase ∧
      WriteAheadLog.Holds s'.storage (records ++ [record]) ∧
      WriteAheadLog.SameFiles s.storage.disk s'.storage.disk ∧
      s' = { s with storage := s'.storage } := by
  rw [← logAll_singleton (.saveDatabase, text)] at hok
  obtain ⟨new, hnew, hholds, hfiles, hsame⟩ := logAll_ok hr h hok
  obtain ⟨record, rfl, hrecord⟩ := List.map_eq_singleton_iff.1 hnew
  exact ⟨record, congrArg Prod.fst hrecord, hholds, hfiles, hsame⟩

/-- After the second step the snapshot is a copy of the database, whatever the log held before. -/
theorem leads_publish {database : Database} (hsound : database.Sound) (hname : database.name = name)
    {saved : Option DatabaseView}
    (hsaved : Saved platform name s.storage.disk saved) {records : List WalRecord}
    {record : WalRecord} (hrecord : record.operation = .saveDatabase)
    (hholds : WriteAheadLog.Holds s.storage (records ++ [record]))
    (hok : publish none database s = (.ok (), s')) :
    Saved platform name s'.storage.disk (some (readBackView platform database)) ∧
      Leads platform name s'.storage (some (readBackView platform database)) ∧
      s' = { s with storage := s'.storage } := by
  rcases hrun : saveDatabase none database s.storage with ⟨e | _, storage'⟩
  · rw [publish, focus_apply, hrun] at hok
    cases hok
  rw [publish, focus_apply, hrun] at hok
  cases hok
  have hnew := hsaved.of_saveDatabase hsound hname (hname ▸ hsound.name_ne) hrun
  refine ⟨hnew, ⟨records ++ [record], _, ?_, hnew, ?_⟩, rfl⟩
  · obtain ⟨hsame', hread⟩ := saveDatabase_log none database s.storage
    rw [hrun] at hsame' hread
    have := hholds.of_read_eq hread
    rwa [← hsame'] at this
  · rw [pending, if_pos Option.isSome_some, afterLastSave_of_save hrecord]
    exact replays_nil _

/-- The last step leaves only the snapshot. -/
theorem leads_reset {view : DatabaseView} (h : Saved platform name s.storage.disk (some view))
    (hleads : Leads platform name s.storage v) (hok : resetWal s = (.ok (), s')) :
    Leads platform name s'.storage (some view) ∧ s' = { s with storage := s'.storage } := by
  obtain ⟨_, _, hholds, -⟩ := hleads
  rw [resetWal, focus_apply, WriteAheadLog.reset_eq] at hok
  cases hok
  refine ⟨⟨[], _, WriteAheadLog.holds_reset _ hholds.faults,
    h.of_sameFiles (WriteAheadLog.sameFiles_write _ []), replays_nil _⟩, rfl⟩

/-- A save under the name makes a copy of the database the snapshot, and empties the log. -/
theorem Durable.saved (h : Durable platform name s) {database : Database}
    (hdb : s.database = some database) (hname : database.name = name) {result : QueryResult}
    (hok : executeSaveDatabase none s = (.ok result, s')) :
    s'.Valid false ∧ s'.view = some database.view ∧
      Leads platform name s'.storage (some (readBackView platform database)) := by
  have hvalid := keeps_executeSaveDatabase none s h.valid
  rw [hok] at hvalid
  obtain ⟨appended, published, happend, hpublish, hreset⟩ := executeSaveDatabase_ok hdb hok
  obtain ⟨records, saved, hholds, hsaved, -⟩ := h.leads
  obtain ⟨record, hrecord, hholds', hfiles, hsame⟩ :=
    appendSave_ok h.valid.replaying_eq hholds happend
  obtain ⟨hsaved', hleads', hsame'⟩ := leads_publish (h.valid.sound database hdb) hname
    (hsaved.of_sameFiles hfiles) hrecord hholds' hpublish
  obtain ⟨hleads, hsame''⟩ := leads_reset hsaved' hleads' hreset
  refine ⟨hvalid, ?_, hleads⟩
  rw [hsame'', hsame', hsame, view, hdb]
  rfl

theorem Durable.save (h : Durable platform name s) {database : Database}
    (hdb : s.database = some database) (hname : database.name = name)
    (hindexes : IndexesSurvive platform database.view) {result : QueryResult}
    (hok : executeSaveDatabase none s = (.ok result, s')) : Durable platform name s' := by
  obtain ⟨hvalid, hview, hleads⟩ := h.saved hdb hname hok
  rw [(readBackView_eq_iff (h.valid.sound database hdb)).2 hindexes, ← hview] at hleads
  exact ⟨hvalid, hleads⟩

/-- BEGIN and COMMIT change neither the storage nor the active database. -/
theorem keeps_database_executeBegin {storage : Storage} {d : Option Database} :
    Keeps (fun t : QueryExecutor => t.storage = storage ∧ t.database = d) executeBegin := by
  refine keeps_get_bind fun t ht => ?_
  cases hd : t.database with
  | none => exact ht
  | some database =>
    by_cases hactive : t.transactionSnapshot.isSome = true
    · simp only [if_pos hactive]; exact ht
    · simp only [if_neg hactive]
      cases hcopy : database.clone with
      | error e => exact ht
      | ok copy => exact ht

theorem keeps_database_executeCommit {storage : Storage} {d : Option Database} :
    Keeps (fun t : QueryExecutor => t.storage = storage ∧ t.database = d) executeCommit := by
  refine keeps_get_bind fun t ht => ?_
  cases t.transactionSnapshot with
  | none => exact ht
  | some snapshot =>
    cases t.activeTransaction with
    | none => exact ht
    | some id =>
      cases hc : t.transactionManager.commit id with
      | error e => simp only [hc]; exact ht
      | ok manager => simp only [hc]; exact ht

/-- A LOAD. -/
def Loads : Query → Prop
  | .loadDatabase _ => True
  | _ => False

instance (query : Query) : Decidable (Loads query) := match query with
  | .loadDatabase _ => instDecidableTrue
  | .createDatabase _ | .createTable _ | .dropTable _ | .renameTable _ | .createIndex _
  | .insert _ | .update _ | .delete _ | .select _ | .listTables | .saveDatabase
  | .beginTransaction | .commitTransaction | .rollbackTransaction | .prepareStatement _
  | .executePrepared _ | .exit => instDecidableFalse

/-- ROLLBACK, if it does anything, finds the database as it was at BEGIN. -/
def NeutralRollback (s : QueryExecutor) (query : Query) : Prop :=
  query = .rollbackTransaction → ∀ snapshot, s.transactionSnapshot = some snapshot →
    s.activeTransaction.isSome = true → s.view = some snapshot.view

instance (s : QueryExecutor) (query : Query) : Decidable (NeutralRollback s query) :=
  decidable_of_iff (query = .rollbackTransaction → s.activeTransaction.isSome = true →
    s.transactionSnapshot.all (fun snapshot => s.view = some snapshot.view) = true) (by
      unfold NeutralRollback
      cases s.transactionSnapshot <;> simp)

/-- A save is under the name. -/
def SaveUnder (name : Str) (s : QueryExecutor) (query : Query) : Prop :=
  query = .saveDatabase → ∀ database, s.database = some database → database.name = name

/-- The index definitions survive a save. -/
def SavesIndexes (platform : Platform) (s : QueryExecutor) (query : Query) : Prop :=
  query = .saveDatabase → ∀ view, s.view = some view → IndexesSurvive platform view

instance (name : Str) (s : QueryExecutor) (query : Query) : Decidable (SaveUnder name s query) :=
  decidable_of_iff (query = .saveDatabase → (s.database.map Database.name).getD name = name) (by
    unfold SaveUnder
    cases s.database <;> simp)

theorem executeRollback_view (h : NeutralRollback s .rollbackTransaction) {result : QueryResult}
    (hok : executeRollback s = (.ok result, s')) : s'.storage = s.storage ∧ s'.view = s.view := by
  rw [executeRollback, get_bind] at hok
  cases hsnap : s.transactionSnapshot with
  | none =>
    rw [hsnap] at hok
    cases hok
    exact ⟨rfl, rfl⟩
  | some snapshot =>
    rw [hsnap] at hok
    cases hid : s.activeTransaction with
    | none =>
      rw [hid] at hok
      cases hok
      exact ⟨rfl, rfl⟩
    | some id =>
      rw [hid] at hok
      obtain ⟨manager, mid, hmanager, hrest⟩ := bind_eq_ok_iff.1 hok
      have hmid : s = mid := congrArg Prod.snd hmanager
      rw [← hmid] at hrest
      cases hrest
      exact ⟨rfl, (h rfl snapshot hsnap (by rw [hid]; rfl)).symm⟩

/-- **One statement keeps what is on disk leading to the live database.** -/
theorem Durable.step (h : Durable platform name s) {query : Query} (hwell : query.WellFormed)
    (hdouble : query.NoDouble) (hload : ¬ Loads query)
    (hsave : SaveUnder name s query) (hindexes : SavesIndexes platform s query)
    (hrollback : NeutralRollback s query) {result : QueryResult}
    (hok : executeUnlocked platform query s = (.ok result, s')) : Durable platform name s' := by
  have hvalid : s'.Valid false := by
    have := keeps_executeUnlocked platform query s h.valid
    rwa [hok] at this
  -- a change goes to the log, and anything else but a save leaves storage and database alone
  have hchange : ∀ change : Change, change.query = query → Durable platform name s' := by
    rintro change rfl
    exact h.change (Change.printable hwell hdouble) hok
  have hsame : s'.storage = s.storage ∧ s'.database = s.database → Durable platform name s' :=
    fun hs => h.of_same hvalid hs.1 (congrArg (Option.map Database.view) hs.2)
  cases query with
  | createDatabase command => exact hchange (.createDatabase command) rfl
  | createTable command => exact hchange (.createTable command) rfl
  | dropTable command => exact hchange (.dropTable command) rfl
  | renameTable command => exact hchange (.renameTable command) rfl
  | insert command => exact hchange (.insert command) rfl
  | update command => exact hchange (.update command) rfl
  | delete command => exact hchange (.delete command) rfl
  | createIndex command => exact hchange (.createIndex command) rfl
  | saveDatabase =>
    cases hdb : s.database with
    | none =>
      replace hok : executeSaveDatabase none s = (.ok result, s') := hok
      rw [executeSaveDatabase, get_bind, hdb] at hok
      cases hok
      exact h
    | some database =>
      exact h.save hdb (hsave rfl database hdb) (hindexes rfl _ (by rw [view, hdb]; rfl)) hok
  | loadDatabase command => exact (hload trivial).elim
  | beginTransaction =>
    have := keeps_database_executeBegin s ⟨rfl, rfl⟩
    rw [show executeBegin s = _ from hok] at this
    exact hsame this
  | commitTransaction =>
    have := keeps_database_executeCommit s ⟨rfl, rfl⟩
    rw [show executeCommit s = _ from hok] at this
    exact hsame this
  | rollbackTransaction =>
    obtain ⟨hstorage, hview⟩ := executeRollback_view hrollback hok
    exact h.of_same hvalid hstorage hview
  | select command => 
    have hs : s = s' := congrArg Prod.snd hok
    exact hs ▸ h
  | listTables => cases hok; exact h
  | prepareStatement command => cases hok; exact hsame ⟨rfl, rfl⟩
  | executePrepared command => cases hok
  | exit => cases hok; exact h

end QueryExecutor

end VertexDB
