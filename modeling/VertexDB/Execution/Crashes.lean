import VertexDB.Execution.Restarts
import VertexDB.Execution.WriteAhead

/-!
# Crashes in the middle of statements

The process may die between any two file operations of a statement.  What is on disk then is what
the next executor starts from.  `crash_consistent` explains every session with crashes by the naive
interpreter: the changes that were answered have been made, with the answers that the interpreter
gives, in the order of the answers; of a change that a crash cut off, the first few of its recorded
changes have been made (one for each row of an INSERT, and one for any other command); and nothing
else has happened.
-/

namespace VertexDB

open Ascii Procedure StorageManager

/-- The change that a command asks for. -/
def Query.change? : Query → Option Change
  | .createDatabase command => some (.createDatabase command)
  | .createTable command => some (.createTable command)
  | .dropTable command => some (.dropTable command)
  | .renameTable command => some (.renameTable command)
  | .insert command => some (.insert command)
  | .update command => some (.update command)
  | .delete command => some (.delete command)
  | .createIndex command => some (.createIndex command)
  | .select _ | .listTables | .saveDatabase | .loadDatabase _ | .beginTransaction
  | .commitTransaction | .rollbackTransaction | .prepareStatement _ | .executePrepared _ | .exit =>
    none

theorem Query.change?_eq_some_iff {query : Query} {change : Change} :
    query.change? = some change ↔ change.query = query := by
  constructor
  · intro h
    cases query <;> cases h <;> rfl
  · rintro rfl
    cases change <;> rfl

/-- What a session has asked of the database. -/
inductive Entry
  /-- A change and the answer to it. -/
  | answered (change : Change) (result : QueryResult)
  /-- A change that a crash cut off. -/
  | cut (change : Change)
  deriving DecidableEq

namespace Reference

/-- The interpreter comes to the database by the changes that were answered and by some of the first
recorded changes of those that were cut off. -/
inductive Explains : List Entry → Option DatabaseView → Prop
  | nil : Explains [] none
  | answered {entries : List Entry} {v : Option DatabaseView} (h : Explains entries v)
    {change : Change} {effect : Effect} (hstep : step change v = .ok effect) :
    Explains (entries ++ [.answered change effect.result]) effect.database
  | cut {entries : List Entry} {v v' : Option DatabaseView} (h : Explains entries v)
    {change : Change} (count : ℕ) {results : List QueryResult}
    (hrun : run (change.recorded.take count) v = .ok (results, v')) :
    Explains (entries ++ [.cut change]) v'

end Reference

namespace QueryExecutor

open Reference

variable {platform : Platform} {depth : ℕ} {name : Str} {s s' : QueryExecutor} {query : Query}
  {storage : Storage} {v : Option DatabaseView}

/-- What is on disk when the process dies while it runs the statement: between two appends to the
log, or between two file operations of a save. -/
inductive LeftBy (platform : Platform) (s : QueryExecutor) : Query → Storage → Prop
  | untouched (query : Query) : LeftBy platform s query s.storage
  | logged {change : Change} {effect : Effect} (hstep : step change s.view = .ok effect)
    (hchanged : effect.changed = true) {count : ℕ} {mid : QueryExecutor}
    (hlog : logAll (change.records.take count) s = (.ok (), mid)) :
    LeftBy platform s change.query mid.storage
  | appended {database : Database} (hdb : s.database = some database) {mid : QueryExecutor}
    (happend : appendWal .saveDatabase database.name s = (.ok (), mid)) :
    LeftBy platform s .saveDatabase mid.storage
  | writing {database : Database} (hdb : s.database = some database) {mid : QueryExecutor}
    (happend : appendWal .saveDatabase database.name s = (.ok (), mid)) (written : ℕ) :
    LeftBy platform s .saveDatabase { mid.storage with
      disk := mid.storage.disk.createDirectories.write (temporaryPathFor database.name)
        ((encodeDatabase database).take written) }
  | published {database : Database} (hdb : s.database = some database) {mid last : QueryExecutor}
    (happend : appendWal .saveDatabase database.name s = (.ok (), mid))
    (hpublish : publish none database mid = (.ok (), last)) :
    LeftBy platform s .saveDatabase last.storage
  | finished {query : Query} {result : QueryResult} {last : QueryExecutor}
    (hok : executeUnlocked platform query s = (.ok result, last)) :
    LeftBy platform s query last.storage

/-- What a crash has made of the database: the first recorded changes of a change, nothing of
anything else. -/
def CutTo (query : Query) (v v' : Option DatabaseView) : Prop :=
  match query.change? with
  | some change => ∃ count results, run (change.recorded.take count) v = .ok (results, v')
  | none => v' = v

/-! ### The first records of a change -/

/-- A change is either an INSERT or has one record. -/
theorem insert_or_one (change : Change) :
    (∃ command, change = .insert command) ∨
      change.recorded = [change] ∧ ∃ record, change.records = [record] := by
  cases change with
  | insert command => exact .inl ⟨command, rfl⟩
  | _ => exact .inr ⟨rfl, _, rfl⟩

/-- The first records of a change replay to its first recorded changes. -/
theorem replays_take {change : Change} (hprintable : change.Printable) {effect : Effect}
    (h : step change v = .ok effect) (count : ℕ) {records : List WalRecord}
    (hrecords : records.map (fun record => (record.operation, record.payload)) =
      change.records.take count) :
    ∃ results v', run (change.recorded.take count) v = .ok (results, v') ∧
      Replays platform records v v' := by
  rcases insert_or_one change with ⟨⟨table, rows⟩, rfl⟩ | ⟨hrecorded, record, hone⟩
  · obtain ⟨view, found, rfl, hfind, hvalid, -, -⟩ := step_insert_ok h
    have hfirst : ∀ row ∈ rows.take count, validateRow found.schema row = .ok () :=
      fun row hrow => hvalid row (List.mem_of_mem_take hrow)
    obtain ⟨results, hrun⟩ := run_insert hfind hfirst
    obtain ⟨part, hpart, hdatabase⟩ := step_insert hfind hfirst
    refine ⟨results, part.database, ?_, ?_⟩
    · rw [Change.recorded, ← List.map_take, hrun, hdatabase]
    · rw [Change.records, ← List.map_take] at hrecords
      exact replays_insert hrecords (fun row hrow => hprintable row (List.mem_of_mem_take hrow))
        hpart
  · rw [hrecorded]
    cases count with
    | zero =>
      rw [hone, List.take_zero, List.map_eq_nil_iff] at hrecords
      subst hrecords
      exact ⟨[], v, rfl, replays_nil v⟩
    | succ count =>
      rw [hone, List.take_succ_cons, List.take_nil, ← hone] at hrecords
      refine ⟨[effect.result], effect.database, ?_, replays_change hprintable h hrecords⟩
      rw [List.take_succ_cons, List.take_nil, run, h]
      rfl

/-! ### What a crash leaves leads to a database -/

/-- Files beside the log and the snapshots do not matter. -/
theorem Leads.of_read_eq (h : Leads platform name storage v) {disk : Disk}
    (hroot : disk.rootExists = true)
    (hread : ∀ file, file ≠ temporaryPathFor name → disk.read file = storage.disk.read file) :
    Leads platform name ⟨disk, storage.nextLsn, storage.faults⟩ v := by
  obtain ⟨records, saved, hholds, hsaved, hreplay⟩ := h
  refine ⟨records, saved, hholds.of_read_eq (hread _ (temporaryPathFor_ne_path name).symm),
    hsaved.of_read_eq (fun _ => hroot) fun file hext => hread file ?_, hreplay⟩
  rintro rfl
  exact extension_temporaryPathFor name hext

/-- A statement that a crash may cut off: a save finds no older snapshot, and index definitions that
read back. -/
structure Severable (platform : Platform) (name : Str) (s : QueryExecutor) (query : Query) :
    Prop where
  outside : OutsideStatement name s query
  savesIndexes : SavesIndexes platform s query
  loadsLive : LoadsLive platform s query
  noOlderSnapshot : query = .saveDatabase → NoOlderSnapshot platform s

/-- A statement that returns has made its change, and nothing else changes the database. -/
theorem view_of_returns (h : Durable platform name s)
    (houtside : OutsideStatement name s query) (hload : LoadsLive platform s query)
    {result : QueryResult} (hok : executeUnlocked platform query s = (.ok result, s')) :
    match query.change? with
    | some change => ∃ effect, step change s.view = .ok effect ∧ effect.result = result ∧
        s'.view = effect.database
    | none => s'.view = s.view := by
  cases hchange : query.change? with
  | some change =>
    obtain rfl := Query.change?_eq_some_iff.1 hchange
    obtain ⟨effect, _, _, hstep, hresult, -, -, -, hview⟩ :=
      (performs platform h.valid.sound change).of_ok hok
    exact ⟨effect, hstep, hresult, hview⟩
  | none =>
    cases query with
    | select command => exact (congrArg (view ∘ Prod.snd) hok).symm
    | saveDatabase =>
      cases hdb : s.database with
      | none =>
        replace hok : executeSaveDatabase none s = (.ok result, s') := hok
        rw [executeSaveDatabase, get_bind, hdb] at hok
        cases hok
        rfl
      | some database =>
        obtain ⟨-, hview, -⟩ := h.saved hdb (houtside.saveUnder rfl database hdb) hok
        rw [hview, view, hdb]
        rfl
    | loadDatabase command =>
      replace hok : executeLoadDatabase platform command s = (.ok result, s') := hok
      rw [executeLoadDatabase, get_bind] at hok
      cases hfound : s.databaseToLoad platform command with
      | error e => rw [hfound] at hok; cases hok
      | ok database =>
        rw [hfound] at hok
        cases hok
        exact (hload command database rfl hfound).symm
    | beginTransaction | commitTransaction | rollbackTransaction =>
      exact (houtside.outside trivial).elim
    | listTables | prepareStatement command | exit => cases hok; rfl
    | executePrepared command => cases hok
    | _ => cases hchange

/-- **What a crash leaves leads to a database** that the first recorded changes explain. -/
theorem Durable.crash (h : Durable platform name s) (hwell : query.WellFormed)
    (hmay : Severable platform name s query) (hleft : LeftBy platform s query storage) :
    ∃ v', Leads platform name storage v' ∧ CutTo query s.view v' := by
  -- a save that has not published shows the database of before
  have hunpublished {database : Database} (hdb : s.database = some database) {mid : QueryExecutor}
      (happend : appendWal .saveDatabase database.name s = (.ok (), mid))
      (hnone : NoOlderSnapshot platform s) :
      Leads platform name mid.storage s.view := by
    obtain ⟨records, saved, hholds, hsaved, hreplay⟩ := h.leads
    obtain ⟨record, hrecord, hholds', hfiles, -⟩ :=
      appendSave_ok h.valid.replaying_eq hholds happend
    exact leads_appended hrecord hholds' (hsaved.of_sameFiles hfiles) hreplay
      (Saved.none_or_live hsaved hnone)
  cases hleft with
  | untouched query =>
    refine ⟨s.view, h.leads, ?_⟩
    unfold CutTo
    cases query.change? with
    | none => rfl
    | some change => exact ⟨0, [], rfl⟩
  | @logged change effect hstep hchanged count mid hlog =>
    have hprintable : change.Printable := Change.printable hwell hmay.outside.noDouble
    obtain ⟨records, saved, hholds, hsaved, hreplay⟩ := h.leads
    obtain ⟨new, hnew, hholds', hfiles, -⟩ := logAll_ok h.valid.replaying_eq hholds hlog
    obtain ⟨results, v', hrun, hnews⟩ := replays_take hprintable hstep count hnew
    refine ⟨v', ⟨records ++ new, saved, hholds', hsaved.of_sameFiles hfiles, ?_⟩, ?_⟩
    · rw [pending_append]
      · exact hreplay.append hnews
      · intro record hmem
        have hentry : (record.operation, record.payload) ∈ change.records := by
          refine List.mem_of_mem_take (i := count) ?_
          rw [← hnew]
          exact List.mem_map_of_mem hmem
        exact operation_ne_save change hentry
    · unfold CutTo
      rw [Query.change?_eq_some_iff.2 rfl]
      exact ⟨count, results, hrun⟩
  | appended hdb happend =>
    exact ⟨s.view, hunpublished hdb happend (hmay.noOlderSnapshot rfl), rfl⟩
  | @writing database hdb mid happend written =>
    have hname : database.name = name := hmay.outside.saveUnder rfl database hdb
    have hleads := hunpublished hdb happend (hmay.noOlderSnapshot rfl)
    refine ⟨s.view, hleads.of_read_eq rfl fun file hfile => ?_, rfl⟩
    rw [Disk.read_write, if_neg (by rw [hname]; exact hfile), Disk.read_createDirectories]
  | @published database hdb mid last happend hpublish =>
    have hsafe : StopsSafely platform s .published := hmay.savesIndexes
    have hdurable := h.stop hmay.outside.saveUnder hsafe (.published hdb happend hpublish)
    have hmid : mid.database = s.database := by
      have := appendWal_database .saveDatabase database.name s
      rwa [happend] at this
    have hlast : last.database = mid.database := by
      rw [publish, focus_apply] at hpublish
      exact (congrArg (fun p => p.2.database) hpublish).symm
    refine ⟨last.view, hdurable.leads, ?_⟩
    exact congrArg (Option.map Database.view) (hlast.trans hmid)
  | @finished query result last hok =>
    have hdurable := h.returns hwell hmay.outside hmay.savesIndexes hmay.loadsLive hok
    have hview := view_of_returns h hmay.outside hmay.loadsLive hok
    refine ⟨last.view, hdurable.leads, ?_⟩
    unfold CutTo
    cases hchange : query.change? with
    | none =>
      rw [hchange] at hview
      exact hview
    | some change =>
      rw [hchange] at hview
      obtain ⟨effect, hstep, -, hdatabase⟩ := hview
      obtain ⟨results, hrun⟩ := run_recorded hstep
      refine ⟨change.recorded.length, results, ?_⟩
      rw [List.take_length, hrun, hdatabase]

/-! ### Sessions with crashes -/

/-- A statement that a session with crashes may send: a change that throws has not begun, a save
writes index definitions that read back, and LOAD reads the live database. -/
structure Answerable (platform : Platform) (name : Str) (s : QueryExecutor) (query : Query) :
    Prop where
  outside : OutsideStatement name s query
  savesIndexes : SavesIndexes platform s query
  loadsLive : LoadsLive platform s query
  wholeChange : ¬ PartialChange s.view query
  noFileFailure : ∀ e, (executeUnlocked platform query s).1 = .error e → ¬ FileFailure e

/-- The entry for a command and its outcome. -/
def answered (query : Query) : Outcome → List Entry
  | .ok result => (query.change?.map fun change => Entry.answered change result).toList
  | .error _ => []

/-- The entry for a command that a crash cuts off. -/
def cutOff (query : Query) : List Entry := (query.change?.map Entry.cut).toList

/-- The executors that sessions lead to from an empty storage root, and what the sessions have asked
for.  A text is answered, the executor is stopped and started, or the process dies while it runs
what a text comes to and a new executor starts from what is left. -/
inductive CrashRun (platform : Platform) (name : Str) : QueryExecutor → List Entry → Prop
  | start : CrashRun platform name (start platform .empty) []
  | restart {s : QueryExecutor} {entries : List Entry} (h : CrashRun platform name s entries) :
    CrashRun platform name (QueryExecutor.start platform s.storage.disk) entries
  | text {s : QueryExecutor} {entries : List Entry} (h : CrashRun platform name s entries)
    (depth : ℕ) (sql : Str)
    (hmay : ∀ q, s.comesTo depth sql = some q → Answerable platform name s q) :
    CrashRun platform name (respond platform depth sql s).2 (entries ++
      (s.comesTo depth sql).toList.flatMap fun q => answered q (respond platform depth sql s).1)
  | crash {s : QueryExecutor} {entries : List Entry} (h : CrashRun platform name s entries)
    {depth : ℕ} {sql : Str} {q : Query} (hq : s.comesTo depth sql = some q)
    (hmay : Severable platform name s q) {storage : Storage}
    (hleft : LeftBy platform s q storage) :
    CrashRun platform name (QueryExecutor.start platform storage.disk) (entries ++ cutOff q)

/-- A statement that is answered is explained by its change. -/
theorem explains_answered (h : Durable platform name s) (hwell : query.WellFormed)
    (hmay : Answerable platform name s query) {entries : List Entry}
    (hentries : Explains entries s.view) :
    Durable platform name (executeUnlocked platform query s).2 ∧
      Explains (entries ++ answered query (executeUnlocked platform query s).1)
        (executeUnlocked platform query s).2.view := by
  rcases hrun : executeUnlocked platform query s with ⟨e | result, s'⟩
  · have hfile := hmay.noFileFailure e (by rw [hrun])
    have hview := (undone_executeUnlocked h.valid hwell hmay.wholeChange e s' hrun hfile).1
    refine ⟨h.throws hwell hmay.wholeChange hrun hfile, ?_⟩
    simp only [answered, List.append_nil, hview]
    exact hentries
  · refine ⟨h.returns hwell hmay.outside hmay.savesIndexes hmay.loadsLive hrun, ?_⟩
    have hview := view_of_returns h hmay.outside hmay.loadsLive hrun
    cases hchange : query.change? with
    | none =>
      rw [hchange] at hview
      simp only [answered, hchange, Option.map_none, Option.toList_none, List.append_nil, hview]
      exact hentries
    | some change =>
      rw [hchange] at hview
      obtain ⟨effect, hstep, rfl, hdatabase⟩ := hview
      simp only [answered, hchange, Option.map_some, Option.toList_some, hdatabase]
      exact hentries.answered hstep

/-- What a crash leaves is explained by the first recorded changes. -/
theorem explains_cutOff {v v' : Option DatabaseView} {entries : List Entry}
    (hentries : Explains entries v) (hcut : CutTo query v v') :
    Explains (entries ++ cutOff query) v' := by
  unfold CutTo at hcut
  unfold cutOff
  cases hchange : query.change? with
  | none =>
    rw [hchange] at hcut
    rw [Option.map_none, Option.toList_none, List.append_nil, hcut]
    exact hentries
  | some change =>
    rw [hchange] at hcut
    obtain ⟨count, results, hrun⟩ := hcut
    exact hentries.cut count hrun

/-- **Crashes are explained by the interpreter.**  After any session with crashes the database is
the one to which the answered changes, with their answers, and the first recorded changes of those
that were cut off lead; and a new executor recovers it again. -/
theorem crash_consistent {entries : List Entry} (h : CrashRun platform name s entries) :
    Explains entries s.view ∧ Recovers platform s := by
  suffices hdurable : Durable platform name s ∧ Explains entries s.view from
    ⟨hdurable.2, hdurable.1.recovers⟩
  induction h with
  | start =>
    have hempty : Leads platform name ⟨.empty, none, []⟩ none := leads_empty
    exact ⟨hempty.durable_start, by rw [hempty.start.1]; exact .nil⟩
  | restart _ ih =>
    obtain ⟨hdurable, hentries⟩ := ih
    exact ⟨hdurable.leads.durable_start, by rw [hdurable.leads.start.1]; exact hentries⟩
  | @text s entries _ depth sql hmay ih =>
    obtain ⟨hdurable, hentries⟩ := ih
    rcases respond_comesTo platform depth s sql with ⟨q, hq, hwell, hrun⟩ | ⟨hnone, e, hrun⟩
    · rw [hrun, hq]
      simp only [Option.toList_some, List.flatMap_singleton]
      exact explains_answered hdurable hwell (hmay q hq) hentries
    · rw [hrun, hnone]
      simp only [Option.toList_none, List.flatMap_nil, List.append_nil]
      exact ⟨hdurable, hentries⟩
  | @crash s entries _ depth sql q hq hmay storage hleft ih =>
    obtain ⟨hdurable, hentries⟩ := ih
    have hwell : q.WellFormed := by
      rcases respond_comesTo platform depth s sql with ⟨q', hq', hwell, -⟩ | ⟨hnone, -⟩
      · rw [hq] at hq'
        cases hq'
        exact hwell
      · rw [hq] at hnone
        cases hnone
    obtain ⟨v', hleads, hcut⟩ := hdurable.crash hwell hmay hleft
    exact ⟨hleads.durable_start, by rw [hleads.start.1]; exact explains_cutOff hentries hcut⟩

/-! ### A crash between the rows of an INSERT -/

/-- The entries of texts that are sent one after the other. -/
def entriesOf (platform : Platform) (depth : ℕ) : List Str → QueryExecutor → List Entry
  | [], _ => []
  | sql :: rest, s =>
    ((s.comesTo depth sql).toList.flatMap fun q => answered q (respond platform depth sql s).1) ++
      entriesOf platform depth rest (respond platform depth sql s).2

theorem CrashRun.converse {entries : List Entry} (h : CrashRun platform name s entries)
    {texts : List Str} (hall : Allows platform depth (Answerable platform name) texts s) :
    CrashRun platform name (QueryExecutor.converse platform depth texts s).2
      (entries ++ entriesOf platform depth texts s) := by
  induction texts generalizing s entries with
  | nil => rwa [entriesOf, List.append_nil]
  | cons sql rest ih =>
    rw [entriesOf, ← List.append_assoc]
    exact ih (h.text depth sql hall.1) hall.2

theorem Simple.answerable (hplatform : platform.leftToRight = true)
    (h : Simple platform name s query) : Answerable platform name s query := by
  have hrestartable := h.restartable hplatform
  exact ⟨hrestartable.outside, hrestartable.savesIndexes, hrestartable.loadsLive,
    hrestartable.wholeChange, hrestartable.noFileFailure⟩

theorem Allows.mono {allowed allowed' : QueryExecutor → Query → Prop}
    (himp : ∀ s q, allowed s q → allowed' s q) {texts : List Str}
    (h : Allows platform depth allowed texts s) : Allows platform depth allowed' texts s := by
  induction texts generalizing s with
  | nil => trivial
  | cons sql rest ih => exact ⟨fun q hq => himp s q (h.1 q hq), ih h.2⟩

/-- A table with two rows, and a save. -/
def savingTexts : List Str :=
  [bytes "CREATE DATABASE d;", bytes "CREATE TABLE t (a INT);",
    bytes "INSERT INTO t VALUES (1), (2);", bytes "SAVE DATABASE;"]

/-- The executor that is given these texts. -/
def savedRows : QueryExecutor :=
  (converse (.byInsertion true) 1 savingTexts (start (.byInsertion true) .empty)).2

/-- `INSERT INTO t VALUES (3), (4);`. -/
def moreRows : Insert := ⟨bytes "t", [[.int 3], [.int 4]]⟩

/-- The statement dies when one record has been appended. -/
def oneLogged : QueryExecutor := (logAll ((Change.insert moreRows).records.take 1) savedRows).2

/-- The next executor. -/
def afterCut : QueryExecutor := start (.byInsertion true) oneLogged.storage.disk

/-- It is given one more row. -/
def lastRow : List Str := [bytes "INSERT INTO t VALUES (5);"]

theorem crash_consistent_afterCut :
    (converse (.byInsertion true) 1 lastRow afterCut).2.view = some ⟨bytes "d",
        SortedMap.empty.insert (bytes "t") ⟨[⟨bytes "a", .int, false⟩],
          [[.int 1], [.int 2], [.int 3], [.int 5]], .empty⟩⟩ ∧
      Explains (entriesOf (.byInsertion true) 1 savingTexts (start (.byInsertion true) .empty) ++
          cutOff (.insert moreRows) ++ entriesOf (.byInsertion true) 1 lastRow afterCut)
        (converse (.byInsertion true) 1 lastRow afterCut).2.view := by
  have hsaved : Allows (.byInsertion true) 1 (Simple (.byInsertion true) (bytes "d"))
      savingTexts (start (.byInsertion true) .empty) := by decide +kernel
  have hmore : Allows (.byInsertion true) 1 (Simple (.byInsertion true) (bytes "d"))
      lastRow afterCut := by decide +kernel
  have hq : savedRows.comesTo 1 (bytes "INSERT INTO t VALUES (3), (4);") =
      some (.insert moreRows) := by decide +kernel
  have hstep : ((step (.insert moreRows) savedRows.view).toOption.any fun effect =>
      effect.changed) = true := by decide +kernel
  have hlog : (logAll ((Change.insert moreRows).records.take 1) savedRows).1 = .ok () := by
    decide +kernel
  have hplain : PlainStatement (bytes "d") savedRows (.insert moreRows) := by decide +kernel
  rw [Option.any_eq_true] at hstep
  obtain ⟨effect, heffect, hchanged⟩ := hstep
  have hmeaning : step (.insert moreRows) savedRows.view = .ok effect := by
    cases hcase : step (.insert moreRows) savedRows.view with
    | error e => rw [hcase] at heffect; cases heffect
    | ok found => rw [hcase] at heffect; cases heffect; rfl
  have hfirst : CrashRun (.byInsertion true) (bytes "d") savedRows
      (entriesOf (.byInsertion true) 1 savingTexts (start (.byInsertion true) .empty)) :=
    CrashRun.start.converse (hsaved.mono fun _ _ h => h.answerable rfl)
  have hleft : LeftBy (.byInsertion true) savedRows (.insert moreRows) oneLogged.storage :=
    .logged hmeaning hchanged (eq_of_fst_eq hlog)
  have hcut := hfirst.crash hq ⟨hplain.outside, nofun, nofun, nofun⟩ hleft
  exact ⟨by decide +kernel,
    (crash_consistent (hcut.converse (hmore.mono fun _ _ h => h.answerable rfl))).1⟩

end QueryExecutor

end VertexDB
