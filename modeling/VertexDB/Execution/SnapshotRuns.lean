import VertexDB.Execution.CrashSafety

/-!
# Runs with LOAD DATABASE and with several snapshots

LOAD replaces the live database by the snapshot and leaves the log as it is, so that recovery
replays the records of changes that the live database has lost.  `recovers_loading` says that LOAD
is durable exactly when it reads what is live.

Recovery loads the first snapshot file of the directory, in whatever order that is listed, and
there is one snapshot file for each name.  `recovers_anyOrder` says that the order does not matter
as long as a save finds no snapshot of another name.
-/

namespace VertexDB

open Ascii Procedure StorageManager

namespace QueryExecutor

variable {platform : Platform} {name : Str} {s s' : QueryExecutor} {query : Query}

/-! ### LOAD DATABASE -/

theorem Run.durable_loading (h : Run platform (fun s query => OutsideStatement name s query ∧
    SavesIndexes platform s query ∧ LoadsLive platform s query) s) : Durable platform name s := by
  induction h with
  | start => exact leads_empty.durable_start
  | restart _ ih => exact ih.leads.durable_start
  | @statement s s' _ sql query q hparse depth hq hallowed result hok ih =>
    obtain ⟨hstatement, hindexes, hload⟩ := hallowed
    obtain ⟨hwell, hrun⟩ := execute_of_resolved platform hparse hq
    rw [hrun] at hok
    exact ih.returns hwell hstatement hindexes hload hok

/-- After a save, recovery leads to what the snapshot shows. -/
theorem Durable.savesIndexes (h : Durable platform name s)
    (hsave : SaveUnder name s .saveDatabase) {result : QueryResult}
    (hok : executeSaveDatabase none s = (.ok result, s')) (hrecovers : Recovers platform s') :
    SavesIndexes platform s .saveDatabase := by
  intro _ view hview
  rw [QueryExecutor.view, Option.map_eq_some_iff] at hview
  obtain ⟨database, hdb, rfl⟩ := hview
  obtain ⟨-, hview, hleads⟩ := h.saved hdb (hsave rfl database hdb) hok
  have hsame : some (readBackView platform database) = some database.view := by
    rw [← hleads.start.1, ← hview]
    exact hrecovers
  exact (readBackView_eq_iff (h.valid.sound database hdb)).1 (Option.some.inj hsame)

/-- LOAD leaves the files alone, so recovery still leads to what was live before. -/
theorem Durable.loadsLive (h : Durable platform name s) {command : LoadDatabase}
    {result : QueryResult} (hok : executeLoadDatabase platform command s = (.ok result, s'))
    (hrecovers : Recovers platform s') : LoadsLive platform s (.loadDatabase command) := by
  rintro _ database ⟨⟩ hload
  rw [executeLoadDatabase, get_bind, hload] at hok
  cases hok
  exact h.recovers.symm.trans hrecovers

/-- **LOAD DATABASE is durable when it reads what is live**: recovery reproduces the live database
in every run whose loads do so and whose saves write index definitions that read back, and the next
statement keeps it so exactly when it does the same. -/
theorem recovers_loading (h : Run platform (fun s query => OutsideStatement name s query ∧
    SavesIndexes platform s query ∧ LoadsLive platform s query) s) :
    Recovers platform s ∧ ∀ sql query q depth result s', Parser.parse sql = .ok query →
      s.resolved depth query = some q → OutsideStatement name s q →
      execute platform depth query s = (.ok result, s') →
      (Recovers platform s' ↔ SavesIndexes platform s q ∧ LoadsLive platform s q) := by
  have hdurable := h.durable_loading
  refine ⟨hdurable.recovers, fun sql query q depth result s' hparse hq hstatement hok => ?_⟩
  constructor
  · intro hrecovers
    have hrun : executeUnlocked platform q s = (.ok result, s') :=
      (execute_of_resolved platform hparse hq).2.symm.trans hok
    constructor
    · rintro rfl
      exact hdurable.savesIndexes hstatement.saveUnder hrun hrecovers rfl
    · rintro command database rfl
      exact hdurable.loadsLive hrun hrecovers command database rfl
  · rintro ⟨hindexes, hload⟩
    exact (h.statement hparse depth hq ⟨hstatement, hindexes, hload⟩ hok).durable_loading.recovers

/-- A saved table is loaded again. -/
def reloadedTable : QueryExecutor :=
  (execute (.byInsertion true) 1 (.loadDatabase ⟨none⟩) (savedTable (.byInsertion true))).2

theorem recovers_loading_reloadedTable : Recovers (.byInsertion true) reloadedTable := by
  have hloads : ((savedTable (.byInsertion true)).databaseToLoad (.byInsertion true)
      ⟨none⟩).toOption.map Database.view = (savedTable (.byInsertion true)).view := by
        decide +kernel
  have hparse : Parser.parse (bytes "LOAD DATABASE;") = .ok (.loadDatabase ⟨none⟩) := by
    decide +kernel
  have hok :
      (execute (.byInsertion true) 1 (.loadDatabase ⟨none⟩) (savedTable (.byInsertion true))).1 =
      .ok (messageResult true (bytes "loaded database d")) := by decide +kernel
  have hrun : Run (.byInsertion true) (fun s q => OutsideStatement (bytes "d") s q ∧
      SavesIndexes (.byInsertion true) s q ∧ LoadsLive (.byInsertion true) s q)
      (savedTable (.byInsertion true)) := by
    refine run_savedTable.mono fun s q hall => ⟨hall.outside, fun _ _ _ => .inl rfl, ?_⟩
    rintro command database rfl
    exact absurd trivial hall.plain.noLoad
  refine ((recovers_loading hrun).2 _ _ _ 1 _ _ hparse rfl ⟨id, trivial, nofun⟩
    (eq_of_fst_eq hok)).2 ⟨nofun, ?_⟩
  rintro _ database ⟨⟩ hload
  rw [hload] at hloads
  exact hloads.symm

/-- A row is inserted after the save, and the snapshot loaded. -/
def revertedTable : QueryExecutor := runSql (.byInsertion true)
  ["INSERT INTO t VALUES (3);", "LOAD DATABASE d;"] (savedTable (.byInsertion true))

/-- The log still holds the record of the row, so recovery brings it back. -/
theorem not_recovers_revertedTable :
    Run (.byInsertion true) (OutsideStatement (bytes "d")) revertedTable ∧
      ¬ Recovers (.byInsertion true) revertedTable :=
  ⟨(run_savedTable.mono fun _ _ h => h.outside).runSql (by decide +kernel),
    by unfold Recovers; decide +kernel⟩

/-! ### Several snapshots -/

/-- The platform with another order of directory listings. -/
def listedBy (platform : Platform) (listing : List Str → List Str)
    (hperm : ∀ names, (listing names).Perm names) : Platform :=
  { platform with
    listing := listing
    listing_perm := hperm }

/-- A new executor shows the database that the live one shows, in whatever order the directory is
listed. -/
def RecoversAnyOrder (platform : Platform) (s : QueryExecutor) : Prop :=
  ∀ listing hperm, Recovers (listedBy platform listing hperm) s

/-- A statement outside transactions that is no LOAD, without doubles. -/
structure KeepsSnapshots (query : Query) : Prop where
  outside : ¬ Transactional query
  noLoad : ¬ Loads query
  noDouble : query.NoDouble

/-- A save finds no snapshot of another name. -/
def OnlySnapshot (s : QueryExecutor) (query : Query) : Prop :=
  query = .saveDatabase → ∀ database, s.database = some database →
    ∀ file contents, s.storage.disk.read file = some contents →
      Disk.extension file = StorageManager.extension → file = pathFor database.name

/-- A state that is durable is so under the name that a save finds. -/
theorem Durable.saveUnder (h : Durable platform name s) {database : Database}
    (hdb : s.database = some database) (honly : OnlySnapshot s .saveDatabase) :
    Durable platform database.name s := by
  obtain ⟨records, saved, hholds, hsaved, hreplay⟩ := h.leads
  refine ⟨h.valid, records, saved, hholds, ?_, hreplay⟩
  cases saved with
  | none => exact hsaved
  | some view =>
    obtain ⟨contents, hread⟩ := hsaved.read_pathFor
    have hpath := honly rfl database hdb _ _ hread (extension_pathFor hsaved.1)
    have hsame : name = database.name := List.append_cancel_right hpath
    rw [← hsame]
    exact hsaved

/-- A statement other than LOAD does not list the directory. -/
theorem executeUnlocked_listedBy (platform : Platform) (listing : List Str → List Str)
    (hperm : ∀ names, (listing names).Perm names) (hload : ¬ Loads query) :
    executeUnlocked (listedBy platform listing hperm) query = executeUnlocked platform query := by
  cases query with
  | loadDatabase command => exact absurd trivial hload
  | _ => rfl

/-- What is on disk leads to the live database, in whatever order the directory is listed. -/
theorem Run.durable_anyOrder (h : Run platform (fun s query => KeepsSnapshots query ∧
    SavesIndexes platform s query ∧ OnlySnapshot s query) s) (listing : List Str → List Str)
    (hperm : ∀ names, (listing names).Perm names) :
    ∃ name, Durable (listedBy platform listing hperm) name s := by
  induction h generalizing listing hperm with
  | start =>
    have hempty : Leads platform [] ⟨.empty, none, []⟩ none := leads_empty
    exact ⟨[], hempty.durable_start.valid, leads_empty.restarted hempty.start.2 hempty.start.1⟩
  | restart _ ih =>
    -- the executor was started by the listing of its own platform
    obtain ⟨_, hlive⟩ := ih platform.listing platform.listing_perm
    obtain ⟨hview, hstorage⟩ := hlive.leads.start
    obtain ⟨name, hdurable⟩ := ih listing hperm
    exact ⟨name, hlive.leads.durable_start.valid, hdurable.leads.restarted hstorage hview⟩
  | @statement s s' _ sql query q hparse depth hq hallowed result hok ih =>
    obtain ⟨hkeeps, hindexes, honly⟩ := hallowed
    obtain ⟨hwell, hrun⟩ := execute_of_resolved platform hparse hq
    rw [hrun, ← executeUnlocked_listedBy platform listing hperm hkeeps.noLoad] at hok
    have hname : ∃ name, Durable (listedBy platform listing hperm) name s ∧ SaveUnder name s q := by
      obtain ⟨name, hdurable⟩ := ih listing hperm
      cases hdb : s.database with
      | none =>
        refine ⟨name, hdurable, ?_⟩
        rintro - database hdb'
        rw [hdb] at hdb'
        cases hdb'
      | some database =>
        by_cases hsave : q = .saveDatabase
        · subst hsave
          refine ⟨database.name, hdurable.saveUnder hdb honly, ?_⟩
          rintro - database' hdb'
          rw [hdb] at hdb'
          cases hdb'
          rfl
        · exact ⟨name, hdurable, fun heq => absurd heq hsave⟩
    obtain ⟨name, hdurable, hsave⟩ := hname
    refine ⟨name, hdurable.step hwell hkeeps.noDouble hkeeps.noLoad hsave hindexes ?_ hok⟩
    rintro rfl
    exact absurd trivial hkeeps.outside

/-- **The database that was active is the one recovered, in whatever order the directory is
listed**, in every run in which saves find no snapshot of another name and write index definitions
that read back. -/
theorem recovers_anyOrder (h : Run platform (fun s query => KeepsSnapshots query ∧
    SavesIndexes platform s query ∧ OnlySnapshot s query) s) : RecoversAnyOrder platform s := by
  intro listing hperm
  obtain ⟨name, hdurable⟩ := h.durable_anyOrder listing hperm
  exact hdurable.recovers

/-- The plain statements that find no snapshot but that of `d`. -/
def onlyD (s : QueryExecutor) (query : Query) : Bool :=
  decide (¬ Transactional query ∧ ¬ Loads query ∧ query.NoDouble ∧ SaveUnder (bytes "d") s query) &&
    s.storage.disk.files.keys.all fun file =>
      Disk.extension file ≠ StorageManager.extension || file = pathFor (bytes "d")

theorem onlySnapshot_of_onlyD (h : onlyD s query = true) :
    KeepsSnapshots query ∧ OnlySnapshot s query := by
  rw [onlyD, Bool.and_eq_true, decide_eq_true_eq] at h
  obtain ⟨⟨houtside, hload, hdouble, hunder⟩, hfiles⟩ := h
  refine ⟨⟨houtside, hload, hdouble⟩, ?_⟩
  intro hsave database hdb file contents hread hext
  have hfile := List.all_eq_true.1 hfiles file (SortedMap.mem_keys_iff.2 ⟨contents, hread⟩)
  rw [hunder hsave database hdb]
  simpa [hext] using hfile

theorem recovers_anyOrder_changedTable :
    RecoversAnyOrder (.byInsertion true) (changedTable (.byInsertion true)) := by
  have hsaved : Run (.byInsertion true) (fun s q => onlyD s q = true)
      (savedTable (.byInsertion true)) := Run.start.runSql (by decide +kernel)
  have hrun : Run (.byInsertion true) (fun s q => onlyD s q = true)
      (changedTable (.byInsertion true)) := hsaved.runSql (by decide +kernel)
  refine recovers_anyOrder (hrun.mono fun s q hall => ?_)
  obtain ⟨hkeeps, honly⟩ := onlySnapshot_of_onlyD hall
  exact ⟨hkeeps, fun _ _ _ => .inl rfl, honly⟩

/-- Databases of two names are made and saved. -/
def twoNames : QueryExecutor := runSql (.byInsertion true)
  ["CREATE DATABASE a;", "SAVE DATABASE;", "CREATE DATABASE b;", "SAVE DATABASE;"]
  (start (.byInsertion true) .empty)

/-- Where the directory is listed by name, recovery loads the database that was saved first. -/
theorem not_recovers_twoNames :
    Run (.byInsertion true) (fun _ query => KeepsSnapshots query) twoNames ∧
      ¬ RecoversAnyOrder (.byInsertion true) twoNames := by
  have hrun : Run (.byInsertion true) (fun _ q => ¬ Transactional q ∧ ¬ Loads q ∧ q.NoDouble)
      twoNames := Run.start.runSql (by decide +kernel)
  refine ⟨hrun.mono fun _ _ h => ⟨h.1, h.2.1, h.2.2⟩, fun h => ?_⟩
  have hwrong : ¬ Recovers (.byInsertion true) twoNames := by
    unfold Recovers
    decide +kernel
  exact hwrong (h id fun _ => .refl _)

end QueryExecutor

end VertexDB
