import VertexDB.Execution.CrashSafety
import VertexDB.Execution.TornLog

/-!
# Logging before changing

Every change of the database has records in the log, one for each row of an INSERT and one for any
other command.  CREATE DATABASE and INSERT append a record before they make its change.  The other
commands change the database first, so that a record that cannot be appended leaves a change that
is not in the log.  `writeAhead_iff` says when a failing append leaves the database that the
appended records describe.
-/

namespace VertexDB

open Ascii Procedure

namespace Change

/-- The changes that the records of a change stand for, one for each record. -/
def recorded : Change → List Change
  | createDatabase command => [createDatabase command]
  | createTable command => [createTable command]
  | dropTable command => [dropTable command]
  | renameTable command => [renameTable command]
  | insert command => command.rows.map fun row => insert ⟨command.table, [row]⟩
  | update command => [update command]
  | delete command => [delete command]
  | createIndex command => [createIndex command]

end Change

namespace Reference

variable {v : Option DatabaseView}

theorem run_append (changes changes' : List Change) (v : Option DatabaseView) :
    run (changes ++ changes') v = (run changes v >>= fun first =>
      run changes' first.2 >>= fun rest =>
      pure (first.1 ++ rest.1, rest.2)) := by
  induction changes generalizing v with
  | nil =>
    rw [List.nil_append, run, Failure.pure_eq_ok, Failure.ok_bind]
    cases run changes' v <;> rfl
  | cons change changes ih =>
    rw [List.cons_append, run, run]
    cases step change v with
    | error e => rfl
    | ok effect =>
      rw [Failure.ok_bind, Failure.ok_bind, ih]
      cases run changes effect.database with
      | error e => rfl
      | ok first =>
        simp only [Failure.ok_bind, Failure.pure_eq_ok]
        cases run changes' first.2 <;> rfl

/-- After changes that do not throw, the next ones start from the database they lead to. -/
theorem run_append_iff {changes changes' : List Change} {results : List QueryResult}
    {v' v'' : Option DatabaseView} (h : run changes v = .ok (results, v')) :
    (∃ all, run (changes ++ changes') v = .ok (all, v'')) ↔
      ∃ rest, run changes' v' = .ok (rest, v'') := by
  rw [run_append, h, Failure.ok_bind]
  cases run changes' v' with
  | error e =>
    constructor
    · rintro ⟨_, ⟨⟩⟩
    · rintro ⟨_, ⟨⟩⟩
  | ok rest =>
    obtain ⟨rest, last⟩ := rest
    constructor
    · rintro ⟨all, hall⟩
      cases hall
      exact ⟨rest, rfl⟩
    · rintro ⟨_, hrest⟩
      cases hrest
      exact ⟨_, rfl⟩

/-- Inserting rows one after the other. -/
theorem run_insert {table : Str} {rows : List Row} {view : DatabaseView} {found : TableView}
    (hfind : view.tables.find? table = some found)
    (hvalid : ∀ row ∈ rows, validateRow found.schema row = .ok ()) :
    ∃ results, run (rows.map fun row => .insert ⟨table, [row]⟩) (some view) =
      .ok (results, some (putTable view table { found with rows := found.rows ++ rows })) := by
  induction rows generalizing view found with
  | nil => exact ⟨[], by rw [List.append_nil, putTable_self hfind]; rfl⟩
  | cons row rows ih =>
    obtain ⟨hrow, hrows⟩ := List.forall_mem_cons.1 hvalid
    obtain ⟨effect, hstep, hdb⟩ := QueryExecutor.step_insert hfind
      (List.forall_mem_singleton.2 hrow)
    have hfind' : (putTable view table { found with rows := found.rows ++ [row] }).tables.find?
        table = some { found with rows := found.rows ++ [row] } := by simp [putTable]
    obtain ⟨results, hrun⟩ := ih hfind' hrows
    refine ⟨effect.result :: results, ?_⟩
    rw [List.map_cons, run, hstep, Failure.ok_bind, hdb, hrun, putTable_putTable,
      List.append_assoc]
    rfl

/-- The recorded changes of a change come to its effect. -/
theorem run_recorded {change : Change} {effect : Effect} (h : step change v = .ok effect) :
    ∃ results, run change.recorded v = .ok (results, effect.database) := by
  by_cases hinsert : ∃ command, change = .insert command
  · obtain ⟨⟨table, rows⟩, rfl⟩ := hinsert
    obtain ⟨view, found, rfl, hfind, hvalid, -, hdb⟩ := QueryExecutor.step_insert_ok h
    rw [hdb]
    exact run_insert hfind hvalid
  · have hone : change.recorded = [change] := by
      cases change with
      | insert command => exact absurd ⟨command, rfl⟩ hinsert
      | _ => rfl
    rw [hone, run, h]
    exact ⟨[effect.result], rfl⟩

end Reference

namespace QueryExecutor

open Reference

variable {platform : Platform} {s s' t : QueryExecutor} {v : Option DatabaseView} {e : Exception}

/-- The command appends its records first; or it changes the database first, and finds it as it
would make it. -/
def LogsFirst (v : Option DatabaseView) : Change → Prop
  | .createDatabase _ | .insert _ => True
  | .update command => ∀ view table target, v = some view →
      view.tables.find? command.table = some table →
      columnIndex table.schema command.column = some target →
      ∀ row ∈ table.rows, matching table.schema command.where_ row = true →
        row.at target = command.value
  | .createTable _ | .dropTable _ | .renameTable _ | .delete _ | .createIndex _ => False

/-! ### Changes with an effect -/

/-- Putting a table in place shows if the table is another one. -/
theorem putTable_ne_self {view : DatabaseView} {name : Str} {found table : TableView}
    (hfind : view.tables.find? name = some found) (hne : table ≠ found) :
    some (Reference.putTable view name table) ≠ some view := by
  intro heq
  have hsame := congrArg (fun v => v.tables.find? name) (Option.some.inj heq)
  simp only [Reference.putTable, SortedMap.find?_insert, if_true, hfind, Option.some.injEq] at hsame
  exact hne hsame

theorem createTable_ne_self {view view' : DatabaseView} {name : Str} {schema : List Column}
    (h : view.createTable name schema = .ok (true, view')) : view' ≠ view := by
  unfold DatabaseView.createTable at h
  split_ifs at h with _ _ hcontains
  · cases h
  · cases h
    intro heq
    have hsame := congrArg (fun v => v.tables.find? name) heq
    simp only [SortedMap.find?_insert, if_true] at hsame
    simp [SortedMap.contains, ← hsame] at hcontains

theorem dropTable_ne_self {view : DatabaseView} {name : Str}
    (h : (view.dropTable name).1 = true) : (view.dropTable name).2 ≠ view := by
  unfold DatabaseView.dropTable at h ⊢
  split_ifs at h ⊢ with hcontains
  intro heq
  have hsame := congrArg (fun v => v.tables.find? name) heq
  simp only [SortedMap.find?_erase, if_true] at hsame
  simp [SortedMap.contains, ← hsame] at hcontains

theorem renameTable_ne_self {view view' : DatabaseView} {oldName newName : Str}
    (h : view.renameTable oldName newName = .ok (true, view')) : view' ≠ view := by
  unfold DatabaseView.renameTable at h
  split at h
  · cases h
  · split_ifs at h with hcontains
    · cases h
    · cases h
      intro heq
      have hsame := congrArg (fun v => v.tables.find? newName) heq
      simp only [SortedMap.find?_insert, if_true] at hsame
      simp [SortedMap.contains, ← hsame] at hcontains

theorem createIndex_ne_self {table : TableView} {name column : Str}
    (h : (table.createIndex name column).1 = true) : (table.createIndex name column).2 ≠ table := by
  unfold TableView.createIndex at h ⊢
  split_ifs at h ⊢ with hfree
  intro heq
  have hsame := congrArg (fun t => t.indexes.find? name) heq
  simp only [SortedMap.find?_insert, if_true] at hsame
  simp [SortedMap.contains, ← hsame] at hfree

/-- Creating, dropping and renaming tables, deleting rows and creating indexes shows. -/
theorem database_ne_of_changed {change : Change} {effect : Effect}
    (h : step change v = .ok effect) (hc : effect.changed = true) (hnot : ¬ LogsFirst v change)
    (hupdate : ∀ command, change ≠ .update command) : effect.database ≠ v := by
  cases change with
  | createDatabase command => exact absurd trivial hnot
  | insert command => exact absurd trivial hnot
  | update command => exact absurd rfl (hupdate command)
  | createTable command =>
    cases v with
    | none => cases h; cases hc
    | some view =>
      obtain ⟨⟨created, view'⟩, hcreate, h⟩ := Failure.bind_eq_ok_iff.1 h
      cases h
      obtain rfl : created = true := hc
      exact fun heq => createTable_ne_self hcreate (Option.some.inj heq)
  | dropTable command =>
    cases v with
    | none => cases h; cases hc
    | some view =>
      cases h
      exact fun heq => dropTable_ne_self hc (Option.some.inj heq)
  | renameTable command =>
    cases v with
    | none => cases h; cases hc
    | some view =>
      obtain ⟨⟨renamed, view'⟩, hrename, h⟩ := Failure.bind_eq_ok_iff.1 h
      cases h
      obtain rfl : renamed = true := hc
      exact fun heq => renameTable_ne_self hrename (Option.some.inj heq)
  | delete command =>
    replace h : Reference.delete command v = .ok effect := by cases v <;> exact h
    obtain ⟨⟨view, found⟩, hfound, hrun⟩ := Failure.bind_eq_ok_iff.1 h
    obtain ⟨rfl, hfind⟩ := requireTable_ok hfound
    obtain ⟨⟨count, table⟩, htable, hrun⟩ := Failure.bind_eq_ok_iff.1 hrun
    cases hrun
    obtain ⟨_, -, htable⟩ := Failure.bind_eq_ok_iff.1 htable
    cases htable
    have hcount : found.rows.countP (matching found.schema command.where_) ≠ 0 := by simpa using hc
    refine putTable_ne_self hfind fun heq => hcount ?_
    have hrows := congrArg TableView.rows heq
    rw [List.countP_eq_zero]
    intro row hrow
    simpa using List.filter_eq_self.1 hrows row hrow
  | createIndex command =>
    replace h : Reference.createIndex command v = .ok effect := by cases v <;> exact h
    obtain ⟨⟨view, found⟩, hfound, hrun⟩ := Failure.bind_eq_ok_iff.1 h
    obtain ⟨rfl, hfind⟩ := requireTable_ok hfound
    cases hrun
    exact putTable_ne_self hfind (createIndex_ne_self hc)

/-- UPDATE shows unless the matching rows have the value. -/
theorem update_eq_self_iff (hs : s.Sound) {command : Update} {effect : Effect}
    (h : Reference.update command s.view = .ok effect) :
    effect.database = s.view ↔ LogsFirst s.view (.update command) := by
  rcases requireTable_cases hs command.table with ⟨db, table, hh⟩ | ⟨e, -, hv⟩
  swap
  · rw [Reference.update, hv] at h
    cases h
  have hview : s.view = some db.view := by rw [view, hh.database]; rfl
  rw [Reference.update, hh.requireTable_view, Failure.ok_bind] at h
  simp only at h
  cases hcol : columnIndex table.view.schema command.column with
  | none => rw [hcol] at h; cases h
  | some target =>
    rw [hcol] at h
    obtain ⟨⟨count, new⟩, htable, h⟩ := Failure.bind_eq_ok_iff.1 h
    cases h
    rcases updateTable_cases command target table.view with ⟨hall, hok⟩ | ⟨-, e, herr⟩
    swap
    · rw [herr] at htable
      cases htable
    rw [hok] at htable
    cases htable
    have htarget : target < table.schema.length := (List.findIdx?_eq_some_iff_getElem.1 hcol).1
    -- row by row, the update shows unless the row has the value or does not match
    have hrow : ∀ row ∈ table.view.rows,
        updatedRow command table.view.schema target row = row ↔
          (matching table.view.schema command.where_ row = true →
            row.at target = command.value) := by
      intro row hmem
      obtain ⟨passed, hp, -⟩ := hall row hmem
      rw [matching_of_passes hp]
      exact updatedRow_eq_self_iff (target_lt_length hh.reached htarget hmem) hp
    rw [hview, Option.some.injEq, putTable_eq_self_iff hh.find?_view]
    constructor
    · rintro hsame view found target' ⟨⟩ hfound hcol' row hmem
      rw [hh.find?_view] at hfound
      cases hfound
      rw [hcol] at hcol'
      cases hcol'
      refine (hrow row hmem).1 ?_
      have hid : table.view.rows.map (updatedRow command table.view.schema target) =
          table.view.rows.map id := by rw [List.map_id]; exact hsame
      exact List.map_inj_left.1 hid row hmem
    · intro hfirst
      have hid : table.view.rows.map (updatedRow command table.view.schema target) =
          table.view.rows.map id := List.map_inj_left.2 fun row hmem =>
        (hrow row hmem).2 (hfirst _ _ _ rfl hh.find?_view hcol row hmem)
      rwa [List.map_id] at hid

/-! ### A command whose record cannot be appended -/

/-- A command that changes the database first has changed it when the append throws. -/
theorem Applies.stops {action : Exec QueryResult} {record : WalOperation × Str}
    {meaning : Except Exception Effect} {effect : Effect} (h : Applies action record s meaning)
    (hmeaning : meaning = .ok effect) (hchanged : effect.changed = true)
    (hthrows : appendWal record.1 record.2 s = (.error e, t)) :
    ∃ s', action s = (.error e, s') ∧ s'.view = effect.database := by
  cases h with
  | error haction => cases hmeaning
  | @ok effect d haction hsound hview =>
    cases hmeaning
    refine ⟨t.withDatabase d, ?_, hview⟩
    have happend : appendWal record.1 record.2 (s.withDatabase d) =
      (.error e, t.withDatabase d) := by
      rw [appendWal_withDatabase, hthrows]
    rw [haction, if_pos hchanged, bind_of_error happend]

/-- INSERT stops at the row whose record cannot be appended. -/
theorem executeInsert_stops (hs : s.Sound) {command : Insert} {effect : Effect}
    (hmeaning : step (.insert command) s.view = .ok effect) {count : ℕ} {mid : QueryExecutor}
    {record : WalOperation × Str}
    (hlogged : logAll ((Change.insert command).records.take count) s = (.ok (), mid))
    (hrecord : (Change.insert command).records[count]? = some record)
    (hthrows : appendWal record.1 record.2 mid = (.error e, t)) :
    ∃ s' results, executeInsert command s = (.error e, s') ∧
      run ((Change.insert command).recorded.take count) s.view = .ok (results, s'.view) := by
  obtain ⟨table, rows⟩ := command
  obtain ⟨_, _, hview', hfind, hvalid, -, -⟩ := step_insert_ok hmeaning
  rcases requireTable_cases hs table with ⟨db, found, hh⟩ | ⟨e', -, hv⟩
  swap
  · exact absurd ⟨_, _, hview', hfind, trivial⟩
      (not_partial_of_requireTable (p := fun _ => True) hv)
  have hview : s.view = some db.view := by rw [view, hh.database]; rfl
  rw [hview] at hview'
  cases hview'
  rw [hh.find?_view] at hfind
  cases hfind
  -- the rows are those with a record, the one whose record throws, and the others
  rw [Change.records, List.getElem?_map, Option.map_eq_some_iff] at hrecord
  obtain ⟨row, hrow, rfl⟩ := hrecord
  obtain ⟨hlt, rfl⟩ := List.getElem?_eq_some_iff.1 hrow
  have hsplit : rows = rows.take count ++ rows[count] :: rows.drop (count + 1) := by
    rw [← List.drop_eq_getElem_cons hlt, List.take_append_drop]
  have hfirst : ∀ r ∈ rows.take count, validateRow found.view.schema r = .ok () :=
    fun r hr => hvalid r (List.mem_of_mem_take hr)
  rw [Change.records, ← List.map_take] at hlogged
  obtain ⟨db', hstop, hdb'⟩ := insertLoop_stops hh hfirst hlogged hthrows (rows.drop (count + 1))
  rw [← hsplit] at hstop
  obtain ⟨results, hrun⟩ := run_insert hh.find?_view hfirst
  have hrows : validateRows found.schema rows = .ok () := validateRows_ok_iff.2 hvalid
  refine ⟨t.withDatabase (some db'), results, ?_, ?_⟩
  · rw [executeInsert, get_bind, hh.requireTable_eq, lift_ok_bind]
    simp only [hrows, lift_ok_bind]
    exact bind_of_error hstop
  · rw [hview, view_withDatabase, hdb', Change.recorded, ← List.map_take]
    exact hrun

/-- The command has something to do, its first `count` records are appended, and appending the next
one throws. -/
structure AppendThrows (s : QueryExecutor) (change : Change) (count : ℕ) (e : Exception) :
    Prop where
  changes : ∃ effect, step change s.view = .ok effect ∧ effect.changed = true
  throws : ∃ mid record t, logAll (change.records.take count) s = (.ok (), mid) ∧
    change.records[count]? = some record ∧ appendWal record.1 record.2 mid = (.error e, t)

/-- Of a command with one record none is appended. -/
theorem AppendThrows.of_one {change : Change} {count : ℕ} (h : AppendThrows s change count e)
    {record : WalOperation × Str} (hone : change.records = [record]) :
    count = 0 ∧ ∃ t, appendWal record.1 record.2 s = (.error e, t) := by
  obtain ⟨mid, found, t, hlogged, hfound, hthrows⟩ := h.throws
  rw [hone] at hlogged hfound
  obtain rfl : count = 0 := by
    have := (List.getElem?_eq_some_iff.1 hfound).1
    simpa using this
  cases hfound
  cases hlogged
  exact ⟨rfl, t, hthrows⟩

/-- A command that appends its only record last throws when the change is made. -/
theorem AppendThrows.of_applies {change : Change} {count : ℕ} (h : AppendThrows s change count e)
    {record : WalOperation × Str} (hone : change.records = [record]) {action : Exec QueryResult}
    (happlies : Applies action record s (step change s.view))
    (hiff : ∀ effect, step change s.view = .ok effect → effect.changed = true →
      (effect.database = s.view ↔ LogsFirst s.view change)) :
    ∃ s', action s = (.error e, s') ∧
      ((∃ results, run (change.recorded.take count) s.view = .ok (results, s'.view)) ↔
        LogsFirst s.view change) := by
  obtain ⟨effect, hmeaning, hchanged⟩ := h.changes
  obtain ⟨rfl, t, hthrows⟩ := h.of_one hone
  obtain ⟨s', hrun, hview⟩ := happlies.stops hmeaning hchanged hthrows
  refine ⟨s', hrun, ?_⟩
  rw [← hiff effect hmeaning hchanged, List.take_zero, hview]
  constructor
  · rintro ⟨results, hsame⟩
    exact (congrArg Prod.snd (Except.ok.inj hsame)).symm
  · intro heq
    rw [heq]
    exact ⟨[], rfl⟩

/-- **A command that throws because of the log leaves the database that its records describe
exactly when it logs first.** -/
theorem AppendThrows.executeUnlocked (hs : s.Sound) {change : Change} {count : ℕ}
    (h : AppendThrows s change count e) (platform : Platform) :
    ∃ s', executeUnlocked platform change.query s = (.error e, s') ∧
      ((∃ results, run (change.recorded.take count) s.view = .ok (results, s'.view)) ↔
        LogsFirst s.view change) := by
  -- an UPDATE is the only change that may not show
  have hshows : (∀ command, change ≠ .update command) → ¬ LogsFirst s.view change →
      ∀ effect, step change s.view = .ok effect → effect.changed = true →
        (effect.database = s.view ↔ LogsFirst s.view change) :=
    fun hupdate hnot effect hmeaning hchanged =>
      iff_of_false (database_ne_of_changed hmeaning hchanged hnot hupdate) hnot
  cases change with
  | createDatabase command =>
    -- the record is appended before the database is replaced
    obtain ⟨rfl, t, hthrows⟩ := h.of_one rfl
    have hview : t.view = s.view := by
      have := appendWal_database .createDatabase command.name s
      rw [hthrows] at this
      exact congrArg (Option.map Database.view) this
    refine ⟨t, ?_, iff_of_true ⟨[], by rw [hview]; rfl⟩ trivial⟩
    exact bind_of_error hthrows
  | insert command =>
    obtain ⟨effect, hmeaning, -⟩ := h.changes
    obtain ⟨mid, record, t, hlogged, hrecord, hthrows⟩ := h.throws
    obtain ⟨s', results, hrun, hresults⟩ :=
      executeInsert_stops hs hmeaning hlogged hrecord hthrows
    exact ⟨s', hrun, iff_of_true ⟨results, hresults⟩ trivial⟩
  | createTable command =>
    exact h.of_applies rfl (applies_createTable hs command) (hshows (fun _ => by simp) id)
  | dropTable command =>
    exact h.of_applies rfl (applies_dropTable hs command) (hshows (fun _ => by simp) id)
  | renameTable command =>
    exact h.of_applies rfl (applies_renameTable hs command) (hshows (fun _ => by simp) id)
  | update command =>
    have hstep : step (.update command) s.view = Reference.update command s.view := by
      cases s.view <;> rfl
    refine h.of_applies rfl (by rw [hstep]; exact applies_update hs command) ?_
    intro effect hmeaning _
    rw [hstep] at hmeaning
    exact update_eq_self_iff hs hmeaning
  | delete command =>
    have hstep : step (.delete command) s.view = Reference.delete command s.view := by
      cases s.view <;> rfl
    exact h.of_applies rfl (by rw [hstep]; exact applies_delete hs command)
      (hshows (fun _ => by simp) id)
  | createIndex command =>
    have hstep : step (.createIndex command) s.view = Reference.createIndex command s.view := by
      cases s.view <;> rfl
    exact h.of_applies rfl (by rw [hstep]; exact applies_createIndex hs command)
      (hshows (fun _ => by simp) id)

/-! ### Runs -/

/-- The appends to come fail so. -/
def failing (s : QueryExecutor) (faults : List (Option AppendFault)) : QueryExecutor :=
  { s with storage := { s.storage with faults := faults } }

/-- The states that an executor reaches from `s` by statements that change the database, with the
changes whose records were appended.  At any time file operations of the next appends may fail.  A
statement returns, or it throws because of the log; the ones that throw log first. -/
inductive LoggedRun (platform : Platform) (s : QueryExecutor) : List Change → QueryExecutor → Prop
  | nil : LoggedRun platform s [] s
  | fails {logged : List Change} {t : QueryExecutor} (h : LoggedRun platform s logged t)
    (faults : List (Option AppendFault)) : LoggedRun platform s logged (t.failing faults)
  | returns {logged : List Change} {t t' : QueryExecutor} (h : LoggedRun platform s logged t)
    {sql : Str} {query : Query} {change : Change} (hparse : Parser.parse sql = .ok query)
    (depth : ℕ)
    (hq : t.resolved depth query = some change.query) {effect : Effect}
    (hmeaning : step change t.view = .ok effect) {result : QueryResult}
    (hok : execute platform depth query t = (.ok result, t')) :
    LoggedRun platform s (logged ++ if effect.changed then change.recorded else []) t'
  | throws {logged : List Change} {t t' : QueryExecutor} (h : LoggedRun platform s logged t)
    {sql : Str} {query : Query} {change : Change} (hparse : Parser.parse sql = .ok query)
    (depth : ℕ)
    (hq : t.resolved depth query = some change.query) (hfirst : LogsFirst t.view change) {count : ℕ}
    {e e' : Exception} (happend : AppendThrows t change count e)
    (herror : execute platform depth query t = (.error e', t')) :
    LoggedRun platform s (logged ++ change.recorded.take count) t'

theorem LoggedRun.consistent {logged : List Change} (h : LoggedRun platform s logged t)
    (hs : Opened platform s) : t.Consistent false := by
  induction h with
  | nil => exact hs.consistent
  | fails _ faults ih => exact ⟨ih.sound, ih.snapshot, ih.replaying_eq⟩
  | @returns _ t _ _ _ query _ _ depth _ _ _ _ hok ih =>
    have hnext := keeps_execute_of (consistent_executeUnlocked platform) depth query t ih
    rwa [hok] at hnext
  | @throws _ t _ _ _ query _ _ depth _ _ _ _ _ _ herror ih =>
    have hnext := keeps_execute_of (consistent_executeUnlocked platform) depth query t ih
    rwa [herror] at hnext

/-- The live database is the one that the appended records describe. -/
theorem LoggedRun.run_eq {logged : List Change} (h : LoggedRun platform s logged t)
    (hs : Opened platform s) : ∃ results, run logged s.view = .ok (results, t.view) := by
  induction h with
  | nil => exact ⟨[], rfl⟩
  | fails _ _ ih => exact ih
  | @returns logged t t' hrun sql query change hparse depth hq effect hmeaning result hok ih =>
    obtain ⟨results, hlogged⟩ := ih
    rw [run_append_iff hlogged]
    have hsound := (hrun.consistent hs).sound
    rw [(execute_of_resolved platform hparse hq).2] at hok
    obtain ⟨effect', _, _, hmeaning', -, -, -, -, hview⟩ :=
      (performs platform hsound change).of_ok hok
    rw [hmeaning] at hmeaning'
    cases hmeaning'
    rw [hview]
    by_cases hchanged : effect.changed = true
    · rw [if_pos hchanged]
      exact run_recorded hmeaning
    · rw [if_neg hchanged, database_of_not_changed hmeaning (by simpa using hchanged)]
      exact ⟨[], rfl⟩
  | @throws logged t t' hrun sql query change hparse depth hq hfirst count e e' happend herror ih =>
    obtain ⟨results, hlogged⟩ := ih
    rw [run_append_iff hlogged]
    have hsound := (hrun.consistent hs).sound
    obtain ⟨t'', hstop, hiff⟩ := happend.executeUnlocked hsound platform
    rw [(execute_of_resolved platform hparse hq).2, hstop] at herror
    cases herror
    exact hiff.2 hfirst

/-- **When the log is ahead of the database**: after any run of statements whose failing appends
were of statements that log first, the live database is the one that the appended records describe,
and a statement whose append throws leaves it so exactly when it logs first. -/
theorem writeAhead_iff (hs : Opened platform s) {logged : List Change}
    (hrun : LoggedRun platform s logged t) :
    (∃ results, run logged s.view = .ok (results, t.view)) ∧
      ∀ sql query change depth count e, Parser.parse sql = .ok query →
        t.resolved depth query = some (Change.query change) → AppendThrows t change count e →
        ∃ t', execute platform depth query t = (.error e, t') ∧
          ((∃ results, run (logged ++ change.recorded.take count) s.view = .ok (results, t'.view)) ↔
            LogsFirst t.view change) := by
  obtain ⟨results, hlogged⟩ := hrun.run_eq hs
  refine ⟨⟨results, hlogged⟩, ?_⟩
  intro sql query change depth count e hparse hq happend
  obtain ⟨t', hstop, hiff⟩ :=
    happend.executeUnlocked (hrun.consistent hs).sound platform
  refine ⟨t', by rw [(execute_of_resolved platform hparse hq).2, hstop], ?_⟩
  rw [run_append_iff hlogged]
  exact hiff

/-- The change has something to do. -/
theorem exists_changed {change : Change} {v : Option DatabaseView}
    (h : (step change v).toOption.map Effect.changed = some true) :
    ∃ effect, step change v = .ok effect ∧ effect.changed = true := by
  cases hstep : step change v with
  | error e => rw [hstep] at h; cases h
  | ok effect =>
    rw [hstep] at h
    exact ⟨effect, rfl, Option.some.inj h⟩

/-- An executor on a saved table.  Of the next record but one only five bytes are written. -/
def shortWrite : QueryExecutor :=
  (savedTable (.byInsertion true)).failing [none, some (.write 5)]

/-- `INSERT INTO t VALUES (3), (4);`. -/
def threeFour : Insert := ⟨bytes "t", [[.int 3], [.int 4]]⟩

theorem appendThrows_shortWrite :
    AppendThrows shortWrite (.insert threeFour) 1 WriteAheadLog.appendFailure := by
  have hfirst : (logAll ((Change.insert threeFour).records.take 1) shortWrite).1 = .ok () := by
    decide +kernel
  have hsecond : (appendWal .insert (insertSql (bytes "t") [.int 4])
      (logAll ((Change.insert threeFour).records.take 1) shortWrite).2).1 =
        .error WriteAheadLog.appendFailure := by decide +kernel
  exact ⟨exists_changed (by decide +kernel), _, _, _, eq_of_fst_eq hfirst, rfl,
    eq_of_fst_eq hsecond⟩

/-- The first row is in the table, as its record is in the log. -/
theorem writeAhead_iff_shortWrite : ∃ t',
    execute (.byInsertion true) 1 (.insert threeFour) shortWrite =
        (.error WriteAheadLog.appendFailure, t') ∧
      ∃ results, run [.insert ⟨bytes "t", [[.int 3]]⟩] (savedTable (.byInsertion true)).view =
        .ok (results, t'.view) := by
  have hparse : Parser.parse (bytes "INSERT INTO t VALUES (3), (4);") =
      .ok (.insert threeFour) := by decide +kernel
  obtain ⟨t', hrun, hiff⟩ := (writeAhead_iff (Reachable.start.runSql _).opened
    (LoggedRun.nil.fails [none, some (.write 5)])).2 _ _ (.insert threeFour) 1 1 _ hparse rfl
      appendThrows_shortWrite
  exact ⟨t', hrun, hiff.2 trivial⟩

/-- An executor on a saved table whose log ends in a torn record. -/
def tornTable : QueryExecutor :=
  start (.byInsertion true) (withLog (savedTable (.byInsertion true)).storage.disk fiveBytes)

/-- Nothing can be appended to the torn log. -/
theorem appendThrows_tornTable {change : Change}
    (hchanges : (step change tornTable.view).toOption.map Effect.changed = some true)
    {record : WalOperation × Str} (hrecord : change.records[0]? = some record) :
    ∃ e, AppendThrows tornTable change 0 e := by
  have htorn : Torn [] fiveBytes := ⟨by simp, torn_fiveBytes.tail_ne, torn_fiveBytes.torn⟩
  obtain ⟨e, he⟩ := appendWal_torn htorn (.byInsertion true)
    (savedTable (.byInsertion true)).storage.disk record.1 record.2
  exact ⟨e, exists_changed hchanges, tornTable, record, _, rfl, hrecord, eq_of_fst_eq he⟩

/-- `DROP TABLE t;`. -/
def dropT : Query := .dropTable ⟨bytes "t"⟩

/-- The record of the command cannot be appended, but the table is dropped. -/
theorem dropT_tornTable :
    Opened (.byInsertion true) tornTable ∧ Parser.parse (bytes "DROP TABLE t;") = .ok dropT ∧
      ∃ e t', AppendThrows tornTable (.dropTable ⟨bytes "t"⟩) 0 e ∧
        execute (.byInsertion true) 1 dropT tornTable = (.error e, t') ∧
        t'.view ≠ tornTable.view := by
  obtain ⟨e, he⟩ := appendThrows_tornTable (show (step (.dropTable ⟨bytes "t"⟩)
    tornTable.view).toOption.map Effect.changed = some true by decide +kernel) rfl
  have hopened : Opened (.byInsertion true) tornTable := .start _
  obtain ⟨t', hrun, hiff⟩ := he.executeUnlocked hopened.consistent.sound (.byInsertion true)
  refine ⟨hopened, by decide +kernel, e, t', he, hrun, fun hsame => hiff.1 ⟨[], ?_⟩⟩
  rw [hsame]
  rfl

end QueryExecutor

end VertexDB
