import VertexDB.Execution.Loops

/-!
# The executor refines the naive interpreter

`Performs` relates a command of the executor to its meaning on views: where the meaning is an
effect, the executor appends the records of the change and then has that effect; where the meaning
is an exception, the executor throws.  `performs` proves it for every change, and
`run_refines_reference` carries it over sequences of changes.
-/

namespace VertexDB

open Ascii

namespace QueryExecutor

open Reference

variable {s s' : QueryExecutor} {db : Database}

/-- The action has the effect that the reference gives, after appending the records of the
change. -/
structure Performs (action : Exec QueryResult) (records : List (WalOperation × Str))
    (s : QueryExecutor) (meaning : Except Exception Effect) : Prop where
  ok : ∀ effect s', meaning = .ok effect →
    logAll (if effect.changed then records else []) s = (.ok (), s') →
    ∃ d, action s = (.ok effect.result, s'.withDatabase d) ∧ (s'.withDatabase d).Sound ∧
      (s'.withDatabase d).view = effect.database
  logError : ∀ effect e s', meaning = .ok effect →
    logAll (if effect.changed then records else []) s = (.error e, s') →
    ∃ s'', action s = (.error e, s'')
  error : ∀ e, meaning = .error e → ∃ e' s', action s = (.error e', s')

/-! ### The end of a command: log the change, then answer -/

theorem logged_ok {c : Prop} [Decidable c] {operation : WalOperation} {payload : Str}
    {result : QueryResult}
    (h : logAll (if c then [(operation, payload)] else []) s = (.ok (), s')) :
    (if c then (appendWal operation payload >>= fun _ => pure result : Exec QueryResult)
      else pure result) s = (.ok result, s') := by
  split_ifs at h ⊢ with hc
  · rw [logAll_singleton] at h
    rw [Procedure.bind_of_ok h]
    rfl
  · cases h; rfl

theorem logged_error {c : Prop} [Decidable c] {operation : WalOperation} {payload : Str}
    {result : QueryResult} {e : Exception}
    (h : logAll (if c then [(operation, payload)] else []) s = (.error e, s')) :
    (if c then (appendWal operation payload >>= fun _ => pure result : Exec QueryResult)
      else pure result) s = (.error e, s') := by
  split_ifs at h ⊢ with hc
  · rw [logAll_singleton] at h
    rw [Procedure.bind_of_error h]
  · cases h

/-- The action changes the database as the reference does, then logs the change and answers; or
it throws where the reference does. -/
inductive Applies (action : Exec QueryResult) (record : WalOperation × Str) (s : QueryExecutor) :
    Except Exception Effect → Prop
  | ok {effect : Effect} {d : Option Database}
    (haction : action s = (if effect.changed then
      (appendWal record.1 record.2 >>= fun _ => pure effect.result : Exec QueryResult)
      else pure effect.result) (s.withDatabase d))
    (hsound : (s.withDatabase d).Sound) (hview : (s.withDatabase d).view = effect.database) :
    Applies action record s (.ok effect)
  | error {e f : Exception} {t : QueryExecutor} (haction : action s = (.error f, t)) :
    Applies action record s (.error e)

/-- An action that throws where the reference does. -/
theorem Performs.of_error {action : Exec QueryResult} {records : List (WalOperation × Str)}
    {e f : Exception} {t : QueryExecutor} (haction : action s = (.error f, t)) :
    Performs action records s (.error e) where
  ok := by rintro _ _ ⟨⟩
  logError := by rintro _ _ _ ⟨⟩
  error := by rintro _ ⟨⟩; exact ⟨f, t, haction⟩

theorem Applies.performs {action : Exec QueryResult} {record : WalOperation × Str}
    {meaning : Except Exception Effect} (h : Applies action record s meaning) :
    Performs action [record] s meaning := by
  cases h with
  | error haction => exact .of_error haction
  | @ok effect d haction hsound hview =>
    constructor
    · rintro _ s' ⟨⟩ hlog
      refine ⟨d, ?_, hsound, hview⟩
      rw [haction]
      exact logged_ok (by rw [logAll_withDatabase, hlog])
    · rintro _ e s' ⟨⟩ hlog
      refine ⟨s'.withDatabase d, ?_⟩
      rw [haction]
      exact logged_error (by rw [logAll_withDatabase, hlog])
    · rintro e ⟨⟩

/-! ### Commands on the collection of tables -/

theorem performs_createDatabase (command : CreateDatabase) :
    Performs (executeCreateDatabase command) (Change.createDatabase command).records s
      (Reference.createDatabase command) := by
  unfold Reference.createDatabase
  by_cases hn : command.name = []
  · rw [if_pos hn]
    rcases happ : appendWal .createDatabase command.name s with ⟨_ | _, s'⟩
    · exact .of_error (by rw [executeCreateDatabase, Procedure.bind_of_error happ])
    · refine .of_error (f := .invalidArgument "database name cannot be empty") (t := s') ?_
      rw [executeCreateDatabase, Procedure.bind_of_ok happ, Database.make, if_pos hn]
      rfl
  · rw [if_neg hn]
    obtain ⟨new, hmake⟩ := Database.make_ok hn
    obtain ⟨hsound, hview, -⟩ := Database.sound_make hmake
    constructor
    · rintro _ s' ⟨⟩ hlog
      rw [if_pos rfl, Change.records, logAll_singleton] at hlog
      refine ⟨some new, ?_, sound_withDatabase hsound, by rw [view_withDatabase, hview]⟩
      rw [executeCreateDatabase, Procedure.bind_of_ok hlog, hmake]
      rfl
    · rintro _ e s' ⟨⟩ hlog
      rw [if_pos rfl, Change.records, logAll_singleton] at hlog
      exact ⟨s', by rw [executeCreateDatabase, Procedure.bind_of_error hlog]⟩
    · rintro e ⟨⟩

/-- The answer without an active database. -/
theorem applies_noDatabase {action : Exec QueryResult} {record : WalOperation × Str}
    {result : QueryResult} (hd : s.database = none) (haction : action s = (.ok result, s)) :
    Applies action record s (.ok ⟨result, false, none⟩) := by
  refine .ok (d := none) ?_ ?_ rfl
  · rw [withDatabase_self hd]
    exact haction
  · rintro _ ⟨⟩

theorem applies_createTable (hs : s.Sound) (command : CreateTable) :
    Applies (executeCreateTable command) (.createTable, createTableSql command) s
      (step (.createTable command) s.view) := by
  cases hd : s.database with
  | none =>
    rw [view, hd]
    exact applies_noDatabase hd (by rw [executeCreateTable, Procedure.get_bind, hd]; rfl)
  | some db =>
    have hspec := Database.view_createTable (hs db hd) command.name command.columns
    have hstep : step (.createTable command) s.view = (db.view.createTable command.name
        command.columns >>= fun p => pure (answer p.1 (bytes "created table " ++ command.name)
          (bytes "table already exists") p.2)) := by rw [view, hd]; rfl
    rw [hstep]
    cases hc : db.createTable command.name command.columns with
    | error e =>
      rw [hc] at hspec
      rw [hspec]
      exact .error (t := s) (by
        rw [executeCreateTable, Procedure.get_bind, hd]
        simp only [hc]
        rfl)
    | ok p =>
      obtain ⟨created, db'⟩ := p
      rw [hc] at hspec
      obtain ⟨hsound, hview⟩ := hspec
      rw [hview]
      refine .ok (d := some db') ?_ (sound_withDatabase hsound) rfl
      rw [executeCreateTable, Procedure.get_bind, hd]
      simp only [hc]
      rfl

theorem applies_dropTable (hs : s.Sound) (command : DropTable) :
    Applies (executeDropTable command) (.dropTable, dropTableSql command) s
      (step (.dropTable command) s.view) := by
  cases hd : s.database with
  | none =>
    rw [view, hd]
    exact applies_noDatabase hd (by rw [executeDropTable, Procedure.get_bind, hd]; rfl)
  | some db =>
    obtain ⟨hsound, hview⟩ := Database.view_dropTable (hs db hd) command.name
    obtain ⟨dropped, db', hdrop⟩ : ∃ dropped db', db.dropTable command.name = (dropped, db') :=
      ⟨_, _, rfl⟩
    rw [hdrop] at hsound hview
    have hstep : step (.dropTable command) s.view =
        .ok (answer dropped (bytes "dropped table " ++ command.name) (bytes "unknown table")
          db'.view) := by
      rw [view, hd]
      change pure (answer (db.view.dropTable command.name).1 _ _
        (db.view.dropTable command.name).2) = _
      rw [hview]
      rfl
    rw [hstep]
    refine .ok (d := some db') ?_ (sound_withDatabase hsound) rfl
    rw [executeDropTable, Procedure.get_bind, hd]
    simp only [hdrop]
    rfl

theorem applies_renameTable (hs : s.Sound) (command : RenameTable) :
    Applies (executeRenameTable command) (.renameTable, renameTableSql command) s
      (step (.renameTable command) s.view) := by
  cases hd : s.database with
  | none =>
    rw [view, hd]
    exact applies_noDatabase hd (by rw [executeRenameTable, Procedure.get_bind, hd]; rfl)
  | some db =>
    have hspec := Database.view_renameTable (hs db hd) command.oldName command.newName
    have hstep : step (.renameTable command) s.view = (db.view.renameTable command.oldName
        command.newName >>= fun p => pure (answer p.1 (bytes "renamed table " ++ command.oldName)
          (bytes "rename failed") p.2)) := by rw [view, hd]; rfl
    rw [hstep]
    rcases hc : db.renameTable command.oldName command.newName with ⟨e | renamed, db'⟩
    · rw [hc] at hspec
      rw [hspec.2.1]
      exact .error (t := s.withDatabase (some db')) (by
        rw [executeRenameTable, Procedure.get_bind, hd]
        simp only [hc]
        rfl)
    · rw [hc] at hspec
      obtain ⟨hsound, hview⟩ := hspec
      rw [hview]
      refine .ok (d := some db') ?_ (sound_withDatabase hsound) rfl
      rw [executeRenameTable, Procedure.get_bind, hd]
      simp only [hc]
      rfl

/-! ### Commands on one table -/

theorem performs_insert (hs : s.Sound) (command : Insert) :
    Performs (executeInsert command) (Change.insert command).records s
      (Reference.insert command s.view) := by
  rcases requireTable_cases hs command.table with ⟨db, table, h⟩ | ⟨e, he, hv⟩
  swap
  · rw [Reference.insert, hv]
    exact .of_error (by rw [executeInsert, Procedure.get_bind, he]; rfl)
  rw [Reference.insert, h.requireTable_view, Failure.ok_bind]
  change Performs _ _ s (validateRows table.schema command.rows >>= _)
  cases hval : validateRows table.schema command.rows with
  | error e =>
    refine .of_error (f := e) (t := s) ?_
    rw [executeInsert, Procedure.get_bind, h.requireTable_eq, Procedure.lift_ok_bind, hval]
    rfl
  | ok _ =>
    have hrows := validateRows_ok_iff.1 hval
    have hexec : executeInsert command s =
        (insertLoop command.table table command.rows >>= fun _ => pure (messageResult true
          (bytes "inserted " ++ decimal command.rows.length ++ bytes " row(s)"))) s := by
      rw [executeInsert, Procedure.get_bind, h.requireTable_eq, Procedure.lift_ok_bind, hval]
      rfl
    constructor
    · rintro _ s' ⟨⟩ hlog
      obtain ⟨db', hok, hsound, hview⟩ := insertLoop_ok h hrows hlog
      refine ⟨some db', ?_, sound_withDatabase hsound, by rw [view_withDatabase, hview]⟩
      rw [hexec, Procedure.bind_of_ok hok]
      rfl
    · rintro _ e s' ⟨⟩ hlog
      obtain ⟨s'', herr⟩ := insertLoop_error h hrows hlog
      exact ⟨s'', by rw [hexec, Procedure.bind_of_error herr]⟩
    · rintro e ⟨⟩

theorem applies_createIndex (hs : s.Sound) (command : CreateIndex) :
    Applies (executeCreateIndex command) (.createIndex, createIndexSql command) s
      (Reference.createIndex command s.view) := by
  rcases requireTable_cases hs command.table with ⟨db, table, h⟩ | ⟨e, he, hv⟩
  swap
  · rw [Reference.createIndex, hv]
    exact .error (by rw [executeCreateIndex, Procedure.get_bind, he]; rfl)
  obtain ⟨hreached, hname, hcreated, hview⟩ := h.reached.view_createIndex command.name
    command.column
  obtain ⟨created, table', hc⟩ : ∃ created table',
    table.createIndex command.name command.column = (created, table') := ⟨_, _, rfl⟩
  rw [hc] at hreached hname hcreated hview
  have hv : table.view.createIndex command.name command.column = (created, table'.view) :=
    Prod.ext hcreated.symm hview.symm
  have hput := h.put hreached hname
  rw [Reference.createIndex, h.requireTable_view, Failure.ok_bind]
  simp only [hv, Failure.pure_eq_ok]
  refine .ok (d := some (putIn db command.table table')) ?_ (sound_withDatabase hput.sound) ?_
  · rw [executeCreateIndex, Procedure.get_bind, h.requireTable_eq, Procedure.lift_ok_bind]
    simp only [hc]
    exact Procedure.bind_of_ok (h.putTable_apply table')
  · rw [view_withDatabase, view_putIn]

theorem evaluate_ok_iff {schema : List Column} {where_ : Option Predicate} {rows : List Row} :
    evaluate schema where_ rows = .ok () ↔
      ∀ row ∈ rows, ∃ passed, passes schema where_ row = .ok passed := by
  induction rows with
  | nil => simp [evaluate]
  | cons row rows ih =>
    rw [evaluate, Failure.bind_eq_ok_iff, List.forall_mem_cons, ih]
    exact ⟨fun ⟨passed, hp, hrest⟩ => ⟨⟨passed, hp⟩, hrest⟩,
      fun ⟨⟨passed, hp⟩, hrest⟩ => ⟨passed, hp, hrest⟩⟩

/-- The reference UPDATE succeeds exactly when the loop gets past every row. -/
theorem updateTable_cases (command : Update) (target : ℕ) (table : TableView) :
    (∀ row ∈ table.rows, UpdatePasses command table.schema target row) ∧
      updateTable command target table =
        .ok (table.rows.countP (matching table.schema command.where_),
          { table with rows := table.rows.map (updatedRow command table.schema target) }) ∨
    (¬ ∀ row ∈ table.rows, UpdatePasses command table.schema target row) ∧
      ∃ e, updateTable command target table = .error e := by
  unfold updateTable
  cases heval : evaluate table.schema command.where_ table.rows with
  | error e =>
    refine .inr ⟨fun hall => ?_, e, rfl⟩
    have := evaluate_ok_iff.2 fun row hmem =>
      let ⟨passed, hp, _⟩ := hall row hmem
      ⟨passed, hp⟩
    rw [heval] at this
    cases this
  | ok _ =>
    have heval := evaluate_ok_iff.1 heval
    -- the target is only checked if some row matches
    by_cases hany : table.rows.any (matching table.schema command.where_) = true
    · obtain ⟨row, hmem, hmatch⟩ := List.any_eq_true.1 hany
      cases hcheck : checkTarget table.schema target command.value with
      | ok _ =>
        refine .inl ⟨fun r hr => ?_, by simp only [Failure.ok_bind, if_pos hany]; rfl⟩
        obtain ⟨passed, hp⟩ := heval r hr
        exact ⟨passed, hp, fun _ => hcheck⟩
      | error e =>
        refine .inr ⟨fun hall => ?_, e, by simp only [Failure.ok_bind, if_pos hany]; rfl⟩
        obtain ⟨passed, hp, hfits⟩ := hall row hmem
        have := hfits (by rw [← matching_of_passes hp, hmatch])
        rw [hcheck] at this
        cases this
    · refine .inl ⟨fun r hr => ?_, by simp only [Failure.ok_bind, if_neg hany]; rfl⟩
      obtain ⟨passed, hp⟩ := heval r hr
      refine ⟨passed, hp, fun htrue => absurd (List.any_eq_true.2 ⟨r, hr, ?_⟩) hany⟩
      rw [matching_of_passes hp, htrue]

theorem executeUpdate_apply {table : Table} {command : Update} {target : ℕ}
    (h : Holding s db command.table table)
    (hcol : columnIndex table.schema command.column = some target) :
    executeUpdate command s =
      (updateLoop command target table 0 table.rowsSnapshot 0 >>= fun count =>
        if count ≠ 0 then (appendWal .update (updateSql command) >>= fun _ =>
          pure (messageResult true (bytes "updated " ++ decimal count ++ bytes " row(s)")))
        else pure (messageResult true (bytes "updated " ++ decimal count ++ bytes " row(s)")))
          s := by
  rw [executeUpdate, Procedure.get_bind, h.requireTable_eq, Procedure.lift_ok_bind, hcol]

theorem applies_update (hs : s.Sound) (command : Update) :
    Applies (executeUpdate command) (.update, updateSql command) s
      (Reference.update command s.view) := by
  rcases requireTable_cases hs command.table with ⟨db, table, h⟩ | ⟨e, he, hv⟩
  swap
  · rw [Reference.update, hv]
    exact .error (by rw [executeUpdate, Procedure.get_bind, he]; rfl)
  rw [Reference.update, h.requireTable_view, Failure.ok_bind]
  dsimp only
  rw [show table.view.schema = table.schema from rfl]
  cases hcol : columnIndex table.schema command.column with
  | none =>
    refine .error (f := .runtimeError "unknown update column") (t := s) ?_
    rw [executeUpdate, Procedure.get_bind, h.requireTable_eq, Procedure.lift_ok_bind, hcol]
    rfl
  | some target =>
    have hexec := executeUpdate_apply h hcol
    have htarget : target < table.schema.length := (List.findIdx?_eq_some_iff_getElem.1 hcol).1
    rcases updateTable_cases command target table.view with ⟨hall, hok⟩ | ⟨hnot, e, herr⟩
    · obtain ⟨db', hrun, hsound, hview⟩ := updateLoop_ok h htarget hall
      simp only [hok, Failure.ok_bind, Failure.pure_eq_ok]
      refine .ok (d := some db') ?_ (sound_withDatabase hsound) ?_
      · rw [hexec]
        refine (Procedure.bind_of_ok hrun).trans ?_
        simp only [decide_eq_true_eq]
        rfl
      · rw [view_withDatabase, hview]
        rfl
    · rcases forall_or_exists_first (UpdatePasses command table.schema target) table.view.rows with
        hall | ⟨before, row, after, hrows, hbefore, hrow⟩
      · exact absurd hall hnot
      · obtain ⟨e', db', hstop, -⟩ := updateLoop_stops h htarget hrows hbefore hrow
        simp only [herr, Failure.error_bind]
        refine .error (f := e') (t := s.withDatabase (some db')) ?_
        rw [hexec]
        exact Procedure.bind_of_error hstop

theorem executeDelete_apply {table : Table} {command : Delete}
    (h : Holding s db command.table table) :
    executeDelete command s =
      (deleteLoop command table table.rowsSnapshot.reverse 0 >>= fun count =>
        if count ≠ 0 then (appendWal .delete (deleteSql command) >>= fun _ =>
          pure (messageResult true (bytes "deleted " ++ decimal count ++ bytes " row(s)")))
        else pure (messageResult true (bytes "deleted " ++ decimal count ++ bytes " row(s)")))
          s := by
  rw [executeDelete, Procedure.get_bind, h.requireTable_eq, Procedure.lift_ok_bind]

theorem applies_delete (hs : s.Sound) (command : Delete) :
    Applies (executeDelete command) (.delete, deleteSql command) s
      (Reference.delete command s.view) := by
  rcases requireTable_cases hs command.table with ⟨db, table, h⟩ | ⟨e, he, hv⟩
  swap
  · rw [Reference.delete, hv]
    exact .error (by rw [executeDelete, Procedure.get_bind, he]; rfl)
  rw [Reference.delete, h.requireTable_view, Failure.ok_bind]
  have hexec := executeDelete_apply h
  simp only [deleteTable]
  -- the loop runs down the rows, so it stops at the last row where the clause throws
  rcases forall_or_exists_first
    (fun row => ∃ passed, passes table.schema command.where_ row = .ok passed)
    table.view.rows.reverse with hall | ⟨before, row, after, hrows, hbefore, hrow⟩
  · have heval : evaluate table.view.schema command.where_ table.view.rows = .ok () :=
      evaluate_ok_iff.2 fun row hmem => hall row (List.mem_reverse.2 hmem)
    obtain ⟨db', hrun, hsound, hview⟩ := deleteLoop_ok h fun row hmem =>
      hall row (List.mem_reverse.2 hmem)
    simp only [heval, Failure.ok_bind, Failure.pure_eq_ok]
    refine .ok (d := some db') ?_ (sound_withDatabase hsound) ?_
    · rw [hexec]
      refine (Procedure.bind_of_ok hrun).trans ?_
      simp only [decide_eq_true_eq]
      rfl
    · rw [view_withDatabase, hview]
      rfl
  · have hmem : row ∈ table.view.rows := by
      rw [← List.mem_reverse, hrows]; simp
    cases hp : passes table.schema command.where_ row with
    | ok passed => exact absurd ⟨passed, hp⟩ hrow
    | error e =>
      obtain ⟨db', hstop, -, -⟩ := deleteLoop_stops h hrows hbefore hp
      cases heval : evaluate table.view.schema command.where_ table.view.rows with
      | ok _ => exact absurd (evaluate_ok_iff.1 heval row hmem) hrow
      | error e' =>
        simp only [Failure.error_bind]
        refine .error (f := e) (t := s.withDatabase (some db')) ?_
        rw [hexec]
        exact Procedure.bind_of_error hstop

/-! ### Every change -/

/-- **The executor performs every change as the reference does.** -/
theorem performs (platform : Platform) (hs : s.Sound) (change : Change) :
    Performs (executeUnlocked platform change.query) change.records s (step change s.view) := by
  cases change with
  | createDatabase command =>
    have : step (.createDatabase command) s.view = Reference.createDatabase command := by
      cases s.view <;> rfl
    rw [this]; exact performs_createDatabase command
  | createTable command => exact (applies_createTable hs command).performs
  | dropTable command => exact (applies_dropTable hs command).performs
  | renameTable command => exact (applies_renameTable hs command).performs
  | insert command =>
    have : step (.insert command) s.view = Reference.insert command s.view := by
      cases s.view <;> rfl
    rw [this]; exact performs_insert hs command
  | update command =>
    have : step (.update command) s.view = Reference.update command s.view := by
      cases s.view <;> rfl
    rw [this]; exact (applies_update hs command).performs
  | delete command =>
    have : step (.delete command) s.view = Reference.delete command s.view := by
      cases s.view <;> rfl
    rw [this]; exact (applies_delete hs command).performs
  | createIndex command =>
    have : step (.createIndex command) s.view = Reference.createIndex command s.view := by
      cases s.view <;> rfl
    rw [this]; exact (applies_createIndex hs command).performs

/-- What a command that returns normally has done. -/
theorem Performs.of_ok {action : Exec QueryResult} {records : List (WalOperation × Str)}
    {meaning : Except Exception Effect} {result : QueryResult}
    (h : Performs action records s meaning)
    (hok : action s = (.ok result, s')) :
    ∃ effect mid d, meaning = .ok effect ∧ effect.result = result ∧
      logAll (if effect.changed then records else []) s = (.ok (), mid) ∧
      s' = mid.withDatabase d ∧ s'.Sound ∧ s'.view = effect.database := by
  cases hm : meaning with
  | error e =>
    obtain ⟨e', t, herr⟩ := h.error e hm
    rw [hok] at herr
    cases herr
  | ok effect =>
    rcases hlog : logAll (if effect.changed then records else []) s with ⟨e | _, mid⟩
    · obtain ⟨t, herr⟩ := h.logError effect e mid hm hlog
      rw [hok] at herr
      cases herr
    · obtain ⟨d, hd, hsound, hview⟩ := h.ok effect mid hm hlog
      rw [hok] at hd
      cases hd
      exact ⟨effect, mid, d, rfl, rfl, hlog, rfl, hsound, hview⟩

/-- Run changes one after the other and collect the answers. -/
def runChanges (platform : Platform) : List Change → Exec (List QueryResult)
  | [] => return []
  | change :: changes => do
    let result ← execute platform 1 change.query
    let results ← runChanges platform changes
    return result :: results

theorem execute_change (platform : Platform) (depth : ℕ) (change : Change) :
    execute platform (depth + 1) change.query = executeUnlocked platform change.query := by
  cases change <;> rfl

/-- A change of an active database leaves a database active. -/
theorem view_step {change : Change} {view : DatabaseView} {effect : Effect}
    (h : step change (some view) = .ok effect) : ∃ view', effect.database = some view' := by
  cases change with
  | createDatabase command =>
    change Reference.createDatabase command = _ at h
    unfold Reference.createDatabase at h
    split_ifs at h
    cases h
    exact ⟨_, rfl⟩
  | createTable command =>
    obtain ⟨_, -, h⟩ := Failure.bind_eq_ok_iff.1 h
    cases h
    exact ⟨_, rfl⟩
  | dropTable command => cases h; exact ⟨_, rfl⟩
  | renameTable command =>
    obtain ⟨_, -, h⟩ := Failure.bind_eq_ok_iff.1 h
    cases h
    exact ⟨_, rfl⟩
  | insert command =>
    obtain ⟨_, -, h⟩ := Failure.bind_eq_ok_iff.1 h
    obtain ⟨_, -, h⟩ := Failure.bind_eq_ok_iff.1 h
    cases h
    exact ⟨_, rfl⟩
  | update command =>
    obtain ⟨⟨_, table⟩, -, h⟩ := Failure.bind_eq_ok_iff.1 h
    simp only at h
    split at h
    · cases h
    · obtain ⟨_, -, h⟩ := Failure.bind_eq_ok_iff.1 h
      cases h
      exact ⟨_, rfl⟩
  | delete command =>
    obtain ⟨_, -, h⟩ := Failure.bind_eq_ok_iff.1 h
    obtain ⟨_, -, h⟩ := Failure.bind_eq_ok_iff.1 h
    cases h
    exact ⟨_, rfl⟩
  | createIndex command =>
    obtain ⟨_, -, h⟩ := Failure.bind_eq_ok_iff.1 h
    cases h
    exact ⟨_, rfl⟩

/-- **The engine refines the naive list interpreter**: after any sequence of changes of an active
database, none of which throws, the answers and the database, read through `rowsSnapshot`, are
those of the reference. -/
theorem run_refines_reference (platform : Platform) {changes : List Change} {s s' : QueryExecutor}
    {db : Database} (hdb : s.database = some db) (hsound : db.Sound) {results : List QueryResult}
    (h : runChanges platform changes s = (.ok results, s')) :
    ∃ db', s'.database = some db' ∧ db'.Sound ∧
      Reference.run changes (some db.view) = .ok (results, some db'.view) := by
  induction changes generalizing s db results with
  | nil =>
    cases h
    exact ⟨db, hdb, hsound, rfl⟩
  | cons change changes ih =>
    obtain ⟨result, mid, hstep, h⟩ := Procedure.bind_eq_ok_iff.1 h
    obtain ⟨rest, last, hrun, h⟩ := Procedure.bind_eq_ok_iff.1 h
    cases h
    have hs : s.Sound := by
      intro d hd
      rw [hdb] at hd
      cases hd
      exact hsound
    rw [execute_change platform 0] at hstep
    obtain ⟨effect, _, _, hmeaning, rfl, -, -, hmid, hview⟩ :=
      (performs platform hs change).of_ok hstep
    have hv : s.view = some db.view := by rw [view, hdb]; rfl
    rw [hv] at hmeaning
    obtain ⟨view', hview'⟩ := view_step hmeaning
    rw [hview', view, Option.map_eq_some_iff] at hview
    obtain ⟨db₁, hdb₁, rfl⟩ := hview
    obtain ⟨db', hdb', hsound', hrest⟩ := ih hdb₁ (hmid db₁ hdb₁) hrun
    refine ⟨db', hdb', hsound', ?_⟩
    rw [Reference.run, hmeaning, Failure.ok_bind, hview', hrest]
    rfl

/-- A new executor with an empty database. -/
def sampleExecutor : QueryExecutor :=
  (start (.byInsertion true) .empty).withDatabase (some ⟨bytes "d", .empty⟩)

/-- Three rows, of which two are updated and one is deleted. -/
def sampleChanges : List Change :=
  [.createTable ⟨bytes "t", [⟨bytes "a", .int, false⟩]⟩,
    .insert ⟨bytes "t", [[.int 1], [.int 2], [.int 3]]⟩,
    .update ⟨bytes "t", bytes "a", .int 5,
      some (.comparison (bytes "a") .greater (.int 1))⟩,
    .delete ⟨bytes "t", some (.comparison (bytes "a") .less (.int 2))⟩]

/-- The answers to `sampleChanges`. -/
def sampleResults : List QueryResult :=
  [messageResult true (bytes "created table t"), messageResult true (bytes "inserted 3 row(s)"),
    messageResult true (bytes "updated 2 row(s)"), messageResult true (bytes "deleted 1 row(s)")]

theorem run_refines_reference_sampleChanges :
    ∃ db', (runChanges (.byInsertion true) sampleChanges sampleExecutor).2.database = some db' ∧
      db'.Sound ∧ Reference.run sampleChanges (some (Database.view ⟨bytes "d", .empty⟩)) =
        .ok (sampleResults, some db'.view) := by
  have hrun : (runChanges (.byInsertion true) sampleChanges sampleExecutor).1 =
      .ok sampleResults := by decide +kernel
  refine run_refines_reference (.byInsertion true) (s := sampleExecutor) rfl
    (@Database.sound_make ⟨bytes "d", .empty⟩ (bytes "d") rfl).1 ?_
  rw [← hrun]

end QueryExecutor

end VertexDB
