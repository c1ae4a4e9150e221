import VertexDB.Execution.Invariant
import VertexDB.Execution.Refinement
import VertexDB.Parser.WellFormed

/-!
# Statements that throw

A statement that throws leaves the active database and the log as they were, with one exception:
UPDATE and DELETE change rows one by one while they evaluate the `WHERE` clause, so that a clause
that throws at some row leaves the rows before it changed.  `execute_error_unchanged_iff` says
that this is the only way in which a failing statement changes anything.
-/

namespace VertexDB

open Ascii Procedure

namespace QueryExecutor

open Reference

/-- The exceptions of file operations that fail: the log or a snapshot cannot be written. -/
def FileFailure (e : Exception) : Prop :=
  e = WriteAheadLog.appendFailure ∨ e = .runtimeError "failed to write database file"

instance (e : Exception) : Decidable (FileFailure e) := inferInstanceAs (Decidable (_ ∨ _))

/-- If the action throws, other than for a file operation, the active database and the log records
are what they were. -/
def Atomic (action : Exec QueryResult) (s : QueryExecutor) : Prop :=
  ∀ e s', action s = (.error e, s') → ¬ FileFailure e →
    s'.view = s.view ∧ WriteAheadLog.readAll s'.storage.disk = WriteAheadLog.readAll s.storage.disk

/-- If the action throws, other than for a file operation, what the active database shows and the
files are what they were. -/
def Undone (action : Exec QueryResult) (s : QueryExecutor) : Prop :=
  ∀ e s', action s = (.error e, s') → ¬ FileFailure e → s'.view = s.view ∧ s'.storage = s.storage

/-- UPDATE has changed a row when the `WHERE` clause throws at a later one. -/
def PartialUpdate (command : Update) (table : TableView) : Prop :=
  ∃ target, columnIndex table.schema command.column = some target ∧
    checkTarget table.schema target command.value = .ok () ∧
    ∃ before row after e, table.rows = before ++ row :: after ∧
      (∀ r ∈ before, ∃ passed, passes table.schema command.where_ r = .ok passed) ∧
      passes table.schema command.where_ row = .error e ∧
      ∃ r ∈ before, passes table.schema command.where_ r = .ok true ∧ r.at target ≠ command.value

/-- DELETE, which goes from the last row down, has removed a row when the `WHERE` clause throws at
one before it. -/
def PartialDelete (command : Delete) (table : TableView) : Prop :=
  ∃ before row after e, table.rows.reverse = before ++ row :: after ∧
    (∀ r ∈ before, ∃ passed, passes table.schema command.where_ r = .ok passed) ∧
    passes table.schema command.where_ row = .error e ∧
    ∃ r ∈ before, passes table.schema command.where_ r = .ok true

/-- The command changes some rows and then throws. -/
def PartialChange (database : Option DatabaseView) : Query → Prop
  | .update command => ∃ view table, database = some view ∧
      view.tables.find? command.table = some table ∧ PartialUpdate command table
  | .delete command => ∃ view table, database = some view ∧
      view.tables.find? command.table = some table ∧ PartialDelete command table
  | _ => False

variable {platform : Platform} {replaying : Bool} {s s' : QueryExecutor} {e : Exception}

/-! ### Commands that throw before they change anything -/

theorem appendWal_error (hs : s.Valid replaying) {operation : WalOperation} {payload : Str}
    (h : appendWal operation payload s = (.error e, s')) : FileFailure e := by
  rw [appendWal_apply] at h
  split_ifs at h
  · cases h
  · obtain ⟨records, hrecords⟩ := hs.log
    obtain ⟨storage', -, ⟨lsn, happ, -⟩ | ⟨happ, -⟩⟩ := hrecords.append_cases operation payload
    · rw [happ] at h; cases h
    · rw [happ] at h; cases h; exact .inl rfl

theorem logAll_error (hs : s.Valid replaying) {records : List (WalOperation × Str)}
    (h : logAll records s = (.error e, s')) : FileFailure e := by
  induction records generalizing s with
  | nil => cases h
  | cons record records ih =>
    rcases bind_eq_error_iff.1 h with h | ⟨_, mid, happ, h⟩
    · exact appendWal_error hs h
    · have hmid := keeps_appendWal record.1 record.2 s hs
      rw [happ] at hmid
      exact ih hmid h

theorem logged_fileFailure (hs : s.Valid replaying) {c : Prop} [Decidable c]
    {operation : WalOperation} {payload : Str} {result : QueryResult}
    (h : (if c then (appendWal operation payload >>= fun _ => pure result : Exec QueryResult)
      else pure result) s = (.error e, s')) : FileFailure e := by
  split_ifs at h
  · rcases bind_eq_error_iff.1 h with h | ⟨_, _, -, h⟩
    · exact appendWal_error hs h
    · cases h
  · cases h

theorem Undone.atomic {action : Exec QueryResult} (h : Undone action s) : Atomic action s := by
  intro e s' hrun hnot
  obtain ⟨hview, hstorage⟩ := h e s' hrun hnot
  exact ⟨hview, by rw [hstorage]⟩

theorem undone_of_fileFailure {action : Exec QueryResult}
    (h : ∀ e s', action s = (.error e, s') → FileFailure e) : Undone action s :=
  fun e s' hrun hnot => absurd (h e s' hrun) hnot

theorem undone_of_same {action : Exec QueryResult}
    (h : ∀ e s', action s = (.error e, s') → s' = s) : Undone action s := by
  intro e s' hrun _
  rw [h e s' hrun]
  exact ⟨rfl, rfl⟩

theorem undone_executeCreateDatabase (hs : s.Valid replaying) {command : CreateDatabase}
    (hname : command.name ≠ []) : Undone (executeCreateDatabase command) s := by
  refine undone_of_fileFailure fun e s' h => ?_
  rcases bind_eq_error_iff.1 h with h | ⟨_, mid, -, h⟩
  · exact appendWal_error hs h
  · obtain ⟨new, hmake⟩ := Database.make_ok hname
    rw [hmake] at h
    cases h

theorem undone_executeCreateTable (hs : s.Valid replaying) (command : CreateTable) :
    Undone (executeCreateTable command) s := by
  cases hd : s.database with
  | none =>
    refine undone_of_same fun e s' h => ?_
    rw [executeCreateTable, get_bind, hd] at h
    cases h
  | some database =>
    cases hc : database.createTable command.name command.columns with
    | error e =>
      refine undone_of_same fun e s' h => ?_
      rw [executeCreateTable, get_bind, hd] at h
      simp only [hc] at h
      cases h
      rfl
    | ok p =>
      obtain ⟨created, database'⟩ := p
      have hspec := Database.view_createTable (hs.sound database hd) command.name command.columns
      rw [hc] at hspec
      refine undone_of_fileFailure fun e s' h => ?_
      rw [executeCreateTable, get_bind, hd] at h
      simp only [hc] at h
      exact logged_fileFailure (hs.withDatabase hspec.1) h

theorem undone_executeDropTable (hs : s.Valid replaying) (command : DropTable) :
    Undone (executeDropTable command) s := by
  refine undone_of_fileFailure fun e s' h => ?_
  rw [executeDropTable, get_bind] at h
  cases hd : s.database with
  | none => rw [hd] at h; cases h
  | some database =>
    rw [hd] at h
    have hspec := Database.view_dropTable (hs.sound database hd) command.name
    exact logged_fileFailure (hs.withDatabase hspec.1) h

theorem undone_executeRenameTable (hs : s.Valid replaying) {command : RenameTable}
    (hname : command.newName ≠ []) : Undone (executeRenameTable command) s := by
  refine undone_of_fileFailure fun e s' h => ?_
  rw [executeRenameTable, get_bind] at h
  cases hd : s.database with
  | none => rw [hd] at h; cases h
  | some database =>
    have hspec := Database.view_renameTable (hs.sound database hd) command.oldName command.newName
    rw [hd] at h
    rcases hc : database.renameTable command.oldName command.newName with ⟨e' | renamed, database'⟩
    · rw [hc] at hspec
      exact absurd hspec.2.2.1 hname
    · rw [hc] at hspec
      simp only [hc] at h
      exact logged_fileFailure (hs.withDatabase hspec.1) h

theorem undone_executeInsert (hs : s.Valid replaying) (command : Insert) :
    Undone (executeInsert command) s := by
  rcases requireTable_cases hs.sound command.table with ⟨db, table, h⟩ | ⟨e, he, -⟩
  swap
  · refine undone_of_same fun e' s' h => ?_
    rw [executeInsert, get_bind, he] at h
    cases h
    rfl
  cases hval : validateRows table.schema command.rows with
  | error e =>
    refine undone_of_same fun e s' hrun => ?_
    rw [executeInsert, get_bind, h.requireTable_eq, lift_ok_bind, hval] at hrun
    cases hrun
    rfl
  | ok _ =>
    refine undone_of_fileFailure fun e s' hrun => ?_
    rw [executeInsert, get_bind, h.requireTable_eq, lift_ok_bind, hval, lift_ok_bind] at hrun
    have hrows := validateRows_ok_iff.1 hval
    rcases bind_eq_error_iff.1 hrun with hloop | ⟨_, _, -, hrun⟩
    · rcases hlog : logAll (command.rows.map fun row => (.insert, insertSql command.table row))
        s with
        ⟨e' | _, t⟩
      · obtain ⟨t', herr⟩ := insertLoop_error h hrows hlog
        rw [hloop] at herr
        cases herr
        exact logAll_error hs hlog
      · obtain ⟨db', hok, -⟩ := insertLoop_ok h hrows hlog
        rw [hloop] at hok
        cases hok
    · cases hrun

theorem undone_executeCreateIndex (hs : s.Valid replaying) (command : CreateIndex) :
    Undone (executeCreateIndex command) s := by
  rcases requireTable_cases hs.sound command.table with ⟨db, table, h⟩ | ⟨e, he, -⟩
  swap
  · refine undone_of_same fun e' s' h => ?_
    rw [executeCreateIndex, get_bind, he] at h
    cases h
    rfl
  refine undone_of_fileFailure fun e s' hrun => ?_
  obtain ⟨hreached, hname, -, -⟩ := h.reached.view_createIndex command.name command.column
  rw [executeCreateIndex, get_bind, h.requireTable_eq, lift_ok_bind] at hrun
  rcases bind_eq_error_iff.1 hrun with hput | ⟨_, mid, hput, hrun⟩
  · rw [h.putTable_apply] at hput; cases hput
  · rw [h.putTable_apply] at hput
    cases hput
    exact logged_fileFailure (hs.put h hreached hname) hrun

theorem undone_executeSaveDatabase (hs : s.Valid replaying) :
    Undone (executeSaveDatabase none) s := by
  refine undone_of_fileFailure fun e s' h => ?_
  rw [executeSaveDatabase, get_bind] at h
  cases hd : s.database with
  | none => rw [hd] at h; cases h
  | some database =>
    rw [hd] at h
    rcases bind_eq_error_iff.1 h with h | ⟨_, mid, -, h⟩
    · exact appendWal_error hs h
    rcases bind_eq_error_iff.1 h with h | ⟨_, _, -, h⟩
    · rw [publish, focus_apply, StorageManager.saveDatabase_eq, if_neg (by simp)] at h
      split_ifs at h
      · cases h; exact .inr rfl
      · cases h
    · rcases bind_eq_error_iff.1 h with h | ⟨_, _, -, h⟩ <;> cases h

theorem undone_executeLoadDatabase (command : LoadDatabase) :
    Undone (executeLoadDatabase platform command) s := by
  refine undone_of_same fun e s' h => ?_
  rw [executeLoadDatabase, get_bind] at h
  cases hload : s.databaseToLoad platform command with
  | error e => rw [hload] at h; cases h; rfl
  | ok database => rw [hload] at h; cases h

theorem undone_executeBegin (hs : s.Valid replaying) : Undone executeBegin s := by
  refine undone_of_same fun e s' h => ?_
  rw [executeBegin, get_bind] at h
  cases hd : s.database with
  | none => rw [hd] at h; cases h
  | some database =>
    obtain ⟨copy, hcopy, -, -⟩ := Database.view_clone (hs.sound database hd)
    rw [hd] at h
    simp only [hcopy] at h
    split_ifs at h <;> cases h

theorem undone_executeCommit : Undone executeCommit s := by
  refine undone_of_same fun e s' h => ?_
  rw [executeCommit, get_bind] at h
  cases hsnap : s.transactionSnapshot with
  | none => rw [hsnap] at h; cases h
  | some snapshot =>
    rw [hsnap] at h
    cases hid : s.activeTransaction with
    | none => rw [hid] at h; cases h
    | some id =>
      rw [hid] at h
      rcases bind_eq_error_iff.1 h with h | ⟨_, _, -, h⟩
      · exact (congrArg Prod.snd h).symm
      · cases h

theorem undone_executeRollback : Undone executeRollback s := by
  refine undone_of_same fun e s' h => ?_
  rw [executeRollback, get_bind] at h
  cases hsnap : s.transactionSnapshot with
  | none => rw [hsnap] at h; cases h
  | some snapshot =>
    rw [hsnap] at h
    cases hid : s.activeTransaction with
    | none => rw [hid] at h; cases h
    | some id =>
      rw [hid] at h
      rcases bind_eq_error_iff.1 h with h | ⟨_, _, -, h⟩
      · exact (congrArg Prod.snd h).symm
      · cases h

/-! ### UPDATE and DELETE -/

theorem putTable_eq_self_iff {view : DatabaseView} {name : Str} {table : TableView}
    (h : view.tables.find? name = some table) {rows : List Row} :
    Reference.putTable view name { table with rows } = view ↔ rows = table.rows := by
  constructor
  · intro heq
    have hfind := congrArg (fun v => v.tables.find? name) heq
    simp only [Reference.putTable, SortedMap.find?_insert, if_true, h, Option.some.injEq] at hfind
    exact congrArg TableView.rows hfind
  · rintro rfl
    exact putTable_self h

theorem set_at_self (row : Row) (target : ℕ) : row.set target (row.at target) = row := by
  by_cases h : target < row.length
  · have hat : row.at target = row[target] := by simp [Row.at, h]
    rw [hat]
    exact List.set_getElem_self h
  · exact List.set_eq_of_length_le (not_lt.1 h)

/-- A row changes exactly when the clause is true of it and it has another value. -/
theorem updatedRow_eq_self_iff {command : Update} {schema : List Column} {target : ℕ} {row : Row}
    (htarget : target < row.length) {passed : Bool}
    (hp : passes schema command.where_ row = .ok passed) :
    updatedRow command schema target row = row ↔
      (passed = true → row.at target = command.value) := by
  rw [updatedRow, matching_of_passes hp]
  cases passed with
  | false => simp
  | true =>
    rw [if_pos rfl]
    constructor
    · intro heq _
      have := @Row.at_set row target target command.value htarget
      rwa [heq, if_pos rfl] at this
    · intro heq
      rw [← heq rfl]
      exact set_at_self row target

theorem target_lt_length {table : Table} (h : table.Reached) {target : ℕ}
    (htarget : target < table.schema.length) {row : Row} (hmem : row ∈ table.view.rows) :
    target < row.length := by
  have hfits := h.fits row hmem
  rw [StorageManager.length_of_validateRow hfits]
  exact htarget

/-- The rows before the one at which UPDATE stops change only if the clause throws there. -/
theorem partialUpdate_of_changed {command : Update} {table : Table} (h : table.Reached)
    {target : ℕ} (hcol : columnIndex table.schema command.column = some target)
    {before after : List Row} {row : Row} (hrows : table.view.rows = before ++ row :: after)
    (hbefore : ∀ r ∈ before, UpdatePasses command table.schema target r)
    (hrow : ¬ UpdatePasses command table.schema target row)
    (hchanged : ¬ ∀ r ∈ before, updatedRow command table.schema target r = r) :
    PartialUpdate command table.view := by
  have htarget : target < table.schema.length := (List.findIdx?_eq_some_iff_getElem.1 hcol).1
  push Not at hchanged
  obtain ⟨r, hr, hne⟩ := hchanged
  obtain ⟨passed, hp, hfits⟩ := hbefore r hr
  have hlt : target < r.length := target_lt_length h htarget (by rw [hrows]; simp [hr])
  rw [ne_eq, updatedRow_eq_self_iff hlt hp] at hne
  push Not at hne
  obtain ⟨rfl, hvalue⟩ := hne
  cases hthrow : passes table.schema command.where_ row with
  | ok passed => exact absurd ⟨passed, hthrow, fun _ => hfits rfl⟩ hrow
  | error e =>
    refine ⟨target, hcol, hfits rfl, before, row, after, e, hrows, fun x hx => ?_, hthrow, r,
      hr, hp,
      hvalue⟩
    obtain ⟨passed, hpassed, -⟩ := hbefore x hx
    exact ⟨passed, hpassed⟩

theorem not_atomic_of_partialUpdate {command : Update} {db : Database} {table : Table}
    (h : Holding s db command.table table) (hchanges : PartialUpdate command table.view) :
    ¬ Atomic (executeUpdate command) s := by
  obtain ⟨target, hcol, hfits, before, row, after, e, hrows, hbefore, hthrow, r, hr, hp, hvalue⟩ :=
    hchanges
  replace hthrow : passes table.schema command.where_ row = .error e := hthrow
  replace hp : passes table.schema command.where_ r = .ok true := hp
  have htarget : target < table.schema.length := (List.findIdx?_eq_some_iff_getElem.1 hcol).1
  have hrow : ¬ UpdatePasses command table.schema target row := by
    rintro ⟨passed, hpassed, -⟩
    rw [hthrow] at hpassed
    cases hpassed
  obtain ⟨e', db', hstop, -, he, hview⟩ := updateLoop_stops h htarget hrows (fun x hx =>
    let ⟨passed, hpassed⟩ := hbefore x hx
    ⟨passed, hpassed, fun _ => hfits⟩) hrow
  intro hatomic
  have hrun : executeUpdate command s = (.error e', s.withDatabase (some db')) := by
    rw [executeUpdate_apply h hcol]
    exact bind_of_error hstop
  obtain ⟨hsame, -⟩ := hatomic _ _ hrun (by
    rw [he e hthrow, passes_error hthrow]
    decide)
  rw [view_withDatabase, view, h.database, Option.map_some, Option.some.injEq, hview,
    putTable_eq_self_iff h.find?_view, hrows, List.append_left_inj] at hsame
  have hself : updatedRow command table.schema target r = r := by
    have hmap : before.map (updatedRow command table.schema target) = before.map id := by
      rw [hsame, List.map_id]
    exact List.map_inj_left.1 hmap r hr
  rw [updatedRow_eq_self_iff (target_lt_length h.reached htarget (by rw [hrows]; simp [hr])) hp]
    at hself
  exact hvalue (hself rfl)

theorem undone_of_not_partialUpdate (hs : s.Valid replaying) {command : Update} {db : Database}
    {table : Table} (h : Holding s db command.table table)
    (hnot : ¬ PartialUpdate command table.view) : Undone (executeUpdate command) s := by
  cases hcol : columnIndex table.schema command.column with
  | none =>
    refine undone_of_same fun e s' hrun => ?_
    rw [executeUpdate, get_bind, h.requireTable_eq, lift_ok_bind, hcol] at hrun
    cases hrun
    rfl
  | some target =>
    have htarget : target < table.schema.length := (List.findIdx?_eq_some_iff_getElem.1 hcol).1
    rcases forall_or_exists_first (UpdatePasses command table.schema target) table.view.rows with
      hall | ⟨before, row, after, hrows, hbefore, hrow⟩
    · obtain ⟨db', hloop, hsound, -⟩ := updateLoop_ok h htarget hall
      refine undone_of_fileFailure fun e s' hrun => ?_
      rw [executeUpdate_apply h hcol, bind_of_ok hloop] at hrun
      exact logged_fileFailure (hs.withDatabase hsound) hrun
    · obtain ⟨e, db', hstop, -, -, hview⟩ := updateLoop_stops h htarget hrows hbefore hrow
      have hsame : ∀ r ∈ before, updatedRow command table.schema target r = r := by
        by_contra hchanged
        exact hnot (partialUpdate_of_changed h.reached hcol hrows hbefore hrow hchanged)
      intro e' s' hrun _
      rw [executeUpdate_apply h hcol, bind_of_error hstop] at hrun
      cases hrun
      refine ⟨?_, rfl⟩
      rw [view_withDatabase, view, h.database, Option.map_some, Option.some.injEq, hview,
        putTable_eq_self_iff h.find?_view, hrows, List.map_congr_left hsame, List.map_id']

theorem not_atomic_of_partialDelete {command : Delete} {db : Database} {table : Table}
    (h : Holding s db command.table table) (hchanges : PartialDelete command table.view) :
    ¬ Atomic (executeDelete command) s := by
  obtain ⟨before, row, after, e, hrows, hbefore, hthrow, r, hr, hp⟩ := hchanges
  obtain ⟨db', hstop, -, hview⟩ := deleteLoop_stops h hrows hbefore hthrow
  intro hatomic
  have hrun : executeDelete command s = (.error e, s.withDatabase (some db')) := by
    rw [executeDelete_apply h]
    exact bind_of_error hstop
  obtain ⟨hsame, -⟩ := hatomic _ _ hrun (by
    rw [passes_error hthrow]
    decide)
  have hsplit : table.view.rows = (row :: after).reverse ++ before.reverse := by
    rw [← List.reverse_append, ← hrows, List.reverse_reverse]
  rw [view_withDatabase, view, h.database, Option.map_some, Option.some.injEq, hview,
    putTable_eq_self_iff h.find?_view, hsplit, List.append_right_inj, List.filter_eq_self] at hsame
  have hkept := hsame r (List.mem_reverse.2 hr)
  have hmatch : matching table.schema command.where_ r = true := matching_of_passes hp
  rw [hmatch] at hkept
  cases hkept

theorem undone_of_not_partialDelete (hs : s.Valid replaying) {command : Delete} {db : Database}
    {table : Table} (h : Holding s db command.table table)
    (hnot : ¬ PartialDelete command table.view) : Undone (executeDelete command) s := by
  rcases forall_or_exists_first
    (fun row => ∃ passed, passes table.schema command.where_ row = .ok passed)
    table.view.rows.reverse with hall | ⟨before, row, after, hrows, hbefore, hrow⟩
  · obtain ⟨db', hloop, hsound, -⟩ := deleteLoop_ok h fun row hmem =>
      hall row (List.mem_reverse.2 hmem)
    refine undone_of_fileFailure fun e s' hrun => ?_
    rw [executeDelete_apply h, bind_of_ok hloop] at hrun
    exact logged_fileFailure (hs.withDatabase hsound) hrun
  · cases hthrow : passes table.schema command.where_ row with
    | ok passed => exact absurd ⟨passed, hthrow⟩ hrow
    | error e =>
      obtain ⟨db', hstop, -, hview⟩ := deleteLoop_stops h hrows hbefore hthrow
      have hsplit : table.view.rows = (row :: after).reverse ++ before.reverse := by
        rw [← List.reverse_append, ← hrows, List.reverse_reverse]
      intro e' s' hrun _
      rw [executeDelete_apply h, bind_of_error hstop] at hrun
      cases hrun
      refine ⟨?_, rfl⟩
      rw [view_withDatabase, view, h.database, Option.map_some, Option.some.injEq, hview,
        putTable_eq_self_iff h.find?_view, hsplit, List.append_right_inj, List.filter_eq_self]
      intro r hr
      obtain ⟨passed, hp⟩ := hbefore r (List.mem_reverse.1 hr)
      rw [matching_of_passes hp]
      cases passed with
      | false => rfl
      | true =>
        exact absurd ⟨before, row, after, e, hrows, hbefore, hthrow, r, List.mem_reverse.1 hr, hp⟩
          hnot

/-- The table that a command names is the one that the view shows. -/
theorem Holding.partial_iff {db : Database} {name : Str} {table : Table}
    (h : Holding s db name table) {p : TableView → Prop} :
    (∃ view found, s.view = some view ∧ view.tables.find? name = some found ∧ p found) ↔
      p table.view := by
  rw [view, h.database, Option.map_some]
  constructor
  · rintro ⟨_, found, ⟨⟩, hfound, hp⟩
    rw [h.find?_view] at hfound
    cases hfound
    exact hp
  · exact fun hp => ⟨_, _, rfl, h.find?_view, hp⟩

theorem not_partial_of_requireTable {name : Str} (h : Reference.requireTable s.view name = .error e)
    {p : TableView → Prop} :
    ¬ ∃ view found, s.view = some view ∧ view.tables.find? name = some found ∧ p found := by
  rintro ⟨view, found, hview, hfound, -⟩
  simp only [Reference.requireTable, hview, hfound] at h
  cases h

theorem undone_executeUpdate (hs : s.Valid replaying) {command : Update}
    (hnot : ¬ PartialChange s.view (.update command)) : Undone (executeUpdate command) s := by
  rcases requireTable_cases hs.sound command.table with ⟨db, table, h⟩ | ⟨e, he, -⟩
  · rw [PartialChange, h.partial_iff] at hnot
    exact undone_of_not_partialUpdate hs h hnot
  · refine undone_of_same fun e' s' hrun => ?_
    rw [executeUpdate, get_bind, he] at hrun
    cases hrun
    rfl

theorem undone_executeDelete (hs : s.Valid replaying) {command : Delete}
    (hnot : ¬ PartialChange s.view (.delete command)) : Undone (executeDelete command) s := by
  rcases requireTable_cases hs.sound command.table with ⟨db, table, h⟩ | ⟨e, he, -⟩
  · rw [PartialChange, h.partial_iff] at hnot
    exact undone_of_not_partialDelete hs h hnot
  · refine undone_of_same fun e' s' hrun => ?_
    rw [executeDelete, get_bind, he] at hrun
    cases hrun
    rfl

/-! ### Every statement -/

/-- A command that is no partial change is undone when it throws. -/
theorem undone_executeUnlocked (hs : s.Valid replaying) {query : Query} (hq : query.WellFormed)
    (hnot : ¬ PartialChange s.view query) : Undone (executeUnlocked platform query) s := by
  cases query with
  | update command => exact undone_executeUpdate hs hnot
  | delete command => exact undone_executeDelete hs hnot
  | createDatabase command => exact undone_executeCreateDatabase hs hq.1
  | createTable command => exact undone_executeCreateTable hs command
  | dropTable command => exact undone_executeDropTable hs command
  | renameTable command => exact undone_executeRenameTable hs hq.2.1
  | insert command => exact undone_executeInsert hs command
  | createIndex command => exact undone_executeCreateIndex hs command
  | saveDatabase => exact undone_executeSaveDatabase hs
  | loadDatabase command => exact undone_executeLoadDatabase command
  | beginTransaction => exact undone_executeBegin hs
  | commitTransaction => exact undone_executeCommit
  | rollbackTransaction => exact undone_executeRollback
  | select command => exact undone_of_same fun _ _ h => (congrArg Prod.snd h).symm
  | listTables => exact undone_of_same fun _ _ h => by cases h
  | prepareStatement command => exact undone_of_same fun _ _ h => by cases h
  | executePrepared command => exact undone_of_same fun _ _ h => by cases h; rfl
  | exit => exact undone_of_same fun _ _ h => by cases h

theorem not_atomic_of_partialChange (hs : s.Valid replaying) {query : Query}
    (h : PartialChange s.view query) : ¬ Atomic (executeUnlocked platform query) s := by
  cases query with
  | update command =>
    rcases requireTable_cases hs.sound command.table with ⟨db, table, hh⟩ | ⟨e, -, hv⟩
    · exact not_atomic_of_partialUpdate hh (hh.partial_iff.1 h)
    · exact absurd h (not_partial_of_requireTable hv)
  | delete command =>
    rcases requireTable_cases hs.sound command.table with ⟨db, table, hh⟩ | ⟨e, -, hv⟩
    · exact not_atomic_of_partialDelete hh (hh.partial_iff.1 h)
    · exact absurd h (not_partial_of_requireTable hv)
  | _ => exact h.elim

theorem atomic_executeUnlocked_iff (platform : Platform) (hs : s.Valid replaying) {query : Query}
    (hq : query.WellFormed) :
    Atomic (executeUnlocked platform query) s ↔ ¬ PartialChange s.view query :=
  ⟨fun hatomic hchanges => not_atomic_of_partialChange hs hchanges hatomic,
    fun hnot => (undone_executeUnlocked hs hq hnot).atomic⟩

/-- The command that a statement comes to, through at most `depth` prepared statements. -/
def resolved (s : QueryExecutor) : ℕ → Query → Option Query
  | 0, _ => none
  | depth + 1, .executePrepared command =>
    match s.bindPreparedSql command with
    | .error _ => none
    | .ok sql => match Parser.parse sql with
      | .error _ => none
      | .ok query => resolved s depth query
  | _ + 1, query => some query

/-- A statement runs the command it comes to, or throws and changes nothing. -/
theorem execute_resolved (platform : Platform) (s : QueryExecutor) (depth : ℕ) (query : Query) :
    (∃ q, s.resolved depth query = some q ∧
      execute platform depth query s = executeUnlocked platform q s ∧
      (q = query ∨ ∃ sql, Parser.parse sql = .ok q)) ∨
    s.resolved depth query = none ∧ ∃ e, execute platform depth query s = (.error e, s) := by
  induction depth generalizing query with
  | zero => exact .inr ⟨rfl, .outOfFuel, rfl⟩
  | succ depth ih =>
    by_cases h : ∃ command, query = .executePrepared command
    · obtain ⟨command, rfl⟩ := h
      rw [resolved, execute, get_bind]
      cases s.bindPreparedSql command with
      | error e => exact .inr ⟨rfl, e, rfl⟩
      | ok sql =>
        rw [lift_ok_bind]
        cases hparse : Parser.parse sql with
        | error e => exact .inr ⟨by simp only [hparse], e, rfl⟩
        | ok next =>
          simp only [hparse, lift_ok_bind]
          rcases ih next with ⟨q, hq, hrun, rfl | hsql⟩ | hnone
          · exact .inl ⟨q, hq, hrun, .inr ⟨sql, hparse⟩⟩
          · exact .inl ⟨q, hq, hrun, .inr hsql⟩
          · exact .inr hnone
    · have hne : ∀ command, query = .executePrepared command → False :=
        fun command heq => h ⟨command, heq⟩
      refine .inl ⟨query, ?_, ?_, .inl rfl⟩
      · rw [resolved]
        exact hne
      · rw [execute]
        exact hne

/-- What a parsed statement comes to is well formed. -/
theorem execute_parsed (platform : Platform) (s : QueryExecutor) (depth : ℕ) {sql : Str}
    {query : Query} (hparse : Parser.parse sql = .ok query) :
    (∃ q, s.resolved depth query = some q ∧ q.WellFormed ∧
      execute platform depth query s = executeUnlocked platform q s) ∨
    s.resolved depth query = none ∧ ∃ e, execute platform depth query s = (.error e, s) := by
  rcases execute_resolved platform s depth query with ⟨q, hq, hrun, rfl | ⟨sql', hsql'⟩⟩ | hnone
  · exact .inl ⟨q, hq, Parser.wellFormed_of_parse hparse, hrun⟩
  · exact .inl ⟨q, hq, Parser.wellFormed_of_parse hsql', hrun⟩
  · exact .inr hnone

/-- A parsed statement that comes to a command runs it. -/
theorem execute_of_resolved (platform : Platform) {depth : ℕ} {sql : Str} {query q : Query}
    (hparse : Parser.parse sql = .ok query) (hq : s.resolved depth query = some q) :
    q.WellFormed ∧ execute platform depth query s = executeUnlocked platform q s := by
  rcases execute_parsed platform s depth hparse with ⟨q', hq', hwell, hrun⟩ | ⟨hnone, -, -⟩
  · rw [hq] at hq'
    cases hq'
    exact ⟨hwell, hrun⟩
  · rw [hnone] at hq
    cases hq

/-- The states that an executor reaches from an empty storage root, by statements that return or
throw and by restarts. -/
inductive Reachable (platform : Platform) : QueryExecutor → Prop
  | start : Reachable platform (start platform .empty)
  | restart {s : QueryExecutor} (h : Reachable platform s) :
    Reachable platform (QueryExecutor.start platform s.storage.disk)
  | statement {s : QueryExecutor} (h : Reachable platform s) {sql : Str} {query : Query}
    (hparse : Parser.parse sql = .ok query) (depth : ℕ) :
    Reachable platform (execute platform depth query s).2

theorem Reachable.valid (h : Reachable platform s) : s.Valid false := by
  induction h with
  | start => exact valid_start WriteAheadLog.holds_empty
  | restart _ ih =>
    obtain ⟨records, hrecords⟩ := ih.log
    exact valid_start hrecords
  | statement _ _ depth ih => exact keeps_execute depth _ _ ih

/-- **A statement that throws changes neither the active database nor the log, unless it is an
UPDATE or DELETE whose `WHERE` clause throws at a row after it has changed another one.** -/
theorem execute_error_unchanged_iff (hs : Reachable platform s) {sql : Str} {query : Query}
    (hparse : Parser.parse sql = .ok query) (depth : ℕ) :
    Atomic (execute platform depth query) s ↔
      ∀ q, s.resolved depth query = some q → ¬ PartialChange s.view q := by
  rcases execute_parsed platform s depth hparse with ⟨q, hq, hwell, hrun⟩ | ⟨hnone, e, hrun⟩
  · have := atomic_executeUnlocked_iff platform hs.valid hwell
    rw [Atomic, hrun, hq]
    rw [Atomic] at this
    simpa using this
  · refine iff_of_true (undone_of_same fun e' s' h => ?_).atomic fun q hq => ?_
    · rw [hrun] at h
      cases h
      rfl
    · rw [hnone] at hq
      cases hq

/-- Run SQL texts one after the other, whether they return or throw. -/
def runSql (platform : Platform) : List String → QueryExecutor → QueryExecutor
  | [], s => s
  | sql :: rest, s =>
    match Parser.parse (bytes sql) with
    | .error _ => runSql platform rest s
    | .ok query => runSql platform rest (execute platform 1 query s).2

theorem Reachable.runSql (h : Reachable platform s) (statements : List String) :
    Reachable platform (runSql platform statements s) := by
  induction statements generalizing s with
  | nil => exact h
  | cons sql statements ih =>
    rw [QueryExecutor.runSql]
    cases hparse : Parser.parse (bytes sql) with
    | error e => exact ih h
    | ok query => exact ih (h.statement hparse 1)

/-- A table with two rows. -/
def twoRows : QueryExecutor := runSql (.byInsertion true)
  ["CREATE DATABASE d;", "CREATE TABLE t (a INT);", "INSERT INTO t VALUES (1), (2);"]
  (start (.byInsertion true) .empty)

theorem reachable_twoRows : Reachable (.byInsertion true) twoRows := Reachable.start.runSql _

/-- `INSERT INTO t VALUES (3), ("x");`. -/
def misfit : Query := .insert ⟨bytes "t", [[.int 3], [.string (bytes "x")]]⟩

theorem execute_error_unchanged_iff_misfit :
    (execute (.byInsertion true) 1 misfit twoRows).1 =
        .error (.invalidArgument "row value does not match column type") ∧
      Atomic (execute (.byInsertion true) 1 misfit) twoRows := by
  have hparse : Parser.parse (bytes "INSERT INTO t VALUES (3), (\"x\");") = .ok misfit := by
    decide +kernel
  refine ⟨by decide +kernel,
    (execute_error_unchanged_iff reachable_twoRows hparse 1).2 fun q hq => ?_⟩
  replace hq : some misfit = some q := hq
  cases hq
  exact id

/-- `UPDATE t SET a = 9 WHERE a = 1 OR b = 2;`, where there is no column `b`. -/
def throwingUpdate : Query := .update ⟨bytes "t", bytes "a", .int 9,
  some (.or (.comparison (bytes "a") .equal (.int 1))
    (.comparison (bytes "b") .equal (.int 2)))⟩

/-- The first row is updated, and then the second one makes the clause throw. -/
theorem throwingUpdate_changes :
    Reachable (.byInsertion true) twoRows ∧
      Parser.parse (bytes "UPDATE t SET a = 9 WHERE a = 1 OR b = 2;") = .ok throwingUpdate ∧
      ¬ Atomic (execute (.byInsertion true) 1 throwingUpdate) twoRows := by
  refine ⟨reachable_twoRows, by decide +kernel, fun h => ?_⟩
  have hthrows : (execute (.byInsertion true) 1 throwingUpdate twoRows).1 =
      .error unknownColumn := by decide +kernel
  have hchanged : (execute (.byInsertion true) 1 throwingUpdate twoRows).2.view ≠ twoRows.view := by
    decide +kernel
  exact hchanged (h _ _ (eq_of_fst_eq hthrows) (by decide)).1

end QueryExecutor

end VertexDB
