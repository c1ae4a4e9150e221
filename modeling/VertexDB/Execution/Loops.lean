import VertexDB.Execution.Reference

/-!
# The row loops of the executor

INSERT, UPDATE and DELETE change a table row by row.  `runs_updateLoop` and `runs_deleteLoop` say
what the loops have done to the view after any prefix of the rows, so that both the loop that runs
to its end and the loop that stops at a row where the `WHERE` clause throws are instances.
-/

namespace VertexDB

open Ascii

namespace Reference

theorem putTable_putTable (view : DatabaseView) (name : Str) (table table' : TableView) :
    putTable (putTable view name table) name table' = putTable view name table' := by
  simp only [putTable, DatabaseView.mk.injEq, true_and]
  refine SortedMap.ext_find? fun k => ?_
  simp only [SortedMap.find?_insert]
  split_ifs <;> rfl

theorem putTable_self {view : DatabaseView} {name : Str} {table : TableView}
    (h : view.tables.find? name = some table) : putTable view name table = view := by
  obtain ⟨n, tables⟩ := view
  simp only [putTable, DatabaseView.mk.injEq, true_and]
  refine SortedMap.ext_find? fun k => ?_
  rw [SortedMap.find?_insert]
  split_ifs with hk
  · rw [hk, ← h]
  · rfl

end Reference

namespace QueryExecutor

open Reference

/-- The view of the active database. -/
def view (executor : QueryExecutor) : Option DatabaseView := executor.database.map Database.view

/-- The active database satisfies its invariant. -/
def Sound (executor : QueryExecutor) : Prop :=
  ∀ database, executor.database = some database → database.Sound

/-- The executor with another active database. -/
def withDatabase (executor : QueryExecutor) (database : Option Database) : QueryExecutor :=
  { executor with database }

@[simp] theorem withDatabase_database (s : QueryExecutor) (d : Option Database) :
    (s.withDatabase d).database = d := rfl

@[simp] theorem withDatabase_withDatabase (s : QueryExecutor) (d d' : Option Database) :
    (s.withDatabase d).withDatabase d' = s.withDatabase d' := rfl

@[simp] theorem withDatabase_storage (s : QueryExecutor) (d : Option Database) :
    (s.withDatabase d).storage = s.storage := rfl

theorem withDatabase_self {s : QueryExecutor} {d : Option Database} (h : s.database = d) :
    s.withDatabase d = s := by
  subst h; rfl

theorem view_withDatabase (s : QueryExecutor) (db : Database) :
    (s.withDatabase (some db)).view = some db.view := rfl

theorem sound_withDatabase {s : QueryExecutor} {db : Database} (h : db.Sound) :
    (s.withDatabase (some db)).Sound := by
  rintro _ ⟨⟩; exact h

@[simp] theorem putDatabase_apply (db : Database) (s : QueryExecutor) :
    putDatabase db s = (.ok (), s.withDatabase (some db)) := rfl

/-! ### Appending to the log -/

/-- Append records one after the other. -/
def logAll : List (WalOperation × Str) → Exec Unit
  | [] => return ()
  | record :: records => do
    appendWal record.1 record.2
    logAll records

theorem appendWal_apply (operation : WalOperation) (payload : Str) (s : QueryExecutor) :
    appendWal operation payload s =
      if s.replayingWal then (.ok (), s)
      else ((WriteAheadLog.append operation payload s.storage).1.map fun _ => (),
        { s with storage := (WriteAheadLog.append operation payload s.storage).2 }) := by
  rw [appendWal, Procedure.get_bind]
  split_ifs
  · rfl
  · cases h : WriteAheadLog.append operation payload s.storage with
    | mk outcome storage =>
      have hfocus : Procedure.focus QueryExecutor.storage
          (fun storage executor => { executor with storage })
          (WriteAheadLog.append operation payload) s = (outcome, { s with storage }) := by
        rw [Procedure.focus_apply, h]
      cases outcome with
      | ok lsn => rw [Procedure.bind_of_ok hfocus]; rfl
      | error e => rw [Procedure.bind_of_error hfocus]; rfl

/-- Appending changes nothing but the storage. -/
theorem appendWal_storage (operation : WalOperation) (payload : Str) (s : QueryExecutor) :
    ∃ storage, (appendWal operation payload s).2 = { s with storage } := by
  rw [appendWal_apply]
  split_ifs
  · exact ⟨s.storage, rfl⟩
  · exact ⟨_, rfl⟩

/-- Appending does not look at the database. -/
theorem appendWal_withDatabase (operation : WalOperation) (payload : Str) (s : QueryExecutor)
    (d : Option Database) : appendWal operation payload (s.withDatabase d) =
      ((appendWal operation payload s).1, (appendWal operation payload s).2.withDatabase d) := by
  rw [appendWal_apply, appendWal_apply]
  by_cases hr : s.replayingWal = true
  · rw [if_pos hr, if_pos (show (s.withDatabase d).replayingWal = true from hr)]
  · rw [if_neg hr, if_neg (show ¬ (s.withDatabase d).replayingWal = true from hr)]
    rfl

theorem appendWal_database (operation : WalOperation) (payload : Str) (s : QueryExecutor) :
    (appendWal operation payload s).2.database = s.database := by
  obtain ⟨storage, h⟩ := appendWal_storage operation payload s
  rw [h]

/-- During replay nothing is appended. -/
theorem appendWal_of_replaying {s : QueryExecutor} (h : s.replayingWal = true)
    (operation : WalOperation) (payload : Str) :
    appendWal operation payload s = (.ok (), s) := by
  rw [appendWal_apply, if_pos h]

theorem logAll_of_replaying {s : QueryExecutor} (h : s.replayingWal = true)
    (records : List (WalOperation × Str)) : logAll records s = (.ok (), s) := by
  induction records with
  | nil => rfl
  | cons record records ih =>
    rw [logAll, Procedure.bind_of_ok (appendWal_of_replaying h _ _), ih]

theorem logAll_withDatabase (records : List (WalOperation × Str)) (s : QueryExecutor)
    (d : Option Database) : logAll records (s.withDatabase d) =
      ((logAll records s).1, (logAll records s).2.withDatabase d) := by
  induction records generalizing s with
  | nil => rfl
  | cons record records ih =>
    rw [logAll]
    have happ := appendWal_withDatabase record.1 record.2 s d
    cases h : appendWal record.1 record.2 s with
    | mk outcome s' =>
      rw [h] at happ
      cases outcome with
      | ok _ => rw [Procedure.bind_of_ok happ, Procedure.bind_of_ok h, ih]
      | error e => rw [Procedure.bind_of_error happ, Procedure.bind_of_error h]

theorem logAll_singleton (record : WalOperation × Str) (s : QueryExecutor) :
    logAll [record] s = appendWal record.1 record.2 s := by
  rw [logAll]
  cases h : appendWal record.1 record.2 s with
  | mk outcome s' =>
    cases outcome with
    | ok _ => rw [Procedure.bind_of_ok h]; rfl
    | error e => rw [Procedure.bind_of_error h]

/-- Appending fails at the first record that cannot be appended. -/
theorem logAll_eq_error_iff {records : List (WalOperation × Str)} {s s' : QueryExecutor}
    {e : Exception} : logAll records s = (.error e, s') ↔
      ∃ before record after mid, records = before ++ record :: after ∧
        logAll before s = (.ok (), mid) ∧ appendWal record.1 record.2 mid = (.error e, s') := by
  induction records generalizing s with
  | nil => simp [logAll]
  | cons first records ih =>
    rw [logAll, Procedure.bind_eq_error_iff]
    constructor
    · rintro (hfails | ⟨⟨⟩, mid, happ, hlog⟩)
      · exact ⟨[], first, records, s, rfl, rfl, hfails⟩
      · obtain ⟨before, record, after, last, rfl, hlogged, hfails⟩ := ih.1 hlog
        refine ⟨first :: before, record, after, last, rfl, ?_, hfails⟩
        rw [logAll, Procedure.bind_of_ok happ, hlogged]
    · rintro ⟨before, record, after, mid, hsplit, hlogged, hfails⟩
      cases before with
      | nil =>
        cases hsplit
        cases hlogged
        exact .inl hfails
      | cons _ before =>
        cases hsplit
        obtain ⟨⟨⟩, next, happ, hlogged⟩ := Procedure.bind_eq_ok_iff.1 hlogged
        exact .inr ⟨(), next, happ, ih.2 ⟨before, record, after, mid, rfl, hlogged, hfails⟩⟩

/-! ### A table of the active database -/

/-- `table` is the table of that name of the active database. -/
structure Holding (s : QueryExecutor) (db : Database) (name : Str) (table : Table) : Prop where
  database : s.database = some db
  sound : db.Sound
  find : db.tables.find? name = some table

variable {s : QueryExecutor} {db : Database} {name : Str} {table table' : Table}

theorem Holding.reached (h : Holding s db name table) : table.Reached :=
  (h.sound.tables _ _ h.find).2

theorem Holding.name_eq (h : Holding s db name table) : table.name = name :=
  (h.sound.tables _ _ h.find).1

theorem Holding.find?_view (h : Holding s db name table) :
    db.view.tables.find? name = some table.view := by
  rw [Database.find?_view, Database.table, h.find]; rfl

/-- The database with a table put in place. -/
def putIn (db : Database) (name : Str) (table : Table) : Database :=
  { db with tables := db.tables.insert name table }

theorem Holding.putTable_apply (h : Holding s db name table) (table' : Table) :
    QueryExecutor.putTable name table' s =
      (.ok (), s.withDatabase (some (putIn db name table'))) := by
  simp only [QueryExecutor.putTable, Procedure.modify_apply, h.database, Option.map_some]
  rfl

theorem Holding.putTable_bind (h : Holding s db name table) (table' : Table) {β : Type}
    (f : PUnit → Exec β) : (QueryExecutor.putTable name table' >>= f) s =
      f () (s.withDatabase (some (putIn db name table'))) :=
  Procedure.bind_of_ok (h.putTable_apply table')

theorem Holding.put (h : Holding s db name table) (hr : table'.Reached)
    (hname : table'.name = table.name) :
    Holding (s.withDatabase (some (putIn db name table'))) (putIn db name table') name table' where
  database := rfl
  sound := by
    rw [putIn, ← h.name_eq, ← hname]
    exact h.sound.insert hr
  find := by simp [putIn]

theorem view_putIn (db : Database) (name : Str) (table : Table) :
    (putIn db name table).view = Reference.putTable db.view name table.view :=
  Database.view_insert ..

theorem Holding.requireTable_eq (h : Holding s db name table) :
    s.requireTable name = .ok table := by
  simp only [QueryExecutor.requireTable, h.database, Database.table, h.find]
  rfl

theorem Holding.requireTable_view (h : Holding s db name table) :
    Reference.requireTable s.view name = .ok (db.view, table.view) := by
  simp only [Reference.requireTable, view, h.database, Option.map_some, h.find?_view]
  rfl

/-- A table is found in the executor exactly when it is found in the view. -/
theorem requireTable_cases (hs : s.Sound) (name : Str) :
    (∃ db table, Holding s db name table) ∨
      ∃ e, s.requireTable name = .error e ∧ Reference.requireTable s.view name = .error e := by
  cases hd : s.database with
  | none =>
    refine .inr ⟨.runtimeError "no active database", ?_, ?_⟩
    · rw [QueryExecutor.requireTable, hd]; rfl
    · simp only [Reference.requireTable, view, hd, Option.map_none]; rfl
  | some db =>
    cases hf : db.tables.find? name with
    | none =>
      refine .inr ⟨.runtimeError "unknown table", ?_, ?_⟩
      · simp only [QueryExecutor.requireTable, hd, Database.table, hf]; rfl
      · simp only [Reference.requireTable, view, hd, Option.map_some, Database.find?_view,
          Database.table, hf, Option.map_none]
        rfl
    | some table => exact .inl ⟨db, table, hd, hs db hd, hf⟩

/-! ### INSERT -/

/-- If the records of the rows can be appended, the loop appends them and inserts the rows. -/
theorem insertLoop_ok (h : Holding s db name table) {rows : List Row}
    (hrows : ∀ row ∈ rows, validateRow table.view.schema row = .ok ()) {s' : QueryExecutor}
    (hlog : logAll (rows.map fun row => (.insert, insertSql name row)) s = (.ok (), s')) :
    ∃ db', insertLoop name table rows s = (.ok (), s'.withDatabase (some db')) ∧ db'.Sound ∧
      db'.view = Reference.putTable db.view name
        { table.view with rows := table.view.rows ++ rows } := by
  induction rows generalizing s db table s' with
  | nil =>
    cases hlog
    refine ⟨db, ?_, h.sound, ?_⟩
    · rw [withDatabase_self h.database]; rfl
    · rw [List.append_nil]; exact (putTable_self h.find?_view).symm
  | cons row rows ih =>
    rw [List.map_cons, logAll, Procedure.bind_eq_ok_iff] at hlog
    obtain ⟨⟨⟩, mid, happ, hlog⟩ := hlog
    obtain ⟨rowId, table', hi⟩ := Table.insert_ok (hrows row List.mem_cons_self)
    obtain ⟨hreached, hname, hview⟩ := h.reached.view_insert hi
    have hmid : Holding mid db name table := by
      refine ⟨?_, h.sound, h.find⟩
      rw [← h.database, ← appendWal_database .insert (insertSql name row) s, happ]
    have hlog' : logAll (rows.map fun row => (.insert, insertSql name row))
        (mid.withDatabase (some (putIn db name table'))) =
          (.ok (), s'.withDatabase (some (putIn db name table'))) := by
      rw [logAll_withDatabase, hlog]
    obtain ⟨db', hok, hsound, hdb'⟩ := ih (hmid.put hreached hname)
      (fun r hr => by rw [hview]; exact hrows r (List.mem_cons_of_mem _ hr)) hlog'
    refine ⟨db', ?_, hsound, ?_⟩
    · rw [insertLoop, Procedure.bind_of_ok happ, hi, Procedure.lift_ok_bind]
      exact (Procedure.bind_of_ok (hmid.putTable_apply table')).trans hok
    · rw [hdb', view_putIn, putTable_putTable, hview, List.append_assoc]
      rfl

/-- Where a record cannot be appended, the loop stops, and the rows before it are inserted. -/
theorem insertLoop_stops (h : Holding s db name table) {before : List Row} {row : Row}
    (hrows : ∀ r ∈ before, validateRow table.view.schema r = .ok ()) {mid s' : QueryExecutor}
    (hlog : logAll (before.map fun row => (.insert, insertSql name row)) s = (.ok (), mid))
    {e : Exception} (hfails : appendWal .insert (insertSql name row) mid = (.error e, s'))
    (after : List Row) :
    ∃ db', insertLoop name table (before ++ row :: after) s =
        (.error e, s'.withDatabase (some db')) ∧
      db'.view = Reference.putTable db.view name
        { table.view with rows := table.view.rows ++ before } := by
  induction before generalizing s db table mid s' with
  | nil =>
    cases hlog
    refine ⟨db, ?_, ?_⟩
    · have hdb : s'.database = some db := by
        rw [← h.database, ← appendWal_database .insert (insertSql name row) s, hfails]
      rw [List.nil_append, insertLoop, Procedure.bind_of_error hfails, withDatabase_self hdb]
    · rw [List.append_nil]; exact (putTable_self h.find?_view).symm
  | cons first before ih =>
    rw [List.map_cons, logAll, Procedure.bind_eq_ok_iff] at hlog
    obtain ⟨⟨⟩, next, happ, hlog⟩ := hlog
    obtain ⟨rowId, table', hi⟩ := Table.insert_ok (hrows first List.mem_cons_self)
    obtain ⟨hreached, hname, hview⟩ := h.reached.view_insert hi
    have hnext : Holding next db name table := by
      refine ⟨?_, h.sound, h.find⟩
      rw [← h.database, ← appendWal_database .insert (insertSql name first) s, happ]
    -- appending does not look at the database, so the records fail at the same place
    have hlog' : logAll (before.map fun row => (.insert, insertSql name row))
        (next.withDatabase (some (putIn db name table'))) =
          (.ok (), mid.withDatabase (some (putIn db name table'))) := by
      rw [logAll_withDatabase, hlog]
    have hfails' : appendWal .insert (insertSql name row)
        (mid.withDatabase (some (putIn db name table'))) =
          (.error e, s'.withDatabase (some (putIn db name table'))) := by
      rw [appendWal_withDatabase, hfails]
    obtain ⟨db', herr, hdb'⟩ := ih (hnext.put hreached hname)
      (fun r hr => by rw [hview]; exact hrows r (List.mem_cons_of_mem _ hr)) hlog' hfails'
    refine ⟨db', ?_, ?_⟩
    · rw [List.cons_append, insertLoop, Procedure.bind_of_ok happ, hi, Procedure.lift_ok_bind]
      exact (Procedure.bind_of_ok (hnext.putTable_apply table')).trans herr
    · rw [hdb', view_putIn, putTable_putTable, hview, List.append_assoc]
      rfl

/-- If a record cannot be appended, the loop fails. -/
theorem insertLoop_error (h : Holding s db name table) {rows : List Row}
    (hrows : ∀ row ∈ rows, validateRow table.view.schema row = .ok ()) {s' : QueryExecutor}
    {e : Exception}
    (hlog : logAll (rows.map fun row => (.insert, insertSql name row)) s = (.error e, s')) :
    ∃ s'', insertLoop name table rows s = (.error e, s'') := by
  obtain ⟨before, record, after, mid, hsplit, hlogged, hfails⟩ := logAll_eq_error_iff.1 hlog
  obtain ⟨first, rest, rfl, rfl, hrest⟩ := List.map_eq_append_iff.1 hsplit
  obtain ⟨row, last, rfl, rfl, -⟩ := List.map_eq_cons_iff.1 hrest
  obtain ⟨db', hstop, -⟩ := insertLoop_stops h
    (fun r hr => hrows r (List.mem_append_left _ hr)) hlogged hfails last
  exact ⟨_, hstop⟩

/-! ### UPDATE -/

/-- UPDATE gets past a row: the `WHERE` clause can be evaluated, and if it is true the value
fits. -/
def UpdatePasses (command : Update) (schema : List Column) (target : ℕ) (row : Row) : Prop :=
  ∃ passed, passes schema command.where_ row = .ok passed ∧
    (passed = true → checkTarget schema target command.value = .ok ())

/-- What UPDATE makes of a row. -/
def updatedRow (command : Update) (schema : List Column) (target : ℕ) (row : Row) : Row :=
  if matching schema command.where_ row then row.set target command.value else row

theorem matching_of_passes {schema : List Column} {where_ : Option Predicate} {row : Row}
    {passed : Bool} (h : passes schema where_ row = .ok passed) :
    matching schema where_ row = passed := by rw [matching, h]

/-- After a prefix of the rows, the loop has updated the matching rows of the prefix. -/
theorem runs_updateLoop {command : Update} {target : ℕ} (h : Holding s db command.table table)
    (htarget : target < table.schema.length) (done : List Row) {rows : List Row} (rest : List Row)
    (hrows : table.view.rows = done ++ (rows ++ rest))
    (hpass : ∀ row ∈ rows, UpdatePasses command table.schema target row) (count : ℕ) :
    ∃ db' table', Holding (s.withDatabase (some db')) db' command.table table' ∧
      updateLoop command target table done.length (rows ++ rest) count s =
        updateLoop command target table' (done ++ rows).length rest
          (count + rows.countP (matching table.schema command.where_))
          (s.withDatabase (some db')) ∧
      table'.view = { table.view with
        rows := done ++ (rows.map (updatedRow command table.schema target) ++ rest) } ∧
      db'.view = Reference.putTable db.view command.table table'.view := by
  induction rows generalizing s db table done count with
  | nil =>
    -- the first row is done, and the induction goes on behind it, from the changed table
    have hs : s.withDatabase (some db) = s := withDatabase_self h.database
    refine ⟨db, table, by rw [hs]; exact h, ?_, ?_, (putTable_self h.find?_view).symm⟩
    · rw [hs, List.append_nil]; rfl
    · rw [List.map_nil, List.nil_append, ← List.nil_append rest, ← hrows]
  | cons row rows ih =>
    obtain ⟨passed, hp, hfits⟩ := hpass row List.mem_cons_self
    have hmatch := matching_of_passes hp
    have hrest : ∀ r ∈ rows, UpdatePasses command table.schema target r := fun r hr =>
      hpass r (List.mem_cons_of_mem _ hr)
    cases passed with
    | false =>
      have hrows' : table.view.rows = (done ++ [row]) ++ (rows ++ rest) := by
        rw [hrows]; simp
      obtain ⟨db', table', hh, hrun, hview, hdb⟩ := ih h htarget _ hrows' hrest count
      refine ⟨db', table', hh, ?_, ?_, hdb⟩
      · rw [List.cons_append, updateLoop, hp, Procedure.lift_ok_bind, if_neg (by simp)]
        have hlen : (done ++ [row]).length = done.length + 1 := by simp
        rw [← hlen, hrun, List.countP_cons, hmatch]
        simp
      · rw [hview, List.map_cons, updatedRow, hmatch]
        simp
    | true =>
      have hcheck : ∀ column, table.schema[target]? = some column →
          checkValue "updated value does not match column type" column command.value = .ok () := by
        intro column hcol
        have := hfits rfl
        rwa [checkTarget, hcol] at this
      obtain ⟨updated, mid, hu⟩ := Table.update_ok done.length hcheck
      obtain ⟨hiff, hreached, hname, hview⟩ := h.reached.view_update hu
      have hlt : done.length < table.view.rows.length := by rw [hrows]; simp
      obtain rfl : updated = true := hiff.2 ⟨hlt, htarget⟩
      -- the row at the position of the loop is the one that changes
      have hmod : table.view.rows.modify done.length (·.set target command.value) =
          (done ++ [row.set target command.value]) ++ (rows ++ rest) := by
        rw [hrows, List.modify_eq_set_getElem?, List.getElem?_append_right le_rfl]
        simp [List.set_append_right]
      rw [if_pos rfl, hmod] at hview
      have hschema : mid.schema = table.schema := congrArg TableView.schema hview
      have hmid := h.put hreached hname
      obtain ⟨db', table', hh, hrun, hview', hdb⟩ := ih hmid (by rw [hschema]; exact htarget) _
        (congrArg TableView.rows hview) (by rw [hschema]; exact hrest) (count + 1)
      refine ⟨db', table', hh, ?_, ?_, ?_⟩
      · rw [List.cons_append, updateLoop, hp, Procedure.lift_ok_bind, if_pos rfl, hu,
          Procedure.lift_ok_bind]
        refine (Procedure.bind_of_ok (h.putTable_apply mid)).trans ?_
        have hlen : (done ++ [row.set target command.value]).length = done.length + 1 := by simp
        rw [if_pos rfl, ← hlen, hrun, List.countP_cons, hmatch, hschema]
        simp [Nat.add_assoc, Nat.add_comm, Nat.add_left_comm]
      · rw [hview', hview, hschema, List.map_cons, updatedRow, hmatch]
        simp
      · rw [hdb, view_putIn, putTable_putTable]

/-- The loop that gets past every row. -/
theorem updateLoop_ok {command : Update} {target : ℕ} (h : Holding s db command.table table)
    (htarget : target < table.schema.length)
    (hall : ∀ row ∈ table.view.rows, UpdatePasses command table.schema target row) :
    ∃ db', updateLoop command target table 0 table.rowsSnapshot 0 s =
        (.ok (table.view.rows.countP (matching table.schema command.where_)),
          s.withDatabase (some db')) ∧ db'.Sound ∧
      db'.view = Reference.putTable db.view command.table { table.view with
        rows := table.view.rows.map (updatedRow command table.schema target) } := by
  obtain ⟨db', table', hh, hrun, hview, hdb⟩ := runs_updateLoop h htarget [] [] (by simp) hall 0
  rw [List.append_nil, Nat.zero_add] at hrun
  refine ⟨db', hrun, hh.sound, ?_⟩
  rw [hdb, hview, List.nil_append, List.append_nil]

/-- Either every element of a list has a property, or there is a first one without it. -/
theorem forall_or_exists_first {α : Type} (p : α → Prop) (l : List α) :
    (∀ x ∈ l, p x) ∨ ∃ before x after, l = before ++ x :: after ∧ (∀ y ∈ before, p y) ∧ ¬ p x := by
  induction l with
  | nil => exact .inl fun _ h => absurd h List.not_mem_nil
  | cons x l ih =>
    by_cases hx : p x
    · rcases ih with ih | ⟨before, y, after, rfl, hbefore, hy⟩
      · exact .inl (List.forall_mem_cons.2 ⟨hx, ih⟩)
      · exact .inr ⟨x :: before, y, after, rfl, List.forall_mem_cons.2 ⟨hx, hbefore⟩, hy⟩
    · exact .inr ⟨[], x, l, rfl, fun _ h => absurd h List.not_mem_nil, hx⟩

/-- The only exception of a `WHERE` clause on one table. -/
def unknownColumn : Exception := .runtimeError "unknown predicate column"

theorem passes_error {schema : List Column} {where_ : Option Predicate} {row : Row} {e : Exception}
    (h : passes schema where_ row = .error e) : e = unknownColumn := by
  cases where_ with
  | none => cases h
  | some predicate =>
    change evalPredicate _ row predicate = .error e at h
    induction predicate with
    | comparison column op value =>
      rw [evalPredicate, Failure.pure_eq_ok, Failure.ok_bind] at h
      cases hc : columnIndex schema column with
      | none => rw [hc] at h; cases h; rfl
      | some index => rw [hc] at h; cases h
    | and left right ihl ihr =>
      rw [evalPredicate] at h
      cases hl : evalPredicate (fun column => pure (columnIndex schema column)) row left with
      | error e' => rw [hl] at h; cases h; exact ihl hl
      | ok b =>
        rw [hl, Failure.ok_bind] at h
        cases b with
        | true => exact ihr h
        | false => cases h
    | or left right ihl ihr =>
      rw [evalPredicate] at h
      cases hl : evalPredicate (fun column => pure (columnIndex schema column)) row left with
      | error e' => rw [hl] at h; cases h; exact ihl hl
      | ok b =>
        rw [hl, Failure.ok_bind] at h
        cases b with
        | true => cases h
        | false => exact ihr h

/-- The loop stops at the first row it does not get past, and what it has done stays. -/
theorem updateLoop_stops {command : Update} {target : ℕ} (h : Holding s db command.table table)
    (htarget : target < table.schema.length) {before after : List Row} {row : Row}
    (hrows : table.view.rows = before ++ row :: after)
    (hbefore : ∀ r ∈ before, UpdatePasses command table.schema target r)
    (hrow : ¬ UpdatePasses command table.schema target row) :
    ∃ e db', updateLoop command target table 0 table.rowsSnapshot 0 s =
        (.error e, s.withDatabase (some db')) ∧ db'.Sound ∧
      (∀ e', passes table.schema command.where_ row = .error e' → e = e') ∧
      db'.view = Reference.putTable db.view command.table { table.view with
        rows := before.map (updatedRow command table.schema target) ++ row :: after } := by
  obtain ⟨db', table', hh, hrun, hview, hdb⟩ := runs_updateLoop h htarget [] (row :: after)
    hrows hbefore 0
  have hschema : table'.schema = table.schema := congrArg TableView.schema hview
  have hrows' : table'.rowsSnapshot =
    before.map (updatedRow command table.schema target) ++ row :: after :=
      congrArg TableView.rows hview
  -- the rows before are done, so only the iteration at `row` is left
  suffices hstop : ∃ e, updateLoop command target table' ([] ++ before).length (row :: after)
      (0 + before.countP (matching table.schema command.where_)) (s.withDatabase (some db')) =
        (.error e, s.withDatabase (some db')) ∧
      ∀ e', passes table.schema command.where_ row = .error e' → e = e' by
    obtain ⟨e, hstop, he⟩ := hstop
    refine ⟨e, db', ?_, hh.sound, he, ?_⟩
    · change updateLoop command target table 0 table.view.rows 0 s = _
      rw [hrows]
      exact hrun.trans hstop
    · rw [hdb, hview]; rfl
  rw [updateLoop, hschema]
  cases hp : passes table.schema command.where_ row with
  | error e => exact ⟨e, rfl, by rintro _ ⟨⟩; rfl⟩
  | ok passed =>
    -- a row that does not match would be got past
    obtain rfl : passed = true := by
      cases passed with
      | true => rfl
      | false => exact absurd ⟨false, hp, by simp⟩ hrow
    have hcol : table.schema[target]? = some table.schema[target] :=
      List.getElem?_eq_getElem htarget
    cases hv : checkTarget table.schema target command.value with
    | ok _ => exact absurd ⟨true, hp, fun _ => hv⟩ hrow
    | error e =>
      rw [checkTarget, hcol] at hv
      have hlt : ([] ++ before).length < table'.rowsSnapshot.length := by
        rw [hrows']; simp
      refine ⟨e, ?_, by rintro _ ⟨⟩⟩
      rw [Procedure.lift_ok_bind, if_pos rfl,
        hh.reached.holds.update_error hlt (by rw [hschema]; exact hcol) hv]
      rfl

/-! ### DELETE -/

/-- After a prefix of the rows, taken from the last row down, the loop has removed the matching
rows of the prefix. -/
theorem runs_deleteLoop {command : Delete} (h : Holding s db command.table table)
    (kept : List Row) {rows : List Row} (rest : List Row)
    (hrows : table.view.rows = (rows ++ rest).reverse ++ kept)
    (hpass : ∀ row ∈ rows, ∃ passed, passes table.schema command.where_ row = .ok passed)
    (count : ℕ) :
    ∃ db' table', Holding (s.withDatabase (some db')) db' command.table table' ∧
      deleteLoop command table (rows ++ rest) count s =
        deleteLoop command table' rest
          (count + rows.countP (matching table.schema command.where_))
          (s.withDatabase (some db')) ∧
      table'.view = { table.view with rows := rest.reverse ++
        (rows.reverse.filter (fun row => !matching table.schema command.where_ row) ++ kept) } ∧
      db'.view = Reference.putTable db.view command.table table'.view := by
  induction rows generalizing s db table kept count with
  | nil =>
    have hs : s.withDatabase (some db) = s := withDatabase_self h.database
    refine ⟨db, table, by rw [hs]; exact h, ?_, ?_, (putTable_self h.find?_view).symm⟩
    · rw [hs]; rfl
    · rw [List.nil_append] at hrows
      rw [List.reverse_nil, List.filter_nil, List.nil_append, ← hrows]
  | cons row rows ih =>
    obtain ⟨passed, hp⟩ := hpass row List.mem_cons_self
    have hmatch := matching_of_passes hp
    have hrest : ∀ r ∈ rows, ∃ passed, passes table.schema command.where_ r = .ok passed :=
      fun r hr => hpass r (List.mem_cons_of_mem _ hr)
    have hrows' : table.view.rows = (rows ++ rest).reverse ++ (row :: kept) := by
      rw [hrows]; simp
    cases passed with
    | false =>
      obtain ⟨db', table', hh, hrun, hview, hdb⟩ := ih h _ hrows' hrest count
      refine ⟨db', table', hh, ?_, ?_, hdb⟩
      · rw [List.cons_append, deleteLoop, hp, Procedure.lift_ok_bind, if_neg (by simp), hrun,
          List.countP_cons, hmatch]
        simp
      · rw [hview, List.reverse_cons, List.filter_append]
        simp [hmatch]
    | true =>
      obtain ⟨herased, hreached, hname, hview⟩ := h.reached.view_erase (rows ++ rest).length
      have hlt : (rows ++ rest).length < table.view.rows.length := by
        have hlen := congrArg List.length hrows'
        simp only [List.length_append, List.length_reverse, List.length_cons] at hlen ⊢
        omega
      -- the rows behind the position of the loop are the kept ones, so erasing does not move it
      have herase : table.view.rows.eraseIdx (rows ++ rest).length =
          (rows ++ rest).reverse ++ kept := by
        have hle : (rows ++ rest).reverse.length ≤ (rows ++ rest).length :=
          List.length_reverse.le
        rw [hrows', List.eraseIdx_append_of_length_le hle, List.length_reverse, Nat.sub_self]
        rfl
      rw [herase] at hview
      obtain ⟨erased, mid, he⟩ : ∃ erased mid, table.erase (rows ++ rest).length = (erased, mid) :=
        ⟨_, _, rfl⟩
      rw [he] at herased hreached hname hview
      obtain rfl : erased = true := herased.trans (decide_eq_true hlt)
      have hschema : mid.schema = table.schema := congrArg TableView.schema hview
      have hmid := h.put hreached hname
      obtain ⟨db', table', hh, hrun, hview', hdb⟩ := ih hmid _ (congrArg TableView.rows hview)
        (by rw [hschema]; exact hrest) (count + 1)
      refine ⟨db', table', hh, ?_, ?_, ?_⟩
      · rw [List.cons_append, deleteLoop, hp, Procedure.lift_ok_bind, if_pos rfl, he]
        refine (Procedure.bind_of_ok (h.putTable_apply mid)).trans ?_
        rw [if_pos rfl, hrun, List.countP_cons, hmatch, hschema]
        simp [Nat.add_assoc, Nat.add_comm]
      · rw [hview', hview, hschema, List.reverse_cons, List.filter_append]
        simp [hmatch]
      · rw [hdb, view_putIn, putTable_putTable]

/-- The loop that gets past every row. -/
theorem deleteLoop_ok {command : Delete} (h : Holding s db command.table table)
    (hall : ∀ row ∈ table.view.rows,
      ∃ passed, passes table.schema command.where_ row = .ok passed) :
    ∃ db', deleteLoop command table table.rowsSnapshot.reverse 0 s =
        (.ok (table.view.rows.countP (matching table.schema command.where_)),
          s.withDatabase (some db')) ∧ db'.Sound ∧
      db'.view = Reference.putTable db.view command.table { table.view with
        rows := table.view.rows.filter fun row => !matching table.schema command.where_ row } := by
  obtain ⟨db', table', hh, hrun, hview, hdb⟩ := runs_deleteLoop h [] []
    (show table.view.rows = (table.view.rows.reverse ++ []).reverse ++ [] by simp)
    (fun row hr => hall row (List.mem_reverse.1 hr)) 0
  rw [List.append_nil, Nat.zero_add, List.countP_reverse] at hrun
  refine ⟨db', hrun, hh.sound, ?_⟩
  rw [hdb, hview, List.reverse_reverse, List.reverse_nil, List.nil_append, List.append_nil]

/-- The loop stops at the first row, from the last one down, where the `WHERE` clause throws. -/
theorem deleteLoop_stops {command : Delete} (h : Holding s db command.table table)
    {before after : List Row} {row : Row} {e : Exception}
    (hrows : table.view.rows.reverse = before ++ row :: after)
    (hbefore : ∀ r ∈ before, ∃ passed, passes table.schema command.where_ r = .ok passed)
    (hrow : passes table.schema command.where_ row = .error e) :
    ∃ db', deleteLoop command table table.rowsSnapshot.reverse 0 s =
        (.error e, s.withDatabase (some db')) ∧ db'.Sound ∧
      db'.view = Reference.putTable db.view command.table { table.view with
        rows := (row :: after).reverse ++
          before.reverse.filter (fun row => !matching table.schema command.where_ row) } := by
  obtain ⟨db', table', hh, hrun, hview, hdb⟩ := runs_deleteLoop h [] (row :: after)
    (by rw [← hrows]; simp) hbefore 0
  have hschema : table'.schema = table.schema := congrArg TableView.schema hview
  refine ⟨db', ?_, hh.sound, ?_⟩
  · change deleteLoop command table table.view.rows.reverse 0 s = _
    rw [hrows, hrun, deleteLoop, hschema, hrow]
    rfl
  · rw [hdb, hview, List.append_nil]

end QueryExecutor

end VertexDB
