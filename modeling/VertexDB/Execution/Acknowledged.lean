import VertexDB.Execution.Clients
import VertexDB.Execution.TableRows

/-!
# Rows that a client was told are inserted

Two clients share an executor and run their statements in any order, each under the lock.  `kept`
are the rows that `b` has inserted with a successful reply and no statement has touched since,
where a `ROLLBACK` goes back to the rows of the last `BEGIN`.  They are always in their tables
(`kept_run`).

`ROLLBACK` restores the copy that the executor, and not the client, took at `BEGIN`.  So the rows
that `b` inserts while a transaction of `a` is open, which `acknowledged` still lists, go away with
it (`not_acknowledged_run`).
-/

namespace VertexDB

open Ascii Procedure

namespace QueryExecutor

/-- The clients. -/
inductive Client
  | a
  | b
  deriving DecidableEq

/-- The reply of a section says that the statement has been carried out. -/
def succeeded : Outcome ⊕ Query → Bool
  | .inl (.ok result) => result.success
  | _ => false

/-- The rows of one table, of rows with the names of their tables. -/
def rowsUnder (entries : List (Str × Row)) (name : Str) : List Row :=
  (entries.filter fun entry => entry.1 == name).map Prod.snd

/-- The command has changed the table and selects the row. -/
def touched (s t : QueryExecutor) (query : Query) (entry : Str × Row) : Bool :=
  t.rowsOf entry.1 != s.rowsOf entry.1 && s.selects query entry.1 entry.2

/-- Add the rows that `b` has inserted, and leave out those that the command has touched. -/
def record (client : Client) (query : Query) (s : QueryExecutor)
    (result : (Outcome ⊕ Query) × QueryExecutor) (entries : List (Str × Row)) :
    List (Str × Row) :=
  match query with
  | .insert command =>
    if client = .b ∧ succeeded result.1 then
      entries ++ command.rows.map fun row => (command.table, row)
    else entries
  | _ => entries.filter fun entry => !touched s result.2 query entry

/-- An executor that clients share, with a record of the rows of `b`. -/
structure Shared where
  executor : QueryExecutor
  /-- The rows that `b` has inserted and no statement has touched since. -/
  acknowledged : List (Str × Row)
  /-- The rows of the same kind, as far as no `ROLLBACK` has undone it. -/
  kept : List (Str × Row)
  /-- What was kept at the last `BEGIN`. -/
  atBegin : List (Str × Row)

namespace Shared

/-- A new executor. -/
def start (platform : Platform) (disk : Disk) : Shared :=
  ⟨QueryExecutor.start platform disk, [], [], []⟩

/-- A client runs a section of a statement. -/
def next (platform : Platform) (shared : Shared) (item : Client × Query) : Shared :=
  let s := shared.executor
  let result := sections platform item.2 s
  { executor := result.2
    acknowledged := record item.1 item.2 s result shared.acknowledged
    kept :=
      if item.2 = .rollbackTransaction ∧ succeeded result.1 then shared.atBegin
      else record item.1 item.2 s result shared.kept
    atBegin :=
      if item.2 = .beginTransaction ∧ succeeded result.1 then shared.kept
      else shared.atBegin }

/-- Clients run sections of statements one after the other. -/
def run (platform : Platform) (items : List (Client × Query)) (shared : Shared) : Shared :=
  items.foldl (next platform) shared

end Shared

variable {platform : Platform} {s t : QueryExecutor} {query : Query} {client : Client}
  {entries entries' : List (Str × Row)}

/-! ### The record -/

theorem rowsUnder_append (entries entries' : List (Str × Row)) (name : Str) :
    rowsUnder (entries ++ entries') name = rowsUnder entries name ++ rowsUnder entries' name := by
  rw [rowsUnder, List.filter_append, List.map_append]
  rfl

/-- Rows of one table under their names. -/
theorem rowsUnder_map (table name : Str) (rows : List Row) :
    rowsUnder (rows.map fun row => (table, row)) name = if name = table then rows else [] := by
  rw [rowsUnder, List.filter_map, List.map_map]
  split_ifs with hname
  · rw [List.filter_eq_self.2 fun row _ => by simp [hname]]
    exact List.map_id _
  · rw [List.filter_eq_nil_iff.2 fun row _ => by simpa using Ne.symm hname]
    rfl

theorem rowsUnder_filter (entries : List (Str × Row)) (p : Str × Row → Bool) (name : Str) :
    rowsUnder (entries.filter p) name =
      (rowsUnder entries name).filter fun row => p (name, row) := by
  rw [rowsUnder, rowsUnder, List.filter_map, List.filter_filter, List.filter_filter]
  congr 1
  refine List.filter_congr fun entry _ => ?_
  by_cases hname : entry.1 = name
  · simp [← hname]
  · rw [beq_false_of_ne hname, Bool.false_and, Bool.and_false]

/-- What a command does not touch of covered rows is covered. -/
theorem Covers.filter_touched (h : Covers (rowsUnder entries) s) (ht : Covers (s.spared query) t) :
    Covers (rowsUnder (entries.filter fun entry => !touched s t query entry)) t := by
  intro name
  rw [rowsUnder_filter]
  by_cases hsame : t.rowsOf name = s.rowsOf name
  · rw [hsame]
    exact List.filter_sublist.subperm.trans (h name)
  · have htouched : (fun row => !touched s t query (name, row)) =
        fun row => !s.selects query name row := by
      funext row
      simp [touched, hsame]
    rw [htouched]
    exact ((h name).filter _).trans (ht name)

/-- The rows of an INSERT that returns are covered. -/
theorem covers_insert (hs : s.Sound) (h : Covers (rowsUnder entries) s) (command : Insert)
    {result : QueryResult} (hok : (executeInsert command s).1 = .ok result) :
    Covers (rowsUnder (entries ++ command.rows.map fun row => (command.table, row)))
      (executeInsert command s).2 := by
  rcases rowsOf_executeInsert hs command with ⟨db, table, hh, inserted, hview, hall⟩ | ⟨-, herror⟩
  · intro name
    have hrows := h name
    rw [rowsOf_of_database hh.database] at hrows
    rw [rowsUnder_append, rowsUnder_map, rowsOf_eq_of_view hview, Reference.putTable,
      DatabaseView.rowsOf_insert, hall result hok]
    split_ifs with hname
    · rw [hname, DatabaseView.rowsOf_of_find? hh.find?_view, ← hname] at hrows
      exact hrows.append (List.Subperm.refl _)
    · rwa [List.append_nil]
  · exact absurd hok (herror result)

theorem ok_of_succeeded (h : succeeded (sections platform query s).1 = true) :
    ∃ result, (executeUnlocked platform query s).1 = .ok result ∧ result.success = true := by
  rcases hreply : (sections platform query s).1 with (e | result) | next
  · rw [hreply] at h; cases h
  · rw [hreply] at h
    exact ⟨result, executeUnlocked_of_sections_ok hreply, h⟩
  · rw [hreply] at h; cases h

/-- What is recorded is in the tables after a section, unless it is of a ROLLBACK. -/
theorem covers_record (hs : s.Sound) (hquery : query ≠ .rollbackTransaction)
    (h : Covers (rowsUnder entries) s) :
    Covers (rowsUnder (record client query s (sections platform query s) entries))
      (sections platform query s).2 := by
  have hcovers := h.filter_touched (@covers_executeUnlocked platform s query hs hquery)
  rw [← state_sections] at hcovers
  by_cases hinsert : ∃ command, query = .insert command
  · obtain ⟨command, rfl⟩ := hinsert
    rw [record]
    split_ifs with hrecorded
    · obtain ⟨result, hok, -⟩ := ok_of_succeeded hrecorded.2
      rw [state_sections]
      exact covers_insert hs h command hok
    · -- an INSERT selects no row
      rwa [List.filter_eq_self.2 fun _ _ => by simp [touched, selects]] at hcovers
  · rw [record]
    · exact hcovers
    · exact fun command heq => hinsert ⟨command, heq⟩

/-! ### Runs -/

/-- What is recorded is in the tables, and what was kept at `BEGIN` is in the copy. -/
structure Shared.Kept (shared : Shared) : Prop where
  consistent : shared.executor.Consistent false
  kept : Covers (rowsUnder shared.kept) shared.executor
  atBegin : ∀ copy, shared.executor.transactionSnapshot = some copy → ∀ name,
    (rowsUnder shared.atBegin name).Subperm (copy.view.rowsOf name)

/-- A ROLLBACK restores the copy, or refuses or fails and changes nothing. -/
theorem executeRollback_cases (s : QueryExecutor) :
    (∃ copy, s.transactionSnapshot = some copy ∧ (executeRollback s).2.database = some copy ∧
      (executeRollback s).2.transactionSnapshot = none ∧
        succeeded (.inl (executeRollback s).1) = true) ∨
    (executeRollback s).2 = s ∧ succeeded (.inl (executeRollback s).1) = false := by
  cases hcopy : s.transactionSnapshot with
  | none =>
    rw [(end_idle hcopy).2]
    exact .inr ⟨rfl, rfl⟩
  | some copy =>
    cases hid : s.activeTransaction with
    | none =>
      rw [executeRollback, get_bind, hcopy, hid]
      exact .inr ⟨rfl, rfl⟩
    | some id =>
      rw [executeRollback_active hcopy hid]
      cases s.transactionManager.rollback id with
      | error e => exact .inr ⟨rfl, rfl⟩
      | ok manager => exact .inl ⟨copy, rfl, rfl, rfl, rfl⟩

/-- BEGIN takes a copy with the same rows, or refuses and changes nothing. -/
theorem executeBegin_cases (hs : s.Sound) :
    (∃ copy, (executeBegin s).2.transactionSnapshot = some copy ∧
      (∀ name, copy.view.rowsOf name = s.rowsOf name) ∧
        succeeded (.inl (executeBegin s).1) = true) ∨
    (executeBegin s).2 = s ∧ succeeded (.inl (executeBegin s).1) = false := by
  cases hd : s.database with
  | none =>
    rw [executeBegin_none hd]
    exact .inr ⟨rfl, rfl⟩
  | some database =>
    cases hcopy : s.transactionSnapshot with
    | some copy =>
      rw [executeBegin_active hd hcopy]
      exact .inr ⟨rfl, rfl⟩
    | none =>
      obtain ⟨copy, hclone, -, hview⟩ := Database.view_clone (hs database hd)
      rw [executeBegin_idle hd hcopy hclone]
      refine .inl ⟨copy, rfl, fun name => ?_, rfl⟩
      rw [hview, rowsOf_of_database hd]

/-- The other commands leave the copy as it is or forget it. -/
theorem transactionSnapshot_executeUnlocked (hbegin : query ≠ .beginTransaction) :
    (executeUnlocked platform query s).2.transactionSnapshot = s.transactionSnapshot ∨
      (executeUnlocked platform query s).2.transactionSnapshot = none := by
  by_cases hcalm : query.Calm
  · exact .inl (congrArg Prod.fst (transactions_executeUnlocked hcalm platform s))
  · cases query with
    | beginTransaction => exact absurd rfl hbegin
    | loadDatabase command =>
      change (executeLoadDatabase platform command s).2.transactionSnapshot = _ ∨
        (executeLoadDatabase platform command s).2.transactionSnapshot = _
      rw [executeLoadDatabase, get_bind]
      cases s.databaseToLoad platform command with
      | error e => exact .inl rfl
      | ok database => exact .inr rfl
    | commitTransaction =>
      change (executeCommit s).2.transactionSnapshot = _ ∨
        (executeCommit s).2.transactionSnapshot = _
      cases hcopy : s.transactionSnapshot with
      | none => rw [(end_idle hcopy).1]; exact .inr hcopy
      | some copy =>
        cases hid : s.activeTransaction with
        | none => rw [executeCommit, get_bind, hcopy, hid]; exact .inl hcopy
        | some id =>
          rw [executeCommit_active hcopy hid]
          cases s.transactionManager.commit id with
          | error e => exact .inl hcopy
          | ok manager => exact .inr rfl
    | rollbackTransaction =>
      rcases executeRollback_cases s with ⟨copy, -, -, hnone, -⟩ | ⟨hsame, -⟩
      · exact .inr hnone
      · exact .inl (congrArg transactionSnapshot hsame)
    | _ => exact absurd trivial hcalm

namespace Shared

variable {shared : Shared}

/-- What is kept is in the tables after a section. -/
theorem Kept.covers_next (h : shared.Kept) (item : Client × Query) :
    Covers (rowsUnder (shared.next platform item).kept) (shared.next platform item).executor := by
  obtain ⟨client, query⟩ := item
  have hs := h.consistent.sound
  by_cases hquery : query = .rollbackTransaction
  · subst hquery
    rcases executeRollback_cases shared.executor with
      ⟨copy, hcopy, hrestored, -, hreply⟩ | ⟨hsame, hreply⟩
    · have hkept : (shared.next platform (client, .rollbackTransaction)).kept = shared.atBegin :=
        if_pos ⟨rfl, hreply⟩
      intro name
      have hrows : (shared.next platform (client, .rollbackTransaction)).executor.rowsOf name =
          copy.view.rowsOf name := rowsOf_of_database hrestored name
      rw [hkept, hrows]
      exact h.atBegin copy hcopy name
    · have hkept : (shared.next platform (client, .rollbackTransaction)).kept =
          shared.kept.filter fun entry => !touched shared.executor
            (executeRollback shared.executor).2 .rollbackTransaction entry :=
        if_neg fun hc => by cases hc.2.symm.trans hreply
      rw [hkept]
      exact h.kept.filter_touched ((covers_spared _ _).of_database (congrArg database hsame))
  · have hkept : (shared.next platform (client, query)).kept =
        record client query shared.executor (sections platform query shared.executor)
          shared.kept := if_neg fun hc => hquery hc.1
    rw [hkept]
    exact covers_record hs hquery h.kept

/-- What was kept at `BEGIN` is in the copy after a section. -/
theorem Kept.atBegin_next (h : shared.Kept) (item : Client × Query) {copy : Database}
    (hcopy : (shared.next platform item).executor.transactionSnapshot = some copy) (name : Str) :
    (rowsUnder (shared.next platform item).atBegin name).Subperm (copy.view.rowsOf name) := by
  obtain ⟨client, query⟩ := item
  have hs := h.consistent.sound
  by_cases hquery : query = .beginTransaction
  · subst hquery
    rcases executeBegin_cases hs with ⟨copy', hcopy', hrows, hreply⟩ | ⟨hsame, hreply⟩
    · have hbegin : (shared.next platform (client, .beginTransaction)).atBegin = shared.kept :=
        if_pos ⟨rfl, hreply⟩
      obtain rfl : copy' = copy := Option.some.inj (hcopy'.symm.trans hcopy)
      rw [hbegin, hrows]
      exact h.kept name
    · have hbegin : (shared.next platform (client, .beginTransaction)).atBegin = shared.atBegin :=
        if_neg fun hc => by cases hc.2.symm.trans hreply
      rw [hbegin]
      exact h.atBegin copy ((congrArg transactionSnapshot hsame).symm.trans hcopy) name
  · have hbegin : (shared.next platform (client, query)).atBegin = shared.atBegin :=
      if_neg fun hc => hquery hc.1
    change (sections platform query shared.executor).2.transactionSnapshot = some copy at hcopy
    rw [state_sections] at hcopy
    rw [hbegin]
    rcases @transactionSnapshot_executeUnlocked platform shared.executor query hquery with
      hsame | hnone
    · exact h.atBegin copy (hsame.symm.trans hcopy) name
    · rw [hnone] at hcopy
      cases hcopy

theorem Kept.next (h : shared.Kept) (item : Client × Query) : (shared.next platform item).Kept where
  consistent := by
    change (sections platform item.2 shared.executor).2.Consistent false
    rw [state_sections]
    exact consistent_executeUnlocked platform item.2 _ h.consistent
  kept := h.covers_next item
  atBegin _ hcopy := h.atBegin_next item hcopy

theorem Kept.run (h : shared.Kept) (items : List (Client × Query)) :
    (run platform items shared).Kept := by
  induction items generalizing shared with
  | nil => exact h
  | cons item items ih => exact ih (h.next item)

theorem kept_start (platform : Platform) (disk : Disk) : (start platform disk).Kept where
  consistent := consistent_start platform disk
  kept _ := List.nil_subperm
  atBegin _ _ _ := List.nil_subperm

/-- **No acknowledged row is lost**, except to a statement that touches it and to the ROLLBACK of
a transaction that was open when it was inserted: after every run of two clients, every table has
the rows that are kept, with their multiplicities. -/
theorem kept_run (platform : Platform) (disk : Disk) (items : List (Client × Query)) (name : Str) :
    (rowsUnder (run platform items (start platform disk)).kept name).Subperm
      ((run platform items (start platform disk)).executor.rowsOf name) :=
  ((kept_start platform disk).run items).kept name

/-- `a` issues BEGIN and ROLLBACK, and `b` inserts a row in between. -/
def openTransaction : List (Client × Query) :=
  [(.a, .createDatabase ⟨bytes "d"⟩),
    (.a, .createTable ⟨bytes "t", [⟨bytes "a", .int, false⟩]⟩),
    (.a, .beginTransaction), (.b, .insert ⟨bytes "t", [[.int 1]]⟩), (.a, .rollbackTransaction)]

/-- `a` makes another database after `b` has inserted a row. -/
def anotherDatabase : List (Client × Query) :=
  [(.a, .createDatabase ⟨bytes "d"⟩),
    (.a, .createTable ⟨bytes "t", [⟨bytes "a", .int, false⟩]⟩),
    (.b, .insert ⟨bytes "t", [[.int 1]]⟩), (.a, .createDatabase ⟨bytes "e"⟩),
    (.a, .beginTransaction), (.a, .rollbackTransaction)]

/-- The ROLLBACK takes away a row that `b` was told is inserted, and so does CREATE DATABASE. -/
theorem not_acknowledged_run :
    ¬ (rowsUnder (run (.byInsertion true) openTransaction
          (start (.byInsertion true) .empty)).acknowledged (bytes "t")).Subperm
        ((run (.byInsertion true) openTransaction
          (start (.byInsertion true) .empty)).executor.rowsOf (bytes "t")) ∧
      rowsUnder (run (.byInsertion true) (anotherDatabase.take 3)
          (start (.byInsertion true) .empty)).acknowledged (bytes "t") = [[.int 1]] ∧
      (run (.byInsertion true) anotherDatabase
          (start (.byInsertion true) .empty)).executor.rowsOf (bytes "t") = [] := by
  refine ⟨fun h => absurd h.length_le ?_, ?_, ?_⟩
  · decide +kernel
  · decide +kernel
  · decide +kernel

end Shared

end QueryExecutor

end VertexDB
