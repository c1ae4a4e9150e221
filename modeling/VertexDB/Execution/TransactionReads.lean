import VertexDB.Execution.QueryExecutor
import VertexDB.Storage.TableVersions

/-!
# Reads inside a transaction

After `BEGIN` a SELECT reads rows through the version store.  `reads_current` shows that it sees
the current tables, and so answers as it would have just before `BEGIN`, when every table was
reached by calls that keep the versions in step with the rows.  `reads_erased_row` shows what goes
wrong otherwise: after an update and an erase of the same row, the version store shows the row as
it was before the update.
-/

namespace VertexDB

open Ascii

namespace Table

/-- Some sequence of calls that keep the versions in step leads from a new table to this one. -/
def VersionsKept (table : Table) : Prop :=
  ∃ name schema new ops, make name schema = .ok new ∧ new.KeepsVersionsRun ops ∧
    table = new.run ops

variable {table : Table}

theorem VersionsKept.coherent (h : table.VersionsKept) : table.Coherent := by
  obtain ⟨name, schema, new, ops, hmake, hops, rfl⟩ := h
  exact coherent_run (holds_make hmake).1 (coherent_make hmake) hops

theorem VersionsKept.reached (h : table.VersionsKept) : table.Reached := by
  obtain ⟨name, schema, new, ops, hmake, -, rfl⟩ := h
  exact ⟨name, schema, new, ops, hmake, rfl⟩

end Table

namespace QueryExecutor

variable {s t : QueryExecutor}

/-- A SELECT depends on the tables and on how their rows are read. -/
theorem select_congr (platform : Platform) (hdb : t.database = s.database)
    (hsnapshot : ∀ name table, s.requireTable name = .ok table →
      t.rowsSnapshotForRead table = s.rowsSnapshotForRead table)
    (hbyId : ∀ name table, s.requireTable name = .ok table →
      ∀ rowIds, t.rowsByIdForRead table rowIds = s.rowsByIdForRead table rowIds)
    (command : Select) : t.select platform command = s.select platform command := by
  have hrequire : t.requireTable = s.requireTable := by
    funext name
    rw [requireTable, hdb]
    rfl
  unfold select
  cases command.join with
  | none =>
    simp only [hrequire]
    cases htable : s.requireTable command.table with
    | error e => rfl
    | ok table =>
      simp only [Failure.ok_bind, selectFrom, collectRows, hsnapshot _ _ htable, hbyId _ _ htable]
  | some join =>
    simp only [joinSelect, hrequire]
    cases hleft : s.requireTable command.table with
    | error e => rfl
    | ok leftTable =>
      cases hright : s.requireTable join.table with
      | error e => rfl
      | ok rightTable =>
        simp only [Failure.ok_bind, hsnapshot _ _ hleft, hsnapshot _ _ hright]

/-- `BEGIN` does not touch the database. -/
theorem executeBegin_database (s : QueryExecutor) :
    (executeBegin s).2.database = s.database := by
  rw [executeBegin, Procedure.get_bind]
  cases hdb : s.database with
  | none => exact hdb
  | some db =>
    simp only
    split_ifs
    · exact hdb
    · rw [Procedure.modify_bind]
      cases db.clone with
      | error e => exact hdb
      | ok copy => exact hdb

/-- **Reads inside a transaction see the current table**, when the calls that led to it keep the
versions in step with the rows: both MVCC reads agree with the plain ones, and SELECT answers
after `BEGIN` as it would have just before. -/
theorem reads_current (platform : Platform) :
    (∀ table : Table, table.VersionsKept →
      table.rowsSnapshotAt .max = table.rowsSnapshot ∧
      ∀ rowIds, (∀ rowId ∈ rowIds, rowId < table.rowCount) →
        table.rowsByIdAt rowIds .max = table.rowsById rowIds) ∧
    ∀ (s : QueryExecutor) (db : Database), s.database = some db →
      (∀ name table, db.table name = some table → table.VersionsKept) →
      s.activeTransaction = none → ∀ (depth : ℕ) (command : Select),
        (execute platform (depth + 1) (.select command)
          (execute platform (depth + 1) .beginTransaction s).2).1 =
        (execute platform (depth + 1) (.select command) s).1 := by
  refine ⟨fun table h => ⟨h.coherent.rowsSnapshotAt_eq, fun rowIds _ =>
    h.coherent.rowsByIdAt_eq h.reached.holds rowIds⟩, ?_⟩
  intro s db hdb hkept hactive depth command
  change (executeBegin s).2.select platform command = s.select platform command
  have hplain : s.readVersion = none := by rw [readVersion, hactive]; rfl
  have hfind : ∀ name table, s.requireTable name = .ok table → table.VersionsKept := by
    intro name table hrequire
    rw [requireTable, hdb] at hrequire
    cases hf : db.table name with
    | none => simp only [hf] at hrequire; cases hrequire
    | some found =>
      simp only [hf] at hrequire
      cases hrequire
      exact hkept name _ hf
  -- a transaction reads at the greatest version, outside of one there is none
  have hversion : ∀ version, (executeBegin s).2.readVersion = some version → version = .max := by
    intro version hv
    obtain ⟨_, -, rfl⟩ := Option.map_eq_some_iff.1 hv
    rfl
  refine select_congr platform (executeBegin_database s) ?_ ?_ command
  · intro name table hrequire
    simp only [rowsSnapshotForRead, hplain]
    cases hv : (executeBegin s).2.readVersion with
    | none => rfl
    | some version =>
      rw [hversion version hv]
      exact (hfind name table hrequire).coherent.rowsSnapshotAt_eq
  · intro name table hrequire rowIds
    have hkept := hfind name table hrequire
    simp only [rowsByIdForRead, hplain]
    cases hv : (executeBegin s).2.readVersion with
    | none => rfl
    | some version =>
      rw [hversion version hv]
      exact hkept.coherent.rowsByIdAt_eq hkept.reached.holds rowIds

/-- Insert two rows, update the first and erase the last. -/
def keepingOps : List Table.Op :=
  [.insert [.int 1, .null], .insert [.int 2, .null],
    .update 0 0 (.int 3), .erase 1]

theorem reads_current_keepingOps :
    (Table.sampleTable.run keepingOps).rowsSnapshotAt .max =
      (Table.sampleTable.run keepingOps).rowsSnapshot := by
  refine ((reads_current (.byInsertion true)).1 (Table.sampleTable.run keepingOps)
    ⟨bytes "t", Table.sampleTable.schema, _, keepingOps, rfl, ?_, rfl⟩).1
  refine ⟨trivial, trivial, trivial, .inr ⟨?_, ?_⟩, trivial⟩
  · decide
  · decide

end QueryExecutor

namespace Table

/-- Insert a row, update it and erase it. -/
def insertUpdateErase : List Op :=
  [.insert [.int 1, .null], .update 0 0 (.int 2), .erase 0]

/-- The erased row is back for a reader inside a transaction, as it was before the update. -/
theorem reads_erased_row :
    make (bytes "t") sampleTable.schema = .ok sampleTable ∧
      (sampleTable.run insertUpdateErase).rowsSnapshot = [] ∧
      (sampleTable.run insertUpdateErase).rowsSnapshotAt .max = [[.int ⟨1, by decide⟩, .null]] :=
  ⟨rfl, by decide, by decide⟩

end Table

end VertexDB
