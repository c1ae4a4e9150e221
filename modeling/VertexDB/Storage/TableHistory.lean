import VertexDB.Storage.TableVersions
import VertexDB.Transaction.Visibility

/-!
# Past states of a table

`Table.historyFrom` keeps the row lists of a table after each of its versioned writes, from the
last reset on.  A table without erases shows every reader the row list after as many writes as
its identifier says (`rowsSnapshotAt_history`).  Every write keeps a version in memory, so the
64-bit counter of writes has room for all that a run can make; `not_rowsSnapshotAt_wrapped` says
what would be seen if it wrapped around.
-/

namespace VertexDB

open Ascii

namespace Table

/-- The row lists after each versioned write since the last reset, after one more call. -/
def recordOp (table : Table) (history : List (List Row)) : Op → List (List Row)
  | .insert row => match table.insert row with
    | .ok (_, table') => history ++ [table'.rowsSnapshot]
    | .error _ => history
  | .erase rowId => match table.erase rowId with
    | (true, table') => history ++ [table'.rowsSnapshot]
    | (false, _) => history
  | .update rowId index value => match table.update rowId index value with
    | .ok (true, table') => history ++ [table'.rowsSnapshot]
    | _ => history
  | .createIndex _ _ => history
  | .replaceRows rows => match table.replaceRows rows with
    -- one write for each row, in order
    | .ok _ => (List.range (rows.length + 1)).map rows.take
    | .error _ => history

/-- The row lists after each versioned write since the last reset, after a sequence of calls. -/
def historyFrom : Table → List (List Row) → List Op → List (List Row)
  | _, history, [] => history
  | table, history, op :: ops => historyFrom (table.apply op) (table.recordOp history op) ops

/-- The row list after the given number of writes, or the current one if there were fewer. -/
def pastRows (table : Table) (history : List (List Row)) (writes : ℕ) : List Row :=
  history[writes]?.getD table.rowsSnapshot

/-- Calls that are not erases. -/
def Op.Keeps : Op → Prop
  | .erase _ => False
  | _ => True

/-! ### The calls of the version store -/

/-- The versions of the table come from these writes, numbered from one on. -/
structure Stamped (table : Table) (calls : List VersionCall) : Prop where
  versions : table.versions = MvccRowStore.run calls
  next : table.nextVersionTransactionId = Fin.ofNat (2 ^ 64) (calls.length + 1)
  writes : ∀ call ∈ calls, call.isWrite = true
  ids : ∀ k call, calls[k]? = some call → call.id = Fin.ofNat (2 ^ 64) (k + 1)

/-- The row of the last write of a row id. -/
def lastWritten (calls : List VersionCall) (rowId : RowId) : Option Row :=
  (calls.filter (·.rowId = rowId)).getLast?.bind VersionCall.row?

/-- The row lists are those after the first writes. -/
structure Records (calls : List VersionCall) (history : List (List Row)) : Prop where
  length : history.length = calls.length + 1
  rows : ∀ (k : ℕ) past, history[k]? = some past →
    ∀ rowId : ℕ, lastWritten (calls.take k) rowId = past[rowId]?

/-- A table that stores `rows` with the row lists before. -/
structure Remembers (table : Table) (rows : List Row) (calls : List VersionCall)
    (history : List (List Row)) : Prop where
  holds : table.Holds rows
  stamped : table.Stamped calls
  records : Records calls history
  current : history.getLast? = some rows

variable {table table' : Table} {rows : List Row} {calls : List VersionCall}
  {history : List (List Row)}

theorem run_concat (calls : List VersionCall) (call : VersionCall) :
    MvccRowStore.run (calls ++ [call]) = (MvccRowStore.run calls).call call := by
  rw [MvccRowStore.run, List.foldl_append]
  rfl

theorem ofNat_add_one (n : ℕ) :
    (Fin.ofNat (2 ^ 64) n : TransactionId) + 1 = Fin.ofNat (2 ^ 64) (n + 1) := by
  apply Fin.ext
  simp [Fin.val_add, Fin.ofNat]

/-- One more version. -/
theorem Stamped.concat (h : table.Stamped calls) {rowId : RowId} {row : Row}
    (hversions : table'.versions = table.versions.write rowId row table.nextVersionTransactionId)
    (hnext : table'.nextVersionTransactionId = table.nextVersionTransactionId + 1) :
    table'.Stamped (calls ++ [.write rowId row table.nextVersionTransactionId]) where
  versions := by rw [hversions, h.versions, run_concat]; rfl
  next := by rw [hnext, h.next, ofNat_add_one, List.length_append]; rfl
  writes := by
    intro call hcall
    rcases List.mem_append.1 hcall with hcall | hcall
    · exact h.writes call hcall
    · rw [List.mem_singleton.1 hcall]
      rfl
  ids := by
    intro k call hk
    rw [List.getElem?_append] at hk
    split_ifs at hk with hlt
    · exact h.ids k call hk
    · obtain ⟨hzero, heq⟩ := List.getElem?_eq_some_iff.1 hk
      have hk0 : k - calls.length = 0 := by simpa using hzero
      have hkeq : k = calls.length := by omega
      subst hkeq
      simp only [Nat.sub_self, List.getElem_cons_zero] at heq
      rw [← heq]
      exact h.next

theorem lastWritten_concat (calls : List VersionCall) (written rowId : RowId) (row : Row)
    (id : TransactionId) :
    lastWritten (calls ++ [.write written row id]) rowId =
      if rowId = written then some row else lastWritten calls rowId := by
  rw [lastWritten, List.filter_append]
  by_cases h : rowId = written
  · subst h
    simp [VersionCall.rowId, VersionCall.row?]
  · simp [VersionCall.rowId, h, Ne.symm h, lastWritten]

/-- One more row list, that differs from the last one in one row. -/
theorem Records.concat (h : Records calls history) (hcurrent : history.getLast? = some rows)
    {written : RowId} {row : Row} {id : TransactionId} {rows' : List Row}
    (hrows : ∀ rowId : ℕ, rows'[rowId]? = if rowId = written then some row else rows[rowId]?) :
    Records (calls ++ [.write written row id]) (history ++ [rows']) where
  length := by rw [List.length_append, List.length_append, h.length]; rfl
  rows := by
    intro k past hk rowId
    have hlast : history[calls.length]? = some rows := by
      rw [List.getLast?_eq_getElem?, h.length] at hcurrent
      exact hcurrent
    rw [List.getElem?_append] at hk
    split_ifs at hk with hlt
    · rw [List.take_append_of_le_length (by have := h.length; omega)]
      exact h.rows k past hk rowId
    · obtain ⟨hzero, heq⟩ := List.getElem?_eq_some_iff.1 hk
      have hlength := h.length
      have hk0 : k - history.length = 0 := by simpa using hzero
      have hkeq : k = calls.length + 1 := by omega
      subst hkeq
      have hpast : past = rows' := by
        simp only [hk0, List.getElem_cons_zero] at heq
        exact heq.symm
      rw [hpast, List.take_of_length_le (by simp), lastWritten_concat, hrows]
      have hbefore := h.rows calls.length rows hlast rowId
      rw [List.take_length] at hbefore
      rw [hbefore]

/-- A versioned write. -/
theorem Remembers.write (h : table.Remembers rows calls history) {rows' : List Row}
    (hholds : table'.Holds rows') {rowId : RowId} {row : Row}
    (hversions : table'.versions = table.versions.write rowId row table.nextVersionTransactionId)
    (hnext : table'.nextVersionTransactionId = table.nextVersionTransactionId + 1)
    (hrows : ∀ j : ℕ, rows'[j]? = if j = rowId then some row else rows[j]?) :
    ∃ calls', table'.Remembers rows' calls' (history ++ [rows']) :=
  ⟨_, hholds, h.stamped.concat hversions hnext, h.records.concat h.current hrows, by simp⟩

/-! ### The counter of writes -/

theorem next_insert {row : Row} {rowId : RowId} (h : table.insert row = .ok (rowId, table')) :
    table'.nextVersionTransactionId = table.nextVersionTransactionId + 1 := by
  obtain ⟨_, -, h⟩ := Failure.bind_eq_ok_iff.1 h
  cases h
  exact (sameData_addRowToIndexes _ _).next

theorem next_update {rowId : RowId} {index : ℕ} {value : Value}
    (h : table.update rowId index value = .ok (true, table')) :
    table'.nextVersionTransactionId = table.nextVersionTransactionId + 1 := by
  unfold update at h
  split_ifs at h
  · cases h
  · split at h
    · cases h
    · obtain ⟨_, -, h⟩ := Failure.bind_eq_ok_iff.1 h
      dsimp only at h
      split at h
      · cases h
      · cases h
        exact (sameData_rebuildIndexes _).next

theorem next_createIndex (table : Table) (name column : Str) :
    (table.createIndex name column).2.nextVersionTransactionId =
      table.nextVersionTransactionId := by
  unfold createIndex
  split
  · rfl
  · split_ifs
    · rfl
    · exact (sameData_foldl (f := addRowToIndex name _)
        (fun _ _ => ⟨rfl, rfl, rfl, rfl, rfl, rfl⟩) _ _).next

/-- Numbering the rows of a store from one on. -/
theorem exists_stamped_foldl (hrep : table.rowStore.Represents rows)
    (hversions : table.versions = .empty) (hnext : table.nextVersionTransactionId = 1) (k : ℕ)
    (hk : k ≤ rows.length) :
    ∃ calls, ((List.range k).foldl writeVersion table).Stamped calls ∧
      Records calls ((List.range (k + 1)).map rows.take) := by
  induction k with
  | zero =>
    refine ⟨[], ⟨hversions, hnext, by simp, by simp⟩, rfl, fun k past hpast rowId => ?_⟩
    obtain ⟨hzero, heq⟩ := List.getElem?_eq_some_iff.1 hpast
    have hk0 : k = 0 := by simpa using hzero
    subst hk0
    have hnil : past = [] := heq.symm
    rw [hnil]
    rfl
  | succ k ih =>
    obtain ⟨calls, hstamped, hrecords⟩ := ih (by omega)
    obtain ⟨hstore, -, -, -, -⟩ := foldl_writeVersion hrep hversions k (by omega)
    have hget : ((List.range k).foldl writeVersion table).rowStore.get k = some rows[k] := by
      rw [hstore, hrep.get_eq, List.getElem?_eq_getElem]
    set numbered := (List.range k).foldl writeVersion table with hnumbered
    have hwrite : (numbered.writeVersion k).versions =
        numbered.versions.write k rows[k] numbered.nextVersionTransactionId := by
      rw [writeVersion, hget, Option.getD_some]
    have hcurrent : ((List.range (k + 1)).map rows.take).getLast? = some (rows.take k) := by
      rw [List.range_succ, List.map_append]
      simp
    rw [List.range_succ, List.foldl_append, ← hnumbered, List.range_succ, List.map_append]
    refine ⟨_, hstamped.concat hwrite rfl, hrecords.concat hcurrent fun j => ?_⟩
    split_ifs with hj
    · subst hj
      rw [List.getElem?_take_of_lt (Nat.lt_succ_self j), List.getElem?_eq_getElem (by omega)]
    · have hiff : j < k + 1 ↔ j < k := by omega
      simp only [List.getElem?_take, hiff]

/-! ### Calls and runs -/

/-- One call. -/
theorem Remembers.apply (h : table.Remembers rows calls history) {op : Op} (hop : op.Keeps) :
    ∃ rows' calls', (table.apply op).Remembers rows' calls' (table.recordOp history op) := by
  cases op with
  | insert row =>
    cases hi : table.insert row with
    | error e => simp only [Table.apply, recordOp, hi]; exact ⟨rows, calls, h⟩
    | ok p =>
      obtain ⟨rowId, table'⟩ := p
      obtain ⟨-, -, hh', -, hversions⟩ := h.holds.insert hi
      simp only [Table.apply, recordOp, hi, hh'.rowsSnapshot_eq]
      refine ⟨_, h.write hh' hversions (next_insert hi) fun j => ?_⟩
      split_ifs with hj
      · subst hj; simp
      · rcases Nat.lt_or_ge j rows.length with hlt | hge
        · rw [List.getElem?_append_left hlt]
        · have hgt : rows.length < j := lt_of_le_of_ne hge (Ne.symm hj)
          rw [List.getElem?_eq_none hge, List.getElem?_eq_none (by simpa using hgt)]
  | erase rowId => exact hop.elim
  | update rowId index value =>
    cases hu : table.update rowId index value with
    | error e => simp only [Table.apply, recordOp, hu]; exact ⟨rows, calls, h⟩
    | ok p =>
      obtain ⟨updated, table'⟩ := p
      obtain ⟨hiff, hh', -, hsame, hversions⟩ := h.holds.update hu
      cases updated with
      | false =>
        simp only [Table.apply, recordOp, hu]
        rw [hsame rfl]
        exact ⟨rows, calls, h⟩
      | true =>
        have hlt := (hiff.1 rfl).1
        rw [if_pos rfl] at hh'
        simp only [Table.apply, recordOp, hu, hh'.rowsSnapshot_eq]
        refine ⟨_, h.write hh' (hversions rfl) (next_update hu) fun j => ?_⟩
        rw [List.getElem?_modify]
        by_cases hj : j = rowId
        · subst hj
          simp [List.getD_eq_getElem?_getD, hlt]
        · simp [hj, Ne.symm hj]
  | createIndex name column =>
    obtain ⟨hh', -, -, hversions, -, -⟩ := h.holds.createIndex name column
    refine ⟨rows, calls, hh', ⟨?_, ?_, h.stamped.writes, h.stamped.ids⟩, h.records, h.current⟩
    · rw [Table.apply, hversions, h.stamped.versions]
    · rw [Table.apply, next_createIndex, h.stamped.next]
  | replaceRows new =>
    cases hr : table.replaceRows new with
    | error e => simp only [Table.apply, recordOp, hr]; exact ⟨rows, calls, h⟩
    | ok table' =>
      obtain ⟨-, hh', -, -⟩ := h.holds.replaceRows hr
      simp only [Table.apply, recordOp, hr]
      obtain ⟨_, -, hr⟩ := Failure.bind_eq_ok_iff.1 hr
      simp only [Failure.pure_eq_ok, Except.ok.injEq] at hr
      -- the versions begin anew, with one of each row
      set mid : Table := { table with
        rowStore := table.rowStore.replaceRows new
        versions := table.versions.clear
        nextVersionTransactionId := 1 } with hmid
      have hrep : mid.rowStore.Represents new := PageRowStore.represents_replaceRows _ _
      obtain ⟨calls', hstamped, hrecords⟩ := exists_stamped_foldl hrep rfl rfl new.length le_rfl
      have hsame := sameData_rebuildIndexes ((List.range new.length).foldl writeVersion mid)
      rw [hrep.size_eq] at hr
      subst hr
      refine ⟨new, calls', hh', ⟨?_, ?_, hstamped.writes, hstamped.ids⟩, hrecords, ?_⟩
      · rw [hsame.versions, hstamped.versions]
      · rw [hsame.next, hstamped.next]
      · rw [List.range_succ, List.map_append]
        simp

theorem Remembers.run (h : table.Remembers rows calls history) {ops : List Op}
    (hops : ∀ op ∈ ops, op.Keeps) :
    ∃ rows' calls', (table.run ops).Remembers rows' calls' (table.historyFrom history ops) := by
  induction ops generalizing table rows calls history with
  | nil => exact ⟨rows, calls, h⟩
  | cons op ops ih =>
    obtain ⟨hop, hothers⟩ := List.forall_mem_cons.1 hops
    obtain ⟨rows', calls', h'⟩ := h.apply hop
    exact ih h' hothers

theorem remembers_make {name : Str} {schema : List Column} (h : make name schema = .ok table) :
    table.Remembers [] [] [[]] := by
  have hholds := (holds_make h).1
  unfold make at h
  split_ifs at h
  cases h
  refine ⟨hholds, ⟨rfl, rfl, by simp, by simp⟩, ⟨rfl, fun k past hpast rowId => ?_⟩, rfl⟩
  obtain ⟨hzero, heq⟩ := List.getElem?_eq_some_iff.1 hpast
  have hk0 : k = 0 := by simpa using hzero
  subst hk0
  rw [← heq]
  rfl

/-! ### Reading the past -/

/-- Below `2 ^ 64` writes the numbers of the writes increase. -/
theorem Stamped.pairwise_le (h : table.Stamped calls) (hroom : calls.length < 2 ^ 64) :
    calls.Pairwise fun a b => a.id ≤ b.id := by
  rw [List.pairwise_iff_getElem]
  intro i j hi hj hij
  rw [h.ids i _ (List.getElem?_eq_getElem hi), h.ids j _ (List.getElem?_eq_getElem hj),
    Fin.le_def, Fin.val_ofNat, Fin.val_ofNat, Nat.mod_eq_of_lt (by omega),
    Nat.mod_eq_of_lt (by omega)]
  omega

/-- The writes up to a reader are as many as its identifier says. -/
theorem Stamped.seen_eq (h : table.Stamped calls) (hroom : calls.length < 2 ^ 64) (rowId : RowId)
    (readerId : TransactionId) :
    MvccRowStore.seen calls rowId readerId =
      (calls.take readerId.val).filter (·.rowId = rowId) := by
  have hid : ∀ k call, calls[k]? = some call → (call.id ≤ readerId ↔ k < readerId.val) := by
    intro k call hk
    have hlt := (List.getElem?_eq_some_iff.1 hk).1
    rw [h.ids k call hk, Fin.le_def, Fin.val_ofNat, Nat.mod_eq_of_lt (by omega)]
    omega
  have hbefore : ∀ call ∈ calls.take readerId.val, call.id ≤ readerId := by
    intro call hcall
    obtain ⟨k, hk⟩ := List.mem_iff_getElem?.1 hcall
    rw [List.getElem?_take] at hk
    split_ifs at hk with hlt
    exact (hid k call hk).2 hlt
  have hafter : ∀ call ∈ calls.drop readerId.val, ¬ call.id ≤ readerId := by
    intro call hcall
    obtain ⟨k, hk⟩ := List.mem_iff_getElem?.1 hcall
    rw [List.getElem?_drop] at hk
    intro hle
    have := (hid _ call hk).1 hle
    omega
  have hnone : (calls.drop readerId.val).filter
      (fun call => call.rowId = rowId ∧ call.id ≤ readerId) = [] :=
    List.filter_eq_nil_iff.2 fun call hcall => by simp [hafter call hcall]
  rw [MvccRowStore.seen]
  conv_lhs => rw [← List.take_append_drop readerId.val calls]
  rw [List.filter_append, hnone, List.append_nil]
  exact List.filter_congr fun call hcall => by simp [hbefore call hcall]

/-- What a reader sees of a row id is the row that the row list of its time has there. -/
theorem Remembers.read_eq (h : table.Remembers rows calls history)
    (hroom : calls.length < 2 ^ 64) (readerId : TransactionId) (rowId : ℕ) :
    table.versions.read rowId readerId = (pastRows table history readerId)[rowId]? := by
  have hsettled : MvccRowStore.Settled calls rowId readerId := by
    intro last hlast herase
    have hmem := List.mem_of_mem_filter (List.mem_of_getLast? hlast)
    rw [h.stamped.writes last hmem] at herase
    cases herase
  have hread := ((MvccRowStore.visibility_iff (h.stamped.pairwise_le hroom) readerId).1 rowId).2
    hsettled
  rw [h.stamped.versions, hread, MvccRowStore.expected, h.stamped.seen_eq hroom]
  change lastWritten (calls.take readerId.val) rowId = _
  unfold pastRows
  cases hpast : history[readerId.val]? with
  | some past => exact h.records.rows readerId.val past hpast rowId
  | none =>
    have hlength := h.records.length
    have hge := List.getElem?_eq_none_iff.1 hpast
    have hlast : history[calls.length]? = some rows := by
      have hcurrent := h.current
      rwa [List.getLast?_eq_getElem?, hlength] at hcurrent
    have hnow := h.records.rows calls.length rows hlast rowId
    rw [List.take_length] at hnow
    rw [Option.getD_none, h.holds.rowsSnapshot_eq, List.take_of_length_le (by omega)]
    exact hnow

/-- **A table without erases shows each reader the row list of its time**: that after as many
versioned writes, since the construction or the last `replaceRows`, as its identifier says. -/
theorem rowsSnapshotAt_history {name : Str} {schema : List Column} {new : Table}
    (hmake : make name schema = .ok new) {ops : List Op} (hops : ∀ op ∈ ops, op.Keeps)
    (hroom : (new.historyFrom [[]] ops).length ≤ 2 ^ 64) (readerId : TransactionId) :
    (new.run ops).rowsSnapshotAt readerId =
        pastRows (new.run ops) (new.historyFrom [[]] ops) readerId ∧
      ∀ rowIds, (new.run ops).rowsByIdAt rowIds readerId = rowIds.filterMap fun rowId =>
        (pastRows (new.run ops) (new.historyFrom [[]] ops) readerId)[rowId]? := by
  obtain ⟨rows, calls, h⟩ := (remembers_make hmake).run hops
  have hlength := h.records.length
  have hread := h.read_eq (by omega) readerId
  exact ⟨MvccRowStore.visibleRows_eq hread, fun rowIds => List.filterMap_congr fun j _ => hread j⟩

/-- Two inserts, an update that succeeds, one of a missing row, and an index. -/
theorem rowsSnapshotAt_history_updated :
    (sampleTable.run [.insert [.int 1, .null], .insert [.int 2, .null], .update 0 0 (.int 3),
      .update 7 0 .null, .createIndex (bytes "i") (bytes "a")]).rowsSnapshotAt 2 =
        [[.int 1, .null], [.int 2, .null]] := by
  have h := (@rowsSnapshotAt_history (bytes "t") sampleTable.schema sampleTable rfl
    [.insert [.int 1, .null], .insert [.int 2, .null], .update 0 0 (.int 3),
      .update 7 0 .null, .createIndex (bytes "i") (bytes "a")] (by simp [Op.Keeps]) (by decide) 2).1
  exact h.trans rfl

/-! ### The counter wraps around -/

/-- Inserting the same valid row a number of times. -/
theorem Remembers.replicate (h : table.Remembers rows calls history) {row : Row}
    (hvalid : validateRow table.schema row = .ok ()) (n : ℕ) :
    ∃ rows' calls', (table.run (List.replicate n (.insert row))).Remembers rows' calls'
        (table.historyFrom history (List.replicate n (.insert row))) ∧
      calls'.length = calls.length + n ∧
      validateRow (table.run (List.replicate n (.insert row))).schema row = .ok () := by
  induction n generalizing table rows calls history with
  | zero => exact ⟨rows, calls, h, rfl, hvalid⟩
  | succ n ih =>
    obtain ⟨rowId, table', hi⟩ := insert_ok hvalid
    obtain ⟨rows', calls', h'⟩ := @Remembers.apply table rows calls history h (.insert row) trivial
    have happly : table.apply (.insert row) = table' := by simp only [Table.apply, hi]
    have hrecord : table.recordOp history (.insert row) = history ++ [table'.rowsSnapshot] := by
      simp only [recordOp, hi]
    rw [happly, hrecord] at h'
    have hvalid' : validateRow table'.schema row = .ok () := by
      rw [(h.holds.insert hi).2.2.2.1.schema]
      exact hvalid
    obtain ⟨last, lastCalls, hlast, hcount, hvalidLast⟩ := ih h' hvalid'
    have hone : calls'.length = calls.length + 1 := by
      have hbefore := h.records.length
      have hafter := h'.records.length
      rw [List.length_append, List.length_singleton] at hafter
      omega
    rw [List.replicate_succ, Table.run, List.foldl_cons, historyFrom, happly, hrecord]
    exact ⟨last, lastCalls, hlast, by omega, hvalidLast⟩

/-- The write with the number `2 ^ 64` is seen by the reader 0, who should see none. -/
theorem Remembers.rowsSnapshotAt_zero_ne_nil (h : table.Remembers rows calls history)
    (hcount : calls.length + 1 = 2 ^ 64) {row : Row} {rowId : RowId}
    (hi : table.insert row = .ok (rowId, table')) : table'.rowsSnapshotAt 0 ≠ [] := by
  obtain ⟨-, -, -, -, hversions⟩ := h.holds.insert hi
  have hzero : table.nextVersionTransactionId = 0 := by
    rw [h.stamped.next, hcount]
    exact Fin.ext (Nat.mod_self _)
  have hread : table'.versions.read rows.length 0 = some row := by
    rw [hversions, hzero, MvccRowStore.read, MvccRowStore.write, SortedMap.find?_upsert,
      if_pos rfl, Option.bind_some, MvccRowStore.newestVisible_append,
      MvccRowStore.newestVisible_singleton]
    simp [RowVersion.visibleTo]
  have hkey : rows.length ∈ table'.versions.versions.keys := by
    obtain ⟨chain, hchain, -⟩ := Option.bind_eq_some_iff.1 hread
    exact SortedMap.mem_keys_iff.2 ⟨chain, hchain⟩
  exact List.ne_nil_of_mem (List.mem_filterMap.2 ⟨rows.length, hkey, hread⟩)

/-- After the reset no row is there. -/
theorem Remembers.pastRows_zero (h : table.Remembers rows calls history) :
    pastRows table history 0 = [] := by
  have hlength := h.records.length
  obtain ⟨past, hpast⟩ : ∃ past, history[0]? = some past :=
    ⟨_, List.getElem?_eq_getElem (by omega)⟩
  rw [pastRows, hpast, Option.getD_some, List.eq_nil_iff_length_eq_zero]
  have hnone := h.records.rows 0 past hpast 0
  rw [List.take_zero] at hnone
  have hempty : past[0]? = none := hnone.symm
  simpa using List.getElem?_eq_none_iff.1 hempty

/-- As many inserts as the counter has values. -/
def wrappingOps : List Op := List.replicate (2 ^ 64) (.insert [.int 1, .null])

theorem rowsSnapshotAt_zero_replicate {n : ℕ} (hn : n + 1 = 2 ^ 64) :
    (sampleTable.run (List.replicate (n + 1) (.insert [.int 1, .null]))).rowsSnapshotAt 0 ≠ [] := by
  have hnew : sampleTable.Remembers [] [] [[]] :=
    @remembers_make sampleTable (bytes "t") sampleTable.schema rfl
  have hfits : validateRow sampleTable.schema [.int 1, .null] = .ok () := by decide
  obtain ⟨rows, calls, h, hcount, hvalid⟩ := hnew.replicate hfits n
  obtain ⟨rowId, table', hi⟩ := insert_ok hvalid
  have hrun : sampleTable.run (List.replicate (n + 1) (.insert [.int 1, .null])) = table' := by
    rw [List.replicate_succ', Table.run, List.foldl_append, List.foldl_cons, List.foldl_nil]
    change Table.apply (sampleTable.run _) _ = table'
    simp only [Table.apply, hi]
  rw [hrun]
  refine h.rowsSnapshotAt_zero_ne_nil ?_ hi
  rw [hcount, List.length_nil, Nat.zero_add]
  exact hn

/-- After `2 ^ 64` inserts the reader 0 sees the last row, and not the empty table. -/
theorem not_rowsSnapshotAt_wrapped : (∀ op ∈ wrappingOps, op.Keeps) ∧
    (sampleTable.run wrappingOps).rowsSnapshotAt 0 ≠
      pastRows (sampleTable.run wrappingOps) (sampleTable.historyFrom [[]] wrappingOps) 0 := by
  have hops : ∀ op ∈ wrappingOps, op.Keeps := by
    intro op hop
    rw [List.eq_of_mem_replicate hop]
    trivial
  refine ⟨hops, ?_⟩
  have hnew : sampleTable.Remembers [] [] [[]] :=
    @remembers_make sampleTable (bytes "t") sampleTable.schema rfl
  obtain ⟨rows, calls, h⟩ := hnew.run hops
  rw [h.pastRows_zero]
  obtain ⟨n, hn⟩ : ∃ n, n + 1 = 2 ^ 64 := ⟨2 ^ 64 - 1, by decide⟩
  have hwrapping : wrappingOps = List.replicate (n + 1) (.insert [.int 1, .null]) := by
    rw [hn]
    rfl
  rw [hwrapping]
  exact rowsSnapshotAt_zero_replicate hn

end Table

end VertexDB
