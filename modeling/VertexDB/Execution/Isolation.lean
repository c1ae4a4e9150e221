import VertexDB.Execution.Acknowledged
import VertexDB.Execution.Sessions

/-!
# Clients with tables of their own

Two clients share an executor.  The commands of `a` name only tables whose names satisfy `p`, those
of `b` name only other tables and leave the database as a whole, the files, transactions and
prepared statements alone.  Then `b` cannot influence what `a` sees: the replies to `a`, and the
tables of `a`, are those of a session in which `b` never said anything (`isolated`).

The log is the one thing that they share.  The records of `b` make it longer, so the comparison
ends where a record of `a` no longer fits.
-/

namespace VertexDB

open Ascii Procedure WriteAheadLog

/-- Two logs, of which the first is not longer. -/
def Storage.Shorter (storage storage' : Storage) : Prop :=
  ∃ records records', Holds storage records ∧ Holds storage' records' ∧
    (records.flatMap encodeRecord).length ≤ (records'.flatMap encodeRecord).length

/-- A record that fits in the longer log fits in the shorter one. -/
theorem relates_append_shorter (operation : WalOperation) (payload : Str) :
    Relates QueryExecutor.FileFailure Storage.Shorter (fun _ _ => True)
      (append operation payload) (append operation payload) := by
  rintro storage storage' ⟨records, records', hholds, hholds', hlength⟩
  have hcreated : Holds { storage with disk := storage.disk.createDirectories } records :=
    hholds.of_read_eq rfl
  have hcreated' : Holds { storage' with disk := storage'.disk.createDirectories } records' :=
    hholds'.of_read_eq rfl
  obtain ⟨lsn, next, hlsn, hnext, hrun⟩ := hcreated.nextLsn_eq
  obtain ⟨lsn', next', hlsn', hnext', hrun'⟩ := hcreated'.nextLsn_eq
  rw [hholds'.append_eq hrun']
  split_ifs with hsize'
  · exact .fails (.inl rfl) _ _
  · have hlonger : (records.flatMap encodeRecord ++
        encodeRecord ⟨lsn, operation, payload⟩).length ≤ (records'.flatMap encodeRecord ++
          encodeRecord ⟨lsn', operation, payload⟩).length := by
      rw [List.length_append, List.length_append, length_encodeRecord, length_encodeRecord]
      exact Nat.add_le_add_right hlength _
    have hsize := fun hsize => hsize' (le_trans hsize hlonger)
    rw [hholds.append_eq hrun, if_neg hsize]
    refine .ok trivial ⟨_, _, hholds.written hlsn hnext hsize,
      hholds'.written hlsn' hnext' hsize', ?_⟩
    rw [List.flatMap_append, List.flatMap_append, List.flatMap_singleton, List.flatMap_singleton]
    exact hlonger

/-- Appending to the longer log. -/
theorem Storage.Shorter.append {storage storage' : Storage} (h : storage.Shorter storage')
    (operation : WalOperation) (payload : Str) :
    storage.Shorter (WriteAheadLog.append operation payload storage').2 := by
  obtain ⟨records, records', hholds, hholds', hlength⟩ := h
  obtain ⟨next, -, ⟨lsn, happ, hnext⟩ | ⟨happ, hnext⟩⟩ := hholds'.append_cases operation payload
  · rw [happ]
    refine ⟨records, _, hholds, hnext, hlength.trans ?_⟩
    rw [List.flatMap_append, List.length_append]
    exact Nat.le_add_right _ _
  · rw [happ]
    exact ⟨records, records', hholds, hnext, hlength⟩

namespace Database

variable {p : Str → Prop} {database database' : Database} {name : Str}

/-- Another table is put in place. -/
theorem Agree.insert_right (h : database.Agree p database') (hp : ¬ p name) {table : Table}
    (ht : table.Reached) (hname : table.name = name) :
    Agree p database { database' with tables := database'.tables.insert name table } where
  sound := h.sound
  sound' := by
    rw [← hname]
    exact h.sound'.insert ht
  name := h.name
  tables other hother := by
    rw [h.tables other hother, Database.table, Database.table, SortedMap.find?_insert, if_neg]
    rintro rfl
    exact hp hother

theorem Agree.erase_right (h : database.Agree p database') (hp : ¬ p name) :
    Agree p database { database' with tables := database'.tables.erase name } where
  sound := h.sound
  sound' := h.sound'.erase name
  name := h.name
  tables other hother := by
    rw [h.tables other hother, Database.table, Database.table, SortedMap.find?_erase, if_neg]
    rintro rfl
    exact hp hother

theorem Agree.createTable_right (h : database.Agree p database') (hp : ¬ p name)
    {schema : List Column} {result : Bool × Database}
    (hcreate : database'.createTable name schema = .ok result) : database.Agree p result.2 := by
  obtain ⟨table, hmake, hresult⟩ := Failure.bind_eq_ok_iff.1 hcreate
  cases hresult
  obtain ⟨-, hname, hreached⟩ := Table.view_make hmake
  cases hc : database'.tables.contains name with
  | true =>
    rw [SortedMap.tryEmplace_of_contains hc]
    exact h
  | false =>
    rw [SortedMap.tryEmplace_of_find?_eq_none (SortedMap.contains_eq_false_iff.1 hc)]
    exact h.insert_right hp hreached hname

theorem Agree.dropTable_right (h : database.Agree p database') (hp : ¬ p name) :
    database.Agree p (database'.dropTable name).2 := by
  unfold Database.dropTable
  split_ifs
  · exact h.erase_right hp
  · exact h

theorem Agree.renameTable_right (h : database.Agree p database') {oldName newName : Str}
    (hold : ¬ p oldName) (hnew : ¬ p newName) :
    database.Agree p (database'.renameTable oldName newName).2 := by
  unfold Database.renameTable
  cases hfind : database'.tables.find? oldName with
  | none => exact h
  | some old =>
    simp only
    split_ifs with hc
    · exact h
    · have herased := h.erase_right hold
      cases hr : replacement old newName with
      | error e => exact herased
      | ok new =>
        have hn : newName ≠ [] := by
          rintro rfl
          rw [replacement, Table.make, if_pos rfl] at hr
          cases hr
        obtain ⟨_, hr', hreached, hname, -⟩ :=
          view_replacement (h.sound'.tables oldName old hfind).2 hn
        cases hr.symm.trans hr'
        have hfree : (database'.tables.erase oldName).find? newName = none := by
          rw [SortedMap.find?_erase, SortedMap.contains_eq_false_iff.1 (Bool.eq_false_iff.2 hc),
            ite_self]
        simp only [SortedMap.tryEmplace_of_find?_eq_none hfree]
        exact herased.insert_right hnew hreached hname

end Database

namespace QueryExecutor

variable {platform : Platform} {depth : ℕ} {p : Str → Prop} {S : Storage → Storage → Prop}
  {s t : QueryExecutor} {name : Str} {table : Table} {query : Query}

/-! ### The commands of the other client -/

section Elsewhere

theorem keeps_agree_putDatabase {d database : Database} (hd : s.database = some d)
    (h : d.Agree p database) : Keeps (Agree p S s) (putDatabase database) := by
  refine keeps_modify fun t hagree => { hagree with database := ?_ }
  rw [hd]
  exact .some h

theorem keeps_agree_putTable (hp : ¬ p name) (ht : table.Reached) (hname : table.name = name) :
    Keeps (Agree p S s) (putTable name table) := by
  refine keeps_modify fun t hagree => { hagree with database := ?_ }
  have hdatabase := hagree.database
  simp only
  generalize s.database = d, t.database = d' at hdatabase ⊢
  cases hdatabase with
  | none => exact .none
  | some hd => exact .some (hd.insert_right hp ht hname)

/-- The table is found in a sound database. -/
theorem Agree.reached_right (h : Agree p S s t) (hfind : t.requireTable name = .ok table) :
    table.Reached ∧ table.name = name := by
  have hsound : t.Sound := by
    intro database hdatabase
    have hrel := h.database
    rw [hdatabase] at hrel
    generalize s.database = d at hrel
    cases hrel with
    | some hd => exact hd.sound'
  rcases requireTable_cases hsound name with ⟨db, found, hh⟩ | ⟨e, he, -⟩
  · cases hh.requireTable_eq.symm.trans hfind
    exact ⟨hh.reached, hh.name_eq⟩
  · rw [he] at hfind
    cases hfind

/-- Commands that need an active database. -/
theorem keeps_agree_onDatabase {f : Database → Exec QueryResult}
    (h : ∀ d database, s.database = some d → d.Agree p database →
      Keeps (Agree p S s) (f database)) :
    Keeps (Agree p S s) (do match (← get : QueryExecutor).database with
      | none => return messageResult false (bytes "no active database")
      | some database => f database) := by
  refine keeps_get_bind fun t hagree => ?_
  have hdatabase := hagree.database
  generalize hd : s.database = d, t.database = d' at hdatabase ⊢
  cases hdatabase with
  | none => exact hagree
  | some hrel => exact h _ _ hd hrel t hagree

/-- Commands that need a table. -/
theorem keeps_agree_onTable {f : Table → Exec QueryResult}
    (h : ∀ table, table.Reached → table.name = name → Keeps (Agree p S s) (f table)) :
    Keeps (Agree p S s) (do
      let executor ← get
      let table ← Procedure.lift (executor.requireTable name)
      f table) := by
  refine keeps_get_bind fun t hagree => ?_
  cases hfind : t.requireTable name with
  | error e => exact hagree
  | ok table =>
    obtain ⟨hreached, hname⟩ := hagree.reached_right hfind
    exact h table hreached hname t hagree

variable (hS : ∀ operation payload storage storage', S storage storage' →
  S storage (WriteAheadLog.append operation payload storage').2)

include hS in
theorem keeps_agree_appendWal (operation : WalOperation) (payload : Str) :
    Keeps (Agree p S s) (appendWal operation payload) := by
  intro t hagree
  rw [appendWal_apply]
  split_ifs
  · exact hagree
  · exact { hagree with storage := hS operation payload _ _ hagree.storage }

include hS in
theorem keeps_agree_logged {c : Prop} [Decidable c] (operation : WalOperation) (payload : Str)
    (result : QueryResult) : Keeps (Agree p S s)
      (if c then (appendWal operation payload >>= fun _ => pure result : Exec QueryResult)
        else pure result) :=
  keeps_ite (fun _ => (keeps_agree_appendWal hS operation payload).bind fun _ => keeps_pure _)
    fun _ => keeps_pure _

include hS in
theorem keeps_agree_createTable {command : CreateTable} (hp : ¬ p command.name) :
    Keeps (Agree p S s) (executeCreateTable command) := by
  refine keeps_agree_onDatabase fun d database hd hrel => ?_
  cases hcreate : database.createTable command.name command.columns with
  | error e => exact fun _ hagree => hagree
  | ok result =>
    rw [lift_ok_bind]
    exact (keeps_agree_putDatabase hd (hrel.createTable_right hp hcreate)).bind
      fun _ => keeps_agree_logged hS _ _ _

include hS in
theorem keeps_agree_dropTable {command : DropTable} (hp : ¬ p command.name) :
    Keeps (Agree p S s) (executeDropTable command) :=
  keeps_agree_onDatabase fun _ _ hd hrel =>
    (keeps_agree_putDatabase hd (hrel.dropTable_right hp)).bind
      fun _ => keeps_agree_logged hS _ _ _

include hS in
theorem keeps_agree_renameTable {command : RenameTable} (hold : ¬ p command.oldName)
    (hnew : ¬ p command.newName) : Keeps (Agree p S s) (executeRenameTable command) :=
  keeps_agree_onDatabase fun _ _ hd hrel =>
    (keeps_agree_putDatabase hd (hrel.renameTable_right hold hnew)).bind
      fun _ => (keeps_lift _).bind fun _ => keeps_agree_logged hS _ _ _

include hS in
theorem keeps_agree_insertLoop (hp : ¬ p name) (ht : table.Reached) (hname : table.name = name)
    (rows : List Row) : Keeps (Agree p S s) (insertLoop name table rows) := by
  induction rows generalizing table with
  | nil => exact keeps_pure _
  | cons row rows ih =>
    refine (keeps_agree_appendWal hS _ _).bind fun _ => ?_
    cases hi : table.insert row with
    | error e => exact fun _ hagree => hagree
    | ok result =>
      obtain ⟨hreached, hname', -⟩ := ht.view_insert hi
      rw [lift_ok_bind]
      exact (keeps_agree_putTable hp hreached (hname'.trans hname)).bind
        fun _ => ih hreached (hname'.trans hname)

include hS in
theorem keeps_agree_insert {command : Insert} (hp : ¬ p command.table) :
    Keeps (Agree p S s) (executeInsert command) :=
  keeps_agree_onTable fun _ hreached hname => (keeps_lift _).bind fun _ =>
    (keeps_agree_insertLoop hS hp hreached hname _).bind fun _ => keeps_pure _

theorem keeps_agree_updateLoop {command : Update} (hp : ¬ p command.table) (ht : table.Reached)
    (hname : table.name = command.table) (target : ℕ) (rowId : RowId) (rows : List Row)
    (count : ℕ) : Keeps (Agree p S s) (updateLoop command target table rowId rows count) := by
  induction rows generalizing table rowId count with
  | nil => exact keeps_pure _
  | cons row rows ih =>
    refine (keeps_lift _).bind fun passed => keeps_ite (fun _ => ?_) fun _ => ih ht hname _ _
    cases hu : table.update rowId target command.value with
    | error e => exact fun _ hagree => hagree
    | ok result =>
      obtain ⟨-, hreached, hname', -⟩ := ht.view_update hu
      rw [lift_ok_bind]
      exact (keeps_agree_putTable hp hreached (hname'.trans hname)).bind
        fun _ => ih hreached (hname'.trans hname) _ _

include hS in
theorem keeps_agree_update {command : Update} (hp : ¬ p command.table) :
    Keeps (Agree p S s) (executeUpdate command) := by
  refine keeps_agree_onTable fun table hreached hname => ?_
  cases columnIndex table.schema command.column with
  | none => exact keeps_throw _
  | some target =>
    exact (keeps_agree_updateLoop hp hreached hname _ _ _ _).bind
      fun _ => keeps_agree_logged hS _ _ _

theorem keeps_agree_deleteLoop {command : Delete} (hp : ¬ p command.table) (ht : table.Reached)
    (hname : table.name = command.table) (rows : List Row) (count : ℕ) :
    Keeps (Agree p S s) (deleteLoop command table rows count) := by
  induction rows generalizing table count with
  | nil => exact keeps_pure _
  | cons row rows ih =>
    refine (keeps_lift _).bind fun passed => keeps_ite (fun _ => ?_) fun _ => ih ht hname _
    obtain ⟨-, hreached, hname', -⟩ := ht.view_erase rows.length
    exact (keeps_agree_putTable hp hreached (hname'.trans hname)).bind
      fun _ => ih hreached (hname'.trans hname) _

include hS in
theorem keeps_agree_delete {command : Delete} (hp : ¬ p command.table) :
    Keeps (Agree p S s) (executeDelete command) :=
  keeps_agree_onTable fun _ hreached hname =>
    (keeps_agree_deleteLoop hp hreached hname _ _).bind fun _ => keeps_agree_logged hS _ _ _

include hS in
theorem keeps_agree_createIndex {command : CreateIndex} (hp : ¬ p command.table) :
    Keeps (Agree p S s) (executeCreateIndex command) := by
  refine keeps_agree_onTable fun table hreached hname => ?_
  obtain ⟨hreached', hname', -, -⟩ := hreached.view_createIndex command.name command.column
  exact (keeps_agree_putTable hp hreached' (hname'.trans hname)).bind
    fun _ => keeps_agree_logged hS _ _ _

end Elsewhere

/-- A command on single tables, or one that changes nothing. -/
def Tabular : Query → Prop
  | .createTable _ | .dropTable _ | .renameTable _ | .insert _ | .select _ | .update _
  | .delete _ | .createIndex _ | .listTables | .exit => True
  | _ => False

/-- **A command on other tables** keeps an executor in agreement. -/
theorem Agree.elsewhere (hS : ∀ operation payload storage storage', S storage storage' →
      S storage (WriteAheadLog.append operation payload storage').2)
    (h : Agree p S s t) (platform : Platform) (hkind : Tabular query)
    (hp : ∀ name ∈ query.tables, ¬ p name) :
    Agree p S s (executeUnlocked platform query t).2 := by
  cases query with
  | createTable command => exact keeps_agree_createTable hS (hp _ List.mem_cons_self) t h
  | dropTable command => exact keeps_agree_dropTable hS (hp _ List.mem_cons_self) t h
  | renameTable command =>
    exact keeps_agree_renameTable hS (hp _ List.mem_cons_self)
      (hp _ (List.mem_cons_of_mem _ List.mem_cons_self)) t h
  | insert command => exact keeps_agree_insert hS (hp _ List.mem_cons_self) t h
  | update command => exact keeps_agree_update hS (hp _ List.mem_cons_self) t h
  | delete command => exact keeps_agree_delete hS (hp _ List.mem_cons_self) t h
  | createIndex command => exact keeps_agree_createIndex hS (hp _ List.mem_cons_self) t h
  | select command => exact h
  | listTables => exact h
  | exit => exact h
  | _ => exact hkind.elim

/-! ### Two clients -/

section Clients

variable (platform : Platform) (depth : ℕ)

/-- The replies to `a` when both clients send texts, and the executor at the end. -/
def replyTo : List (Client × Str) → QueryExecutor → List Outcome × QueryExecutor
  | [], s => ([], s)
  | (client, sql) :: rest, s =>
    let reply := respond platform depth sql s
    let session := replyTo rest reply.2
    (if client = .a then reply.1 :: session.1 else session.1, session.2)

/-- The texts of `a`. -/
def textsOf (items : List (Client × Str)) : List Str :=
  (items.filter fun item => item.1 = .a).map Prod.snd

/-- What a client sends stays with the tables of the client; and a command of `a` does not look at
the database as a whole or, inside a transaction, at rows. -/
def Stays (p : Str → Prop) (s : QueryExecutor) : Client → Query → Prop
  | .a, query => (∀ name ∈ query.tables, p name) ∧ ¬ Whole query ∧ ReadsOutside s query
  | .b, query => (∀ name ∈ query.tables, ¬ p name) ∧ Tabular query

/-- Both clients stay with their tables, and the files have room for what `a` does. -/
def Separate (p : Str → Prop) : List (Client × Str) → QueryExecutor → Prop
  | [], _ => True
  | (client, sql) :: rest, s => (∀ q, s.comesTo depth sql = some q → Stays p s client q) ∧
      (client = .a → ∀ e, (respond platform depth sql s).1 = .error e → ¬ FileFailure e) ∧
      Separate p rest (respond platform depth sql s).2

end Clients

/-- Executors that agree find the same command behind a text. -/
theorem Agree.comesTo_eq (h : Agree p S s t) (depth : ℕ) (sql : Str) :
    s.comesTo depth sql = t.comesTo depth sql := by
  have hresolved : ∀ depth query, s.resolved depth query = t.resolved depth query := by
    intro depth
    induction depth with
    | zero => exact fun _ => rfl
    | succ depth ih =>
      intro query
      cases query with
      | executePrepared command =>
        have hbind : s.bindPreparedSql command = t.bindPreparedSql command := by
          rw [bindPreparedSql, bindPreparedSql, h.preparedStatements]
        simp only [resolved, hbind, ih]
      | _ => rfl
  simp only [comesTo, hresolved]

/-- What `b` does leaves `a` where it was. -/
theorem Agree.other (h : Agree p Storage.Shorter s t) {sql : Str}
    (hstays : ∀ q, t.comesTo depth sql = some q → Stays p t .b q) :
    Agree p Storage.Shorter s (respond platform depth sql t).2 := by
  rcases respond_comesTo platform depth t sql with ⟨q, hq, -, hrun⟩ | ⟨-, e, hrun⟩
  · obtain ⟨htables, hkind⟩ := hstays q hq
    rw [hrun]
    exact h.elsewhere (fun operation payload _ _ hshorter => hshorter.append operation payload)
      platform hkind htables
  · rw [hrun]
    exact h

/-- What `a` does has the same reply in both executors. -/
theorem Agree.own (h : Agree p Storage.Shorter s t) {sql : Str}
    (hstays : ∀ q, t.comesTo depth sql = some q → Stays p t .a q)
    (hroom : ∀ e, (respond platform depth sql t).1 = .error e → ¬ FileFailure e) :
    (respond platform depth sql s).1 = (respond platform depth sql t).1 ∧
      Agree p Storage.Shorter (respond platform depth sql s).2
        (respond platform depth sql t).2 := by
  have hrelated : Related FileFailure (Agree p Storage.Shorter) Eq (respond platform depth sql s)
      (respond platform depth sql t) := by
    refine h.text fun q hq => ?_
    obtain ⟨htables, hwhole, hread⟩ := hstays q (h.comesTo_eq depth sql ▸ hq)
    exact h.tableCommand relates_append_shorter platform htables hwhole fun command heq =>
      h.activeTransaction.trans (hread command heq)
  obtain ⟨houtcome, hagree⟩ := hrelated.of_not_fails hroom
  exact ⟨houtcome.eq, hagree⟩

/-- From executors that agree, `b` makes no difference to `a`. -/
theorem Agree.unaffected (h : Agree p Storage.Shorter s t) {items : List (Client × Str)}
    (hseparate : Separate platform depth p items t) :
    (converse platform depth (textsOf items) s).1 = (replyTo platform depth items t).1 ∧
      Agree p Storage.Shorter (converse platform depth (textsOf items) s).2
        (replyTo platform depth items t).2 := by
  induction items generalizing s t with
  | nil => exact ⟨rfl, h⟩
  | cons item rest ih =>
    obtain ⟨client, sql⟩ := item
    obtain ⟨hstays, hroom, hrest⟩ := hseparate
    cases client with
    | a =>
      obtain ⟨hreply, hnext⟩ := h.own hstays (hroom rfl)
      obtain ⟨hreplies, hend⟩ := ih hnext hrest
      refine ⟨?_, hend⟩
      change (respond platform depth sql s).1 :: _ = (respond platform depth sql t).1 :: _
      rw [hreply, ← hreplies]
      rfl
    | b => exact ih (h.other hstays) hrest

/-- **A client whose tables nobody else names is not affected by other clients**: its replies, and
its tables, are those of a session that it has to itself. -/
theorem isolated (hs : s.Valid false) {items : List (Client × Str)}
    (hseparate : Separate platform depth p items s) :
    (replyTo platform depth items s).1 = (converse platform depth (textsOf items) s).1 ∧
      Agree p Storage.Shorter (converse platform depth (textsOf items) s).2
        (replyTo platform depth items s).2 := by
  obtain ⟨records, hrecords⟩ := hs.log
  have hagree : Agree p Storage.Shorter s s :=
    hs.agree p ⟨records, records, hrecords, hrecords, le_rfl⟩
  obtain ⟨hreplies, hend⟩ := hagree.unaffected hseparate
  exact ⟨hreplies.symm, hend⟩

instance (query : Query) : Decidable (Whole query) := match query with
  | .listTables | .saveDatabase | .loadDatabase _ => instDecidableTrue
  | .createDatabase _ | .createTable _ | .dropTable _ | .renameTable _ | .createIndex _
  | .insert _ | .update _ | .delete _ | .select _ | .beginTransaction | .commitTransaction
  | .rollbackTransaction | .prepareStatement _ | .executePrepared _ | .exit => instDecidableFalse

instance (query : Query) : Decidable (Tabular query) := match query with
  | .createTable _ | .dropTable _ | .renameTable _ | .insert _ | .select _ | .update _
  | .delete _ | .createIndex _ | .listTables | .exit => instDecidableTrue
  | .createDatabase _ | .saveDatabase | .loadDatabase _ | .beginTransaction | .commitTransaction
  | .rollbackTransaction | .prepareStatement _ | .executePrepared _ => instDecidableFalse

instance (p : Str → Prop) [DecidablePred p] (s : QueryExecutor) :
    ∀ client query, Decidable (Stays p s client query)
  | .a, _ => inferInstanceAs (Decidable (_ ∧ _ ∧ _))
  | .b, _ => inferInstanceAs (Decidable (_ ∧ _))

/-- The outcome is no failure of a file. -/
def noFileFailure : Outcome → Bool
  | .ok _ => true
  | .error e => !decide (FileFailure e)

theorem noFileFailure_iff (outcome : Outcome) :
    noFileFailure outcome = true ↔ ∀ e, outcome = .error e → ¬ FileFailure e := by
  cases outcome <;> simp [noFileFailure]

instance decidableSeparate (platform : Platform) (depth : ℕ) (p : Str → Prop) [DecidablePred p] :
    ∀ items s, Decidable (Separate platform depth p items s)
  | [], _ => instDecidableTrue
  | (client, sql) :: rest, s =>
    have := decidableSeparate platform depth p rest (respond platform depth sql s).2
    decidable_of_iff ((s.comesTo depth sql).all (fun q => decide (Stays p s client q)) = true ∧
      (client = .a → noFileFailure (respond platform depth sql s).1 = true) ∧
      Separate platform depth p rest (respond platform depth sql s).2) (by
        rw [Separate, noFileFailure_iff]
        cases s.comesTo depth sql <;> simp)

/-- The table `t` of `a` and the table `u` of `b`. -/
def twoTables : List (Client × Str) :=
  [(.b, bytes "CREATE TABLE u (a INT);"), (.a, bytes "INSERT INTO t VALUES (3);"),
    (.b, bytes "INSERT INTO u VALUES (1);"), (.a, bytes "DELETE FROM t WHERE a = 1;"),
    (.b, bytes "RENAME TABLE u TO v;"), (.b, bytes "UPDATE v SET a = 2;"),
    (.a, bytes "SELECT * FROM t;")]

theorem isolated_twoTables :
    (replyTo (.byInsertion true) 1 twoTables twoRows).1 =
      (converse (.byInsertion true) 1 (textsOf twoTables) twoRows).1 :=
  (isolated (p := (· = bytes "t")) reachable_twoRows.valid (by decide +kernel)).1

end QueryExecutor

end VertexDB
