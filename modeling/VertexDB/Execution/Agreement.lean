import VertexDB.Execution.Clients
import VertexDB.Persistence.LogNumbers

/-!
# Executors that answer alike

`Agree p S s t` says that two executors show the same tables under the names that satisfy `p`, and
have storages related by `S` and the same transactions and prepared statements.  A command that
names no other table answers alike on both and leaves them in agreement, whether it returns or
throws (`Agree.tableCommand`, `Agree.command`).

Nothing is asked of pages, versions and index structures, which can be different.  So the views of
the tables are all that statements can tell of them: only a SELECT inside a transaction sees more.
-/

namespace VertexDB

open Ascii Procedure

namespace Query

/-- The tables that a command names. -/
def tables : Query → List Str
  | .createTable command => [command.name]
  | .dropTable command => [command.name]
  | .renameTable command => [command.oldName, command.newName]
  | .insert command => [command.table]
  | .select command => command.table :: (command.join.map JoinClause.table).toList
  | .update command => [command.table]
  | .delete command => [command.table]
  | .createIndex command => [command.table]
  | .createDatabase _ | .listTables | .saveDatabase | .loadDatabase _ | .beginTransaction
  | .commitTransaction | .rollbackTransaction | .prepareStatement _ | .executePrepared _
  | .exit => []

end Query

namespace QueryExecutor

/-- The executors show the same tables under the names that satisfy `p`. -/
structure Agree (p : Str → Prop) (S : Storage → Storage → Prop) (s t : QueryExecutor) : Prop where
  database : Option.Rel (Database.Agree p) s.database t.database
  transactionSnapshot :
    Option.Rel (Database.Agree p) s.transactionSnapshot t.transactionSnapshot
  storage : S s.storage t.storage
  transactionManager : s.transactionManager = t.transactionManager
  activeTransaction : s.activeTransaction = t.activeTransaction
  preparedStatements : s.preparedStatements = t.preparedStatements
  replayingWal : s.replayingWal = t.replayingWal

variable {p : Str → Prop} {S : Storage → Storage → Prop} {fails : Exception → Prop}
  {s t : QueryExecutor} {name : Str} {table table' : Table}

/-- Executors that agree on everything show the same database. -/
theorem Agree.view_eq (h : Agree (fun _ => True) S s t) : s.view = t.view :=
  (Database.rel_agree_true_iff.1 h.database).2.2

/-- A valid executor agrees with itself. -/
theorem Valid.agree {replaying : Bool} (h : s.Valid replaying) (p : Str → Prop)
    (hstorage : S s.storage s.storage) : Agree p S s s := by
  refine ⟨?_, ?_, hstorage, rfl, rfl, rfl, rfl⟩
  · cases hdatabase : s.database with
    | none => exact .none
    | some database => exact .some (.refl p (h.sound database hdatabase))
  · cases hsnapshot : s.transactionSnapshot with
    | none => exact .none
    | some snapshot => exact .some (.refl p (h.snapshot snapshot hsnapshot))

/-! ### Reading -/

/-- A table that both find looks alike. -/
theorem Agree.requireTable (h : Agree p S s t) (hp : p name) :
    SameOutcome (Table.Alike name) (s.requireTable name) (t.requireTable name) := by
  unfold QueryExecutor.requireTable
  have hdatabase := h.database
  generalize s.database = d, t.database = d' at hdatabase ⊢
  cases hdatabase with
  | none => exact .error _
  | @some database database' hagree =>
    have htable := hagree.table hp
    simp only
    generalize database.table name = found, database'.table name = found' at htable ⊢
    cases htable with
    | none => exact .error _
    | some hlike => exact .ok hlike

/-- Outside transactions, tables that look alike have the same rows. -/
theorem collectRows_alike (h : Table.Alike name table table') (hactive : s.activeTransaction = none)
    (hactive' : t.activeTransaction = none) (command : Select) :
    s.collectRows command table = t.collectRows command table' := by
  have hversion : s.readVersion = none := by rw [readVersion, hactive]; rfl
  have hversion' : t.readVersion = none := by rw [readVersion, hactive']; rfl
  have hsnapshot : s.rowsSnapshotForRead table = t.rowsSnapshotForRead table' := by
    rw [rowsSnapshotForRead, rowsSnapshotForRead, hversion, hversion']
    exact h.rows
  have hbyId : s.rowsByIdForRead table = t.rowsByIdForRead table' := by
    funext rowIds
    rw [rowsByIdForRead, rowsByIdForRead, hversion, hversion']
    exact h.rowsById rowIds
  have hplan : QueryPlanner.planSelect command table = QueryPlanner.planSelect command table' := by
    have hindex : table.hasIndex = table'.hasIndex := funext h.hasIndex
    unfold QueryPlanner.planSelect Table.hasOrderedIndex
    rw [hindex, h.rowCount]
  have hlookup (column : Str) := h.reached.lookup_eq h.reached' h.view column
  simp only [collectRows, hsnapshot, hbyId, hplan, h.schema, (hlookup _).1, (hlookup _).2]

/-- Outside transactions, a SELECT on tables that look alike has the same answer. -/
theorem Agree.select (h : Agree p S s t) (platform : Platform)
    (hactive : s.activeTransaction = none) {command : Select}
    (hp : ∀ name ∈ (Query.select command).tables, p name) :
    s.select platform command = t.select platform command := by
  have hactive' : t.activeTransaction = none := h.activeTransaction ▸ hactive
  have hleft := h.requireTable (hp command.table List.mem_cons_self)
  unfold QueryExecutor.select
  cases hjoin : command.join with
  | none =>
    simp only
    generalize s.requireTable command.table = r, t.requireTable command.table = r' at hleft ⊢
    cases hleft with
    | error e => rfl
    | ok hlike =>
      simp only [Failure.ok_bind, selectFrom, resolveProjection, hlike.schema,
        collectRows_alike hlike hactive hactive']
  | some join =>
    have hjoined : p join.table := hp _ (by simp [Query.tables, hjoin])
    have hright := h.requireTable hjoined
    have hrows (name : Str) (table table' : Table) (hlike : Table.Alike name table table') :
        s.rowsSnapshotForRead table = t.rowsSnapshotForRead table' := by
      simp only [rowsSnapshotForRead, readVersion, hactive, hactive', Option.map_none]
      exact hlike.rows
    simp only [joinSelect]
    generalize s.requireTable command.table = l, t.requireTable command.table = l',
      s.requireTable join.table = r, t.requireTable join.table = r' at hleft hright ⊢
    cases hleft with
    | error e => rfl
    | ok hleft =>
      cases hright with
      | error e => rfl
      | ok hright =>
        simp only [Failure.ok_bind, resolveTableColumn, hleft.schema, hright.schema,
          hrows _ _ _ hleft, hrows _ _ _ hright]

/-! ### Writing -/

section Writing

variable (hS : ∀ operation payload, Relates fails S (fun _ _ => True)
  (WriteAheadLog.append operation payload) (WriteAheadLog.append operation payload))

include hS in
theorem relates_appendWal (operation : WalOperation) (payload : Str) :
    Relates fails (Agree p S) Eq (appendWal operation payload) (appendWal operation payload) := by
  refine relates_get_bind fun s t h => ?_
  rw [h.replayingWal]
  have hfocus : Relates fails (Agree p S) (fun _ _ => True)
      (focus QueryExecutor.storage (fun storage executor => { executor with storage })
        (WriteAheadLog.append operation payload))
      (focus QueryExecutor.storage (fun storage executor => { executor with storage })
        (WriteAheadLog.append operation payload)) :=
    relates_focus (hS operation payload) (fun _ _ h => h.storage)
      fun _ _ _ _ h hstorage => { h with storage := hstorage }
  refine relates_ite .rfl (relates_pure rfl) ?_ s t h
  exact hfocus.bind fun _ _ _ => relates_pure rfl

include hS in
/-- Log a change, if there was one, and answer. -/
theorem relates_logged {c : Prop} [Decidable c] (operation : WalOperation) (payload : Str)
    (result : QueryResult) : Relates fails (Agree p S) Eq
      (if c then (appendWal operation payload >>= fun _ => pure result : Exec QueryResult)
        else pure result)
      (if c then (appendWal operation payload >>= fun _ => pure result : Exec QueryResult)
        else pure result) :=
  relates_ite .rfl ((relates_appendWal hS operation payload).bind fun _ _ _ => relates_pure rfl)
    (relates_pure rfl)

theorem relates_putDatabase {database database' : Database} (h : database.Agree p database') :
    Relates fails (Agree p S) Eq (putDatabase database) (putDatabase database') :=
  relates_modify fun _ _ hagree => { hagree with database := .some h }

theorem relates_putTable (h : Table.Alike name table table') :
    Relates fails (Agree p S) Eq (putTable name table) (putTable name table') := by
  refine relates_modify fun s t hagree => { hagree with database := ?_ }
  have hdatabase := hagree.database
  simp only
  generalize s.database = d, t.database = d' at hdatabase ⊢
  cases hdatabase with
  | none => exact .none
  | some hd => exact .some (hd.insert h)

include hS in
theorem relates_executeCreateDatabase (command : CreateDatabase) :
    Relates fails (Agree p S) Eq (executeCreateDatabase command)
      (executeCreateDatabase command) := by
  refine (relates_appendWal hS _ _).bind fun _ _ _ => ?_
  have hmake : SameOutcome (Database.Agree p) (Database.make command.name)
      (Database.make command.name) := by
    cases hmake : Database.make command.name with
    | error e => exact .error e
    | ok database => exact .ok (.refl p (Database.sound_make hmake).1)
  refine (relates_lift hmake).bind fun _ _ hd => ?_
  exact (relates_putDatabase hd).bind fun _ _ _ => relates_pure rfl

/-- Commands that need an active database. -/
theorem relates_onDatabase {f : Database → Exec QueryResult}
    (h : ∀ database database', database.Agree p database' →
      Relates fails (Agree p S) Eq (f database) (f database')) :
    Relates fails (Agree p S) Eq
      (do match (← get : QueryExecutor).database with
        | none => return messageResult false (bytes "no active database")
        | some database => f database)
      (do match (← get : QueryExecutor).database with
        | none => return messageResult false (bytes "no active database")
        | some database => f database) := by
  refine relates_get_bind fun s t hagree => ?_
  have hdatabase := hagree.database
  generalize s.database = d, t.database = d' at hdatabase ⊢
  cases hdatabase with
  | none => exact .ok rfl hagree
  | some hd => exact h _ _ hd s t hagree

include hS in
theorem relates_executeCreateTable {command : CreateTable} (hp : p command.name) :
    Relates fails (Agree p S) Eq (executeCreateTable command) (executeCreateTable command) := by
  refine relates_onDatabase fun database database' hd => ?_
  refine (relates_lift (hd.createTable hp command.columns)).bind ?_
  rintro ⟨created, d⟩ ⟨_, d'⟩ ⟨rfl, hd⟩
  exact (relates_putDatabase hd).bind fun _ _ _ => relates_logged hS _ _ _

include hS in
theorem relates_executeDropTable {command : DropTable} (hp : p command.name) :
    Relates fails (Agree p S) Eq (executeDropTable command) (executeDropTable command) := by
  refine relates_onDatabase fun database database' hd => ?_
  obtain ⟨hdropped, hd⟩ := hd.dropTable hp
  simp only [hdropped]
  exact (relates_putDatabase hd).bind fun _ _ _ => relates_logged hS _ _ _

include hS in
theorem relates_executeRenameTable {command : RenameTable} (hold : p command.oldName)
    (hnew : p command.newName) :
    Relates fails (Agree p S) Eq (executeRenameTable command) (executeRenameTable command) := by
  refine relates_onDatabase fun database database' hd => ?_
  obtain ⟨houtcome, hd⟩ := hd.renameTable hold hnew
  refine (relates_putDatabase hd).bind fun _ _ _ => ?_
  refine (relates_lift houtcome).bind ?_
  rintro renamed _ rfl
  exact relates_logged hS _ _ _

/-! ### Commands on one table -/

/-- Commands that need a table. -/
theorem relates_onTable {f : Table → Exec QueryResult} (hp : p name)
    (h : ∀ table table', Table.Alike name table table' →
      Relates fails (Agree p S) Eq (f table) (f table')) :
    Relates fails (Agree p S) Eq
      (do
        let executor ← get
        let table ← Procedure.lift (executor.requireTable name)
        f table)
      (do
        let executor ← get
        let table ← Procedure.lift (executor.requireTable name)
        f table) :=
  relates_get_bind fun s t hagree => (relates_lift (hagree.requireTable hp)).bind h s t hagree

include hS in
theorem relates_insertLoop (h : Table.Alike name table table') (rows : List Row) :
    Relates fails (Agree p S) Eq (insertLoop name table rows) (insertLoop name table' rows) := by
  induction rows generalizing table table' with
  | nil => exact relates_pure rfl
  | cons row rows ih =>
    refine (relates_appendWal hS _ _).bind fun _ _ _ => ?_
    refine (relates_lift (h.insert row)).bind fun _ _ hlike => ?_
    exact (relates_putTable hlike).bind fun _ _ _ => ih hlike

include hS in
theorem relates_executeInsert {command : Insert} (hp : p command.table) :
    Relates fails (Agree p S) Eq (executeInsert command) (executeInsert command) := by
  refine relates_onTable hp fun table table' hlike => ?_
  rw [hlike.schema]
  refine (relates_lift (sameOutcome_refl _)).bind fun _ _ _ => ?_
  exact (relates_insertLoop hS hlike _).bind fun _ _ _ => relates_pure rfl

/-- The loop of UPDATE counts alike, and leaves tables alike where it throws. -/
theorem relates_updateLoop {command : Update} (h : Table.Alike command.table table table')
    (target : ℕ) (rowId : RowId) (rows : List Row) (count : ℕ) :
    Relates fails (Agree p S) Eq (updateLoop command target table rowId rows count)
      (updateLoop command target table' rowId rows count) := by
  induction rows generalizing table table' rowId count with
  | nil => exact relates_pure rfl
  | cons row rows ih =>
    rw [updateLoop, updateLoop, h.schema]
    refine (relates_lift (sameOutcome_refl _)).bind ?_
    rintro passed _ rfl
    refine relates_ite .rfl ?_ (ih h _ _)
    refine (relates_lift (h.update rowId target command.value)).bind ?_
    rintro ⟨updated, next⟩ ⟨_, next'⟩ ⟨rfl, hlike⟩
    exact (relates_putTable hlike).bind fun _ _ _ => ih hlike _ _

include hS in
theorem relates_executeUpdate {command : Update} (hp : p command.table) :
    Relates fails (Agree p S) Eq (executeUpdate command) (executeUpdate command) := by
  refine relates_onTable hp fun table table' hlike => ?_
  rw [hlike.schema]
  cases columnIndex table'.schema command.column with
  | none => exact relates_throw _
  | some target =>
    simp only [hlike.rows]
    refine (relates_updateLoop hlike _ _ _ _).bind ?_
    rintro count _ rfl
    exact relates_logged hS _ _ _

theorem relates_deleteLoop {command : Delete} (h : Table.Alike command.table table table')
    (rows : List Row) (count : ℕ) :
    Relates fails (Agree p S) Eq (deleteLoop command table rows count)
      (deleteLoop command table' rows count) := by
  induction rows generalizing table table' count with
  | nil => exact relates_pure rfl
  | cons row rows ih =>
    rw [deleteLoop, deleteLoop, h.schema]
    refine (relates_lift (sameOutcome_refl _)).bind ?_
    rintro passed _ rfl
    refine relates_ite .rfl ?_ (ih h _)
    obtain ⟨herased, hlike⟩ := h.erase rows.length
    simp only [herased]
    exact (relates_putTable hlike).bind fun _ _ _ => ih hlike _

include hS in
theorem relates_executeDelete {command : Delete} (hp : p command.table) :
    Relates fails (Agree p S) Eq (executeDelete command) (executeDelete command) := by
  refine relates_onTable hp fun table table' hlike => ?_
  rw [hlike.rows]
  refine (relates_deleteLoop hlike _ _).bind ?_
  rintro count _ rfl
  exact relates_logged hS _ _ _

include hS in
theorem relates_executeCreateIndex {command : CreateIndex} (hp : p command.table) :
    Relates fails (Agree p S) Eq (executeCreateIndex command) (executeCreateIndex command) := by
  refine relates_onTable hp fun table table' hlike => ?_
  obtain ⟨hcreated, hlike⟩ := hlike.createIndex command.name command.column
  simp only [hcreated]
  exact (relates_putTable hlike).bind fun _ _ _ => relates_logged hS _ _ _

end Writing

/-! ### Transactions -/

theorem relates_executeBegin : Relates fails (Agree p S) Eq executeBegin executeBegin := by
  refine relates_get_bind fun s t h => ?_
  have hdatabase := h.database
  have hsnapshot := h.transactionSnapshot
  rw [h.transactionManager]
  generalize s.database = d, t.database = d', s.transactionSnapshot = snapshot,
    t.transactionSnapshot = snapshot' at hdatabase hsnapshot ⊢
  cases hdatabase with
  | none => exact .ok rfl h
  | some hd =>
    cases hsnapshot with
    | some _ => exact .ok rfl h
    | none =>
      refine (relates_modify fun _ _ h => { h with
        transactionManager := rfl
        activeTransaction := rfl }).bind (fun _ _ _ => ?_) s t h
      refine (relates_lift hd.clone).bind fun _ _ hcopy => ?_
      exact (relates_modify fun _ _ h => { h with transactionSnapshot := .some hcopy }).bind
        fun _ _ _ => relates_pure rfl

theorem relates_executeCommit : Relates fails (Agree p S) Eq executeCommit executeCommit := by
  refine relates_get_bind fun s t h => ?_
  have hsnapshot := h.transactionSnapshot
  rw [h.transactionManager, h.activeTransaction]
  generalize s.transactionSnapshot = snapshot, t.transactionSnapshot = snapshot' at hsnapshot ⊢
  cases hsnapshot with
  | none => exact .ok rfl h
  | some _ =>
    cases t.activeTransaction with
    | none => exact .ok rfl h
    | some id =>
      refine (relates_lift (sameOutcome_refl _)).bind ?_ s t h
      rintro manager _ rfl
      exact (relates_modify fun _ _ h => { h with
        transactionManager := rfl
        activeTransaction := rfl
        transactionSnapshot := .none }).bind fun _ _ _ => relates_pure rfl

theorem relates_executeRollback :
    Relates fails (Agree p S) Eq executeRollback executeRollback := by
  refine relates_get_bind fun s t h => ?_
  have hsnapshot := h.transactionSnapshot
  rw [h.transactionManager, h.activeTransaction]
  generalize s.transactionSnapshot = snapshot, t.transactionSnapshot = snapshot' at hsnapshot ⊢
  cases hsnapshot with
  | none => exact .ok rfl h
  | some hcopy =>
    cases t.activeTransaction with
    | none => exact .ok rfl h
    | some id =>
      refine (relates_lift (sameOutcome_refl _)).bind ?_ s t h
      rintro manager _ rfl
      exact (relates_modify fun _ _ h => { h with
        transactionManager := rfl
        activeTransaction := rfl
        database := .some hcopy
        transactionSnapshot := .none }).bind fun _ _ _ => relates_pure rfl

theorem relates_executePrepare (command : PrepareStatement) :
    Relates fails (Agree p S) Eq (executePrepare command) (executePrepare command) :=
  (relates_modify fun _ _ h => { h with
    preparedStatements := by rw [h.preparedStatements] }).bind fun _ _ _ => relates_pure rfl

/-! ### The whole database -/

theorem Agree.listTables (h : Agree (fun _ => True) S s t) : s.listTables = t.listTables := by
  unfold QueryExecutor.listTables
  have hdatabase := h.database
  generalize s.database = d, t.database = d' at hdatabase ⊢
  cases hdatabase with
  | none => rfl
  | @some database database' hagree =>
    obtain ⟨-, -, hview⟩ := Database.agree_true_iff.1 hagree
    have hkeys (database : Database) : database.listTables = database.view.tables.keys :=
      (SortedMap.keys_mapValues ..).symm
    simp only [hkeys, hview]

theorem relates_publish (fault : Option StorageManager.SaveFault) {database database' : Database}
    (h : database.Agree (fun _ => True) database') :
    Relates fails (Agree p Storage.SameButNumbers) Eq (publish fault database)
      (publish fault database') :=
  relates_focus (relates_saveDatabase fails fault h) (fun _ _ h => h.storage)
    fun _ _ _ _ h hstorage => { h with storage := hstorage }

theorem relates_resetWal : Relates fails (Agree p Storage.SameButNumbers) Eq resetWal resetWal :=
  relates_focus (relates_reset fails) (fun _ _ h => h.storage)
    fun _ _ _ _ h hstorage => { h with storage := hstorage }

theorem relates_executeSaveDatabase (fault : Option StorageManager.SaveFault) :
    Relates fails (Agree (fun _ => True) Storage.SameButNumbers) Eq (executeSaveDatabase fault)
      (executeSaveDatabase fault) := by
  refine relates_onDatabase fun database database' hd => ?_
  rw [hd.name]
  refine (relates_appendWal (relates_append fails) _ _).bind fun _ _ _ => ?_
  refine (relates_publish fault hd).bind fun _ _ _ => ?_
  exact relates_resetWal.bind fun _ _ _ => relates_pure rfl

/-- The same files are read. -/
theorem Agree.databaseToLoad (h : Agree p Storage.SameButNumbers s t) (platform : Platform)
    (command : LoadDatabase) :
    s.databaseToLoad platform command = t.databaseToLoad platform command := by
  have hdatabase := h.database
  unfold QueryExecutor.databaseToLoad
  rw [h.storage.loadFirstDatabase_eq platform]
  generalize s.database = d, t.database = d' at hdatabase ⊢
  cases command.name with
  | some name => exact h.storage.loadDatabase_eq platform name
  | none =>
    cases hdatabase with
    | none => rfl
    | some hd =>
      simp only [hd.name]
      exact h.storage.loadDatabase_eq platform _

theorem relates_executeLoadDatabase (platform : Platform) (command : LoadDatabase) :
    Relates fails (Agree p Storage.SameButNumbers) Eq (executeLoadDatabase platform command)
      (executeLoadDatabase platform command) := by
  refine relates_get_bind fun s t h => ?_
  rw [h.databaseToLoad platform command]
  cases hload : t.databaseToLoad platform command with
  | error e => exact .error e h
  | ok database =>
    exact .ok rfl { h with
      database := .some (.refl p (sound_databaseToLoad hload))
      transactionSnapshot := .none }

/-! ### Every command -/

/-- A command on the collection of tables as a whole, or on the files. -/
def Whole : Query → Prop
  | .listTables | .saveDatabase | .loadDatabase _ => True
  | _ => False

/-- A SELECT runs outside transactions. -/
def ReadsOutside (s : QueryExecutor) (query : Query) : Prop :=
  ∀ command, query = .select command → s.activeTransaction = none

/-- **Commands that name only tables on which two executors agree** answer alike, and the
executors agree again. -/
theorem Agree.tableCommand (hS : ∀ operation payload, Relates fails S (fun _ _ => True)
      (WriteAheadLog.append operation payload) (WriteAheadLog.append operation payload))
    (h : Agree p S s t) (platform : Platform) {query : Query} (hp : ∀ name ∈ query.tables, p name)
    (hwhole : ¬ Whole query) (hread : ReadsOutside s query) :
    Related fails (Agree p S) Eq (executeUnlocked platform query s)
      (executeUnlocked platform query t) := by
  cases query with
  | createDatabase command => exact relates_executeCreateDatabase hS command s t h
  | createTable command =>
    exact relates_executeCreateTable hS (hp _ List.mem_cons_self) s t h
  | dropTable command => exact relates_executeDropTable hS (hp _ List.mem_cons_self) s t h
  | renameTable command =>
    exact relates_executeRenameTable hS (hp _ List.mem_cons_self)
      (hp _ (List.mem_cons_of_mem _ List.mem_cons_self)) s t h
  | insert command => exact relates_executeInsert hS (hp _ List.mem_cons_self) s t h
  | select command =>
    exact related_of_sameOutcome (h.select platform (hread command rfl) hp ▸ sameOutcome_refl _) h
  | update command => exact relates_executeUpdate hS (hp _ List.mem_cons_self) s t h
  | delete command => exact relates_executeDelete hS (hp _ List.mem_cons_self) s t h
  | createIndex command =>
    exact relates_executeCreateIndex hS (hp _ List.mem_cons_self) s t h
  | beginTransaction => exact relates_executeBegin s t h
  | commitTransaction => exact relates_executeCommit s t h
  | rollbackTransaction => exact relates_executeRollback s t h
  | prepareStatement command => exact relates_executePrepare command s t h
  | executePrepared command => exact relates_throw _ s t h
  | exit => exact .ok rfl h
  | listTables | saveDatabase | loadDatabase command => exact (hwhole trivial).elim

/-- **Executors that agree on everything** answer every command alike, and agree again. -/
theorem Agree.command (h : Agree (fun _ => True) Storage.SameButNumbers s t)
    (platform : Platform) {query : Query} (hread : ReadsOutside s query) :
    Related fails (Agree (fun _ => True) Storage.SameButNumbers) Eq
      (executeUnlocked platform query s) (executeUnlocked platform query t) := by
  by_cases hwhole : Whole query
  · cases query with
    | listTables => exact .ok h.listTables h
    | saveDatabase => exact relates_executeSaveDatabase none s t h
    | loadDatabase command => exact relates_executeLoadDatabase platform command s t h
    | _ => exact hwhole.elim
  · exact h.tableCommand (relates_append fails) platform (fun _ _ => trivial) hwhole hread

end QueryExecutor

end VertexDB
