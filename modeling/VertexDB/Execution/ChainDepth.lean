import VertexDB.Execution.ExecuteChains
import VertexDB.Execution.JoinMeaning
import VertexDB.Execution.Sessions
import VertexDB.Parser.Termination

/-!
# How deep an execution goes

`outOfFuel` stands for a computation that does not return.  Parsing, reading files and the commands
never throw it (`avoids_executeUnlocked`), so some depth is enough for an execution exactly when its
chain of prepared statements ends (`ends_iff`).  A text that starts no endless chain is answered in
the same way at every depth from some one on (`respond_of_not_neverEnds`).
-/

namespace VertexDB

open Ascii ByteCodec Failure

theorem avoids_runtimeError {α : Type} (what : String) :
    Avoids .outOfFuel (throw (.runtimeError what) : Except Exception α) :=
  avoids_throw (by rintro ⟨⟩)

theorem avoids_invalidArgument {α : Type} (what : String) :
    Avoids .outOfFuel (throw (.invalidArgument what) : Except Exception α) :=
  avoids_throw (by rintro ⟨⟩)

/-! ### Tables -/

theorem avoids_type (value : Value) : Avoids .outOfFuel value.type := by
  cases value with
  | null => exact avoids_runtimeError _
  | int i => exact avoids_ok _
  | double x => exact avoids_ok _
  | string text => exact avoids_ok _

theorem avoids_checkValue (message : String) (column : Column) (value : Value) :
    Avoids .outOfFuel (checkValue message column value) := by
  refine avoids_ite (fun _ => ?_) fun _ => ?_
  · exact avoids_ite (fun _ => avoids_ok _) fun _ => avoids_invalidArgument _
  · refine (avoids_type value).bind fun type _ => ?_
    exact avoids_ite (fun _ => avoids_invalidArgument _) fun _ => avoids_ok _

theorem avoids_validateValues (schema : List Column) (row : Row) :
    Avoids .outOfFuel (validateValues schema row) := by
  induction schema generalizing row with
  | nil => exact avoids_ok _
  | cons column schema ih =>
    cases row with
    | nil => exact avoids_ok _
    | cons value row => exact (avoids_checkValue _ column value).bind fun _ _ => ih row

theorem avoids_validateRow (schema : List Column) (row : Row) :
    Avoids .outOfFuel (validateRow schema row) :=
  avoids_ite (fun _ => avoids_invalidArgument _) fun _ => avoids_validateValues schema row

theorem avoids_validateRows (schema : List Column) (rows : List Row) :
    Avoids .outOfFuel (validateRows schema rows) := by
  induction rows with
  | nil => exact avoids_ok _
  | cons row rows ih => exact (avoids_validateRow schema row).bind fun _ _ => ih

namespace Table

theorem avoids_make (name : Str) (schema : List Column) : Avoids .outOfFuel (make name schema) :=
  avoids_ite (fun _ => avoids_invalidArgument _) fun _ =>
    avoids_ite (fun _ => avoids_invalidArgument _) fun _ => avoids_ok _

theorem avoids_insert (table : Table) (row : Row) : Avoids .outOfFuel (table.insert row) :=
  (avoids_validateRow _ row).bind fun _ _ => avoids_ok _

theorem avoids_update (table : Table) (rowId : RowId) (index : ℕ) (value : Value) :
    Avoids .outOfFuel (table.update rowId index value) := by
  refine avoids_ite (fun _ => avoids_ok _) fun _ => ?_
  cases table.schema[index]? with
  | none => exact avoids_ok _
  | some column =>
    refine (avoids_checkValue _ column value).bind fun _ _ => ?_
    dsimp only
    split
    · exact avoids_ok _
    · exact avoids_ok _

theorem avoids_replaceRows (table : Table) (rows : List Row) :
    Avoids .outOfFuel (table.replaceRows rows) :=
  (avoids_validateRows _ rows).bind fun _ _ => avoids_ok _

end Table

namespace Database

theorem avoids_make (name : Str) : Avoids .outOfFuel (make name) :=
  avoids_ite (fun _ => avoids_invalidArgument _) fun _ => avoids_ok _

theorem avoids_createTable (database : Database) (name : Str) (schema : List Column) :
    Avoids .outOfFuel (database.createTable name schema) :=
  (Table.avoids_make name schema).bind fun _ _ => avoids_ok _

theorem avoids_insertRows (table : Table) (rows : List Row) :
    Avoids .outOfFuel (insertRows table rows) := by
  induction rows generalizing table with
  | nil => exact avoids_ok _
  | cons row rows ih => exact (table.avoids_insert row).bind fun p _ => ih p.2

theorem avoids_replacement (oldTable : Table) (newName : Str) :
    Avoids .outOfFuel (replacement oldTable newName) :=
  (Table.avoids_make newName _).bind fun table _ =>
    (avoids_insertRows table _).bind fun _ _ => avoids_ok _

theorem avoids_renameTable (database : Database) (oldName newName : Str) :
    Avoids .outOfFuel (database.renameTable oldName newName).1 := by
  rw [renameTable]
  cases database.tables.find? oldName with
  | none => exact avoids_ok _
  | some oldTable =>
    dsimp only
    split_ifs
    · exact avoids_ok _
    · have hreplacement := avoids_replacement oldTable newName
      cases hrun : replacement oldTable newName with
      | error e => exact avoids_throw fun heq => hreplacement (hrun.trans (congrArg _ heq))
      | ok table => exact avoids_ok _

theorem avoids_createNewTable (database : Database) (name : Str) (schema : List Column)
    (message : String) : Avoids .outOfFuel (database.createNewTable name schema message) :=
  (database.avoids_createTable name schema).bind fun _ _ =>
    avoids_ite (fun _ => avoids_runtimeError _) fun _ => avoids_ok _

theorem avoids_fillTable (database : Database) (name : Str) (rows : List Row)
    (definitions : List (Str × Str)) :
    Avoids .outOfFuel (database.fillTable name rows definitions) := by
  rw [fillTable]
  cases database.table name with
  | none => exact avoids_ok _
  | some table => exact (table.avoids_replaceRows rows).bind fun _ _ => avoids_ok _

theorem avoids_copyTables (message : String) (definitions : Table → List (Str × Str))
    (copy : Database) (tables : List Table) :
    Avoids .outOfFuel (copyTables message definitions copy tables) := by
  induction tables generalizing copy with
  | nil => exact avoids_ok _
  | cons table tables ih =>
    refine (copy.avoids_createNewTable _ _ message).bind fun copy _ => ?_
    exact (copy.avoids_fillTable _ _ _).bind fun copy _ => ih copy

theorem avoids_clone (database : Database) : Avoids .outOfFuel database.clone :=
  (avoids_make _).bind fun copy _ => avoids_copyTables _ _ copy _

end Database

/-! ### Files -/

theorem avoidsFrom_readBytes {e : Exception} (h : e ≠ .outOfFuel) (n : ℕ) :
    AvoidsFrom .outOfFuel (readBytes e n) := by
  intro bs
  exact avoids_ite (fun _ => avoids_throw h) fun _ => avoids_ok _

theorem avoidsFrom_readLe {e : Exception} (h : e ≠ .outOfFuel) (width : ℕ) :
    AvoidsFrom .outOfFuel (readLe e width) :=
  (avoidsFrom_readBytes h width).bind fun _ => avoidsFrom_pure _

theorem avoidsFrom_readList {α : Type} {r : Reader Exception α} (h : AvoidsFrom .outOfFuel r)
    (n : ℕ) : AvoidsFrom .outOfFuel (readList n r) := by
  induction n with
  | zero => exact avoidsFrom_pure _
  | succ n ih => exact h.bind fun _ => ih.bind fun _ => avoidsFrom_pure _

theorem avoidsFrom_runtimeError {α : Type} (what : String) :
    AvoidsFrom .outOfFuel (throw (.runtimeError what) : Reader Exception α) :=
  avoidsFrom_throw (by rintro ⟨⟩)

namespace StorageManager

theorem avoidsFrom_readPod (width : ℕ) : AvoidsFrom .outOfFuel (readPod width) :=
  avoidsFrom_readLe (by rintro ⟨⟩) width

theorem avoidsFrom_readString : AvoidsFrom .outOfFuel readString :=
  (avoidsFrom_readPod 8).bind fun size => avoidsFrom_readBytes (by rintro ⟨⟩) size

theorem avoidsFrom_readValue : AvoidsFrom .outOfFuel readValue := by
  refine (avoidsFrom_readPod 1).bind fun encodedType => ?_
  refine avoidsFrom_ite (fun _ => avoidsFrom_pure _) fun _ => ?_
  cases ColumnType.ofCode encodedType with
  | int => exact (avoidsFrom_readPod 8).bind fun _ => avoidsFrom_pure _
  | double => exact (avoidsFrom_readPod 8).bind fun _ => avoidsFrom_pure _
  | string => exact avoidsFrom_readString.bind fun _ => avoidsFrom_pure _
  | unknown raw => exact avoidsFrom_runtimeError _

theorem avoidsFrom_readColumn : AvoidsFrom .outOfFuel readColumn :=
  avoidsFrom_readString.bind fun _ => (avoidsFrom_readPod 1).bind fun _ =>
    (avoidsFrom_readPod 1).bind fun _ => avoidsFrom_pure _

variable (platform : Platform)

theorem avoidsFrom_readIndex : AvoidsFrom .outOfFuel (readIndex platform) :=
  avoidsFrom_readString.bind fun _ => avoidsFrom_readString.bind fun _ => avoidsFrom_pure _

theorem avoidsFrom_readTable (database : Database) :
    AvoidsFrom .outOfFuel (readTable platform database) := by
  refine avoidsFrom_readString.bind fun tableName => ?_
  refine (avoidsFrom_readPod 8).bind fun columnCount => ?_
  refine (avoidsFrom_readList avoidsFrom_readColumn columnCount).bind fun schema => ?_
  refine (avoidsFrom_lift (database.avoids_createNewTable _ _ _)).bind fun database => ?_
  refine (avoidsFrom_readPod 8).bind fun indexCount => ?_
  refine (avoidsFrom_readList (avoidsFrom_readIndex platform) indexCount).bind fun _ => ?_
  refine (avoidsFrom_readPod 8).bind fun rowCount => ?_
  refine (avoidsFrom_readList (avoidsFrom_readList avoidsFrom_readValue columnCount)
    rowCount).bind fun _ => ?_
  exact avoidsFrom_lift (database.avoids_fillTable _ _ _)

theorem avoidsFrom_readTables (count : ℕ) (database : Database) :
    AvoidsFrom .outOfFuel (readTables platform count database) := by
  induction count generalizing database with
  | zero => exact avoidsFrom_pure _
  | succ count ih => exact (avoidsFrom_readTable platform database).bind ih

theorem avoidsFrom_readDatabase : AvoidsFrom .outOfFuel (readDatabase platform) := by
  refine (avoidsFrom_readBytes (by rintro ⟨⟩) _).bind fun found => ?_
  refine avoidsFrom_ite (fun _ _ => avoids_runtimeError _) fun _ => ?_
  refine (avoidsFrom_readPod 4).bind fun foundVersion => ?_
  refine avoidsFrom_ite (fun _ _ => avoids_runtimeError _) fun _ => ?_
  refine avoidsFrom_readString.bind fun name => ?_
  refine (avoidsFrom_lift (Database.avoids_make name)).bind fun database => ?_
  exact (avoidsFrom_readPod 8).bind fun tableCount =>
    avoidsFrom_readTables platform tableCount database

theorem avoids_loadDatabase (disk : Disk) (name : Str) :
    Avoids .outOfFuel (loadDatabase platform disk name) := by
  rw [loadDatabase]
  cases disk.read (pathFor name) with
  | none => exact avoids_runtimeError _
  | some contents =>
    exact (avoidsFrom_readDatabase platform contents).bind fun _ _ => avoids_ok _

theorem avoids_loadFirstDatabase (disk : Disk) :
    Avoids .outOfFuel (loadFirstDatabase platform disk) := by
  refine avoids_ite (fun _ => avoids_runtimeError _) fun _ => ?_
  split
  · exact avoids_loadDatabase platform disk _
  · exact avoids_runtimeError _

theorem avoids_saveDatabase (fault : Option SaveFault) (database : Database) :
    Procedure.Avoids .outOfFuel (saveDatabase fault database) := by
  refine (Procedure.avoids_modify _).bind fun _ => ?_
  refine Procedure.avoids_ite (fun _ _ => avoids_runtimeError _) fun _ => ?_
  refine (Procedure.avoids_modify _).bind fun _ => ?_
  refine Procedure.avoids_ite (fun _ _ => avoids_runtimeError _) fun _ => ?_
  split
  · refine Procedure.avoids_ite (fun _ => ?_) fun _ => ?_
    · refine (Procedure.avoids_modify _).bind fun _ => ?_
      exact (Procedure.avoids_modify _).bind fun _ _ => avoids_runtimeError _
    · exact (Procedure.avoids_modify _).bind fun _ _ => avoids_runtimeError _
  · exact Procedure.avoids_modify _

end StorageManager

namespace WriteAheadLog

theorem avoidsFrom_readPod (width : ℕ) : AvoidsFrom .outOfFuel (readPod width) :=
  avoidsFrom_readLe (by rintro ⟨⟩) width

theorem avoidsFrom_readRecord : AvoidsFrom .outOfFuel readRecord := by
  refine (avoidsFrom_readPod 4).bind fun magic => (avoidsFrom_readPod 4).bind fun version => ?_
  refine avoidsFrom_ite (fun _ _ => avoids_runtimeError _) fun _ => ?_
  refine (avoidsFrom_readPod 8).bind fun lsn => (avoidsFrom_readPod 1).bind fun operation => ?_
  refine (avoidsFrom_readPod 8).bind fun payloadSize => ?_
  exact (avoidsFrom_readBytes (by rintro ⟨⟩) payloadSize).bind fun _ => avoidsFrom_pure _

/-- The length of the file bounds the number of iterations. -/
theorem avoids_readRecords {fuel : ℕ} {contents : Str} (h : contents.length ≤ fuel) :
    Avoids .outOfFuel (readRecords fuel contents) := by
  induction fuel generalizing contents with
  | zero =>
    rw [List.length_eq_zero_iff.1 (Nat.le_zero.1 h)]
    exact avoids_ok _
  | succ fuel ih =>
    cases contents with
    | nil => exact avoids_ok _
    | cons b bs =>
      rw [readRecords]
      · refine (avoidsFrom_readRecord _).bind fun p hread => ?_
        refine (ih ?_).bind fun _ _ => avoids_ok _
        have hspan := spans_readRecord _ _ _ hread
        simp only [length_encodeRecord, List.length_cons] at hspan h
        omega
      · rintro ⟨⟩

theorem avoids_readAll (disk : Disk) : Avoids .outOfFuel (readAll disk) := by
  rw [readAll]
  cases disk.read path with
  | none => exact avoids_ok _
  | some contents => exact avoids_readRecords le_rfl

theorem avoids_nextLsn : Procedure.Avoids .outOfFuel nextLsn := by
  refine Procedure.avoids_get.bind fun storage => ?_
  cases storage.nextLsn with
  | some next => exact (Procedure.avoids_modify _).bind fun _ => Procedure.avoids_pure _
  | none =>
    refine (Procedure.avoids_lift (avoids_readAll _)).bind fun records => ?_
    exact (Procedure.avoids_modify _).bind fun _ => Procedure.avoids_pure _

theorem avoids_appendUnder (fault : Option AppendFault) (operation : WalOperation)
    (payload : Str) : Procedure.Avoids .outOfFuel (appendUnder fault operation payload) := by
  intro storage
  unfold appendUnder
  split
  · exact avoids_runtimeError _
  · refine ((Procedure.avoids_modify _).bind fun _ => avoids_nextLsn.bind fun lsn => ?_) storage
    refine Procedure.avoids_ite (fun _ _ => avoids_runtimeError _) fun _ => ?_
    refine Procedure.avoids_get.bind fun storage => ?_
    dsimp only
    split
    · exact (Procedure.avoids_modify _).bind fun _ _ => avoids_runtimeError _
    · refine Procedure.avoids_ite (fun _ _ => avoids_runtimeError _) fun _ => ?_
      exact (Procedure.avoids_modify _).bind fun _ => Procedure.avoids_pure _

theorem avoids_append (operation : WalOperation) (payload : Str) :
    Procedure.Avoids .outOfFuel (append operation payload) :=
  Procedure.avoids_get.bind fun _ => (Procedure.avoids_modify _).bind fun _ =>
    avoids_appendUnder _ operation payload

end WriteAheadLog

namespace QueryExecutor

variable {platform : Platform} {s : QueryExecutor} {query : Query}

/-! ### SELECT -/

theorem avoids_resolveResultColumn (columns : List Str) (requested : Str) :
    Avoids .outOfFuel (resolveResultColumn columns requested) := by
  unfold resolveResultColumn
  split
  · exact avoids_ok _
  · dsimp only
    split
    · exact avoids_ok _
    · exact avoids_ok _
    · exact avoids_runtimeError _

theorem avoids_evalPredicate {resolve : Str → Except Exception (Option ℕ)}
    (h : ∀ column, Avoids .outOfFuel (resolve column)) (row : Row) (predicate : Predicate) :
    Avoids .outOfFuel (evalPredicate resolve row predicate) := by
  induction predicate with
  | and left right hleft hright =>
    exact hleft.bind fun _ _ => avoids_ite (fun _ => hright) fun _ => avoids_ok _
  | or left right hleft hright =>
    exact hleft.bind fun _ _ => avoids_ite (fun _ => avoids_ok _) fun _ => hright
  | comparison column op value =>
    refine (h column).bind fun found _ => ?_
    cases found with
    | none => exact avoids_runtimeError _
    | some index => exact avoids_ok _

theorem avoids_passes (schema : List Column) (where_ : Option Predicate) (row : Row) :
    Avoids .outOfFuel (passes schema where_ row) := by
  cases where_ with
  | none => exact avoids_ok _
  | some predicate => exact avoids_evalPredicate (fun _ => avoids_ok _) row predicate

theorem avoids_filterRows {test : Row → Except Exception Bool}
    (h : ∀ row, Avoids .outOfFuel (test row)) (rows : List Row) :
    Avoids .outOfFuel (filterRows test rows) := by
  induction rows with
  | nil => exact avoids_ok _
  | cons row rows ih => exact (h row).bind fun _ _ => ih.bind fun _ _ => avoids_ok _

theorem avoids_requireTable (s : QueryExecutor) (name : Str) :
    Avoids .outOfFuel (s.requireTable name) := by
  unfold requireTable
  split
  · exact avoids_runtimeError _
  · split
    · exact avoids_runtimeError _
    · exact avoids_ok _

theorem avoids_resolveColumns (schema : List Column) (columns : List Str) :
    Avoids .outOfFuel (resolveColumns schema columns) := by
  induction columns with
  | nil => exact avoids_ok _
  | cons column columns ih =>
    rw [resolveColumns]
    split
    · exact avoids_runtimeError _
    · exact ih.bind fun _ _ => avoids_ok _

theorem avoids_resolveProjection (command : Select) (table : Table) :
    Avoids .outOfFuel (resolveProjection command table) :=
  avoids_ite (fun _ => avoids_ok _) fun _ =>
    (avoids_resolveColumns _ _).bind fun _ _ => avoids_ok _

theorem avoids_collectRows (s : QueryExecutor) (command : Select) (table : Table) :
    Avoids .outOfFuel (s.collectRows command table) := by
  have hscan := avoids_filterRows (avoids_passes table.schema command.where_)
    (s.rowsSnapshotForRead table)
  unfold collectRows
  dsimp only
  split
  · split
    · exact avoids_ok _
    · exact hscan
  · split
    · exact avoids_ok _
    · exact hscan
  · exact hscan

theorem avoids_sortRows {resolve : Str → Except Exception (Option ℕ)}
    (h : ∀ column, Avoids .outOfFuel (resolve column)) (orderBy : Option OrderBy)
    (rows : List Row) : Avoids .outOfFuel (sortRows platform resolve orderBy rows) := by
  cases orderBy with
  | none => exact avoids_ok _
  | some order =>
    refine (h order.column).bind fun found _ => ?_
    cases found with
    | none => exact avoids_runtimeError _
    | some index => exact avoids_ok _

theorem avoids_selectFrom (s : QueryExecutor) (command : Select) (table : Table) :
    Avoids .outOfFuel (s.selectFrom platform command table) := by
  refine (avoids_resolveProjection command table).bind fun _ _ => ?_
  refine (s.avoids_collectRows command table).bind fun _ _ => ?_
  exact (avoids_sortRows (fun _ => avoids_ok _) _ _).bind fun _ _ => avoids_ok _

theorem avoids_resolveJoinColumns (joinedColumns columns : List Str) :
    Avoids .outOfFuel (resolveJoinColumns joinedColumns columns) := by
  induction columns with
  | nil => exact avoids_ok _
  | cons column columns ih =>
    refine (avoids_resolveResultColumn joinedColumns column).bind fun found _ => ?_
    cases found with
    | none => exact avoids_runtimeError _
    | some index => exact ih.bind fun _ _ => avoids_ok _

theorem avoids_joinPasses (joinedColumns : List Str) (where_ : Option Predicate) (row : Row) :
    Avoids .outOfFuel (joinPasses joinedColumns where_ row) := by
  cases where_ with
  | none => exact avoids_ok _
  | some predicate =>
    exact avoids_evalPredicate (avoids_resolveResultColumn joinedColumns) row predicate

theorem avoids_joinSelect (s : QueryExecutor) (command : Select) (join : JoinClause) :
    Avoids .outOfFuel (s.joinSelect platform command join) := by
  refine (s.avoids_requireTable _).bind fun leftTable _ => ?_
  refine (s.avoids_requireTable _).bind fun rightTable _ => ?_
  split
  · have hrest (joinedColumns : List Str) (rows : List Row) (projection : List ℕ) :
        Avoids .outOfFuel (do
          let rows ← filterRows (joinPasses joinedColumns command.where_) rows
          let rows ← sortRows platform (resolveResultColumn joinedColumns) command.orderBy rows
          return joinAnswer joinedColumns command.limit projection rows) := by
      refine (avoids_filterRows (avoids_joinPasses joinedColumns _) rows).bind fun kept _ => ?_
      refine (avoids_sortRows (avoids_resolveResultColumn joinedColumns) _ _).bind fun _ _ => ?_
      exact avoids_ok _
    dsimp only
    split_ifs
    · exact (avoids_ok _).bind fun projection _ => hrest _ _ projection
    · exact (avoids_resolveJoinColumns _ _).bind fun projection _ => hrest _ _ projection
  · exact avoids_runtimeError _

theorem avoids_select (s : QueryExecutor) (command : Select) :
    Avoids .outOfFuel (s.select platform command) := by
  unfold select
  split
  · exact s.avoids_joinSelect command _
  · exact (s.avoids_requireTable _).bind fun table _ => s.avoids_selectFrom command table

/-! ### Commands -/

theorem avoids_appendWal (operation : WalOperation) (payload : Str) :
    Procedure.Avoids .outOfFuel (appendWal operation payload) := by
  refine Procedure.avoids_get.bind fun executor => ?_
  refine Procedure.avoids_ite (fun _ => Procedure.avoids_pure _) fun _ => ?_
  exact (Procedure.avoids_focus (WriteAheadLog.avoids_append operation payload)).bind fun _ =>
    Procedure.avoids_pure _

theorem avoids_insertLoop (tableName : Str) (table : Table) (rows : List Row) :
    Procedure.Avoids .outOfFuel (insertLoop tableName table rows) := by
  induction rows generalizing table with
  | nil => exact Procedure.avoids_pure _
  | cons row rows ih =>
    refine (avoids_appendWal _ _).bind fun _ => ?_
    refine (Procedure.avoids_lift (table.avoids_insert row)).bind fun p => ?_
    exact (Procedure.avoids_modify _).bind fun _ => ih p.2

theorem avoids_updateLoop (command : Update) (target : ℕ) (table : Table) (rowId : RowId)
    (rows : List Row) (count : ℕ) :
    Procedure.Avoids .outOfFuel (updateLoop command target table rowId rows count) := by
  induction rows generalizing table rowId count with
  | nil => exact Procedure.avoids_pure _
  | cons row rows ih =>
    refine (Procedure.avoids_lift (avoids_passes _ _ row)).bind fun _ => ?_
    refine Procedure.avoids_ite (fun _ => ?_) fun _ => ih _ _ _
    refine (Procedure.avoids_lift (table.avoids_update _ _ _)).bind fun p => ?_
    exact (Procedure.avoids_modify _).bind fun _ => ih _ _ _

theorem avoids_deleteLoop (command : Delete) (table : Table) (rows : List Row) (count : ℕ) :
    Procedure.Avoids .outOfFuel (deleteLoop command table rows count) := by
  induction rows generalizing table count with
  | nil => exact Procedure.avoids_pure _
  | cons row rows ih =>
    refine (Procedure.avoids_lift (avoids_passes _ _ row)).bind fun _ => ?_
    refine Procedure.avoids_ite (fun _ => ?_) fun _ => ih _ _
    exact (Procedure.avoids_modify _).bind fun _ => ih _ _

/-- The last step of a command that logs a change. -/
theorem avoids_logged {changed : Prop} [Decidable changed] (operation : WalOperation)
    (payload : Str) (result : QueryResult) : Procedure.Avoids .outOfFuel (do
      if changed then appendWal operation payload
      return result) :=
  Procedure.avoids_ite
    (fun _ => (avoids_appendWal operation payload).bind fun _ => Procedure.avoids_pure _)
    fun _ => Procedure.avoids_pure _

theorem avoids_databaseToLoad (s : QueryExecutor) (command : LoadDatabase) :
    Avoids .outOfFuel (s.databaseToLoad platform command) := by
  unfold databaseToLoad
  split
  · exact StorageManager.avoids_loadDatabase platform _ _
  · exact StorageManager.avoids_loadDatabase platform _ _
  · exact StorageManager.avoids_loadFirstDatabase platform _

theorem avoids_finish (manager : TransactionManager) (id : TransactionId)
    (state : TransactionState) (message : String) :
    Avoids .outOfFuel (manager.finish id state message) :=
  avoids_ite (fun _ => avoids_ok _) fun _ => avoids_runtimeError _

/-- **A command returns or throws**: it never runs out of fuel. -/
theorem avoids_executeUnlocked (platform : Platform) (query : Query) :
    Procedure.Avoids .outOfFuel (executeUnlocked platform query) := by
  cases query with
  | createDatabase command =>
    refine (avoids_appendWal _ _).bind fun _ => ?_
    refine (Procedure.avoids_lift (Database.avoids_make _)).bind fun _ => ?_
    exact (Procedure.avoids_modify _).bind fun _ => Procedure.avoids_pure _
  | createTable command =>
    refine Procedure.avoids_get.bind fun executor => ?_
    cases executor.database with
    | none => exact Procedure.avoids_pure _
    | some database =>
      refine (Procedure.avoids_lift (database.avoids_createTable _ _)).bind fun created => ?_
      exact (Procedure.avoids_modify _).bind fun _ => avoids_logged _ _ _
  | dropTable command =>
    refine Procedure.avoids_get.bind fun executor => ?_
    cases executor.database with
    | none => exact Procedure.avoids_pure _
    | some database => exact (Procedure.avoids_modify _).bind fun _ => avoids_logged _ _ _
  | renameTable command =>
    refine Procedure.avoids_get.bind fun executor => ?_
    cases executor.database with
    | none => exact Procedure.avoids_pure _
    | some database =>
      refine (Procedure.avoids_modify _).bind fun _ => ?_
      refine (Procedure.avoids_lift (database.avoids_renameTable _ _)).bind fun _ => ?_
      exact avoids_logged _ _ _
  | listTables => exact Procedure.avoids_get.bind fun _ => Procedure.avoids_pure _
  | insert command =>
    refine Procedure.avoids_get.bind fun executor => ?_
    refine (Procedure.avoids_lift (executor.avoids_requireTable _)).bind fun table => ?_
    refine (Procedure.avoids_lift (avoids_validateRows _ _)).bind fun _ => ?_
    exact (avoids_insertLoop _ _ _).bind fun _ => Procedure.avoids_pure _
  | select command =>
    exact Procedure.avoids_get.bind fun executor =>
      Procedure.avoids_lift (executor.avoids_select command)
  | update command =>
    refine Procedure.avoids_get.bind fun executor => ?_
    refine (Procedure.avoids_lift (executor.avoids_requireTable _)).bind fun table => ?_
    cases columnIndex table.schema command.column with
    | none => exact fun _ => avoids_runtimeError _
    | some target =>
      exact (avoids_updateLoop _ _ _ _ _ _).bind fun _ => avoids_logged _ _ _
  | delete command =>
    refine Procedure.avoids_get.bind fun executor => ?_
    refine (Procedure.avoids_lift (executor.avoids_requireTable _)).bind fun table => ?_
    exact (avoids_deleteLoop _ _ _ _).bind fun _ => avoids_logged _ _ _
  | createIndex command =>
    refine Procedure.avoids_get.bind fun executor => ?_
    refine (Procedure.avoids_lift (executor.avoids_requireTable _)).bind fun table => ?_
    exact (Procedure.avoids_modify _).bind fun _ => avoids_logged _ _ _
  | saveDatabase =>
    refine Procedure.avoids_get.bind fun executor => ?_
    cases executor.database with
    | none => exact Procedure.avoids_pure _
    | some database =>
      refine (avoids_appendWal _ _).bind fun _ => ?_
      refine (Procedure.avoids_focus (StorageManager.avoids_saveDatabase _ _)).bind fun _ => ?_
      exact (Procedure.avoids_focus (Procedure.avoids_modify _)).bind fun _ =>
        Procedure.avoids_pure _
  | loadDatabase command =>
    refine Procedure.avoids_get.bind fun executor => ?_
    refine (Procedure.avoids_lift (executor.avoids_databaseToLoad command)).bind fun _ => ?_
    exact (Procedure.avoids_modify _).bind fun _ => Procedure.avoids_pure _
  | beginTransaction =>
    refine Procedure.avoids_get.bind fun executor => ?_
    cases executor.database with
    | none => exact Procedure.avoids_pure _
    | some database =>
      refine Procedure.avoids_ite (fun _ => Procedure.avoids_pure _) fun _ => ?_
      refine (Procedure.avoids_modify _).bind fun _ => ?_
      refine (Procedure.avoids_lift database.avoids_clone).bind fun _ => ?_
      exact (Procedure.avoids_modify _).bind fun _ => Procedure.avoids_pure _
  | commitTransaction =>
    refine Procedure.avoids_get.bind fun executor => ?_
    split
    · exact Procedure.avoids_pure _
    · exact Procedure.avoids_pure _
    · refine (Procedure.avoids_lift (avoids_finish _ _ _ _)).bind fun _ => ?_
      exact (Procedure.avoids_modify _).bind fun _ => Procedure.avoids_pure _
  | rollbackTransaction =>
    refine Procedure.avoids_get.bind fun executor => ?_
    split
    · exact Procedure.avoids_pure _
    · exact Procedure.avoids_pure _
    · refine (Procedure.avoids_lift (avoids_finish _ _ _ _)).bind fun _ => ?_
      exact (Procedure.avoids_modify _).bind fun _ => Procedure.avoids_pure _
  | prepareStatement command =>
    exact (Procedure.avoids_modify _).bind fun _ => Procedure.avoids_pure _
  | executePrepared command => exact fun _ => avoids_runtimeError _
  | exit => exact Procedure.avoids_pure _

/-! ### Chains -/

theorem avoids_bindParameters (sql : Str) (parameters : List Value) :
    Avoids .outOfFuel (bindParameters sql parameters) := by
  induction sql generalizing parameters with
  | nil =>
    cases parameters with
    | nil => exact avoids_ok _
    | cons parameter parameters => exact avoids_runtimeError _
  | cons character sql ih =>
    cases parameters with
    | nil =>
      rw [bindParameters]
      refine avoids_ite (fun _ => (ih []).bind fun _ _ => avoids_ok _) fun _ => ?_
      exact avoids_runtimeError _
    | cons parameter parameters =>
      rw [bindParameters]
      refine avoids_ite (fun _ => (ih (parameter :: parameters)).bind fun _ _ => avoids_ok _)
        fun _ => ?_
      exact (ih parameters).bind fun _ _ => avoids_ok _

theorem avoids_bindPreparedSql (s : QueryExecutor) (command : ExecutePrepared) :
    Avoids .outOfFuel (s.bindPreparedSql command) := by
  unfold bindPreparedSql
  split
  · exact avoids_runtimeError _
  · exact avoids_bindParameters _ _

/-- Without a next link, one level of depth is enough. -/
theorem avoids_execute_of_not_calls (h : ∀ next, ¬ s.Calls query next) :
    Avoids .outOfFuel (execute platform 1 query s).1 := by
  by_cases hprepared : ∃ command, query = .executePrepared command
  · obtain ⟨command, rfl⟩ := hprepared
    have hbound := s.avoids_bindPreparedSql command
    rw [execute, Procedure.get_bind]
    cases hbind : s.bindPreparedSql command with
    | error e => exact avoids_throw fun heq => hbound (hbind.trans (congrArg _ heq))
    | ok sql =>
      rw [Procedure.lift_ok_bind]
      cases hparse : Parser.parse sql with
      | error e =>
        have hparsed := Parser.parse_ne_outOfFuel sql
        exact avoids_throw fun heq => hparsed (hparse.trans (congrArg _ heq))
      | ok next => exact absurd ⟨command, sql, rfl, hbind, hparse⟩ (h next)
  · rw [execute]
    · exact avoids_executeUnlocked platform query s
    · exact fun command heq => hprepared ⟨command, heq⟩

/-- Once the depth is enough, more of it changes nothing. -/
theorem execute_add {depth : ℕ} (h : Avoids .outOfFuel (execute platform depth query s).1)
    (more : ℕ) : execute platform (depth + more) query s = execute platform depth query s := by
  induction depth generalizing query with
  | zero => exact absurd rfl h
  | succ depth ih =>
    rw [Nat.succ_add]
    by_cases hcalls : ∃ next, s.Calls query next
    · obtain ⟨next, hnext⟩ := hcalls
      rw [execute_of_calls hnext] at h ⊢
      rw [execute_of_calls hnext, ih h]
    · exact execute_of_not_calls (fun next hnext => hcalls ⟨next, hnext⟩) _ _

/-- **A chain ends exactly when some depth is enough for it.** -/
theorem ends_iff (platform : Platform) :
    s.Ends query ↔ ∃ depth, Avoids .outOfFuel (execute platform depth query s).1 := by
  constructor
  · intro h
    induction h with
    | intro query _ ih =>
      by_cases hcalls : ∃ next, s.Calls query next
      · obtain ⟨next, hnext⟩ := hcalls
        obtain ⟨depth, hdepth⟩ := ih next hnext
        exact ⟨depth + 1, by rwa [execute_of_calls hnext]⟩
      · exact ⟨1, avoids_execute_of_not_calls fun next hnext => hcalls ⟨next, hnext⟩⟩
  · rintro ⟨depth, hdepth⟩
    by_contra hends
    rw [execute_of_not_ends hends] at hdepth
    exact hdepth rfl

/-- The text starts a chain of prepared statements that does not end. -/
def NeverEnds (s : QueryExecutor) (sql : Str) : Prop :=
  ∃ query, Parser.parse sql = .ok query ∧ ¬ s.Ends query

/-- No depth is enough for a text whose chain does not end. -/
theorem NeverEnds.respond {sql : Str} (h : s.NeverEnds sql) (depth : ℕ) :
    respond platform depth sql s = (.error .outOfFuel, s) := by
  obtain ⟨query, hparse, hends⟩ := h
  rw [respond_ok hparse, execute_of_not_ends hends]

/-- **Every other text is answered**, at some depth and in the same way at every greater one. -/
theorem respond_of_not_neverEnds (platform : Platform) {sql : Str} (h : ¬ s.NeverEnds sql) :
    ∃ depth, Avoids .outOfFuel (respond platform depth sql s).1 ∧
      ∀ more, respond platform (depth + more) sql s = respond platform depth sql s := by
  cases hparse : Parser.parse sql with
  | error e =>
    refine ⟨0, ?_, fun more => by rw [respond_error hparse, respond_error hparse]⟩
    rw [respond_error hparse]
    exact avoids_throw fun heq => Parser.parse_ne_outOfFuel sql (hparse.trans (congrArg _ heq))
  | ok query =>
    have hends : s.Ends query := by
      by_contra hends
      exact h ⟨query, hparse, hends⟩
    obtain ⟨depth, hdepth⟩ := (ends_iff platform).1 hends
    refine ⟨depth, by rwa [respond_ok hparse], fun more => ?_⟩
    rw [respond_ok hparse, respond_ok hparse, execute_add hdepth]

end QueryExecutor

end VertexDB
