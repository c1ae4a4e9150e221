import VertexDB.Execution.LogRecords

/-!
# Transactions

`BEGIN` keeps a copy of the active database and asks the transaction manager for an identifier;
`COMMIT` and `ROLLBACK` end the transaction, and `ROLLBACK` puts the copy back.  No other command
but `LOAD DATABASE` touches any of this.

`ROLLBACK` therefore restores the database of `BEGIN`, whatever has been done in between
(`rollback_restores`).  `LOAD DATABASE` forgets the copy and keeps the identifier, and is the one
command that breaks the bookkeeping (`bookkept_session`).
-/

namespace VertexDB

open Ascii Procedure

namespace QueryExecutor

variable {platform : Platform} {s t : QueryExecutor}

/-! ### Commands that leave transactions alone -/

/-- What the executor remembers of transactions. -/
def transactions (s : QueryExecutor) :
    Option Database × TransactionManager × Option TransactionId :=
  (s.transactionSnapshot, s.transactionManager, s.activeTransaction)

theorem framed_transactions (state : Option Database × TransactionManager × Option TransactionId)
    (query : Query) : Framed (fun s => s.transactions = state) query where
  database _ _ hs := hs
  prepared _ _ _ _ hs := hs
  append operation payload _ := by
    intro s hs
    obtain ⟨storage, happend⟩ := appendWal_storage operation payload s
    rw [happend]
    exact hs
  publish _ _ _ _ hs := hs
  reset _ _ hs := hs

theorem transactions_executeUnlocked {query : Query} (hcalm : query.Calm) (platform : Platform)
    (s : QueryExecutor) : (executeUnlocked platform query s).2.transactions = s.transactions :=
  (framed_transactions s.transactions query).executeUnlocked hcalm platform s rfl

/-- A new executor has no transaction, if its log was written by an executor. -/
theorem transactions_start {disk : Disk} {records : List WalRecord}
    (h : WriteAheadLog.Holds ⟨disk, none, []⟩ records)
    (hchanges : ∀ record ∈ records, record.Changes) :
    (start platform disk).transactions = (none, .new, none) := by
  refine start_of (P := fun s => s.transactions = (none, .new, none)) (fun _ _ hs => hs)
    (fun _ hs => hs) ?_ fun _ _ => rfl
  intro records' hread record hrecord s hs
  rw [h.readAll_eq] at hread
  cases hread
  refine keeps_replayRecord_of (P := fun s => s.transactions = (none, .new, none))
    (fun _ _ _ hs => hs) (fun hsave hcreate query hparse => ?_) s hs
  rcases hchanges record hrecord with hrecord | hrecord | hrecord
  · exact absurd hrecord hsave
  · exact absurd hrecord hcreate
  · obtain ⟨change, rfl⟩ := hrecord query hparse
    exact (framed_transactions _ _).executeUnlocked change.calm platform

/-! ### The commands on transactions -/

theorem executeBegin_none (h : s.database = none) :
    executeBegin s = (.ok (messageResult false (bytes "no active database")), s) := by
  rw [executeBegin, get_bind, h]
  rfl

theorem executeBegin_active {database copy : Database} (h : s.database = some database)
    (hcopy : s.transactionSnapshot = some copy) :
    executeBegin s = (.ok (messageResult false (bytes "transaction already active")), s) := by
  rw [executeBegin, get_bind, h]
  simp only [hcopy]
  rfl

theorem executeBegin_idle {database copy : Database} (h : s.database = some database)
    (hidle : s.transactionSnapshot = none) (hcopy : database.clone = .ok copy) :
    executeBegin s = (.ok (messageResult true (bytes "began transaction")),
      { s with
        activeTransaction := some s.transactionManager.begin.1
        transactionManager := s.transactionManager.begin.2
        transactionSnapshot := some copy }) := by
  obtain ⟨_, _, storage, manager, active, prepared, replaying⟩ := s
  simp only at h hidle
  subst h hidle
  rw [executeBegin, get_bind]
  simp only [hcopy]
  rfl

/-- COMMIT and ROLLBACK without a copy. -/
theorem end_idle (h : s.transactionSnapshot = none) :
    executeCommit s = (.ok (messageResult false (bytes "no active transaction")), s) ∧
      executeRollback s = (.ok (messageResult false (bytes "no active transaction")), s) := by
  rw [executeCommit, executeRollback, get_bind, get_bind, h]
  exact ⟨rfl, rfl⟩

theorem executeCommit_active {copy : Database} {id : TransactionId}
    (hcopy : s.transactionSnapshot = some copy) (hid : s.activeTransaction = some id) :
    executeCommit s = match s.transactionManager.commit id with
      | .ok manager => (.ok (messageResult true (bytes "committed transaction")),
          { s with
            transactionManager := manager
            activeTransaction := none
            transactionSnapshot := none })
      | .error e => (.error e, s) := by
  rw [executeCommit, get_bind, hcopy, hid]
  simp only
  cases s.transactionManager.commit id with
  | error e => rfl
  | ok manager => rfl

theorem executeRollback_active {copy : Database} {id : TransactionId}
    (hcopy : s.transactionSnapshot = some copy) (hid : s.activeTransaction = some id) :
    executeRollback s = match s.transactionManager.rollback id with
      | .ok manager => (.ok (messageResult true (bytes "rolled back transaction")),
          { s with
            transactionManager := manager
            activeTransaction := none
            database := some copy
            transactionSnapshot := none })
      | .error e => (.error e, s) := by
  rw [executeRollback, get_bind, hcopy, hid]
  simp only
  cases s.transactionManager.rollback id with
  | error e => rfl
  | ok manager => rfl

/-! ### Every executor -/

/-- The identifiers that the manager has handed out are numbered. -/
def Numbered (s : QueryExecutor) : Prop := ∃ count, s.transactionManager.Counted count

theorem numbered_of_transactions (h : t.transactions = s.transactions) (hs : s.Numbered) :
    t.Numbered := by
  have hmanager : t.transactionManager = s.transactionManager := congrArg (fun x => x.2.1) h
  rw [Numbered, hmanager]
  exact hs

theorem numbered_executeLoadDatabase (platform : Platform) (command : LoadDatabase) :
    Keeps Numbered (executeLoadDatabase platform command) := by
  refine keeps_get_bind fun s hs => ?_
  cases s.databaseToLoad platform command with
  | error e => exact hs
  | ok database => exact hs

theorem numbered_executeBegin : Keeps Numbered executeBegin := by
  refine keeps_get_bind fun s hs => ?_
  cases hd : s.database with
  | none => exact hs
  | some database =>
    by_cases hactive : s.transactionSnapshot.isSome = true
    · simp only [if_pos hactive]; exact hs
    · obtain ⟨count, hcount⟩ := hs
      simp only [if_neg hactive]
      cases database.clone with
      | error e => exact ⟨count + 1, hcount.begin⟩
      | ok copy => exact ⟨count + 1, hcount.begin⟩

theorem numbered_executeCommit : Keeps Numbered executeCommit := by
  intro s hs
  cases hcopy : s.transactionSnapshot with
  | none => rw [(end_idle hcopy).1]; exact hs
  | some copy =>
    cases hid : s.activeTransaction with
    | none => rw [executeCommit, get_bind, hcopy, hid]; exact hs
    | some id =>
      obtain ⟨count, hcount⟩ := hs
      rw [executeCommit_active hcopy hid]
      cases hend : s.transactionManager.commit id with
      | error e => exact ⟨count, hcount⟩
      | ok manager => exact ⟨count, hcount.finish hend⟩

theorem numbered_executeRollback : Keeps Numbered executeRollback := by
  intro s hs
  cases hcopy : s.transactionSnapshot with
  | none => rw [(end_idle hcopy).2]; exact hs
  | some copy =>
    cases hid : s.activeTransaction with
    | none => rw [executeRollback, get_bind, hcopy, hid]; exact hs
    | some id =>
      obtain ⟨count, hcount⟩ := hs
      rw [executeRollback_active hcopy hid]
      cases hend : s.transactionManager.rollback id with
      | error e => exact ⟨count, hcount⟩
      | ok manager => exact ⟨count, hcount.finish hend⟩

theorem numbered_executeUnlocked (platform : Platform) (query : Query) :
    Keeps Numbered (executeUnlocked platform query) := by
  by_cases hcalm : query.Calm
  · intro s hs
    exact numbered_of_transactions (transactions_executeUnlocked hcalm platform s) hs
  · cases query with
    | loadDatabase command => exact numbered_executeLoadDatabase platform command
    | beginTransaction => exact numbered_executeBegin
    | commitTransaction => exact numbered_executeCommit
    | rollbackTransaction => exact numbered_executeRollback
    | _ => exact absurd trivial hcalm

/-- The states that an executor reaches by statements that return or throw, on a storage root
that holds any files at all. -/
inductive Opened (platform : Platform) : QueryExecutor → Prop
  | start (disk : Disk) : Opened platform (QueryExecutor.start platform disk)
  | statement {s : QueryExecutor} (h : Opened platform s) {sql : Str} {query : Query}
    (hparse : Parser.parse sql = .ok query) (depth : ℕ) :
    Opened platform (execute platform depth query s).2

theorem Opened.consistent (h : Opened platform s) : s.Consistent false := by
  induction h with
  | start disk => exact consistent_start platform disk
  | statement _ _ depth ih =>
    exact keeps_execute_of (consistent_executeUnlocked platform) depth _ _ ih

theorem Opened.numbered (h : Opened platform s) : s.Numbered := by
  induction h with
  | start disk =>
    refine start_of (fun _ _ hs => hs) (fun _ hs => hs) ?_
      fun _ _ => ⟨0, TransactionManager.counted_new⟩
    rintro _ - record - s hs
    exact keeps_replayRecord_of (fun _ _ _ hs => hs)
      (fun _ _ query _ => numbered_executeUnlocked platform query) s hs
  | statement _ _ depth ih =>
    exact keeps_execute_of (numbered_executeUnlocked platform) depth _ _ ih

theorem Reachable.opened (h : Reachable platform s) : Opened platform s := by
  induction h with
  | start => exact .start .empty
  | @restart s _ _ => exact .start s.storage.disk
  | statement _ hparse depth ih => exact ih.statement hparse depth

/-! ### ROLLBACK restores the database of BEGIN -/

/-- Run commands one after the other, whether they return or throw. -/
def runAll (platform : Platform) (queries : List Query) (s : QueryExecutor) : QueryExecutor :=
  queries.foldl (fun s query => (execute platform 1 query s).2) s

/-- The command may stand between BEGIN and ROLLBACK: it is none of COMMIT, ROLLBACK, LOAD DATABASE
and EXECUTE. -/
def Inside : Query → Prop
  | .commitTransaction | .rollbackTransaction | .loadDatabase _ | .executePrepared _ => False
  | _ => True

/-- A command inside a transaction leaves it as it is. -/
theorem transactions_inside {query : Query} (h : Inside query) {copy : Database}
    (hcopy : s.transactionSnapshot = some copy) :
    (execute platform 1 query s).2.transactions = s.transactions := by
  have hrun : execute platform 1 query s = executeUnlocked platform query s := by
    rw [execute]
    rintro command rfl
    exact h
  rw [hrun]
  by_cases hcalm : query.Calm
  · exact transactions_executeUnlocked hcalm platform s
  · cases query with
    | beginTransaction =>
      change (executeBegin s).2.transactions = s.transactions
      cases hd : s.database with
      | none => rw [executeBegin_none hd]
      | some database => rw [executeBegin_active hd hcopy]
    | commitTransaction => exact h.elim
    | rollbackTransaction => exact h.elim
    | loadDatabase command => exact h.elim
    | _ => exact absurd trivial hcalm

theorem transactions_runAll {queries : List Query} (h : ∀ query ∈ queries, Inside query)
    {copy : Database} (hcopy : s.transactionSnapshot = some copy) :
    (runAll platform queries s).transactions = s.transactions := by
  induction queries generalizing s with
  | nil => rfl
  | cons query queries ih =>
    have hone := @transactions_inside platform s query (h query List.mem_cons_self) copy hcopy
    have hcopy' : (execute platform 1 query s).2.transactionSnapshot = some copy := by
      rw [← hcopy]
      exact congrArg Prod.fst hone
    rw [runAll, List.foldl_cons]
    exact (ih (fun q hq => h q (List.mem_cons_of_mem _ hq)) hcopy').trans hone

/-- **ROLLBACK restores the database of BEGIN**, whatever has been done since, as long as some
identifier is left for the transaction: the name, the tables with their schemas, rows and index
definitions, and the answers to lookups are those of before. -/
theorem rollback_restores (hs : Opened platform s) {database : Database}
    (hdatabase : s.database = some database) (hidle : s.transactionSnapshot = none)
    (hroom : ∃ id, s.transactionManager.find id = none) {queries : List Query}
    (hqueries : ∀ query ∈ queries, Inside query) :
    ∃ began ended restored,
      execute platform 1 .beginTransaction s =
        (.ok (messageResult true (bytes "began transaction")), began) ∧
      execute platform 1 .rollbackTransaction (runAll platform queries began) =
        (.ok (messageResult true (bytes "rolled back transaction")), ended) ∧
      ended.database = some restored ∧ restored.view = database.view ∧
      database.SameLookups restored ∧
      ended.transactionSnapshot = none ∧ ended.activeTransaction = none := by
  have hsound := hs.consistent.sound database hdatabase
  obtain ⟨copy, hcopy, hcopied, hview⟩ := Database.view_clone hsound
  obtain ⟨count, hcount⟩ := hs.numbered
  have hbegin := executeBegin_idle hdatabase hidle hcopy
  set began : QueryExecutor := { s with
    activeTransaction := some s.transactionManager.begin.1
    transactionManager := s.transactionManager.begin.2
    transactionSnapshot := some copy } with hbegan
  -- no command in between touches the copy or the transaction
  have hrun := @transactions_runAll platform began queries hqueries copy rfl
  set inside := runAll platform queries began with hinside
  have hsnapshot : inside.transactionSnapshot = some copy := congrArg Prod.fst hrun
  have hmanager : inside.transactionManager = s.transactionManager.begin.2 :=
    congrArg (fun x => x.2.1) hrun
  have hactive : inside.activeTransaction = some s.transactionManager.begin.1 :=
    congrArg (fun x => x.2.2) hrun
  -- the identifier was free, so the transaction found is the one that was begun
  have hfound : inside.transactionManager.find s.transactionManager.begin.1 = some .active := by
    rw [hmanager]
    exact TransactionManager.find_begun (hcount.fresh hroom)
  have hend := executeRollback_active hsnapshot hactive
  rw [TransactionManager.rollback, TransactionManager.finish] at hend
  rw [if_pos (show inside.transactionManager.transactions.find? _ = _ from hfound)] at hend
  exact ⟨began, _, copy, hbegin, hend, rfl, hview, hsound.sameLookups hcopied hview.symm, rfl, rfl⟩

/-- Commands that drop the table, try to begin again and make another database. -/
def insideCommands : List Query :=
  [.dropTable ⟨bytes "t"⟩, .beginTransaction, .createDatabase ⟨bytes "e"⟩, .saveDatabase]

theorem rollback_restores_twoRows :
    ∃ began ended restored,
      execute (.byInsertion true) 1 .beginTransaction twoRows =
        (.ok (messageResult true (bytes "began transaction")), began) ∧
      execute (.byInsertion true) 1 .rollbackTransaction
          (runAll (.byInsertion true) insideCommands began) =
        (.ok (messageResult true (bytes "rolled back transaction")), ended) ∧
      ended.database = some restored ∧ some restored.view = twoRows.view := by
  have hsome : twoRows.database.isSome = true := by decide +kernel
  have hidle : twoRows.transactionSnapshot.isNone = true := by decide +kernel
  have hroom : twoRows.transactionManager.find 1 = none := by decide +kernel
  have hinside : ∀ query ∈ insideCommands, Inside query := by
    simp [insideCommands, Inside]
  obtain ⟨database, hdatabase⟩ := Option.isSome_iff_exists.1 hsome
  obtain ⟨began, ended, restored, hbegin, hend, hrestored, hview, -⟩ :=
    rollback_restores reachable_twoRows.opened hdatabase (Option.isNone_iff_eq_none.1 hidle)
      ⟨1, hroom⟩ hinside
  exact ⟨began, ended, restored, hbegin, hend, hrestored, by rw [hview, view, hdatabase]; rfl⟩

/-! ### The bookkeeping -/

/-- The answer of COMMIT and ROLLBACK to a copy without an identifier. -/
def inconsistent : QueryResult :=
  messageResult false (bytes "transaction state is inconsistent")

/-- There is a copy exactly when there is an identifier, and no other transaction is active; so
COMMIT and ROLLBACK never find the state inconsistent, and reads go to the row versions only
inside a transaction. -/
structure Bookkept (s : QueryExecutor) : Prop where
  snapshot_iff : s.transactionSnapshot.isSome = true ↔ s.activeTransaction.isSome = true
  active : ∀ id, s.transactionManager.find id = some .active → s.activeTransaction = some id
  commit : (executeCommit s).1 ≠ .ok inconsistent
  rollback : (executeRollback s).1 ≠ .ok inconsistent
  read : s.readVersion.isSome = true → s.transactionSnapshot.isSome = true

/-- Ended transactions stay as they ended, and identifiers stay handed out. -/
structure Persists (s t : QueryExecutor) : Prop where
  ended : ∀ id state, state ≠ .active → s.transactionManager.find id = some state →
    t.transactionManager.find id = some state
  handed : ∀ id, s.transactionManager.find id ≠ none → t.transactionManager.find id ≠ none

theorem Persists.refl (s : QueryExecutor) : Persists s s := ⟨fun _ _ _ h => h, fun _ h => h⟩

theorem Persists.trans {u : QueryExecutor} (h : Persists s t) (h' : Persists t u) :
    Persists s u where
  ended id state hne hfind := h'.ended id state hne (h.ended id state hne hfind)
  handed id hfind := h'.handed id (h.handed id hfind)

theorem persists_of_manager (h : t.transactionManager = s.transactionManager) : Persists s t := by
  constructor
  · intro id state _ hfind
    rwa [h]
  · intro id hfind
    rwa [h]

theorem bookkept_of (hiff : s.transactionSnapshot.isSome = true ↔ s.activeTransaction.isSome = true)
    (hactive : ∀ id, s.transactionManager.find id = some .active → s.activeTransaction = some id) :
    Bookkept s := by
  have hread : s.readVersion.isSome = true → s.transactionSnapshot.isSome = true := by
    intro h
    rw [readVersion, Option.isSome_map] at h
    exact hiff.2 h
  have hidle : messageResult false (bytes "no active transaction") ≠ inconsistent := by decide
  have hcommitted : messageResult true (bytes "committed transaction") ≠ inconsistent := by decide
  have hrolledBack : messageResult true (bytes "rolled back transaction") ≠ inconsistent := by
    decide
  cases hcopy : s.transactionSnapshot with
  | none =>
    refine ⟨hiff, hactive, ?_, ?_, hread⟩
    · rw [(end_idle hcopy).1]
      exact fun h => hidle (Except.ok.inj h)
    · rw [(end_idle hcopy).2]
      exact fun h => hidle (Except.ok.inj h)
  | some copy =>
    obtain ⟨id, hid⟩ := Option.isSome_iff_exists.1 (hiff.1 (by rw [hcopy]; rfl))
    refine ⟨hiff, hactive, ?_, ?_, hread⟩
    · rw [executeCommit_active hcopy hid]
      cases s.transactionManager.commit id with
      | error e => exact fun h => by cases h
      | ok manager => exact fun h => hcommitted (Except.ok.inj h)
    · rw [executeRollback_active hcopy hid]
      cases s.transactionManager.rollback id with
      | error e => exact fun h => by cases h
      | ok manager => exact fun h => hrolledBack (Except.ok.inj h)

/-- What a command needs to keep the books: LOAD DATABASE does not succeed inside a transaction,
and BEGIN finds an identifier that has not been handed out. -/
structure Orderly (platform : Platform) (s : QueryExecutor) (query : Query) : Prop where
  load : ∀ command database, query = .loadDatabase command →
    s.databaseToLoad platform command = .ok database → s.transactionSnapshot = none
  room : query = .beginTransaction → ∃ id, s.transactionManager.find id = none

/-- The identifier that the command hands out, if it begins a transaction. -/
def handedOut (s : QueryExecutor) (query : Query) : List TransactionId :=
  if query = .beginTransaction ∧ s.database.isSome = true ∧ s.transactionSnapshot.isNone = true then
    [s.transactionManager.begin.1]
  else []

theorem handedOut_of_ne {query : Query} (h : query ≠ .beginTransaction) : s.handedOut query = [] :=
  if_neg fun hall => h hall.1

/-- What one command does to the books. -/
structure Booked (s : QueryExecutor) (ids : List TransactionId) (t : QueryExecutor) : Prop where
  bookkept : Bookkept t
  persists : Persists s t
  fresh : ids.Nodup ∧ ∀ id ∈ ids, s.transactionManager.find id = none ∧
    t.transactionManager.find id ≠ none

theorem Bookkept.of_transactions (h : Bookkept s) (ht : t.transactions = s.transactions) :
    Bookkept t := by
  have hcopy : t.transactionSnapshot = s.transactionSnapshot := congrArg Prod.fst ht
  have hmanager : t.transactionManager = s.transactionManager := congrArg (fun x => x.2.1) ht
  have hid : t.activeTransaction = s.activeTransaction := congrArg (fun x => x.2.2) ht
  refine bookkept_of ?_ ?_
  · rw [hcopy, hid]
    exact h.snapshot_iff
  · rw [hmanager, hid]
    exact h.active

theorem Bookkept.booked_nil (h : Bookkept s) (ht : t.transactions = s.transactions) :
    Booked s [] t :=
  ⟨h.of_transactions ht, persists_of_manager (congrArg (fun x => x.2.1) ht), by simp⟩

theorem Bookkept.booked_load (h : Bookkept s) {command : LoadDatabase}
    (ho : Orderly platform s (.loadDatabase command)) :
    Booked s [] (executeLoadDatabase platform command s).2 := by
  cases hload : s.databaseToLoad platform command with
  | error e =>
    rw [executeLoadDatabase, get_bind, hload]
    exact h.booked_nil rfl
  | ok database =>
    rw [executeLoadDatabase, get_bind, hload]
    refine h.booked_nil ?_
    change (none, s.transactionManager, s.activeTransaction) = s.transactions
    rw [transactions, ho.load command database rfl hload]

theorem Bookkept.booked_begin (h : Bookkept s) (hc : s.Consistent false) (hn : s.Numbered)
    (ho : Orderly platform s .beginTransaction) :
    Booked s (s.handedOut .beginTransaction) (executeBegin s).2 := by
  cases hd : s.database with
  | none =>
    rw [executeBegin_none hd, handedOut, if_neg (by simp [hd])]
    exact h.booked_nil rfl
  | some database =>
    cases hcopy : s.transactionSnapshot with
    | some copy =>
      rw [executeBegin_active hd hcopy, handedOut, if_neg (by simp [hcopy])]
      exact h.booked_nil rfl
    | none =>
      obtain ⟨count, hcount⟩ := hn
      obtain ⟨copy, hclone, -, -⟩ := Database.view_clone (hc.sound database hd)
      have hfresh := hcount.fresh (ho.room rfl)
      have hbegun := TransactionManager.find_begun hfresh
      -- no transaction is active before, since there is no copy
      have hnone : s.activeTransaction = none := by
        have := h.snapshot_iff
        rw [hcopy] at this
        simpa using this
      rw [executeBegin_idle hd hcopy hclone, handedOut, if_pos (by simp [hd, hcopy])]
      refine ⟨bookkept_of (by simp) ?_, ⟨?_, ?_⟩, by simp, ?_⟩
      · intro id hid
        simp only [TransactionManager.find_begin] at hid
        split_ifs at hid with heq
        · rw [heq]
          rfl
        · have := h.active id hid
          rw [hnone] at this
          cases this
      · intro id state _ hid
        simp only [TransactionManager.find_begin]
        split_ifs with heq
        · rw [heq, hfresh] at hid
          cases hid
        · exact hid
      · intro id hid
        simp only [TransactionManager.find_begin]
        split_ifs with heq
        · simp
        · exact hid
      · refine List.forall_mem_singleton.2 ⟨hfresh, ?_⟩
        rw [hbegun]
        simp

/-- Ending the active transaction. -/
theorem Bookkept.booked_finish (h : Bookkept s) {id : TransactionId} {state : TransactionState}
    {message : String} {manager : TransactionManager} (hid : s.activeTransaction = some id)
    (hstate : state ≠ .active) (hend : s.transactionManager.finish id state message = .ok manager)
    (hcopy : t.transactionSnapshot = none) (hactive : t.activeTransaction = none)
    (hmanager : t.transactionManager = manager) : Booked s [] t := by
  obtain ⟨hwas, -, hfind⟩ := TransactionManager.finish_ok hend
  refine ⟨bookkept_of (by simp [hcopy, hactive]) ?_, ⟨?_, ?_⟩, by simp⟩
  · intro id' hid'
    rw [hmanager, hfind] at hid'
    split_ifs at hid' with heq
    · exact absurd (Option.some.inj hid') hstate
    · have := h.active id' hid'
      rw [hid] at this
      exact absurd (Option.some.inj this).symm heq
  · intro id' state' hne hid'
    rw [hmanager, hfind]
    split_ifs with heq
    · rw [heq, hwas] at hid'
      exact absurd (Option.some.inj hid').symm hne
    · exact hid'
  · intro id' hid'
    rw [hmanager, hfind]
    split_ifs
    · simp
    · exact hid'

theorem Bookkept.booked_commit (h : Bookkept s) : Booked s [] (executeCommit s).2 := by
  cases hcopy : s.transactionSnapshot with
  | none => rw [(end_idle hcopy).1]; exact h.booked_nil rfl
  | some copy =>
    obtain ⟨id, hid⟩ := Option.isSome_iff_exists.1 (h.snapshot_iff.1 (by rw [hcopy]; rfl))
    rw [executeCommit_active hcopy hid]
    cases hend : s.transactionManager.commit id with
    | error e => exact h.booked_nil rfl
    | ok manager => exact h.booked_finish hid (by decide) hend rfl rfl rfl

theorem Bookkept.booked_rollback (h : Bookkept s) : Booked s [] (executeRollback s).2 := by
  cases hcopy : s.transactionSnapshot with
  | none => rw [(end_idle hcopy).2]; exact h.booked_nil rfl
  | some copy =>
    obtain ⟨id, hid⟩ := Option.isSome_iff_exists.1 (h.snapshot_iff.1 (by rw [hcopy]; rfl))
    rw [executeRollback_active hcopy hid]
    cases hend : s.transactionManager.rollback id with
    | error e => exact h.booked_nil rfl
    | ok manager => exact h.booked_finish hid (by decide) hend rfl rfl rfl

/-- An orderly command keeps the books. -/
theorem Bookkept.booked (h : Bookkept s) (hc : s.Consistent false) (hn : s.Numbered)
    {query : Query} (ho : Orderly platform s query) :
    Booked s (s.handedOut query) (executeUnlocked platform query s).2 := by
  by_cases hcalm : query.Calm
  · rw [handedOut_of_ne (by rintro rfl; exact hcalm)]
    exact h.booked_nil (transactions_executeUnlocked hcalm platform s)
  · cases query with
    | loadDatabase command =>
      rw [handedOut_of_ne (by simp)]
      exact h.booked_load ho
    | beginTransaction => exact h.booked_begin hc hn ho
    | commitTransaction =>
      rw [handedOut_of_ne (by simp)]
      exact h.booked_commit
    | rollbackTransaction =>
      rw [handedOut_of_ne (by simp)]
      exact h.booked_rollback
    | _ => exact absurd trivial hcalm

/-! ### Sessions -/

/-- The states that an executor reaches from `s` by orderly statements, with the identifiers that
it has handed out on the way, the last one first. -/
inductive Session (platform : Platform) (s : QueryExecutor) :
    List TransactionId → QueryExecutor → Prop
  | nil : Session platform s [] s
  | statement {ids : List TransactionId} {t : QueryExecutor} (h : Session platform s ids t)
    {sql : Str} {query : Query} (hparse : Parser.parse sql = .ok query) (depth : ℕ)
    (hq : ∀ q, t.resolved depth query = some q → Orderly platform t q) :
    Session platform s (((t.resolved depth query).elim [] t.handedOut) ++ ids)
      (execute platform depth query t).2

/-- Bookkeeping along a session: the books are kept, and no identifier is handed out twice nor was
handed out before the session. -/
structure BookedSession (s : QueryExecutor) (ids : List TransactionId) (t : QueryExecutor) :
    Prop where
  bookkept : Bookkept t
  persists : Persists s t
  nodup : ids.Nodup
  fresh : ∀ id ∈ ids, s.transactionManager.find id = none ∧ t.transactionManager.find id ≠ none

theorem BookedSession.step {ids new : List TransactionId} {u : QueryExecutor}
    (h : BookedSession s ids t) (hnew : Booked t new u) : BookedSession s (new ++ ids) u where
  bookkept := hnew.bookkept
  persists := h.persists.trans hnew.persists
  nodup := by
    refine List.nodup_append.2 ⟨hnew.fresh.1, h.nodup, fun id hid id' hid' heq => ?_⟩
    subst heq
    exact (h.fresh id hid').2 (hnew.fresh.2 id hid).1
  fresh := by
    intro id hid
    rcases List.mem_append.1 hid with hid | hid
    · obtain ⟨hnone, hsome⟩ := hnew.fresh.2 id hid
      refine ⟨?_, hsome⟩
      by_contra hfound
      exact h.persists.handed id hfound hnone
    · exact ⟨(h.fresh id hid).1, hnew.persists.handed id (h.fresh id hid).2⟩

theorem Session.command {ids : List TransactionId} (h : Session platform s ids t) {sql : Str}
    {query : Query} (hparse : Parser.parse sql = .ok query)
    (hresolved : t.resolved 1 query = some query) (hq : Orderly platform t query) :
    Session platform s (t.handedOut query ++ ids) (execute platform 1 query t).2 := by
  have hstep := h.statement hparse 1 (by
    rintro q hres
    rw [hresolved] at hres
    cases hres
    exact hq)
  rwa [hresolved] at hstep

/-- A session keeps the books. -/
theorem Session.booked {ids : List TransactionId} (h : Session platform s ids t)
    (hs : Opened platform s) (hbook : Bookkept s) :
    Opened platform t ∧ BookedSession s ids t := by
  induction h with
  | nil => exact ⟨hs, hbook, .refl s, .nil, by simp⟩
  | @statement ids t _ sql query hparse depth hq ih =>
    obtain ⟨hopened, hbooked⟩ := ih
    refine ⟨hopened.statement hparse depth, ?_⟩
    rcases execute_parsed platform t depth hparse with ⟨q, hres, -, hrun⟩ | ⟨hnone, e, hrun⟩
    · rw [hrun, hres]
      exact hbooked.step
        (hbooked.bookkept.booked hopened.consistent hopened.numbered (hq q hres))
    · rw [hrun, hnone]
      exact hbooked.step (hbooked.bookkept.booked_nil rfl)

/-- A new executor on files that an executor has left. -/
theorem bookkept_start {disk : Disk}
    (hdisk : disk = .empty ∨ ∃ r, Reachable platform r ∧ disk = r.storage.disk) :
    Bookkept (start platform disk) := by
  have hnone : (start platform disk).transactions = (none, .new, none) := by
    rcases hdisk with rfl | ⟨r, hr, rfl⟩
    · exact transactions_start WriteAheadLog.holds_empty (by simp)
    · obtain ⟨records, hrecords, hchanges⟩ := hr.changeLog
      exact transactions_start hrecords.restart hchanges
  have hcopy : (start platform disk).transactionSnapshot = none := congrArg Prod.fst hnone
  have hmanager : (start platform disk).transactionManager = .new :=
    congrArg (fun x => x.2.1) hnone
  have hid : (start platform disk).activeTransaction = none := congrArg (fun x => x.2.2) hnone
  refine bookkept_of (by simp [hcopy, hid]) ?_
  rw [hmanager]
  rintro id ⟨⟩

/-- **The bookkeeping of transactions is consistent in every state that an executor reaches by
orderly statements**: there is a copy exactly when there is an identifier, no other transaction is
active, identifiers are never handed out twice, and an ended transaction never changes again. -/
theorem bookkept_session {disk : Disk}
    (hdisk : disk = .empty ∨ ∃ r, Reachable platform r ∧ disk = r.storage.disk)
    {ids : List TransactionId} (h : Session platform (start platform disk) ids s) :
    Bookkept s ∧ ids.Nodup ∧ ∀ later t, Session platform s later t →
      (later ++ ids).Nodup ∧ ∀ id state, state ≠ .active →
        s.transactionManager.find id = some state → t.transactionManager.find id = some state := by
  obtain ⟨hopened, hbooked⟩ := h.booked (.start disk) (bookkept_start hdisk)
  refine ⟨hbooked.bookkept, hbooked.nodup, fun later t hlater => ?_⟩
  obtain ⟨-, hnext⟩ := hlater.booked hopened hbooked.bookkept
  refine ⟨?_, hnext.persists.ended⟩
  refine List.nodup_append.2 ⟨hnext.nodup, hbooked.nodup, fun id hid id' hid' heq => ?_⟩
  subst heq
  exact (hbooked.fresh id hid').2 (hnext.fresh id hid).1

/-- A database is made and a transaction begun. -/
def madeDatabase : QueryExecutor :=
  (execute (.byInsertion true) 1 (.createDatabase ⟨bytes "d"⟩) (start (.byInsertion true) .empty)).2

theorem bookkept_session_began :
    Session (.byInsertion true) (start (.byInsertion true) .empty) [1]
        (execute (.byInsertion true) 1 .beginTransaction madeDatabase).2 ∧
      Bookkept (execute (.byInsertion true) 1 .beginTransaction madeDatabase).2 := by
  have hmade : Session (.byInsertion true) (start (.byInsertion true) .empty) [] madeDatabase :=
    Session.nil.command (show Parser.parse (bytes "CREATE DATABASE d;") =
      .ok (.createDatabase ⟨bytes "d"⟩) by decide +kernel) rfl ⟨by simp, by simp⟩
  have hroom : madeDatabase.transactionManager.find 1 = none := by decide +kernel
  have hids : madeDatabase.handedOut .beginTransaction = [1] := by decide +kernel
  have hbegan := hmade.command
    (show Parser.parse (bytes "BEGIN;") = .ok .beginTransaction by decide +kernel) rfl
    ⟨by simp, fun _ => ⟨1, hroom⟩⟩
  rw [hids] at hbegan
  exact ⟨hbegan, (bookkept_session (.inl rfl) hbegan).1⟩

/-- LOAD DATABASE inside a transaction. -/
def loadedInside : QueryExecutor := runSql (.byInsertion true)
  ["CREATE DATABASE d;", "SAVE DATABASE;", "BEGIN;", "LOAD DATABASE;"]
  (start (.byInsertion true) .empty)

/-- There is no copy any more, but the transaction is still active. -/
theorem not_bookkept_loadedInside :
    Reachable (.byInsertion true) loadedInside ∧ ¬ Bookkept loadedInside := by
  refine ⟨Reachable.start.runSql _, fun h => ?_⟩
  have hcopy : loadedInside.transactionSnapshot.isSome = false := by decide +kernel
  have hactive : loadedInside.activeTransaction.isSome = true := by decide +kernel
  have := h.snapshot_iff.2 hactive
  rw [hcopy] at this
  cases this

end QueryExecutor

end VertexDB
