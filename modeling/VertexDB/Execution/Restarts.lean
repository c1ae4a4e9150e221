import VertexDB.Execution.CrashSafety
import VertexDB.Execution.Sessions
import VertexDB.Execution.Transactions

/-!
# Restarts that nobody notices

Recovery brings back the database that the old executor showed, and forgets transactions, prepared
statements and the number that the log had cached.  A session whose statements need none of these
has the same replies whether or not the executor is restarted between them
(`restarts_unnoticed`).
-/

namespace VertexDB

open Ascii Procedure StorageManager

namespace QueryExecutor

/-! ### Restarts between texts -/

/-- A text is sent, or the executor is stopped and a new one is started on its files. -/
inductive Event
  | text (sql : Str)
  | restart
  deriving DecidableEq

section Serve

variable (platform : Platform) (depth : ℕ)

/-- The replies to the texts, and the executor at the end. -/
def serve : List Event → QueryExecutor → List Outcome × QueryExecutor
  | [], s => ([], s)
  | .restart :: rest, s => serve rest (start platform s.storage.disk)
  | .text sql :: rest, s =>
    let reply := respond platform depth sql s
    let session := serve rest reply.2
    (reply.1 :: session.1, session.2)

/-- The texts among the events. -/
def texts : List Event → List Str
  | [] => []
  | .restart :: rest => texts rest
  | .text sql :: rest => sql :: texts rest

/-- What each text comes to is allowed in the state in which it runs. -/
def ServesAllowed (allowed : QueryExecutor → Query → Prop) : List Event → QueryExecutor → Prop
  | [], _ => True
  | .restart :: rest, s => ServesAllowed allowed rest (start platform s.storage.disk)
  | .text sql :: rest, s => (∀ q, s.comesTo depth sql = some q → allowed s q) ∧
      ServesAllowed allowed rest (respond platform depth sql s).2

end Serve

/-- A statement outside transactions without doubles that prepares nothing, leaves files from which
its database is recovered, and does not throw for want of room or in the middle of a change. -/
structure Restartable (platform : Platform) (name : Str) (s : QueryExecutor) (query : Query) :
    Prop where
  outside : OutsideStatement name s query
  noPrepare : ∀ command, query ≠ .prepareStatement command
  savesIndexes : SavesIndexes platform s query
  loadsLive : LoadsLive platform s query
  wholeChange : ¬ PartialChange s.view query
  noFileFailure : ∀ e, (executeUnlocked platform query s).1 = .error e → ¬ FileFailure e

variable {platform : Platform} {depth : ℕ} {name : Str} {s t : QueryExecutor} {query : Query}

/-! ### What a restart forgets -/

/-- There is no transaction and there has been none, and nothing is prepared. -/
structure Idle (s : QueryExecutor) : Prop where
  transactionSnapshot : s.transactionSnapshot = none
  transactionManager : s.transactionManager = .new
  activeTransaction : s.activeTransaction = none
  preparedStatements : s.preparedStatements = .empty

theorem framed_idle (hquery : ∀ command, query ≠ .prepareStatement command) :
    Framed Idle query where
  database _ _ hs := { hs with }
  prepared command heq := absurd heq (hquery command)
  append operation payload _ := by
    intro s hs
    obtain ⟨storage, happend⟩ := appendWal_storage operation payload s
    rw [happend]
    exact { hs with }
  publish _ _ _ _ hs := { hs with }
  reset _ _ hs := { hs with }

theorem Restartable.idle (h : Restartable platform name s query) (hs : s.Idle) :
    (executeUnlocked platform query s).2.Idle := by
  by_cases hcalm : query.Calm
  · exact (framed_idle h.noPrepare).executeUnlocked hcalm platform s hs
  · cases query with
    | loadDatabase command =>
      change (executeLoadDatabase platform command s).2.Idle
      rw [executeLoadDatabase, get_bind]
      cases s.databaseToLoad platform command with
      | error e => exact hs
      | ok database => exact { hs with transactionSnapshot := rfl }
    | beginTransaction | commitTransaction | rollbackTransaction =>
      exact (h.outside.outside trivial).elim
    | _ => exact absurd trivial hcalm

theorem idle_start {disk : Disk} {records : List WalRecord}
    (h : WriteAheadLog.Holds ⟨disk, none, []⟩ records)
    (hchanges : ∀ record ∈ records, record.Changes) :
    (start platform disk).Idle := by
  refine start_of (fun _ _ hs => { hs with }) (fun _ hs => { hs with }) ?_
    fun _ _ => ⟨rfl, rfl, rfl, rfl⟩
  intro records' hread record hrecord s hs
  rw [h.readAll_eq] at hread
  cases hread
  refine keeps_replayRecord_of (fun _ _ _ hs => { hs with })
    (fun hsave hcreate query hparse => ?_) s hs
  rcases hchanges record hrecord with hrecord | hrecord | hrecord
  · exact absurd hrecord hsave
  · exact absurd hrecord hcreate
  · obtain ⟨change, rfl⟩ := hrecord query hparse
    refine (framed_idle ?_).executeUnlocked change.calm platform
    rintro command heq
    cases change <;> cases heq

/-! ### Sessions with restarts -/

/-- An executor that may be restarted, and one that has been given the same texts and never was. -/
structure Twins (platform : Platform) (name : Str) (s t : QueryExecutor) : Prop where
  reachable : Reachable platform s
  durable : Durable platform name s
  idle : s.Idle
  agree : Agree (fun _ => True) Storage.SameButNumbers s t

/-- A restart is not noticed. -/
theorem Twins.restart (h : Twins platform name s t) :
    Twins platform name (start platform s.storage.disk) t := by
  have hdurable := h.durable.leads.durable_start
  obtain ⟨hview, hstorage⟩ := h.durable.leads.start
  obtain ⟨records, hrecords, hchanges⟩ := h.reachable.changeLog
  have hidle : (start platform s.storage.disk).Idle := idle_start hrecords.restart hchanges
  have hagree := h.agree
  obtain ⟨-, hsound, hsame⟩ := Database.rel_agree_true_iff.1 hagree.database
  refine ⟨h.reachable.restart, hdurable, hidle, ?_⟩
  constructor
  · exact Database.rel_agree_true_iff.2 ⟨hdurable.valid.sound, hsound, hview.trans hsame⟩
  · rw [hidle.transactionSnapshot, ← h.idle.transactionSnapshot]
    exact hagree.transactionSnapshot
  · rw [hstorage]
    exact hagree.storage.restart
  · rw [hidle.transactionManager, ← h.idle.transactionManager, hagree.transactionManager]
  · rw [hidle.activeTransaction, ← h.idle.activeTransaction, hagree.activeTransaction]
  · rw [hidle.preparedStatements, ← h.idle.preparedStatements, hagree.preparedStatements]
  · rw [hdurable.valid.replaying_eq, ← h.durable.valid.replaying_eq, hagree.replayingWal]

/-- A statement that may be restarted leaves files from which its database is recovered. -/
theorem Restartable.durable (h : Restartable platform name s query) (hwell : query.WellFormed)
    (hs : Durable platform name s) :
    Durable platform name (executeUnlocked platform query s).2 := by
  rcases hrun : executeUnlocked platform query s with ⟨e | result, s'⟩
  · exact hs.throws hwell h.wholeChange hrun (h.noFileFailure e (by rw [hrun]))
  · exact hs.returns hwell h.outside h.savesIndexes h.loadsLive hrun

/-- A statement has the same reply on twins, and leaves twins. -/
theorem Twins.text (h : Twins platform name s t) {sql : Str}
    (hallowed : ∀ q, s.comesTo depth sql = some q → Restartable platform name s q) :
    (respond platform depth sql s).1 = (respond platform depth sql t).1 ∧
      Twins platform name (respond platform depth sql s).2 (respond platform depth sql t).2 := by
  obtain ⟨hreply, hagree⟩ := Agree.of_related (h.agree.text fun q _ =>
    h.agree.command platform fun _ _ => h.idle.activeTransaction)
  refine ⟨hreply, reachable_respond h.reachable depth sql, ?_, ?_, hagree⟩
  · rcases respond_comesTo platform depth s sql with ⟨q, hq, hwell, hrun⟩ | ⟨-, e, hrun⟩
    · rw [hrun]; exact (hallowed q hq).durable hwell h.durable
    · rw [hrun]; exact h.durable
  · rcases respond_comesTo platform depth s sql with ⟨q, hq, -, hrun⟩ | ⟨-, e, hrun⟩
    · rw [hrun]; exact (hallowed q hq).idle h.idle
    · rw [hrun]; exact h.idle

/-- The replies on twins are the same from here on, whatever is restarted. -/
theorem Twins.serve (h : Twins platform name s t) {events : List Event}
    (hallowed : ServesAllowed platform depth (Restartable platform name) events s) :
    (QueryExecutor.serve platform depth events s).1 =
        (converse platform depth (texts events) t).1 ∧
      (QueryExecutor.serve platform depth events s).2.view =
        (converse platform depth (texts events) t).2.view := by
  induction events generalizing s t with
  | nil => exact ⟨rfl, h.agree.view_eq⟩
  | cons event rest ih =>
    cases event with
    | restart => exact ih h.restart hallowed
    | text sql =>
      obtain ⟨hfirst, hrest⟩ := hallowed
      obtain ⟨hreply, hnext⟩ := h.text hfirst
      obtain ⟨hreplies, hview⟩ := ih hnext hrest
      refine ⟨?_, hview⟩
      rw [QueryExecutor.serve, texts, converse, hreply, hreplies]

/-- A new executor on an empty storage root. -/
theorem twins_start (platform : Platform) (name : Str) :
    Twins platform name (start platform .empty) (start platform .empty) := by
  have hreachable : Reachable platform (start platform .empty) := .start
  obtain ⟨records, hrecords⟩ := hreachable.valid.log
  have hidle : (start platform .empty).Idle :=
    idle_start WriteAheadLog.holds_empty fun _ h => absurd h List.not_mem_nil
  exact ⟨hreachable, leads_empty.durable_start, hidle, hreachable.valid.agree _ (.refl hrecords)⟩

/-- **Restarts are not noticed** between the statements of a session that may be restarted: the
replies are those of the session without restarts, and so is the database at the end. -/
theorem restarts_unnoticed {events : List Event} (hallowed : ServesAllowed platform depth
      (Restartable platform name) events (start platform .empty)) :
    (serve platform depth events (start platform .empty)).1 =
        (converse platform depth (texts events) (start platform .empty)).1 ∧
      (serve platform depth events (start platform .empty)).2.view =
        (converse platform depth (texts events) (start platform .empty)).2.view :=
  (twins_start platform name).serve hallowed

theorem ServesAllowed.mono {allowed allowed' : QueryExecutor → Query → Prop}
    (himp : ∀ s q, allowed s q → allowed' s q) {events : List Event}
    (h : ServesAllowed platform depth allowed events s) :
    ServesAllowed platform depth allowed' events s := by
  induction events generalizing s with
  | nil => trivial
  | cons event rest ih =>
    cases event with
    | restart => exact ih h
    | text sql => exact ⟨fun q hq => himp s q (h.1 q hq), ih h.2⟩

instance decidableServesAllowed (platform : Platform) (depth : ℕ)
    (allowed : QueryExecutor → Query → Prop) [∀ s q, Decidable (allowed s q)] :
    ∀ events s, Decidable (ServesAllowed platform depth allowed events s)
  | [], _ => instDecidableTrue
  | .restart :: rest, s =>
    decidableServesAllowed platform depth allowed rest (start platform s.storage.disk)
  | .text sql :: rest, s =>
    have := decidableServesAllowed platform depth allowed rest (respond platform depth sql s).2
    decidable_of_iff ((s.comesTo depth sql).all (fun q => decide (allowed s q)) = true ∧
      ServesAllowed platform depth allowed rest (respond platform depth sql s).2) (by
        rw [ServesAllowed]
        cases s.comesTo depth sql <;> simp)

/-- The command changes rows that are there. -/
def changesRows : Query → Bool
  | .update _ | .delete _ => true
  | _ => false

/-- A statement of a plain kind that changes no rows that are there, and returns. -/
def Simple (platform : Platform) (name : Str) (s : QueryExecutor) (query : Query) : Prop :=
  PlainStatement name s query ∧ changesRows query = false ∧
    (executeUnlocked platform query s).1.isOk

instance (platform : Platform) (name : Str) (s : QueryExecutor) (query : Query) :
    Decidable (Simple platform name s query) := inferInstanceAs (Decidable (_ ∧ _ ∧ _))

theorem Simple.restartable (hplatform : platform.leftToRight = true)
    (h : Simple platform name s query) : Restartable platform name s query := by
  obtain ⟨hplain, hkind, hok⟩ := h
  refine ⟨hplain.outside, ?_, fun _ _ _ => .inl hplatform, ?_, ?_, ?_⟩
  · rintro command rfl
    exact hplain.plain
  · rintro command database rfl
    exact absurd hplain.plain id
  · cases query with
    | update command => cases hkind
    | delete command => cases hkind
    | _ => exact id
  · intro e he
    rw [he] at hok
    cases hok

/-- A new executor before every statement. -/
def restartedEvents : List Event :=
  [.text (bytes "CREATE DATABASE d;"), .restart, .text (bytes "CREATE TABLE t (a INT);"),
    .restart, .text (bytes "INSERT INTO t VALUES (1), (2);"), .restart,
    .text (bytes "SAVE DATABASE;"), .restart, .text (bytes "INSERT INTO t VALUES (3);"),
    .restart, .text (bytes "SELECT * FROM t WHERE a > 1;")]

theorem restarts_unnoticed_restartedEvents :
    (serve (.byInsertion true) 1 restartedEvents (start (.byInsertion true) .empty)).1 =
      (converse (.byInsertion true) 1 (texts restartedEvents)
        (start (.byInsertion true) .empty)).1 := by
  have hsimple : ServesAllowed (.byInsertion true) 1 (Simple (.byInsertion true) (bytes "d"))
      restartedEvents (start (.byInsertion true) .empty) := by decide +kernel
  exact (restarts_unnoticed (hsimple.mono fun _ _ h => h.restartable rfl)).1

end QueryExecutor

end VertexDB
