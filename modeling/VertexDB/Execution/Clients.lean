import VertexDB.Execution.ExecuteChains
import VertexDB.Lib.Linearizability

/-!
# Concurrent clients

`execute` takes the lock once for every statement but `EXECUTE`.  An `EXECUTE` takes it to read the
text of the prepared statement, lets it go, and takes it again to run the statement of the text.
`sections` are these pieces, and clients run them in any order.

Another client may prepare the name anew in between.  Then the old text runs, possibly on a
database that was changed after the name, and no sequence of the calls explains that
(`not_linearizable_stale`).  `linearizable_clients` shows that nothing else goes wrong.
-/

namespace VertexDB

open Ascii Procedure Linearizability

namespace QueryExecutor

/-- What a call of `execute` returns or throws. -/
abbrev Outcome := Except Exception QueryResult

/-- One section of a statement.  That of an `EXECUTE` reads the text under the lock; the text is
bound and parsed on the way to the next section. -/
def sections (platform : Platform) : Sections QueryExecutor Query Outcome
  | .executePrepared command, s => match s.bindPreparedSql command with
    | .error e => (.inl (.error e), s)
    | .ok sql => match Parser.parse sql with
      | .error e => (.inl (.error e), s)
      | .ok next => (.inr next, s)
  | query, s => (.inl (executeUnlocked platform query s).1, (executeUnlocked platform query s).2)

variable {platform : Platform} {s t : QueryExecutor} {query next : Query} {outcome : Outcome}

theorem sections_of_not_executePrepared (h : ∀ command, query ≠ .executePrepared command) :
    sections platform query s =
      (.inl (executeUnlocked platform query s).1, (executeUnlocked platform query s).2) := by
  cases query with
  | executePrepared command => exact absurd rfl (h command)
  | _ => rfl

/-- The first section of an `EXECUTE` changes nothing. -/
theorem state_sections (platform : Platform) (query : Query) (s : QueryExecutor) :
    (sections platform query s).2 = (executeUnlocked platform query s).2 := by
  by_cases hprepared : ∃ command, query = .executePrepared command
  · obtain ⟨command, rfl⟩ := hprepared
    rw [sections]
    cases s.bindPreparedSql command with
    | error e => rfl
    | ok sql =>
      simp only
      cases Parser.parse sql <;> rfl
  · rw [sections_of_not_executePrepared fun command heq => hprepared ⟨command, heq⟩]

/-- What a statement returns with its first section. -/
theorem executeUnlocked_of_sections_ok {result : QueryResult}
    (h : (sections platform query s).1 = .inl (.ok result)) :
    (executeUnlocked platform query s).1 = .ok result := by
  by_cases hprepared : ∃ command, query = .executePrepared command
  · obtain ⟨command, rfl⟩ := hprepared
    rw [sections] at h
    cases hbind : s.bindPreparedSql command with
    | error e => rw [hbind] at h; cases h
    | ok sql =>
      simp only [hbind] at h
      cases hparse : Parser.parse sql <;> rw [hparse] at h <;> cases h
  · rw [sections_of_not_executePrepared fun command heq => hprepared ⟨command, heq⟩] at h
    exact Sum.inl.inj h

/-- The sections before the last one are the links of the chain of the statement. -/
theorem sections_eq_inr_iff : sections platform query s = (.inr next, t) ↔
    s.Calls query next ∧ t = s := by
  constructor
  · intro h
    cases query with
    | executePrepared command =>
      rw [sections] at h
      cases hbind : s.bindPreparedSql command with
      | error e => simp only [hbind] at h; cases h
      | ok sql =>
        cases hparse : Parser.parse sql with
        | error e => simp only [hbind, hparse] at h; cases h
        | ok found =>
          simp only [hbind, hparse] at h
          cases h
          exact ⟨⟨command, sql, rfl, hbind, hparse⟩, rfl⟩
    | _ => cases h
  · rintro ⟨⟨command, sql, rfl, hbind, hparse⟩, rfl⟩
    simp only [sections, hbind, hparse]

/-- A statement that returns with its first section runs like this at every depth. -/
theorem execute_of_sections_inl (h : sections platform query s = (.inl outcome, t)) (depth : ℕ) :
    execute platform (depth + 1) query s = (outcome, t) := by
  by_cases hprepared : ∃ command, query = .executePrepared command
  · obtain ⟨command, rfl⟩ := hprepared
    rw [sections] at h
    rw [execute, get_bind]
    cases hbind : s.bindPreparedSql command with
    | error e => simp only [hbind] at h; cases h; rfl
    | ok sql =>
      rw [lift_ok_bind]
      cases hparse : Parser.parse sql with
      | error e => simp only [hbind, hparse] at h; cases h; rfl
      | ok found => simp only [hbind, hparse] at h; cases h
  · have hne : ∀ command, query ≠ .executePrepared command :=
      fun command heq => hprepared ⟨command, heq⟩
    rw [sections_of_not_executePrepared hne] at h
    cases h
    rw [execute]
    exact hne

/-- **The sections of a statement, without interruption, are `execute`**, at some depth and then
at every greater one. -/
theorem execute_of_runs (h : Runs (sections platform) query s outcome t) :
    ∃ depth, ∀ more, execute platform (depth + more) query s = (outcome, t) := by
  induction h with
  | returns h =>
    refine ⟨1, fun more => ?_⟩
    rw [Nat.add_comm]
    exact execute_of_sections_inl h more
  | goesOn h _ ih =>
    obtain ⟨hcalls, rfl⟩ := sections_eq_inr_iff.1 h
    obtain ⟨depth, hdepth⟩ := ih
    refine ⟨depth + 1, fun more => ?_⟩
    rw [Nat.succ_add, execute_of_calls hcalls, hdepth]

/-! ### Texts that calls on their way have read -/

/-- The name of the prepared statement that a query executes. -/
def executedName : Query → Option Str
  | .executePrepared command => some command.name
  | _ => none

/-- No `PREPARE` changes the text of a name that the call of another client has read. -/
def Undisturbed {ι : Type} (system : System ι QueryExecutor Query Outcome) : Event ι Query → Prop
  | .invoke _ _ => True
  | .advance client => ∀ call command, system.pending client = some call →
      call.rest = .prepareStatement command → ∀ other call', other ≠ client →
        system.pending other = some call' → command.name ∈ call'.trail.filterMap executedName →
          system.state.preparedStatements.find? command.name = some command.sql

/-- A call is as fresh as before when the texts that it has read are the same. -/
theorem fresh_congr {call : Pending Query} (h : Fresh (sections platform) s call)
    (htexts : ∀ name ∈ call.trail.filterMap executedName,
      t.preparedStatements.find? name = s.preparedStatements.find? name) :
    Fresh (sections platform) t call := by
  refine ⟨h.1.imp_of_mem_tail_imp fun later earlier _ hearlier hstep => ?_, h.2⟩
  obtain ⟨⟨command, sql, rfl, hbind, hparse⟩, -⟩ := sections_eq_inr_iff.1 hstep
  have htext := htexts command.name (List.mem_filterMap.2 ⟨_, hearlier, rfl⟩)
  refine sections_eq_inr_iff.2 ⟨⟨command, sql, rfl, ?_, hparse⟩, rfl⟩
  rw [bindPreparedSql, htext]
  exact hbind

/-- A section other than a `PREPARE` leaves every text alone. -/
theorem preparedStatements_sections (hquery : ∀ command, query ≠ .prepareStatement command) :
    (sections platform query s).2.preparedStatements = s.preparedStatements := by
  rw [state_sections]
  exact preparedStatements_executeUnlocked platform hquery s

variable {ι : Type} [DecidableEq ι] {system : System ι QueryExecutor Query Outcome}

/-- The state after a section of the call of a client. -/
theorem state_advance {client : ι} {call : Pending Query}
    (hcall : system.pending client = some call) :
    (system.next (sections platform) (.advance client)).state =
      (sections platform call.rest system.state).2 := by
  simp only [System.next, hcall]
  rcases sections platform call.rest system.state with ⟨response | rest, state⟩ <;> rfl

theorem keepsFresh_of_undisturbed {event : Event ι Query} (h : Undisturbed system event) :
    KeepsFresh (sections platform) system event := by
  cases event with
  | invoke client operation => trivial
  | advance client =>
    intro other call' hother hcall' hfresh
    cases hcall : system.pending client with
    | none =>
      simp only [System.next, hcall]
      exact hfresh
    | some call =>
      rw [state_advance hcall]
      refine fresh_congr hfresh fun name hname => ?_
      by_cases hprepare : ∃ command, call.rest = .prepareStatement command
      · obtain ⟨command, hrest⟩ := hprepare
        have hstate : (sections platform call.rest system.state).2 =
            system.state.prepare command := by
          rw [hrest]
          rfl
        rw [hstate, prepare, SortedMap.find?_insert]
        split_ifs with heq
        · subst heq
          exact (h call command hcall hrest other call' hother hcall' hname).symm
        · rfl
      · rw [preparedStatements_sections fun command hrest => hprepare ⟨command, hrest⟩]

/-- **Statements of concurrent clients are linearizable** as long as no `PREPARE` changes the text
of a name while the call of another client, which has read it, is on its way. -/
theorem linearizable_clients (platform : Platform) (initial : QueryExecutor)
    {events : List (Event ι Query)}
    (h : System.Along (sections platform) Undisturbed (System.start initial) events) :
    Linearizable (sections platform) initial
      (System.run (sections platform) (System.start initial) events) :=
  linearizable_run (fun _ _ _ _ hstep => (sections_eq_inr_iff.1 hstep).2)
    (h.mono fun _ _ => keepsFresh_of_undisturbed)

/-- A table `t` without rows, and `SELECT * FROM t;` under the name `p`. -/
def selecting : QueryExecutor := runSql (.byInsertion true)
  ["CREATE DATABASE d;", "CREATE TABLE t (a INT);", "PREPARE p AS \"SELECT * FROM t;\""]
  (start (.byInsertion true) .empty)

/-- One client executes `p` while the other one inserts a row. -/
def insertEvents : List (Event Bool Query) :=
  [.invoke false (.executePrepared ⟨bytes "p", []⟩),
    .invoke true (.insert ⟨bytes "t", [[.int 1]]⟩), .advance false, .advance true, .advance false]

theorem linearizable_clients_insert :
    Linearizable (sections (.byInsertion true)) selecting
      (System.run (sections (.byInsertion true)) (System.start selecting) insertEvents) := by
  have hrest (events : List (Event Bool Query)) (client : Bool) (query : Query)
      (hquery : ∀ command, query ≠ .prepareStatement command)
      (hevents : ((System.run (sections (.byInsertion true)) (System.start selecting)
        events).pending client).map Pending.rest = some query) :
      Undisturbed (System.run (sections (.byInsertion true)) (System.start selecting) events)
        (.advance client) := by
    intro call command hcall hprepare
    rw [hcall] at hevents
    cases hevents
    exact absurd hprepare (hquery command)
  refine linearizable_clients (.byInsertion true) selecting ⟨trivial, trivial, ?_, ?_, ?_, trivial⟩
  · exact hrest (insertEvents.take 2) false (.executePrepared ⟨bytes "p", []⟩) nofun
      (by decide +kernel)
  · exact hrest (insertEvents.take 3) true (.insert ⟨bytes "t", [[.int 1]]⟩) nofun
      (by decide +kernel)
  · exact hrest (insertEvents.take 4) false
      (.select ⟨bytes "t", none, [bytes "*"], none, none, none⟩) nofun (by decide +kernel)

/-! ### A text that is changed in between -/

/-- Statements one after the other, each through at most `depth` prepared statements. -/
def replay (platform : Platform) (depth : ℕ) : List Query → QueryExecutor → List Outcome
  | [], _ => []
  | query :: queries, s =>
    (execute platform depth query s).1 ::
      replay platform depth queries (execute platform depth query s).2

theorem execute_eq_of_runs (h : Runs (sections platform) query s outcome t) {depth : ℕ}
    (hdepth : (execute platform depth query s).1 ≠ .error .outOfFuel) :
    execute platform depth query s = (outcome, t) := by
  induction h generalizing depth with
  | returns h =>
    cases depth with
    | zero => exact absurd rfl hdepth
    | succ depth => exact execute_of_sections_inl h depth
  | goesOn h _ ih =>
    obtain ⟨hcalls, rfl⟩ := sections_eq_inr_iff.1 h
    cases depth with
    | zero => exact absurd rfl hdepth
    | succ depth =>
      rw [execute_of_calls hcalls] at hdepth ⊢
      exact ih hdepth

/-- The responses of a sequence of calls are those of executing their statements in that order. -/
theorem replay_of_sequential {κ : Type} {order : List (Call κ Query Outcome)} (depth : ℕ)
    (h : Sequential (sections platform) s order t)
    (hdepth : ∀ o ∈ replay platform depth (order.map Call.operation) s, o ≠ .error .outOfFuel) :
    order.map Call.response = replay platform depth (order.map Call.operation) s := by
  induction order generalizing s with
  | nil => rfl
  | cons call order ih =>
    obtain ⟨next, hrun, hrest⟩ := h
    rw [List.map_cons, List.map_cons, replay] at *
    rw [List.forall_mem_cons] at hdepth
    have hexecute := execute_eq_of_runs hrun hdepth.1
    rw [hexecute] at hdepth ⊢
    rw [ih hrest hdepth.2]

/-- One client executes `p`; after its first section, the other one prepares `p` anew and then
inserts a row. -/
def staleEvents : List (Event Bool Query) :=
  [.invoke false (.executePrepared ⟨bytes "p", []⟩), .advance false,
    .invoke true (.prepareStatement ⟨bytes "p", bytes "LIST TABLES;"⟩), .advance true,
    .invoke true (.insert ⟨bytes "t", [[.int 1]]⟩), .advance true, .advance false]

/-- The first client sees the row of the `INSERT`, with the text before the `PREPARE`. -/
theorem not_linearizable_stale : Reachable (.byInsertion true) selecting ∧
    ¬ Linearizable (sections (.byInsertion true)) selecting
      (System.run (sections (.byInsertion true)) (System.start selecting) staleEvents) := by
  refine ⟨Reachable.start.runSql _, ?_⟩
  rintro ⟨order, hperm, hpairwise, hsequential⟩
  have hnone : ∀ order ∈ List.permutations' (System.run (sections (.byInsertion true))
      (System.start selecting) staleEvents).calls,
      (∀ o ∈ replay (.byInsertion true) 2 (order.map Call.operation) selecting,
        o ≠ .error .outOfFuel) ∧
      (order.Pairwise (fun a b => ¬ b.returned < a.invoked) →
        order.map Call.response ≠ replay (.byInsertion true) 2 (order.map Call.operation)
          selecting) := by
    decide +kernel
  obtain ⟨hdepth, hresponses⟩ := hnone order (List.mem_permutations'.2 hperm)
  exact hresponses hpairwise (replay_of_sequential 2 hsequential hdepth)

end QueryExecutor

end VertexDB
