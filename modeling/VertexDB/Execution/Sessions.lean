import VertexDB.Execution.Agreement

/-!
# Sessions

A client sends texts and gets replies, as the loop of the shell does with the lines it reads.
Two executors that agree reply alike for a whole session (`indistinguishable`), so a client that
reads outside transactions cannot tell how tables are stored, or which sequence numbers the log
has.
-/

namespace VertexDB

open Ascii Procedure

namespace QueryExecutor

section Session

variable (platform : Platform) (depth : ℕ)

/-- Parse a text and execute it. -/
def respond (sql : Str) : Exec QueryResult := do
  let query ← Procedure.lift (Parser.parse sql)
  execute platform depth query

/-- The replies to texts that are sent one after the other, and the executor at the end. -/
def converse : List Str → QueryExecutor → List Outcome × QueryExecutor
  | [], s => ([], s)
  | sql :: rest, s =>
    let reply := respond platform depth sql s
    let session := converse rest reply.2
    (reply.1 :: session.1, session.2)

/-- The command that a text comes to. -/
def comesTo (s : QueryExecutor) (sql : Str) : Option Query :=
  match Parser.parse sql with
  | .error _ => none
  | .ok query => s.resolved depth query

/-- What each text comes to is allowed in the state in which it runs. -/
def Allows (allowed : QueryExecutor → Query → Prop) : List Str → QueryExecutor → Prop
  | [], _ => True
  | sql :: rest, s => (∀ q, s.comesTo depth sql = some q → allowed s q) ∧
      Allows allowed rest (respond platform depth sql s).2

end Session

instance decidableAllows (platform : Platform) (depth : ℕ)
    (allowed : QueryExecutor → Query → Prop) [∀ s q, Decidable (allowed s q)] :
    ∀ texts s, Decidable (Allows platform depth allowed texts s)
  | [], _ => instDecidableTrue
  | sql :: rest, s =>
    have := decidableAllows platform depth allowed rest (respond platform depth sql s).2
    decidable_of_iff ((s.comesTo depth sql).all (fun q => decide (allowed s q)) = true ∧
      Allows platform depth allowed rest (respond platform depth sql s).2) (by
        rw [Allows]
        cases s.comesTo depth sql <;> simp)

instance (s : QueryExecutor) (query : Query) : Decidable (ReadsOutside s query) :=
  decidable_of_iff ((match query with | .select _ => true | _ => false) = true →
    s.activeTransaction = none) (by cases query <;> simp [ReadsOutside])

variable {platform : Platform} {depth : ℕ} {p : Str → Prop} {S : Storage → Storage → Prop}
  {fails : Exception → Prop} {s t : QueryExecutor}

/-- A text that cannot be parsed changes nothing. -/
theorem respond_error {sql : Str} {e : Exception} (h : Parser.parse sql = .error e) :
    respond platform depth sql s = (.error e, s) := by
  rw [respond, h]
  rfl

theorem respond_ok {sql : Str} {query : Query} (h : Parser.parse sql = .ok query) :
    respond platform depth sql s = execute platform depth query s := by
  rw [respond, h]
  rfl

theorem reachable_respond (h : Reachable platform s) (depth : ℕ) (sql : Str) :
    Reachable platform (respond platform depth sql s).2 := by
  cases hparse : Parser.parse sql with
  | error e => rw [respond_error hparse]; exact h
  | ok query => rw [respond_ok hparse]; exact h.statement hparse depth

/-- A text runs the command that it comes to, or is answered with an error and changes nothing. -/
theorem respond_comesTo (platform : Platform) (depth : ℕ) (s : QueryExecutor) (sql : Str) :
    (∃ q, s.comesTo depth sql = some q ∧ q.WellFormed ∧
      respond platform depth sql s = executeUnlocked platform q s) ∨
    s.comesTo depth sql = none ∧ ∃ e, respond platform depth sql s = (.error e, s) := by
  cases hparse : Parser.parse sql with
  | error e => exact .inr ⟨by rw [comesTo, hparse], e, respond_error hparse⟩
  | ok query =>
    rw [respond_ok hparse, comesTo, hparse]
    exact execute_parsed platform s depth hparse

/-! ### Executors that agree -/

/-- Executors that agree find the same command behind a chain of prepared statements. -/
theorem Agree.statement (h : Agree p S s t) {query : Query}
    (hrun : ∀ q, s.resolved depth query = some q → Related fails (Agree p S) Eq
      (executeUnlocked platform q s) (executeUnlocked platform q t)) :
    Related fails (Agree p S) Eq (execute platform depth query s)
      (execute platform depth query t) := by
  induction depth generalizing query with
  | zero => exact .error _ h
  | succ depth ih =>
    by_cases hprepared : ∃ command, query = .executePrepared command
    · obtain ⟨command, rfl⟩ := hprepared
      rw [execute, get_bind, get_bind]
      have hsql : t.bindPreparedSql command = s.bindPreparedSql command := by
        rw [bindPreparedSql, bindPreparedSql, h.preparedStatements]
      rw [hsql]
      rw [resolved] at hrun
      cases hbind : s.bindPreparedSql command with
      | error e => exact .error e h
      | ok sql =>
        rw [lift_ok_bind]
        cases hparse : Parser.parse sql with
        | error e => exact .error e h
        | ok next =>
          simp only [hbind, hparse] at hrun
          exact ih hrun
    · have hne : ∀ command, query = .executePrepared command → False :=
        fun command heq => hprepared ⟨command, heq⟩
      rw [execute]
      · exact hrun query (by rw [resolved]; exact hne)
      · exact hne

theorem Agree.text (h : Agree p S s t) {sql : Str}
    (hrun : ∀ q, s.comesTo depth sql = some q → Related fails (Agree p S) Eq
      (executeUnlocked platform q s) (executeUnlocked platform q t)) :
    Related fails (Agree p S) Eq (respond platform depth sql s) (respond platform depth sql t) := by
  cases hparse : Parser.parse sql with
  | error e =>
    rw [respond_error hparse, respond_error hparse]
    exact .error e h
  | ok query =>
    rw [respond_ok hparse, respond_ok hparse]
    rw [comesTo, hparse] at hrun
    exact h.statement hrun

/-- Two computations that end alike, and neither of which is let off. -/
theorem Agree.of_related {r r' : Outcome × QueryExecutor}
    (h : Related (fun _ => False) (Agree p S) Eq r r') : r.1 = r'.1 ∧ Agree p S r.2 r'.2 := by
  obtain ⟨houtcome, hagree⟩ := h.of_not_fails fun _ _ => id
  exact ⟨houtcome.eq, hagree⟩

/-- **Executors that agree reply alike in every session** whose SELECTs run outside transactions,
and agree at its end. -/
theorem indistinguishable (h : Agree (fun _ => True) Storage.SameButNumbers s t)
    {texts : List Str} (hread : Allows platform depth ReadsOutside texts s) :
    (converse platform depth texts s).1 = (converse platform depth texts t).1 ∧
      Agree (fun _ => True) Storage.SameButNumbers (converse platform depth texts s).2
        (converse platform depth texts t).2 := by
  induction texts generalizing s t with
  | nil => exact ⟨rfl, h⟩
  | cons sql rest ih =>
    obtain ⟨hfirst, hrest⟩ := hread
    obtain ⟨hreply, hnext⟩ := Agree.of_related (h.text fun q hq =>
      h.command platform (hfirst q hq))
    obtain ⟨hreplies, hend⟩ := ih hnext hrest
    refine ⟨?_, hend⟩
    rw [converse, converse, hreply, hreplies]

/-- An executor agrees with itself on a copy of its database. -/
theorem agree_clone (h : s.Valid false) {database copy : Database}
    (hdb : s.database = some database)
    (hcopy : database.clone = .ok copy) :
    Agree (fun _ => True) Storage.SameButNumbers s { s with database := some copy } := by
  obtain ⟨records, hrecords⟩ := h.log
  obtain ⟨_, hclone, hsound, hview⟩ := Database.view_clone (h.sound database hdb)
  cases hcopy.symm.trans hclone
  refine { h.agree _ (.refl hrecords) with database := ?_ }
  rw [hdb]
  exact .some (Database.agree_true_iff.2 ⟨h.sound database hdb, hsound, hview.symm⟩)

/-- Rows come, are read and go. -/
def insertReadDelete : List Str :=
  [bytes "INSERT INTO t VALUES (3), (1);", bytes "SELECT * FROM t WHERE a < 3;",
    bytes "DELETE FROM t WHERE a = 1;", bytes "SAVE DATABASE;"]

theorem indistinguishable_copy : ∃ copy, twoRows.database.map Database.clone = some (.ok copy) ∧
    (converse (.byInsertion true) 1 insertReadDelete twoRows).1 =
      (converse (.byInsertion true) 1 insertReadDelete
        { twoRows with database := some copy }).1 := by
  have hvalid := reachable_twoRows.valid
  have hview : twoRows.view.isSome = true := by decide +kernel
  obtain ⟨database, hdb⟩ := Option.isSome_iff_exists.1 ((Option.isSome_map ..).symm.trans hview)
  obtain ⟨copy, hcopy, -⟩ := Database.view_clone (hvalid.sound database hdb)
  refine ⟨copy, by rw [hdb, Option.map_some, hcopy], ?_⟩
  exact (indistinguishable (agree_clone hvalid hdb hcopy) (by decide +kernel)).1

end QueryExecutor

end VertexDB
