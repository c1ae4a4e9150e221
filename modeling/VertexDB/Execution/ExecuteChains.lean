import VertexDB.Execution.LogRecords
import VertexDB.Lib.Rewiring

/-!
# Chains of EXECUTE

The text of a prepared statement may itself be an `EXECUTE`, so `execute` follows a chain of
statements.  `Calls` is one link of it.  Where the chain ends, `execute` does what the last
statement does (`execute_of_ends`); where it does not, `execute` never returns
(`execute_of_not_ends`).

Nothing keeps a text from executing its own name (`not_ends_selfExecuting`).  `chains_end` shows
that this is the only obstacle: as long as no `PREPARE` closes such a circle, every chain ends.
-/

namespace VertexDB

open Ascii Procedure Relation

namespace QueryExecutor

variable {platform : Platform} {s t : QueryExecutor} {query next : Query}

/-- One link of a chain: the query is an `EXECUTE`, and its text, bound and parsed, is the next
one. -/
def Calls (s : QueryExecutor) (query next : Query) : Prop :=
  ∃ command sql, query = .executePrepared command ∧ s.bindPreparedSql command = .ok sql ∧
    Parser.parse sql = .ok next

/-- The chain that starts with the query comes to a statement that is no `EXECUTE`, or to a text
that cannot be bound or parsed. -/
def Ends (s : QueryExecutor) (query : Query) : Prop := Rewiring.Ends s.Calls query

theorem Calls.unique {next' : Query} (h : s.Calls query next) (h' : s.Calls query next') :
    next = next' := by
  obtain ⟨command, sql, rfl, hbind, hparse⟩ := h
  obtain ⟨command', sql', heq, hbind', hparse'⟩ := h'
  cases heq
  rw [hbind] at hbind'
  cases hbind'
  rw [hparse] at hparse'
  exact Except.ok.inj hparse'

/-! ### What EXECUTE does -/

/-- A link takes one level of depth. -/
theorem execute_of_calls (h : s.Calls query next) (depth : ℕ) :
    execute platform (depth + 1) query s = execute platform depth next s := by
  obtain ⟨command, sql, rfl, hbind, hparse⟩ := h
  rw [execute, get_bind, hbind, lift_ok_bind, hparse, lift_ok_bind]

/-- Without a next link, one level of depth is enough. -/
theorem execute_of_not_calls (h : ∀ next, ¬ s.Calls query next) (depth depth' : ℕ) :
    execute platform (depth + 1) query s = execute platform (depth' + 1) query s := by
  by_cases hprepared : ∃ command, query = .executePrepared command
  · obtain ⟨command, rfl⟩ := hprepared
    rw [execute, execute, get_bind, get_bind]
    cases hbind : s.bindPreparedSql command with
    | error e => rfl
    | ok sql =>
      rw [lift_ok_bind, lift_ok_bind]
      cases hparse : Parser.parse sql with
      | error e => rfl
      | ok next => exact absurd ⟨command, sql, rfl, hbind, hparse⟩ (h next)
  · have hne : ∀ command, query = .executePrepared command → False :=
      fun command heq => hprepared ⟨command, heq⟩
    rw [execute, execute]
    · exact hne
    · exact hne

/-- **A chain that ends is executed to its end**, at some depth and then at every greater one. -/
theorem execute_of_ends (h : s.Ends query) : ∃ depth, ∀ more,
    execute platform (depth + more) query s = execute platform depth query s := by
  induction h with
  | intro query _ ih =>
    by_cases hcalls : ∃ next, s.Calls query next
    · obtain ⟨next, hnext⟩ := hcalls
      obtain ⟨depth, hdepth⟩ := ih next hnext
      refine ⟨depth + 1, fun more => ?_⟩
      rw [Nat.succ_add, execute_of_calls hnext, execute_of_calls hnext, hdepth]
    · refine ⟨1, fun more => ?_⟩
      rw [Nat.add_comm]
      exact execute_of_not_calls (fun next hnext => hcalls ⟨next, hnext⟩) more 0

/-- A chain that does not end is followed to every depth. -/
theorem execute_of_not_ends (h : ¬ s.Ends query) (depth : ℕ) :
    execute platform depth query s = (.error .outOfFuel, s) := by
  induction depth generalizing query with
  | zero => rfl
  | succ depth ih =>
    have hcalls : ∃ next, s.Calls query next ∧ ¬ s.Ends next := by
      by_contra hall
      refine h (Rewiring.ends_of_step fun next hnext => ?_)
      by_contra hends
      exact hall ⟨next, hnext, hends⟩
    obtain ⟨next, hnext, hends⟩ := hcalls
    rw [execute_of_calls hnext, ih hends]

/-- A chain that comes back to its query is followed to every depth. -/
theorem execute_of_circle (h : TransGen s.Calls query query) (depth : ℕ) :
    execute platform depth query s = (.error .outOfFuel, s) :=
  execute_of_not_ends (Rewiring.not_ends_of_transGen h) depth

/-! ### What PREPARE changes -/

/-- The executor after a `PREPARE`. -/
def prepare (s : QueryExecutor) (command : PrepareStatement) : QueryExecutor :=
  { s with preparedStatements := s.preparedStatements.insert command.name command.sql }

/-- Once the text is prepared, no `EXECUTE` of its name comes back to an `EXECUTE` of its name. -/
def NoReturn (s : QueryExecutor) (command : PrepareStatement) : Prop :=
  ∀ parameters parameters', ¬ TransGen (s.prepare command).Calls
    (.executePrepared ⟨command.name, parameters⟩) (.executePrepared ⟨command.name, parameters'⟩)

theorem calls_congr (h : t.preparedStatements = s.preparedStatements) : t.Calls = s.Calls := by
  funext query next
  simp only [Calls, bindPreparedSql, h]

theorem ends_congr (h : t.preparedStatements = s.preparedStatements) : t.Ends = s.Ends := by
  funext query
  rw [Ends, Ends, calls_congr h]

/-- Nothing is executed by a name that is not prepared. -/
theorem ends_of_empty (h : s.preparedStatements = .empty) (query : Query) : s.Ends query := by
  refine Rewiring.ends_of_step fun next hnext => ?_
  obtain ⟨command, sql, -, hbind, -⟩ := hnext
  rw [bindPreparedSql, h, SortedMap.find?_empty] at hbind
  cases hbind

/-- A `PREPARE` changes the chains through its own name only. -/
theorem calls_of_calls_prepare {command : PrepareStatement}
    (hquery : ¬ ∃ parameters, query = .executePrepared ⟨command.name, parameters⟩)
    (h : (s.prepare command).Calls query next) : s.Calls query next := by
  obtain ⟨called, sql, rfl, hbind, hparse⟩ := h
  refine ⟨called, sql, rfl, ?_, hparse⟩
  have hname : called.name ≠ command.name := by
    intro heq
    exact hquery ⟨called.parameters, by rw [← heq]⟩
  rw [bindPreparedSql, prepare, SortedMap.find?_insert, if_neg hname] at hbind
  exact hbind

/-- Chains still end after a `PREPARE` whose text does not come back to its own name. -/
theorem ends_prepare {command : PrepareStatement} (hreturn : s.NoReturn command)
    (h : ∀ query, s.Ends query) (query : Query) : (s.prepare command).Ends query := by
  refine Rewiring.Ends.rewired
    (fun q => ∃ parameters, q = .executePrepared ⟨command.name, parameters⟩)
    (fun _ _ hquery hcalls => calls_of_calls_prepare hquery hcalls) ?_ h query
  rintro _ _ ⟨parameters, rfl⟩ hcalls ⟨parameters', rfl⟩
  exact hreturn parameters parameters' hcalls

/-! ### Runs -/

theorem framed_preparedStatements {query : Query}
    (hquery : ∀ command, query ≠ .prepareStatement command) (statements : SortedMap Str Str) :
    Framed (fun s => s.preparedStatements = statements) query where
  database _ _ hs := hs
  prepared command heq := absurd heq (hquery command)
  append operation payload _ := by
    intro s hs
    obtain ⟨storage, happend⟩ := appendWal_storage operation payload s
    rw [happend]
    exact hs
  publish _ _ _ _ hs := hs
  reset _ _ hs := hs

/-- Only `PREPARE` prepares statements. -/
theorem preparedStatements_executeUnlocked (platform : Platform) {query : Query}
    (hquery : ∀ command, query ≠ .prepareStatement command) (s : QueryExecutor) :
    (executeUnlocked platform query s).2.preparedStatements = s.preparedStatements := by
  by_cases hcalm : query.Calm
  · exact (framed_preparedStatements hquery s.preparedStatements).executeUnlocked hcalm platform s
      rfl
  · obtain ⟨_, _, _, _, hrest⟩ := sameRest_executeUnlocked hcalm platform s
    rw [hrest]

/-- A new executor has no prepared statements, if its log was written by an executor. -/
theorem preparedStatements_start {disk : Disk} {records : List WalRecord}
    (h : WriteAheadLog.Holds ⟨disk, none, []⟩ records)
    (hchanges : ∀ record ∈ records, record.Changes) :
    (start platform disk).preparedStatements = .empty := by
  refine start_of (P := fun s => s.preparedStatements = .empty) (fun _ _ hs => hs)
    (fun _ hs => hs) ?_ fun _ _ => rfl
  intro records' hread record hrecord s hs
  rw [h.readAll_eq] at hread
  cases hread
  refine keeps_replayRecord_of (P := fun s => s.preparedStatements = .empty)
    (fun _ _ _ hs => hs) (fun hsave hcreate query hparse => ?_) s hs
  rcases hchanges record hrecord with hrecord | hrecord | hrecord
  · exact absurd hrecord hsave
  · exact absurd hrecord hcreate
  · obtain ⟨change, rfl⟩ := hrecord query hparse
    intro s hs
    rw [preparedStatements_executeUnlocked platform (by cases change <;> exact nofun) s, hs]

/-- The states that an executor reaches from an empty storage root, by statements and restarts,
when no `PREPARE` has a text that comes back to its own name. -/
inductive Guarded (platform : Platform) : QueryExecutor → Prop
  | start : Guarded platform (start platform .empty)
  | restart {s : QueryExecutor} (h : Guarded platform s) :
    Guarded platform (QueryExecutor.start platform s.storage.disk)
  | statement {s : QueryExecutor} (h : Guarded platform s) {sql : Str} {query : Query}
    (hparse : Parser.parse sql = .ok query) (depth : ℕ)
    (hguard : ∀ command, s.resolved depth query = some (.prepareStatement command) →
      s.NoReturn command) :
    Guarded platform (execute platform depth query s).2

theorem Guarded.reachable (h : Guarded platform s) : Reachable platform s := by
  induction h with
  | start => exact .start
  | restart _ ih => exact ih.restart
  | statement _ hparse depth _ ih => exact ih.statement hparse depth

/-- **Every chain ends**, and is executed to its end, in every state that an executor reaches when
no `PREPARE` has a text that comes back to its own name. -/
theorem chains_end (h : Guarded platform s) (query : Query) :
    s.Ends query ∧ ∃ depth, ∀ more,
      execute platform (depth + more) query s = execute platform depth query s := by
  suffices hends : ∀ query, s.Ends query from ⟨hends query, execute_of_ends (hends query)⟩
  clear query
  induction h with
  | start =>
    exact ends_of_empty (preparedStatements_start WriteAheadLog.holds_empty (by simp))
  | @restart s hs _ =>
    obtain ⟨records, hrecords, hchanges⟩ := hs.reachable.changeLog
    exact ends_of_empty (preparedStatements_start hrecords.restart hchanges)
  | @statement s _ sql query hparse depth hguard ih =>
    rcases execute_parsed platform s depth hparse with ⟨q, hq, -, hrun⟩ | ⟨-, e, hrun⟩
    · rw [hrun]
      by_cases hprepare : ∃ command, q = .prepareStatement command
      · obtain ⟨command, rfl⟩ := hprepare
        exact ends_prepare (hguard command hq) ih
      · rw [ends_congr (preparedStatements_executeUnlocked platform
          (fun command heq => hprepare ⟨command, heq⟩) s)]
        exact ih
    · rw [hrun]
      exact ih

/-- Binding a text without question marks gives the text. -/
theorem eq_of_bindParameters {sql bound : Str} {parameters : List Value} (h : byte '?' ∉ sql)
    (hbind : bindParameters sql parameters = .ok bound) : bound = sql := by
  induction sql generalizing bound with
  | nil =>
    cases parameters with
    | nil => cases hbind; rfl
    | cons parameter parameters => cases hbind
  | cons character sql ih =>
    rw [List.mem_cons, not_or] at h
    unfold bindParameters at hbind
    rw [if_pos (Ne.symm h.1)] at hbind
    obtain ⟨rest, hrest, heq⟩ := Failure.bind_eq_ok_iff.1 hbind
    cases heq
    rw [ih h.2 hrest]

/-- A text without question marks leads to one statement, whatever the parameters. -/
theorem Calls.eq_of_text {name text : Str} {parameters : List Value} {parsed : Query}
    (h : s.Calls (.executePrepared ⟨name, parameters⟩) next)
    (hfind : s.preparedStatements.find? name = some text) (hplain : byte '?' ∉ text)
    (hparse : Parser.parse text = .ok parsed) : next = parsed := by
  obtain ⟨command, sql, heq, hbind, hnext⟩ := h
  cases heq
  rw [bindPreparedSql, hfind] at hbind
  rw [eq_of_bindParameters hplain hbind, hparse] at hnext
  exact (Except.ok.inj hnext).symm

/-- A chain stops at a statement that is no `EXECUTE`. -/
theorem eq_of_reflTransGen_calls (hquery : ∀ command, query ≠ .executePrepared command)
    (h : ReflTransGen s.Calls query next) : next = query := by
  rcases ReflTransGen.cases_head h with heq | ⟨_, ⟨command, _, heq, -⟩, -⟩
  · exact heq.symm
  · exact absurd heq (hquery command)

/-- `PREPARE q AS "LIST TABLES;"`. -/
def listing : PrepareStatement := ⟨bytes "q", bytes "LIST TABLES;"⟩

/-- `PREPARE p AS "EXECUTE q;"`. -/
def calling : PrepareStatement := ⟨bytes "p", bytes "EXECUTE q;"⟩

theorem parse_listing : Parser.parse listing.sql = .ok .listTables := by decide +kernel

theorem parse_calling : Parser.parse calling.sql = .ok (.executePrepared ⟨bytes "q", []⟩) := by
  decide +kernel

theorem find?_prepare (s : QueryExecutor) (command : PrepareStatement) :
    (s.prepare command).preparedStatements.find? command.name = some command.sql := by
  rw [prepare, SortedMap.find?_insert, if_pos rfl]

/-- The text of `listing` is no `EXECUTE`. -/
theorem noReturn_listing (s : QueryExecutor) : s.NoReturn listing := by
  intro parameters parameters' hreturn
  obtain ⟨next, hnext, hrest⟩ := TransGen.head'_iff.1 hreturn
  obtain rfl := hnext.eq_of_text (s.find?_prepare listing) (by decide) parse_listing
  cases eq_of_reflTransGen_calls (by rintro command ⟨⟩) hrest

/-- The text of `calling` executes `listing` and nothing else. -/
theorem noReturn_calling (s : QueryExecutor) : (s.prepare listing).NoReturn calling := by
  intro parameters parameters' hreturn
  obtain ⟨next, hnext, hrest⟩ := TransGen.head'_iff.1 hreturn
  obtain rfl := hnext.eq_of_text (find?_prepare _ calling) (by decide) parse_calling
  have hlisting : ((s.prepare listing).prepare calling).preparedStatements.find? (bytes "q") =
      some listing.sql := by
    rw [prepare, SortedMap.find?_insert, if_neg (by decide)]
    exact s.find?_prepare listing
  rcases ReflTransGen.cases_head hrest with heq | ⟨last, hlast, hrest⟩
  · cases heq
  · obtain rfl := hlast.eq_of_text hlisting (by decide) parse_listing
    cases eq_of_reflTransGen_calls (by rintro command ⟨⟩) hrest

/-- The executor after `listing`, on an empty storage root. -/
def afterListing : QueryExecutor :=
  (execute (.byInsertion true) 1 (.prepareStatement listing) (start (.byInsertion true) .empty)).2

/-- The same after `calling`. -/
def afterCalling : QueryExecutor :=
  (execute (.byInsertion true) 1 (.prepareStatement calling) afterListing).2

/-- `EXECUTE p;` leads to `EXECUTE q;` and this to `LIST TABLES;`. -/
theorem chains_end_listing :
    afterCalling.Calls (.executePrepared ⟨bytes "p", []⟩) (.executePrepared ⟨bytes "q", []⟩) ∧
      afterCalling.Calls (.executePrepared ⟨bytes "q", []⟩) .listTables ∧
      afterCalling.Ends (.executePrepared ⟨bytes "p", []⟩) := by
  have hlisting : Parser.parse (bytes "PREPARE q AS \"LIST TABLES;\"") =
      .ok (.prepareStatement listing) := by decide +kernel
  have hcalling : Parser.parse (bytes "PREPARE p AS \"EXECUTE q;\"") =
      .ok (.prepareStatement calling) := by decide +kernel
  refine ⟨⟨⟨bytes "p", []⟩, calling.sql, rfl, by decide +kernel, parse_calling⟩,
    ⟨⟨bytes "q", []⟩, listing.sql, rfl, by decide +kernel, parse_listing⟩, ?_⟩
  have hfirst : Guarded (.byInsertion true) afterListing := by
    refine Guarded.start.statement hlisting 1 ?_
    rintro command hcommand
    cases hcommand
    exact noReturn_listing _
  refine (chains_end (hfirst.statement hcalling 1 ?_) _).1
  rintro command hcommand
  cases hcommand
  exact noReturn_calling _

/-- An executor with a prepared statement that executes itself. -/
def selfExecuting : QueryExecutor := runSql (.byInsertion true) ["PREPARE p AS \"EXECUTE p;\""]
  (start (.byInsertion true) .empty)

/-- `EXECUTE p;` never returns. -/
theorem not_ends_selfExecuting :
    Reachable (.byInsertion true) selfExecuting ∧
      ¬ selfExecuting.Ends (.executePrepared ⟨bytes "p", []⟩) ∧
      ∀ depth, execute (.byInsertion true) depth (.executePrepared ⟨bytes "p", []⟩) selfExecuting =
        (.error .outOfFuel, selfExecuting) := by
  have hcalls : selfExecuting.Calls (.executePrepared ⟨bytes "p", []⟩)
      (.executePrepared ⟨bytes "p", []⟩) :=
    ⟨⟨bytes "p", []⟩, bytes "EXECUTE p;", rfl, by decide +kernel, by decide +kernel⟩
  exact ⟨Reachable.start.runSql _, Rewiring.not_ends_of_transGen (.single hcalls),
    execute_of_circle (.single hcalls)⟩

end QueryExecutor

end VertexDB
