import VertexDB.Execution.Atomicity
import VertexDB.Execution.SqlRoundTrip

/-!
# What the records of the log can do

The executor logs the names of databases and the texts of commands that start with one of six
keywords.  Whatever values such a text holds, doubles that do not read back included, replaying it
makes a change of the database and runs no other command (`Reachable.changeLog`).  A new executor
therefore has no transaction (`transactions_start`).
-/

namespace VertexDB

open Ascii Procedure

theorem Change.calm (change : Change) : change.query.Calm := by
  cases change <;> exact trivial

/-! ### The first keyword of a text -/

namespace Parser

open Tokenizer

variable {w w' : String} {rest : List Token} {α : Type} {f : Bool → Parser α}

theorem keyword_skip_apply (hw : equalsIgnoreCase (bytes w') (bytes w) = false)
    (hne : bytes w ≠ []) : (keyword w >>= f) (word w' :: rest) = f false (word w' :: rest) :=
  Failure.bind_apply_of_eq (readsBefore_keyword w _ (notWord_word hw hne rest))

theorem keyword_then_apply : (keyword w >>= f) (word w :: rest) = f true rest :=
  Failure.bind_apply_of_eq (reads_keyword w rest)

theorem change_of_bind {p : Parser α} {make : α → Query} {tokens : List Token} {query : Query}
    (hrun : (p >>= fun a => pure (make a)) tokens = .ok (query, rest))
    (change : α → Change) (h : ∀ a, (change a).query = make a) :
    ∃ change : Change, change.query = query := by
  obtain ⟨a, mid, -, hpure⟩ := Failure.bind_apply_eq_ok_iff.1 hrun
  cases hpure
  exact ⟨change a, h a⟩

theorem change_of_parseCreate {tokens : List Token} {query : Query}
    (hrun : parseCreate tokens = .ok (query, rest)) : ∃ change : Change, change.query = query := by
  -- each keyword is there, and then decides the command, or is not, and the next one is tried
  obtain ⟨found, mid, -, hrun⟩ := Failure.bind_apply_eq_ok_iff.1 hrun
  split_ifs at hrun
  · exact change_of_bind hrun .createDatabase fun _ => rfl
  obtain ⟨found, mid, -, hrun⟩ := Failure.bind_apply_eq_ok_iff.1 hrun
  split_ifs at hrun
  · exact change_of_bind hrun .createTable fun _ => rfl
  obtain ⟨found, mid, -, hrun⟩ := Failure.bind_apply_eq_ok_iff.1 hrun
  split_ifs at hrun
  · exact change_of_bind hrun .createIndex fun _ => rfl
  · cases hrun

/-- The keywords that the texts of the log start with. -/
def logKeywords : List String := ["CREATE", "DROP", "RENAME", "INSERT", "UPDATE", "DELETE"]

theorem change_of_parseCommand (hw : w ∈ logKeywords) {tokens : List Token} {query : Query}
    (h : parseCommand (word w :: tokens) = .ok (query, rest)) :
    ∃ change : Change, change.query = query := by
  rw [parseCommand] at h
  simp only [logKeywords, List.mem_cons, List.not_mem_nil, or_false] at hw
  rcases hw with rfl | rfl | rfl | rfl | rfl | rfl
  · rw [keyword_then_apply, if_pos rfl] at h
    exact change_of_parseCreate h
  · rw [keyword_skip_apply (by decide) (by decide), if_neg (by decide)] at h
    rw [keyword_then_apply, if_pos rfl] at h
    exact change_of_bind h .dropTable fun _ => rfl
  · iterate 2 rw [keyword_skip_apply (by decide) (by decide), if_neg (by decide)] at h
    rw [keyword_then_apply, if_pos rfl] at h
    exact change_of_bind h .renameTable fun _ => rfl
  · iterate 4 rw [keyword_skip_apply (by decide) (by decide), if_neg (by decide)] at h
    rw [keyword_then_apply, if_pos rfl] at h
    exact change_of_bind h .insert fun _ => rfl
  · iterate 6 rw [keyword_skip_apply (by decide) (by decide), if_neg (by decide)] at h
    rw [keyword_then_apply, if_pos rfl] at h
    exact change_of_bind h .update fun _ => rfl
  · iterate 7 rw [keyword_skip_apply (by decide) (by decide), if_neg (by decide)] at h
    rw [keyword_then_apply, if_pos rfl] at h
    exact change_of_bind h .delete fun _ => rfl

/-- A text that starts with one of these keywords is a change, whatever follows. -/
theorem change_of_parse (hw : w ∈ logKeywords) {text more : Str} {tokens : List Token}
    {query : Query}
    (htext : LexesAny text (word w :: tokens)) (h : parse (text ++ more) = .ok query) :
    ∃ change : Change, change.query = query := by
  rw [parse, htext more] at h
  obtain ⟨all, htokens, hparse⟩ := Failure.bind_eq_ok_iff.1 h
  obtain ⟨later, -, hall⟩ := Failure.bind_eq_ok_iff.1 htokens
  cases hall
  obtain ⟨⟨parsed, rest⟩, hstatement, hpure⟩ := Failure.bind_eq_ok_iff.1 hparse
  cases hpure
  obtain ⟨command, mid, hcommand, hend⟩ := Failure.bind_apply_eq_ok_iff.1 hstatement
  obtain ⟨_, _, -, hpure⟩ := Failure.bind_apply_eq_ok_iff.1 hend
  cases hpure
  exact change_of_parseCommand hw hcommand

end Parser

/-! ### The records -/

/-- The record is that of a save, or holds the name of a database or the text of a change. -/
def WalRecord.Changes (record : WalRecord) : Prop :=
  record.operation = .saveDatabase ∨
    (record.operation = .createDatabase ∧ byte ' ' ∉ record.payload) ∨
    ∀ query, Parser.parse record.payload = .ok query → ∃ change : Change, change.query = query

theorem changes_of_text {w : String} {tokens : List Token} {text more payload : Str}
    (hw : w ∈ Parser.logKeywords) (htext : Tokenizer.LexesAny text (word w :: tokens))
    (hpayload : payload = text ++ more) (lsn : ℕ) (operation : WalOperation) :
    WalRecord.Changes ⟨lsn, operation, payload⟩ := by
  refine .inr (.inr fun query hparse => ?_)
  subst hpayload
  exact Parser.change_of_parse hw htext hparse

theorem changes_of_writes {query : Query} (hq : query.WellFormed) {operation : WalOperation}
    {payload : Str} (hw : query.Writes operation payload) (lsn : ℕ) :
    WalRecord.Changes ⟨lsn, operation, payload⟩ := by
  cases query with
  | createDatabase command =>
    obtain ⟨rfl, rfl⟩ := hw
    exact .inr (.inl ⟨rfl, Tokenizer.not_mem_space_of_isIdentifier hq⟩)
  | saveDatabase => exact .inl hw
  | createTable command =>
    have htext : Tokenizer.LexesAny (bytes "CREATE TABLE ") [word "CREATE", word "TABLE"] :=
      Tokenizer.lexesAny_literal (by decide) (by decide)
    exact changes_of_text (by decide) htext
      (hw.2.trans (by rw [createTableSql, List.append_assoc, List.append_assoc,
        List.append_assoc])) _ _
  | dropTable command =>
    have htext : Tokenizer.LexesAny (bytes "DROP TABLE ") [word "DROP", word "TABLE"] :=
      Tokenizer.lexesAny_literal (by decide) (by decide)
    exact changes_of_text (by decide) htext
      (hw.2.trans (by rw [dropTableSql, List.append_assoc])) _ _
  | renameTable command =>
    have htext : Tokenizer.LexesAny (bytes "RENAME TABLE ") [word "RENAME", word "TABLE"] :=
      Tokenizer.lexesAny_literal (by decide) (by decide)
    exact changes_of_text (by decide) htext
      (hw.2.trans (by rw [renameTableSql, List.append_assoc, List.append_assoc,
        List.append_assoc])) _ _
  | insert command =>
    -- one record for each row, and each is an INSERT of that row alone
    obtain ⟨-, row, -, hpayload⟩ := hw
    have htext : Tokenizer.LexesAny (bytes "INSERT INTO ") [word "INSERT", word "INTO"] :=
      Tokenizer.lexesAny_literal (by decide) (by decide)
    exact changes_of_text (by decide) htext
      (hpayload.trans (by rw [insertSql, List.append_assoc, List.append_assoc,
        List.append_assoc])) _ _
  | update command =>
    have htext : Tokenizer.LexesAny (bytes "UPDATE ") [word "UPDATE"] :=
      Tokenizer.lexesAny_literal (by decide) (by decide)
    exact changes_of_text (by decide) htext
      (hw.2.trans (by rw [updateSql, List.append_assoc, List.append_assoc, List.append_assoc,
        List.append_assoc, List.append_assoc, List.append_assoc])) _ _
  | delete command =>
    have htext : Tokenizer.LexesAny (bytes "DELETE FROM ") [word "DELETE", word "FROM"] :=
      Tokenizer.lexesAny_literal (by decide) (by decide)
    exact changes_of_text (by decide) htext
      (hw.2.trans (by rw [deleteSql, List.append_assoc, List.append_assoc])) _ _
  | createIndex command =>
    have htext : Tokenizer.LexesAny (bytes "CREATE INDEX ") [word "CREATE", word "INDEX"] :=
      Tokenizer.lexesAny_literal (by decide) (by decide)
    exact changes_of_text (by decide) htext
      (hw.2.trans (by rw [createIndexSql, List.append_assoc, List.append_assoc, List.append_assoc,
        List.append_assoc, List.append_assoc])) _ _
  | _ => exact hw.elim

namespace QueryExecutor

variable {platform : Platform} {s : QueryExecutor}

/-- The log file is a sequence of records of changes and saves. -/
def ChangeLog (s : QueryExecutor) : Prop :=
  ∃ records, WriteAheadLog.Holds s.storage records ∧ ∀ record ∈ records, record.Changes

theorem changeLog_appendWal {operation : WalOperation} {payload : Str}
    (h : ∀ lsn, WalRecord.Changes ⟨lsn, operation, payload⟩) :
    Keeps ChangeLog (appendWal operation payload) := by
  rintro s ⟨records, hrecords, hchanges⟩
  rw [appendWal_apply]
  split_ifs
  · exact ⟨records, hrecords, hchanges⟩
  · obtain ⟨storage', -, ⟨lsn, happ, hholds⟩ | ⟨happ, hholds⟩⟩ :=
      hrecords.append_cases operation payload
    · rw [happ]
      refine ⟨_, hholds, ?_⟩
      rw [List.forall_mem_append]
      exact ⟨hchanges, List.forall_mem_singleton.2 (h lsn)⟩
    · rw [happ]
      exact ⟨records, hholds, hchanges⟩

theorem framed_changeLog {query : Query} (hq : query.WellFormed) : Framed ChangeLog query where
  database _ _ hs := hs
  prepared _ _ _ _ hs := hs
  append _ _ hw := changeLog_appendWal (changes_of_writes hq hw)
  publish _ fault database := by
    rintro s ⟨records, hrecords, hchanges⟩
    obtain ⟨hsame, hread⟩ := StorageManager.saveDatabase_log fault database s.storage
    have hholds := hrecords.of_read_eq hread
    rw [← hsame] at hholds
    exact ⟨records, hholds, hchanges⟩
  reset _ := by
    rintro s ⟨_, hrecords, -⟩
    exact ⟨[], WriteAheadLog.holds_reset s.storage.disk hrecords.faults, by simp⟩

theorem changeLog_executeUnlocked (platform : Platform) {query : Query} (hq : query.WellFormed) :
    Keeps ChangeLog (executeUnlocked platform query) := by
  by_cases hcalm : query.Calm
  · exact (framed_changeLog hq).executeUnlocked hcalm platform
  · intro s hs
    have hstorage : (executeUnlocked platform query s).2.storage = s.storage :=
      storage_executeUnlocked hcalm platform s
    rw [ChangeLog, hstorage]
    exact hs

theorem changeLog_start {disk : Disk} {records : List WalRecord}
    (h : WriteAheadLog.Holds ⟨disk, none, []⟩ records)
    (hchanges : ∀ record ∈ records, record.Changes) :
    (start platform disk).ChangeLog := by
  refine start_of (fun _ _ hs => hs) (fun _ hs => hs) ?_ fun _ _ => ⟨records, h, hchanges⟩
  rintro _ - record - s hs
  exact keeps_replayRecord_of (fun _ _ _ hs => hs)
    (fun _ _ query hparse => changeLog_executeUnlocked platform (Parser.wellFormed_of_parse hparse))
    s hs

/-- **The records that the executor writes are those of changes and saves.** -/
theorem Reachable.changeLog (h : Reachable platform s) : s.ChangeLog := by
  induction h with
  | start => exact changeLog_start WriteAheadLog.holds_empty (by simp)
  | restart _ ih =>
    obtain ⟨records, hrecords, hchanges⟩ := ih
    exact changeLog_start hrecords.restart hchanges
  | @statement s _ sql query hparse depth ih =>
    rcases execute_parsed platform s depth hparse with ⟨q, -, hwell, hrun⟩ | ⟨-, e, hrun⟩
    · rw [hrun]
      exact changeLog_executeUnlocked platform hwell s ih
    · rw [hrun]
      exact ih

end QueryExecutor

end VertexDB
