import VertexDB.Execution.Refinement
import VertexDB.Execution.SqlRoundTrip
import VertexDB.Persistence.LogFile

/-!
# Replaying the log

`Replays records v v'` says that replaying the records, from any executor that shows `v`, succeeds
and shows `v'`.  The records that a change appends replay to the effect of the change
(`replays_change`): the parser reads back the text of each record, and the executor then performs
the same change.
-/

namespace VertexDB

open Ascii Procedure

/-! ### Commands that can be written to the log -/

/-- The value is not a double. -/
def Value.NoDouble : Value → Prop
  | .double _ => False
  | _ => True

instance (value : Value) : Decidable value.NoDouble := match value with
  | .double _ => instDecidableFalse
  | .null | .int _ | .string _ => instDecidableTrue

theorem Value.NoDouble.printable {value : Value} (h : value.NoDouble) : value.Printable := by
  cases value with
  | double d => exact h.elim
  | _ => trivial

/-- No value in the predicate is a double. -/
def Predicate.NoDouble : Predicate → Prop
  | .comparison _ _ value => value.NoDouble
  | .and left right => left.NoDouble ∧ right.NoDouble
  | .or left right => left.NoDouble ∧ right.NoDouble

/-- No predicate of an optional `WHERE` clause has a double. -/
def WhereNoDouble (where_ : Option Predicate) : Prop :=
  ∀ predicate, where_ = some predicate → predicate.NoDouble

/-- The command contains no double. -/
def Query.NoDouble : Query → Prop
  | .insert command => ∀ row ∈ command.rows, ∀ value ∈ row, value.NoDouble
  | .select command => WhereNoDouble command.where_
  | .update command => command.value.NoDouble ∧ WhereNoDouble command.where_
  | .delete command => WhereNoDouble command.where_
  | .executePrepared command => ∀ value ∈ command.parameters, value.NoDouble
  | _ => True

instance Predicate.decidableNoDouble : (predicate : Predicate) → Decidable predicate.NoDouble
  | .comparison _ _ value => inferInstanceAs (Decidable value.NoDouble)
  | .and left right => @instDecidableAnd _ _ left.decidableNoDouble right.decidableNoDouble
  | .or left right => @instDecidableAnd _ _ left.decidableNoDouble right.decidableNoDouble

instance : (where_ : Option Predicate) → Decidable (WhereNoDouble where_)
  | none => .isTrue nofun
  | some predicate => decidable_of_iff predicate.NoDouble (by simp [WhereNoDouble])

instance : (query : Query) → Decidable query.NoDouble
  | .insert _ => inferInstanceAs (Decidable (∀ _ ∈ _, _))
  | .select _ | .delete _ => inferInstanceAs (Decidable (WhereNoDouble _))
  | .update _ => inferInstanceAs (Decidable (_ ∧ _))
  | .executePrepared _ => inferInstanceAs (Decidable (∀ _ ∈ _, _))
  | .createDatabase _ | .createTable _ | .dropTable _ | .renameTable _ | .listTables
  | .createIndex _ | .saveDatabase | .loadDatabase _ | .beginTransaction | .commitTransaction
  | .rollbackTransaction | .prepareStatement _ | .exit => .isTrue trivial

theorem Predicate.printable {predicate : Predicate} (hnamed : predicate.Named)
    (hdouble : predicate.NoDouble) : predicate.Printable := by
  induction predicate with
  | comparison column op value => exact ⟨hnamed, hdouble.printable⟩
  | and left right ihl ihr => exact ⟨ihl hnamed.1 hdouble.1, ihr hnamed.2 hdouble.2⟩
  | or left right ihl ihr => exact ⟨ihl hnamed.1 hdouble.1, ihr hnamed.2 hdouble.2⟩

namespace Change

/-- The log can hold the change: its names are identifiers and its values read back. -/
def Printable : Change → Prop
  | createDatabase command => Tokenizer.IsIdentifier command.name
  | createTable command => (Logged.createTable command).Printable
  | dropTable command => (Logged.dropTable command).Printable
  | renameTable command => (Logged.renameTable command).Printable
  | insert command => ∀ row ∈ command.rows, (Logged.insert command.table row).Printable
  | update command => (Logged.update command).Printable
  | delete command => (Logged.delete command).Printable
  | createIndex command => (Logged.createIndex command).Printable

theorem printable {change : Change} (hwell : change.query.WellFormed)
    (hdouble : change.query.NoDouble) : change.Printable := by
  cases change with
  | insert command => exact fun row hr =>
    ⟨hwell.1, hwell.2 row hr, fun value hv => (hdouble row hr value hv).printable⟩
  | update command =>
    exact ⟨hwell.1, hwell.2.1, hdouble.1.printable, fun p hp =>
      Predicate.printable (hwell.2.2 p hp) (hdouble.2 p hp)⟩
  | delete command =>
    exact ⟨hwell.1, fun p hp => Predicate.printable (hwell.2 p hp) (hdouble p hp)⟩
  | createDatabase command => exact hwell
  | createTable command => exact hwell
  | dropTable command => exact hwell
  | renameTable command => exact hwell
  | createIndex command => exact hwell

end Change

namespace QueryExecutor

open Reference

variable {platform : Platform} {s s' : QueryExecutor} {v v' v'' : Option DatabaseView}

/-- The parser reads a record that holds the text of a logged command. -/
theorem parse_payload {record : WalRecord} (logged : Logged) (h : record.payload = logged.sql)
    (hp : logged.Printable) : Parser.parse record.payload = .ok logged.query := by
  rw [h, Parser.parse, (lexesAny_sql hp).tokenize_eq, Failure.ok_bind]
  exact Parser.parseTokens_logged hp

/-- Replaying the records from an executor that shows `v` succeeds and shows `v'`. -/
def Replays (platform : Platform) (records : List WalRecord) (v v' : Option DatabaseView) : Prop :=
  ∀ s : QueryExecutor, s.Sound → s.replayingWal = true → s.view = v →
    ∃ d, replayRecords platform records s = (.ok (), s.withDatabase d) ∧ (s.withDatabase d).Sound ∧
      (s.withDatabase d).view = v'

theorem replays_nil (v : Option DatabaseView) : Replays platform [] v v := by
  intro s hs _ hv
  refine ⟨s.database, ?_, ?_, ?_⟩
  · rw [withDatabase_self rfl]; rfl
  · rw [withDatabase_self rfl]; exact hs
  · rw [withDatabase_self rfl]; exact hv

theorem replayRecords_append (records records' : List WalRecord) (s : QueryExecutor) :
    replayRecords platform (records ++ records') s =
      (replayRecords platform records >>= fun _ => replayRecords platform records') s := by
  induction records generalizing s with
  | nil => rfl
  | cons record records ih =>
    rw [List.cons_append, replayRecords, replayRecords]
    rcases hrun : replayRecord platform record s with ⟨e | _, mid⟩
    · rw [bind_of_error hrun, bind_of_error (bind_of_error hrun)]
    · rw [bind_of_ok hrun, ih]
      rcases hrest : replayRecords platform records mid with ⟨e | _, last⟩
      · rw [bind_of_error hrest, bind_of_error ((bind_of_ok hrun).trans hrest)]
      · rw [bind_of_ok hrest, bind_of_ok ((bind_of_ok hrun).trans hrest)]

theorem Replays.append {records records' : List WalRecord} (h : Replays platform records v v')
    (h' : Replays platform records' v' v'') : Replays platform (records ++ records') v v'' := by
  intro s hs hr hv
  obtain ⟨d, hrun, hsound, hview⟩ := h s hs hr hv
  obtain ⟨d', hrun', hsound', hview'⟩ := h' (s.withDatabase d) hsound hr hview
  refine ⟨d', ?_, hsound', hview'⟩
  rw [replayRecords_append, bind_of_ok hrun, hrun']
  rfl

theorem replayRecords_singleton (record : WalRecord) (s : QueryExecutor) :
    replayRecords platform [record] s = (replayRecord platform record >>= fun _ => pure ()) s := rfl

/-- The record of a save is skipped. -/
theorem replays_save {record : WalRecord} (h : record.operation = .saveDatabase)
    (v : Option DatabaseView) : Replays platform [record] v v := by
  intro s hs hr hv
  refine ⟨s.database, ?_, ?_, ?_⟩
  · rw [replayRecords_singleton, replayRecord, if_pos h, withDatabase_self rfl]
    rfl
  · rw [withDatabase_self rfl]; exact hs
  · rw [withDatabase_self rfl]; exact hv

/-- A record whose text the parser reads as a change. -/
theorem replays_query (platform : Platform) {change : Change} {effect : Effect}
    (h : step change v = .ok effect)
    {record : WalRecord} (hsave : record.operation ≠ .saveDatabase)
    (hcreate : record.operation ≠ .createDatabase)
    (hparse : Parser.parse record.payload = .ok change.query) :
    Replays platform [record] v effect.database := by
  intro s hs hr hv
  rw [← hv] at h
  obtain ⟨d, hrun, hsound, hview⟩ := (performs platform hs change).ok effect s h
    (logAll_of_replaying hr _)
  refine ⟨d, ?_, hsound, hview⟩
  have hone : (executeUnlocked platform change.query >>= fun _ => pure () : Exec Unit) s =
      (.ok (), s.withDatabase d) := (bind_of_ok hrun).trans rfl
  rw [replayRecords_singleton, replayRecord, if_neg hsave, if_neg fun hc => hcreate hc.1, hparse,
    lift_ok_bind, bind_of_ok hone]
  rfl

theorem replays_createDatabase {command : CreateDatabase}
    (hname : Tokenizer.IsIdentifier command.name) {record : WalRecord}
    (hop : record.operation = .createDatabase) (hpayload : record.payload = command.name) :
    Replays platform [record] v (some ⟨command.name, .empty⟩) := by
  intro s _ _ _
  obtain ⟨new, hmake⟩ := Database.make_ok hname.1
  obtain ⟨hsound, hview, -⟩ := Database.sound_make hmake
  refine ⟨some new, ?_, sound_withDatabase hsound, by rw [view_withDatabase, hview]⟩
  rw [replayRecords_singleton, replayRecord, if_neg (by simp [hop]),
    if_pos ⟨hop, by rw [hpayload]; exact Tokenizer.not_mem_space_of_isIdentifier hname⟩,
    hpayload, hmake]
  rfl

/-- What a reference INSERT that succeeds has found and done. -/
theorem step_insert_ok {table : Str} {rows : List Row} {effect : Effect}
    (h : step (.insert ⟨table, rows⟩) v = .ok effect) :
    ∃ view found, v = some view ∧ view.tables.find? table = some found ∧
      (∀ row ∈ rows, validateRow found.schema row = .ok ()) ∧ effect.changed = true ∧
      effect.database =
        some (Reference.putTable view table { found with rows := found.rows ++ rows }) := by
  have hinsert : Reference.insert ⟨table, rows⟩ v = .ok effect := by
    cases v <;> exact h
  obtain ⟨⟨view, found⟩, hfound, h⟩ := Failure.bind_eq_ok_iff.1 hinsert
  obtain ⟨_, hvalid, h⟩ := Failure.bind_eq_ok_iff.1 h
  cases h
  unfold Reference.requireTable at hfound
  split at hfound
  · cases hfound
  · split at hfound
    · cases hfound
    · next hfind =>
      cases hfound
      exact ⟨_, _, rfl, hfind, validateRows_ok_iff.1 hvalid, rfl, rfl⟩

theorem step_insert {view : DatabaseView} {table : Str} {found : TableView} {rows : List Row}
    (hfind : view.tables.find? table = some found)
    (hvalid : ∀ row ∈ rows, validateRow found.schema row = .ok ()) :
    ∃ effect, step (.insert ⟨table, rows⟩) (some view) = .ok effect ∧
      effect.database =
        some (Reference.putTable view table { found with rows := found.rows ++ rows }) := by
  have hrequire : Reference.requireTable (some view) table = .ok (view, found) := by
    simp only [Reference.requireTable, hfind]
    rfl
  have hinsert : step (.insert ⟨table, rows⟩) (some view) =
      Reference.insert ⟨table, rows⟩ (some view) := rfl
  rw [hinsert, Reference.insert, hrequire, Failure.ok_bind]
  simp only [validateRows_ok_iff.2 hvalid]
  exact ⟨_, rfl, rfl⟩

/-- The records of an INSERT, one for each row. -/
theorem replays_insert {table : Str} {rows : List Row} {records : List WalRecord}
    (hrecords : records.map (fun record => (record.operation, record.payload)) =
      rows.map fun row => (WalOperation.insert, insertSql table row))
    (hprintable : ∀ row ∈ rows, (Logged.insert table row).Printable) {effect : Effect}
    (h : step (.insert ⟨table, rows⟩) v = .ok effect) :
    Replays platform records v effect.database := by
  induction rows generalizing records v effect with
  | nil =>
    obtain rfl : records = [] := by simpa using hrecords
    obtain ⟨view, found, rfl, hfind, -, -, hdb⟩ := step_insert_ok h
    rw [hdb, List.append_nil, putTable_self hfind]
    exact replays_nil _
  | cons row rows ih =>
    cases records with
    | nil => simp at hrecords
    | cons record records =>
      simp only [List.map_cons, List.cons.injEq, Prod.mk.injEq] at hrecords
      obtain ⟨⟨hop, hpayload⟩, hrest⟩ := hrecords
      obtain ⟨view, found, rfl, hfind, hvalid, -, hdb⟩ := step_insert_ok h
      obtain ⟨hrow, hrows⟩ := List.forall_mem_cons.1 hvalid
      obtain ⟨first, hfirst, hfirstdb⟩ := step_insert hfind (List.forall_mem_singleton.2 hrow)
      have hfind' :
          (Reference.putTable view table { found with rows := found.rows ++ [row] }).tables.find?
            table = some { found with rows := found.rows ++ [row] } := by simp [Reference.putTable]
      obtain ⟨rest, hsecond, hrestdb⟩ := step_insert hfind' hrows
      have hparse : Parser.parse record.payload = .ok (Change.insert ⟨table, [row]⟩).query :=
        parse_payload (.insert table row) hpayload (hprintable row List.mem_cons_self)
      have hone := replays_query platform hfirst (by simp [hop]) (by simp [hop]) hparse
      rw [hfirstdb] at hone
      have := hone.append (ih hrest (fun r hr => hprintable r (List.mem_cons_of_mem _ hr)) hsecond)
      rw [hrestdb, putTable_putTable] at this
      rw [hdb]
      simpa using this

/-- **The records of a change replay to its effect.** -/
theorem replays_change {change : Change} (hprintable : change.Printable) {effect : Effect}
    (h : step change v = .ok effect) {records : List WalRecord}
    (hrecords : records.map (fun record => (record.operation, record.payload)) = change.records) :
    Replays platform records v effect.database := by
  have hone : ∀ (logged : Logged) (operation : WalOperation), logged.query = change.query →
      change.records = [(operation, logged.sql)] → logged.Printable →
      operation ≠ .saveDatabase → operation ≠ .createDatabase →
      Replays platform records v effect.database := by
    intro logged operation hquery hlogged hp hsave hcreate
    rw [hlogged, List.map_eq_singleton_iff] at hrecords
    obtain ⟨record, rfl, hrecord⟩ := hrecords
    obtain ⟨hop, hpayload⟩ := Prod.mk.inj hrecord
    refine replays_query platform h (by rwa [hop]) (by rwa [hop]) ?_
    rw [← hquery]
    exact parse_payload logged hpayload hp
  cases change with
  | createDatabase command =>
    obtain ⟨record, rfl, hrecord⟩ := List.map_eq_singleton_iff.1 hrecords
    obtain ⟨hop, hpayload⟩ := Prod.mk.inj hrecord
    have hcreate : Reference.createDatabase command = .ok effect := by
      cases v <;> exact h
    rw [Reference.createDatabase, if_neg hprintable.1] at hcreate
    cases hcreate
    exact replays_createDatabase hprintable hop hpayload
  | insert command => exact replays_insert hrecords hprintable h
  | createTable command =>
    exact hone (.createTable command) _ rfl rfl hprintable (by decide) (by decide)
  | dropTable command =>
    exact hone (.dropTable command) _ rfl rfl hprintable (by decide) (by decide)
  | renameTable command =>
    exact hone (.renameTable command) _ rfl rfl hprintable (by decide) (by decide)
  | update command => exact hone (.update command) _ rfl rfl hprintable (by decide) (by decide)
  | delete command => exact hone (.delete command) _ rfl rfl hprintable (by decide) (by decide)
  | createIndex command =>
    exact hone (.createIndex command) _ rfl rfl hprintable (by decide) (by decide)

end QueryExecutor

end VertexDB
