import VertexDB.Lib.Relational
import VertexDB.Storage.DatabaseView

/-!
# Tables and databases that look alike

Two tables that show the same view may differ in pages, versions and index structures.  Every
operation gives the same answer on both and leaves tables that look alike again.  `Database.Agree`
compares databases in this way on the tables whose names satisfy `p`; operations that name no other
table keep it.
-/

namespace VertexDB

open Ascii Procedure

namespace Table

/-- Tables with this name and the same view. -/
structure Alike (name : Str) (table table' : Table) : Prop where
  reached : table.Reached
  reached' : table'.Reached
  name_eq : table.name = name
  name_eq' : table'.name = name
  view : table.view = table'.view

variable {name : Str} {table table' : Table}

theorem Alike.refl (h : table.Reached) : Alike table.name table table := ⟨h, h, rfl, rfl, rfl⟩

theorem Alike.schema (h : Alike name table table') : table.schema = table'.schema :=
  congrArg TableView.schema h.view

theorem Alike.rows (h : Alike name table table') : table.rowsSnapshot = table'.rowsSnapshot :=
  congrArg TableView.rows h.view

/-! ### Operations -/

theorem insert_error {row : Row} {e : Exception} (h : validateRow table.schema row = .error e) :
    table.insert row = .error e := by
  rw [insert, h, Failure.error_bind]

theorem Alike.insert (h : Alike name table table') (row : Row) :
    SameOutcome (fun p p' => Alike name p.2 p'.2) (table.insert row) (table'.insert row) := by
  cases hv : validateRow table.schema row with
  | error e =>
    rw [insert_error hv, insert_error (h.schema ▸ hv)]
    exact .error e
  | ok _ =>
    obtain ⟨rowId, mid, hi⟩ := insert_ok hv
    have hv' : validateRow table'.schema row = .ok () := h.schema ▸ hv
    obtain ⟨rowId', mid', hi'⟩ := insert_ok hv'
    obtain ⟨hreached, hname, hview⟩ := h.reached.view_insert hi
    obtain ⟨hreached', hname', hview'⟩ := h.reached'.view_insert hi'
    rw [hi, hi']
    refine .ok ⟨hreached, hreached', hname.trans h.name_eq, hname'.trans h.name_eq', ?_⟩
    rw [hview, hview', h.view]

/-- An update that returns has the same answer on both tables. -/
theorem Alike.update_ok (h : Alike name table table') {rowId : RowId} {index : ℕ} {value : Value}
    {p p' : Bool × Table} (hu : table.update rowId index value = .ok p)
    (hu' : table'.update rowId index value = .ok p') : p.1 = p'.1 ∧ Alike name p.2 p'.2 := by
  obtain ⟨hiff, hreached, hname, hview⟩ := h.reached.view_update hu
  obtain ⟨hiff', hreached', hname', hview'⟩ := h.reached'.view_update hu'
  have hupdated : p.1 = p'.1 := by
    rw [h.view] at hiff
    exact Bool.eq_iff_iff.2 (hiff.trans hiff'.symm)
  refine ⟨hupdated, hreached, hreached', hname.trans h.name_eq, hname'.trans h.name_eq', ?_⟩
  rw [hview, hview', h.view, hupdated]

theorem Alike.update (h : Alike name table table') (rowId : RowId) (index : ℕ) (value : Value) :
    SameOutcome (fun p p' => p.1 = p'.1 ∧ Alike name p.2 p'.2) (table.update rowId index value)
      (table'.update rowId index value) := by
  by_cases hcheck : ∃ column e, rowId < table.rowsSnapshot.length ∧
      table.schema[index]? = some column ∧
      checkValue "updated value does not match column type" column value = .error e
  · obtain ⟨column, e, hlt, hcolumn, he⟩ := hcheck
    have herror' := h.reached'.holds.update_error (h.rows ▸ hlt) (h.schema ▸ hcolumn) he
    rw [h.reached.holds.update_error hlt hcolumn he, herror']
    exact .error e
  · by_cases hlt : rowId < table.rowsSnapshot.length
    · have hv : ∀ column, table.schema[index]? = some column →
          checkValue "updated value does not match column type" column value = .ok () := by
        intro column hcolumn
        cases hc : checkValue "updated value does not match column type" column value with
        | ok _ => rfl
        | error e => exact (hcheck ⟨column, e, hlt, hcolumn, hc⟩).elim
      obtain ⟨updated, mid, hu⟩ := Table.update_ok rowId hv
      have hv' : ∀ column, table'.schema[index]? = some column →
          checkValue "updated value does not match column type" column value = .ok () :=
        h.schema ▸ hv
      obtain ⟨updated', mid', hu'⟩ := Table.update_ok rowId hv'
      rw [hu, hu']
      exact .ok (h.update_ok hu hu')
    · -- there is no such row
      have hu : table.update rowId index value = .ok (false, table) := by
        rw [Table.update, h.reached.holds.represents.size_eq, if_pos (Nat.not_lt.1 hlt)]
        rfl
      have hu' : table'.update rowId index value = .ok (false, table') := by
        rw [Table.update, h.reached'.holds.represents.size_eq, ← h.rows,
          if_pos (Nat.not_lt.1 hlt)]
        rfl
      rw [hu, hu']
      exact .ok ⟨rfl, h⟩

theorem Alike.erase (h : Alike name table table') (rowId : RowId) :
    (table.erase rowId).1 = (table'.erase rowId).1 ∧
      Alike name (table.erase rowId).2 (table'.erase rowId).2 := by
  obtain ⟨herased, hreached, hname, hview⟩ := h.reached.view_erase rowId
  obtain ⟨herased', hreached', hname', hview'⟩ := h.reached'.view_erase rowId
  refine ⟨?_, hreached, hreached', hname.trans h.name_eq, hname'.trans h.name_eq', ?_⟩
  · rw [herased, herased', h.view]
  · rw [hview, hview', h.view]

theorem Alike.createIndex (h : Alike name table table') (index column : Str) :
    (table.createIndex index column).1 = (table'.createIndex index column).1 ∧
      Alike name (table.createIndex index column).2 (table'.createIndex index column).2 := by
  obtain ⟨hreached, hname, hcreated, hview⟩ := h.reached.view_createIndex index column
  obtain ⟨hreached', hname', hcreated', hview'⟩ := h.reached'.view_createIndex index column
  refine ⟨?_, hreached, hreached', hname.trans h.name_eq, hname'.trans h.name_eq', ?_⟩
  · rw [hcreated, hcreated', h.view]
  · rw [hview, hview', h.view]

/-- The tables built for a new name look alike. -/
theorem Alike.replacement (h : Alike name table table') (newName : Str) :
    SameOutcome (Alike newName) (Database.replacement table newName)
      (Database.replacement table' newName) := by
  by_cases hn : newName = []
  · have herror : ∀ table : Table, Database.replacement table newName =
        .error (.invalidArgument "table name cannot be empty") := by
      intro table
      rw [Database.replacement, Table.make, if_pos hn]
      rfl
    rw [herror, herror]
    exact .error _
  · obtain ⟨new, hok, hreached, hname, hview⟩ := Database.view_replacement h.reached hn
    obtain ⟨new', hok', hreached', hname', hview'⟩ := Database.view_replacement h.reached' hn
    rw [hok, hok']
    exact .ok ⟨hreached, hreached', hname, hname', hview.trans (h.view.trans hview'.symm)⟩

/-! ### Reading -/

theorem hasIndex_view (table : Table) (column : Str) : table.hasIndex column =
    table.view.indexes.entries.any fun item => item.2 = column := by
  have hentries : table.view.indexes.entries =
      table.indexColumns.entries.map fun item => (item.1, table.columnName item.2) := rfl
  rw [hasIndex, hentries, List.any_map]
  rfl

theorem Alike.hasIndex (h : Alike name table table') (column : Str) :
    table.hasIndex column = table'.hasIndex column := by
  rw [hasIndex_view, hasIndex_view, h.view]

theorem Alike.rowCount (h : Alike name table table') : table.rowCount = table'.rowCount := by
  rw [Table.rowCount, Table.rowCount, h.reached.holds.represents.size_eq,
    h.reached'.holds.represents.size_eq, h.rows]

theorem Alike.rowsById (h : Alike name table table') (rowIds : List RowId) :
    table.rowsById rowIds = table'.rowsById rowIds := by
  rw [Table.rowsById, Table.rowsById, h.reached.holds.represents.rowsById_eq,
    h.reached'.holds.represents.rowsById_eq, h.rows]

end Table

namespace Database

/-- Two databases agree on the tables whose names satisfy `p`. -/
structure Agree (p : Str → Prop) (database database' : Database) : Prop where
  sound : database.Sound
  sound' : database'.Sound
  name : database.name = database'.name
  tables : ∀ name, p name →
    (database.table name).map Table.view = (database'.table name).map Table.view

variable {p : Str → Prop} {database database' : Database} {name : Str}

theorem Agree.refl (p : Str → Prop) (h : database.Sound) : database.Agree p database :=
  ⟨h, h, rfl, fun _ _ => rfl⟩

/-- A table that both find looks alike. -/
theorem Agree.table (h : database.Agree p database') (hp : p name) :
    Option.Rel (Table.Alike name) (database.table name) (database'.table name) := by
  have hview := h.tables name hp
  cases hfind : database.table name with
  | none =>
    rw [hfind] at hview
    rw [Option.map_eq_none_iff.1 hview.symm]
    exact .none
  | some table =>
    rw [hfind] at hview
    obtain ⟨table', hfind', hview⟩ := Option.map_eq_some_iff.1 hview.symm
    rw [hfind']
    obtain ⟨hname, hreached⟩ := h.sound.tables name table hfind
    obtain ⟨hname', hreached'⟩ := h.sound'.tables name table' hfind'
    exact .some ⟨hreached, hreached', hname, hname', hview.symm⟩

theorem Agree.contains (h : database.Agree p database') (hp : p name) :
    database.tables.contains name = database'.tables.contains name := by
  have hview := congrArg Option.isSome (h.tables name hp)
  rwa [Option.isSome_map, Option.isSome_map] at hview

/-- Agreeing on everything means showing the same view. -/
theorem agree_true_iff : database.Agree (fun _ => True) database' ↔
    database.Sound ∧ database'.Sound ∧ database.view = database'.view := by
  constructor
  · intro h
    refine ⟨h.sound, h.sound', ?_⟩
    rw [view, view, h.name, DatabaseView.mk.injEq]
    refine ⟨rfl, SortedMap.ext_find? fun name => ?_⟩
    rw [SortedMap.find?_mapValues, SortedMap.find?_mapValues]
    exact h.tables name trivial
  · rintro ⟨hsound, hsound', hview⟩
    refine ⟨hsound, hsound', congrArg DatabaseView.name hview, fun name _ => ?_⟩
    rw [← find?_view, ← find?_view, hview]

/-- The same for databases that need not be there. -/
theorem rel_agree_true_iff {database database' : Option Database} :
    Option.Rel (Agree fun _ => True) database database' ↔
      (∀ d, database = some d → d.Sound) ∧ (∀ d, database' = some d → d.Sound) ∧
        database.map view = database'.map view := by
  constructor
  · rintro (⟨h⟩ | _)
    · obtain ⟨hsound, hsound', hview⟩ := agree_true_iff.1 h
      refine ⟨?_, ?_, congrArg some hview⟩
      · rintro _ ⟨⟩; exact hsound
      · rintro _ ⟨⟩; exact hsound'
    · exact ⟨nofun, nofun, rfl⟩
  · rintro ⟨hsound, hsound', hview⟩
    cases database with
    | none =>
      rw [Option.map_eq_none_iff.1 hview.symm]
      exact .none
    | some d =>
      obtain ⟨d', rfl, hd⟩ := Option.map_eq_some_iff.1 hview.symm
      exact .some (agree_true_iff.2 ⟨hsound d rfl, hsound' d' rfl, hd.symm⟩)

/-! ### Operations -/

/-- Filing tables that look alike. -/
theorem Agree.insert (h : database.Agree p database') {table table' : Table}
    (ht : Table.Alike name table table') :
    Agree p { database with tables := database.tables.insert name table }
      { database' with tables := database'.tables.insert name table' } where
  sound := by
    rw [← ht.name_eq]
    exact h.sound.insert ht.reached
  sound' := by
    rw [← ht.name_eq']
    exact h.sound'.insert ht.reached'
  name := h.name
  tables name hp := by
    simp only [Database.table, SortedMap.find?_insert]
    split_ifs
    · rw [Option.map_some, Option.map_some, ht.view]
    · exact h.tables name hp

theorem Agree.erase (h : database.Agree p database') (name : Str) :
    Agree p { database with tables := database.tables.erase name }
      { database' with tables := database'.tables.erase name } where
  sound := h.sound.erase name
  sound' := h.sound'.erase name
  name := h.name
  tables other hp := by
    simp only [Database.table, SortedMap.find?_erase]
    split_ifs
    · rfl
    · exact h.tables other hp

theorem Agree.createTable (h : database.Agree p database') (hp : p name) (schema : List Column) :
    SameOutcome (fun r r' => r.1 = r'.1 ∧ Agree p r.2 r'.2) (database.createTable name schema)
      (database'.createTable name schema) := by
  unfold Database.createTable
  cases hmake : Table.make name schema with
  | error e => exact .error e
  | ok table =>
    obtain ⟨-, hname, hreached⟩ := Table.view_make hmake
    simp only [Failure.ok_bind, Failure.pure_eq_ok, ← h.contains hp]
    refine .ok ⟨rfl, ?_⟩
    cases hc : database.tables.contains name with
    | true =>
      rw [SortedMap.tryEmplace_of_contains hc,
        SortedMap.tryEmplace_of_contains (h.contains hp ▸ hc)]
      exact h
    | false =>
      rw [SortedMap.tryEmplace_of_find?_eq_none (SortedMap.contains_eq_false_iff.1 hc),
        SortedMap.tryEmplace_of_find?_eq_none
          (SortedMap.contains_eq_false_iff.1 (h.contains hp ▸ hc)), ← hname]
      exact h.insert (.refl hreached)

theorem Agree.dropTable (h : database.Agree p database') (hp : p name) :
    (database.dropTable name).1 = (database'.dropTable name).1 ∧
      Agree p (database.dropTable name).2 (database'.dropTable name).2 := by
  unfold Database.dropTable
  rw [← h.contains hp]
  split_ifs
  · exact ⟨rfl, h.erase name⟩
  · exact ⟨rfl, h⟩

theorem Agree.renameTable (h : database.Agree p database') {oldName newName : Str}
    (hold : p oldName) (hnew : p newName) :
    SameOutcome Eq (database.renameTable oldName newName).1
        (database'.renameTable oldName newName).1 ∧
      Agree p (database.renameTable oldName newName).2
        (database'.renameTable oldName newName).2 := by
  unfold Database.renameTable
  have htable := h.table hold
  rw [Database.table, Database.table] at htable
  generalize database.tables.find? oldName = found, database'.tables.find? oldName = found'
    at htable ⊢
  cases htable with
  | none => exact ⟨.ok rfl, h⟩
  | @some old old' hlike =>
    simp only [← h.contains hnew]
    cases hc : database.tables.contains newName with
    | true => exact ⟨.ok rfl, h⟩
    | false =>
      have hc' := h.contains hnew ▸ hc
      have hfree : (database.tables.erase oldName).find? newName = none := by
        rw [SortedMap.find?_erase, SortedMap.contains_eq_false_iff.1 hc, ite_self]
      have hfree' : (database'.tables.erase oldName).find? newName = none := by
        rw [SortedMap.find?_erase, SortedMap.contains_eq_false_iff.1 hc', ite_self]
      have herased := h.erase oldName
      simp only [Bool.false_eq_true, if_false]
      have hsame := hlike.replacement newName
      generalize replacement old newName = outcome, replacement old' newName = outcome' at hsame ⊢
      cases hsame with
      | error e => exact ⟨.error e, herased⟩
      | ok hnewLike =>
        simp only [SortedMap.tryEmplace_of_find?_eq_none hfree,
          SortedMap.tryEmplace_of_find?_eq_none hfree']
        exact ⟨.ok rfl, herased.insert hnewLike⟩

/-- Copies agree. -/
theorem Agree.clone (h : database.Agree p database') :
    SameOutcome (Agree p) database.clone database'.clone := by
  obtain ⟨copy, hcopy, hsound, hview⟩ := view_clone h.sound
  obtain ⟨copy', hcopy', hsound', hview'⟩ := view_clone h.sound'
  rw [hcopy, hcopy']
  refine .ok ⟨hsound, hsound', ?_, fun name hp => ?_⟩
  · exact (congrArg DatabaseView.name hview).trans
      (h.name.trans (congrArg DatabaseView.name hview').symm)
  · rw [← find?_view, ← find?_view, hview, hview', find?_view, find?_view, h.tables name hp]

end Database

end VertexDB
