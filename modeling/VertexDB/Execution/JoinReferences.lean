import VertexDB.Execution.Atomicity
import VertexDB.Execution.JoinMeaning

/-!
# Column references of a join

A joined column has two names, `table.column` and its bare one, and `NeverAmbiguous` says what is
due to a reference: it finds the one column that it is a name of, and otherwise it is an error.

`resolveResultColumn` goes by the texts of the qualified names.  It takes the first one that is the
reference, so the columns of a table joined with itself are not told apart
(`not_neverAmbiguous_selfJoin`), and a reference to one column is not compared with the bare names
of the others.  It also takes a name that only ends in the reference, and names may contain dots.
`WHERE` resolves a reference when it comes to it.  `neverAmbiguous_iff` shows that the property
holds except for these cases.
-/

namespace VertexDB

open Ascii

/-! ### Positions in a list -/

section Positions

variable {α : Type} {p : α → Prop} [DecidablePred p] {xs : List α} {i : ℕ}

/-- The positions of the elements with a property. -/
def positions (p : α → Prop) [DecidablePred p] (xs : List α) : List ℕ :=
  (List.range xs.length).filter fun i => xs[i]?.any fun x => p x

theorem mem_positions : i ∈ positions p xs ↔ ∃ x, xs[i]? = some x ∧ p x := by
  rw [positions, List.mem_filter, List.mem_range, Option.any_eq_true]
  constructor
  · rintro ⟨-, x, hx, hp⟩
    exact ⟨x, hx, of_decide_eq_true hp⟩
  · rintro ⟨x, hx, hp⟩
    exact ⟨(List.getElem?_eq_some_iff.1 hx).1, x, hx, decide_eq_true hp⟩

theorem positions_eq_nil_iff : positions p xs = [] ↔ ∀ x ∈ xs, ¬ p x := by
  rw [List.eq_nil_iff_forall_not_mem]
  constructor
  · intro h x hx hp
    obtain ⟨i, hi⟩ := List.mem_iff_getElem?.1 hx
    exact h i (mem_positions.2 ⟨x, hi, hp⟩)
  · intro h i hi
    obtain ⟨x, hx, hp⟩ := mem_positions.1 hi
    exact h x (List.mem_of_getElem? hx) hp

theorem positions_eq_singleton (hlength : (positions p xs).length = 1) (hi : i ∈ positions p xs) :
    positions p xs = [i] := by
  obtain ⟨j, hj⟩ := List.length_eq_one_iff.1 hlength
  rw [hj] at hi ⊢
  rw [List.mem_singleton.1 hi]

/-- Fewer elements have a stronger property. -/
theorem positions_eq_singleton_of_imp {q : α → Prop} [DecidablePred q] (himp : ∀ x, p x → q x)
    (hq : positions q xs = [i]) (hp : ∃ x ∈ xs, p x) : positions p xs = [i] := by
  have hmem : ∀ j ∈ positions p xs, j = i := by
    intro j hj
    obtain ⟨x, hx, hpx⟩ := mem_positions.1 hj
    have : j ∈ positions q xs := mem_positions.2 ⟨x, hx, himp x hpx⟩
    rwa [hq, List.mem_singleton] at this
  have hnodup : (positions p xs).Nodup := List.nodup_range.filter _
  obtain ⟨x, hx, hpx⟩ := hp
  obtain ⟨j, hj⟩ := List.mem_iff_getElem?.1 hx
  have hj : j ∈ positions p xs := mem_positions.2 ⟨x, hj, hpx⟩
  have hsingle := List.eq_replicate_iff.2 ⟨rfl, hmem⟩
  obtain rfl := hmem j hj
  refine positions_eq_singleton ?_ hj
  rw [hsingle, List.nodup_replicate] at hnodup
  exact le_antisymm hnodup (List.length_pos_of_mem hj)

theorem findIdx?_of_positions (h : positions p xs = [i]) : xs.findIdx? (fun x => p x) = some i := by
  have hi : i ∈ positions p xs := by rw [h]; exact List.mem_singleton_self i
  obtain ⟨x, hx, hp⟩ := mem_positions.1 hi
  obtain ⟨hlt, rfl⟩ := List.getElem?_eq_some_iff.1 hx
  refine List.findIdx?_eq_some_iff_getElem.2 ⟨hlt, decide_eq_true hp, fun j hj => ?_⟩
  intro hpj
  have hmem : j ∈ positions p xs :=
    mem_positions.2 ⟨xs[j], List.getElem?_eq_getElem (hj.trans hlt), of_decide_eq_true hpj⟩
  rw [h, List.mem_singleton] at hmem
  exact hj.ne hmem

end Positions

namespace QueryExecutor

/-! ### The names of a joined column -/

/-- A column of a join, with the name of its table. -/
structure JoinedColumn where
  table : Str
  name : Str

namespace JoinedColumn

variable {reference : Str} {column : JoinedColumn}

/-- The name `table.column`. -/
def qualified (column : JoinedColumn) : Str := column.table ++ byte '.' :: column.name

/-- The reference is the qualified name of the column, or its bare one. -/
def HasName (reference : Str) (column : JoinedColumn) : Prop :=
  column.qualified = reference ∨ column.name = reference

/-- The qualified name ends in the reference, after a dot. -/
def EndsIn (reference : Str) (column : JoinedColumn) : Prop :=
  byte '.' :: reference <:+ column.qualified

instance (reference : Str) : DecidablePred (HasName reference) :=
  fun column => inferInstanceAs (Decidable (column.qualified = reference ∨ column.name = reference))

instance (reference : Str) : DecidablePred (EndsIn reference) :=
  fun column => inferInstanceAs (Decidable (byte '.' :: reference <:+ column.qualified))

theorem endsIn_of_name (h : column.name = reference) : column.EndsIn reference :=
  ⟨column.table, by rw [← h]; rfl⟩

end JoinedColumn

open JoinedColumn

/-- The columns of a join, those of the left table first. -/
def joinedColumns (leftName : Str) (leftTable : Table) (rightName : Str) (rightTable : Table) :
    List JoinedColumn :=
  leftTable.schema.map (fun column => ⟨leftName, column.name⟩) ++
    rightTable.schema.map (fun column => ⟨rightName, column.name⟩)

theorem joinedNames_eq (leftName : Str) (leftTable : Table) (rightName : Str)
    (rightTable : Table) : joinedNames leftName leftTable rightName rightTable =
      (joinedColumns leftName leftTable rightName rightTable).map qualified := by
  rw [joinedNames, joinedColumns, List.map_append, List.map_map, List.map_map]
  rfl

/-! ### What a reference finds -/

variable {columns : List JoinedColumn} {reference : Str} {index : ℕ}

/-- The joined columns that the reference is a name of. -/
def named (columns : List JoinedColumn) (reference : Str) : List ℕ :=
  positions (HasName reference) columns

/-- The reference finds a column: it is the qualified name of one, or a single qualified name ends
in it. -/
def Found (columns : List JoinedColumn) (reference : Str) : Prop :=
  (∃ column ∈ columns, column.qualified = reference) ∨
    (positions (EndsIn reference) columns).length = 1

/-- The names leave no doubt about the reference. -/
structure WellNamed (columns : List JoinedColumn) (reference : Str) : Prop where
  /-- The qualified name of a column is no name of another one. -/
  only : (∃ column ∈ columns, column.qualified = reference) → (named columns reference).length = 1
  /-- What ends a qualified name is a bare name. -/
  bare : (∀ column ∈ columns, column.qualified ≠ reference) →
    (∃ column ∈ columns, column.EndsIn reference) → ∃ column ∈ columns, column.name = reference

theorem hasSuffix_iff {text suffix : Str} : hasSuffix text suffix = true ↔ suffix <:+ text := by
  rw [hasSuffix, decide_eq_true_iff, List.suffix_iff_eq_drop, eq_comm]

theorem resolveResultColumn_of_qualified
    (h : ∃ column ∈ columns, column.qualified = reference) :
    ∃ index column, resolveResultColumn (columns.map qualified) reference = .ok (some index) ∧
      columns[index]? = some column ∧ column.qualified = reference := by
  obtain ⟨column, hmem, hname⟩ := h
  have hsome : ((columns.map qualified).findIdx? (· = reference)).isSome = true := by
    rw [List.findIdx?_isSome, List.any_eq_true]
    exact ⟨_, List.mem_map_of_mem hmem, decide_eq_true hname⟩
  obtain ⟨index, hindex⟩ := Option.isSome_iff_exists.1 hsome
  obtain ⟨hlt, hfound, -⟩ := List.findIdx?_eq_some_iff_getElem.1 hindex
  rw [List.length_map] at hlt
  rw [List.getElem_map] at hfound
  refine ⟨index, columns[index], ?_, List.getElem?_eq_getElem hlt, of_decide_eq_true hfound⟩
  rw [resolveResultColumn, hindex]
  rfl

/-- Without such a qualified name, the names that end in the reference decide. -/
theorem resolveResultColumn_of_not_qualified
    (h : ∀ column ∈ columns, column.qualified ≠ reference) :
    resolveResultColumn (columns.map qualified) reference =
      match positions (EndsIn reference) columns with
      | [] => .ok none
      | [index] => .ok (some index)
      | _ => .error (.runtimeError "ambiguous column reference") := by
  have hnone : (columns.map qualified).findIdx? (· = reference) = none := by
    rw [List.findIdx?_eq_none_iff]
    intro name hname
    obtain ⟨column, hmem, rfl⟩ := List.mem_map.1 hname
    exact decide_eq_false (h column hmem)
  have hends : ((List.range (columns.map qualified).length).filter fun i =>
      hasSuffix ((columns.map qualified).getD i []) (byte '.' :: reference)) =
      positions (EndsIn reference) columns := by
    rw [positions, List.length_map]
    refine List.filter_congr fun i hi => ?_
    have hlt : i < columns.length := List.mem_range.1 hi
    rw [List.getElem?_eq_getElem hlt, Option.any_some, List.getD_eq_getElem?_getD,
      List.getElem?_map, List.getElem?_eq_getElem hlt, Option.map_some, Option.getD_some,
      Bool.eq_iff_iff, hasSuffix_iff, decide_eq_true_iff]
    rfl
  rw [resolveResultColumn, hnone]
  simp only [hends]
  rfl

theorem found_iff : Found columns reference ↔
    ∃ index, resolveResultColumn (columns.map qualified) reference = .ok (some index) := by
  by_cases hqualified : ∃ column ∈ columns, column.qualified = reference
  · obtain ⟨index, -, hindex, -⟩ := resolveResultColumn_of_qualified hqualified
    exact iff_of_true (.inl hqualified) ⟨index, hindex⟩
  have hnot : ∀ column ∈ columns, column.qualified ≠ reference := by simpa using hqualified
  rw [Found, or_iff_right hqualified, resolveResultColumn_of_not_qualified hnot]
  match positions (EndsIn reference) columns with
  | [] => simp
  | [_] => simp
  | _ :: _ :: _ => simp

theorem WellNamed.named_eq (h : WellNamed columns reference)
    (hfound : resolveResultColumn (columns.map qualified) reference = .ok (some index)) :
    named columns reference = [index] := by
  by_cases hqualified : ∃ column ∈ columns, column.qualified = reference
  · obtain ⟨first, column, hfirst, hcolumn, hname⟩ := resolveResultColumn_of_qualified hqualified
    rw [hfound] at hfirst
    cases hfirst
    exact positions_eq_singleton (h.only hqualified) (mem_positions.2 ⟨column, hcolumn, .inl hname⟩)
  have hnot : ∀ column ∈ columns, column.qualified ≠ reference := by simpa using hqualified
  rw [resolveResultColumn_of_not_qualified hnot] at hfound
  match hends : positions (EndsIn reference) columns with
  | [] => rw [hends] at hfound; cases hfound
  | [_] =>
    rw [hends] at hfound
    cases hfound
    have hmem : index ∈ positions (EndsIn reference) columns := by
      rw [hends]
      exact List.mem_singleton_self index
    obtain ⟨column, hcolumn, hend⟩ := mem_positions.1 hmem
    obtain ⟨other, hother, hname⟩ := h.bare hnot ⟨column, List.mem_of_getElem? hcolumn, hend⟩
    -- a column that has the reference as a name has it as its bare name
    have hbare : positions (fun column => column.name = reference) columns = [index] :=
      positions_eq_singleton_of_imp (fun _ => endsIn_of_name) hends ⟨other, hother, hname⟩
    rw [← hbare, named, positions, positions]
    refine List.filter_congr fun i hi => ?_
    have hlt : i < columns.length := List.mem_range.1 hi
    rw [List.getElem?_eq_getElem hlt, Option.any_some, Option.any_some, decide_eq_decide]
    exact or_iff_right (hnot _ (List.getElem_mem hlt))
  | _ :: _ :: _ => rw [hends] at hfound; cases hfound

theorem WellNamed.unknown (h : WellNamed columns reference) (hnone : named columns reference = []) :
    resolveResultColumn (columns.map qualified) reference = .ok none := by
  have hno := positions_eq_nil_iff.1 hnone
  have hnot : ∀ column ∈ columns, column.qualified ≠ reference :=
    fun column hmem hname => hno column hmem (.inl hname)
  have hends : positions (EndsIn reference) columns = [] := by
    rw [positions_eq_nil_iff]
    intro column hmem hend
    obtain ⟨other, hother, hname⟩ := h.bare hnot ⟨column, hmem, hend⟩
    exact hno other hother (.inr hname)
  rw [resolveResultColumn_of_not_qualified hnot, hends]

/-- The names leave no doubt exactly when the reference finds a column only if it is a name of that
one and of no other, and nothing if it is no name. -/
theorem wellNamed_iff : WellNamed columns reference ↔
    (∀ index, resolveResultColumn (columns.map qualified) reference = .ok (some index) →
      named columns reference = [index]) ∧
    (named columns reference = [] →
      resolveResultColumn (columns.map qualified) reference = .ok none) := by
  refine ⟨fun h => ⟨fun _ => h.named_eq, h.unknown⟩, ?_⟩
  rintro ⟨hresolved, hunknown⟩
  refine ⟨fun hqualified => ?_, fun hnot ⟨column, hmem, hend⟩ => ?_⟩
  · obtain ⟨index, -, hindex, -⟩ := resolveResultColumn_of_qualified hqualified
    rw [hresolved index hindex]
    rfl
  · by_contra hbare
    have hnone : named columns reference = [] := by
      refine positions_eq_nil_iff.2 fun other hother hname => ?_
      exact hname.elim (hnot other hother) fun hname => hbare ⟨other, hother, hname⟩
    have hresolve := hunknown hnone
    rw [resolveResultColumn_of_not_qualified hnot] at hresolve
    match hends : positions (EndsIn reference) columns with
    | [] => exact positions_eq_nil_iff.1 hends column hmem hend
    | [_] => rw [hends] at hresolve; cases hresolve
    | _ :: _ :: _ => rw [hends] at hresolve; cases hresolve

/-! ### The clauses -/

/-- The references of a predicate. -/
def predicateReferences : Predicate → List Str
  | .comparison column _ _ => [column]
  | .and left right => predicateReferences left ++ predicateReferences right
  | .or left right => predicateReferences left ++ predicateReferences right

/-- The references of the projection, unless it is `*`. -/
def projectionReferences (command : Select) : List Str :=
  if command.columns = [bytes "*"] then [] else command.columns

/-- The references of the `WHERE` clause. -/
def whereReferences (command : Select) : List Str :=
  command.where_.elim [] predicateReferences

/-- The references of the `ORDER BY` clause. -/
def orderReferences (command : Select) : List Str := (command.orderBy.map OrderBy.column).toList

/-- The references that are resolved once, whatever the rows are. -/
def fixedReferences (command : Select) : List Str :=
  projectionReferences command ++ orderReferences command

/-- The first column of that name. -/
def columnOf (columns : List JoinedColumn) (reference : Str) : Option ℕ :=
  columns.findIdx? fun column => HasName reference column

/-- On its way through the predicate, the evaluation meets a reference that finds no column.  It
leaves out the right operand when the left one decides. -/
def Meets (columns : List JoinedColumn) (row : Row) : Predicate → Prop
  | .comparison column _ _ => ¬ Found columns column
  | .and left right => Meets columns row left ∨
    holdsOf (columnOf columns) row left = true ∧ Meets columns row right
  | .or left right => Meets columns row left ∨
    holdsOf (columnOf columns) row left = false ∧ Meets columns row right

/-- The computation throws. -/
def Throws {α : Type} (x : Except Exception α) : Prop := ∃ e, x = .error e

theorem ok_of_not_throws {α : Type} {x : Except Exception α} (h : ¬ Throws x) :
    ∃ a, x = .ok a := by
  cases x with
  | error e => exact absurd ⟨e, rfl⟩ h
  | ok a => exact ⟨a, rfl⟩

theorem throws_bind_iff {α β : Type} {x : Except Exception α} {f : α → Except Exception β} :
    Throws (x >>= f) ↔ Throws x ∨ ∃ a, x = .ok a ∧ Throws (f a) := by
  simp only [Throws, Failure.bind_eq_error_iff, exists_or]
  rw [exists_comm]
  simp only [exists_and_left]

theorem throws_resolve_iff {α : Type} {f : ℕ → Except Exception α} {e : Exception} :
    Throws (resolveResultColumn (columns.map qualified) reference >>= fun found =>
      match found with
      | none => .error e
      | some index => f index) ↔
    ¬ Found columns reference ∨
      ∃ index, resolveResultColumn (columns.map qualified) reference = .ok (some index) ∧
        Throws (f index) := by
  rw [found_iff]
  match hresolve : resolveResultColumn (columns.map qualified) reference with
  | .error e' => exact iff_of_true ⟨e', rfl⟩ (.inl (by rintro ⟨_, ⟨⟩⟩))
  | .ok none => exact iff_of_true ⟨e, rfl⟩ (.inl (by rintro ⟨_, ⟨⟩⟩))
  | .ok (some index) => simp [Throws]

theorem throws_resolveJoinColumns_iff {requested : List Str} :
    Throws (resolveJoinColumns (columns.map qualified) requested) ↔
      ∃ reference ∈ requested, ¬ Found columns reference := by
  induction requested with
  | nil => exact iff_of_false (by rintro ⟨_, ⟨⟩⟩) (by simp)
  | cons first rest ih =>
    rw [resolveJoinColumns]
    refine throws_resolve_iff.trans ?_
    rw [List.exists_mem_cons_iff]
    by_cases hfound : Found columns first
    · rw [or_iff_right (not_not.2 hfound), or_iff_right (not_not.2 hfound), ← ih]
      obtain ⟨index, hindex⟩ := found_iff.1 hfound
      constructor
      · rintro ⟨_, -, hthrows⟩
        rcases throws_bind_iff.1 hthrows with hrest | ⟨_, -, ⟨_, ⟨⟩⟩⟩
        exact hrest
      · exact fun hrest => ⟨index, hindex, throws_bind_iff.2 (.inl hrest)⟩
    · exact iff_of_true (.inl hfound) (.inl hfound)

theorem throws_joinProjection_iff {command : Select} :
    Throws (joinProjection (columns.map qualified) command.columns) ↔
      ∃ reference ∈ projectionReferences command, ¬ Found columns reference := by
  rw [joinProjection, projectionReferences]
  split_ifs with hstar
  · exact iff_of_false (by rintro ⟨_, ⟨⟩⟩) (by simp)
  · exact throws_resolveJoinColumns_iff

theorem throws_sortRows_iff {platform : Platform} {command : Select} {rows : List Row} :
    Throws (sortRows platform (resolveResultColumn (columns.map qualified)) command.orderBy rows) ↔
      ∃ reference ∈ orderReferences command, ¬ Found columns reference := by
  rw [orderReferences]
  cases command.orderBy with
  | none => exact iff_of_false (by rintro ⟨_, ⟨⟩⟩) (by simp)
  | some order =>
    rw [sortRows]
    refine throws_resolve_iff.trans ?_
    have hno : ¬ ∃ index, resolveResultColumn (columns.map qualified) order.column =
        .ok (some index) ∧
        Throws (pure (platform.sort (orderLess order.ascending index) rows)) := by
      rintro ⟨_, -, _, ⟨⟩⟩
    rw [or_iff_left hno]
    simp

theorem throws_filterRows_iff {test : Row → Except Exception Bool} {rows : List Row} :
    Throws (filterRows test rows) ↔ ∃ row ∈ rows, Throws (test row) := by
  induction rows with
  | nil => exact iff_of_false (by rintro ⟨_, ⟨⟩⟩) (by simp)
  | cons row rows ih =>
    rw [filterRows, throws_bind_iff, List.exists_mem_cons_iff, ← ih]
    refine or_congr_right' fun hpasses => ?_
    have hrest (keep : Bool) : Throws (filterRows test rows >>= fun kept =>
        (pure (if keep then row :: kept else kept) : Except Exception (List Row))) ↔
        Throws (filterRows test rows) := by
      rw [throws_bind_iff, or_iff_left]
      rintro ⟨_, -, _, ⟨⟩⟩
    cases htest : test row with
    | error e => exact absurd ⟨e, htest⟩ hpasses
    | ok keep =>
      refine ⟨?_, fun h => ⟨keep, rfl, (hrest keep).2 h⟩⟩
      rintro ⟨_, ⟨⟩, h⟩
      exact (hrest keep).1 h

/-- The evaluation throws where it meets a reference that finds no column. -/
theorem evalPredicate_meets {row : Row} {predicate : Predicate}
    (hnamed : ∀ reference ∈ predicateReferences predicate, WellNamed columns reference) :
    (Meets columns row predicate ∧
      Throws (evalPredicate (resolveResultColumn (columns.map qualified)) row predicate)) ∨
    (¬ Meets columns row predicate ∧
      evalPredicate (resolveResultColumn (columns.map qualified)) row predicate =
        .ok (holdsOf (columnOf columns) row predicate)) := by
  induction predicate with
  | comparison column op value =>
    by_cases hfound : Found columns column
    · obtain ⟨index, hindex⟩ := found_iff.1 hfound
      have hcolumn : columnOf columns column = some index :=
        findIdx?_of_positions ((hnamed column List.mem_cons_self).named_eq hindex)
      refine .inr ⟨not_not.2 hfound, ?_⟩
      rw [evalPredicate, hindex, holdsOf, hcolumn]
      rfl
    · refine .inl ⟨hfound, ?_⟩
      rw [evalPredicate]
      exact throws_resolve_iff.2 (.inl hfound)
  | and left right ihl ihr =>
    rcases ihl fun r hr => hnamed r (List.mem_append_left _ hr) with ⟨hm, hthrows⟩ | ⟨hm, hleft⟩
    · exact .inl ⟨.inl hm, throws_bind_iff.2 (.inl hthrows)⟩
    rw [evalPredicate, hleft, Failure.ok_bind, holdsOf, Meets, or_iff_right hm]
    cases holdsOf (columnOf columns) row left with
    | false => exact .inr ⟨by simp, rfl⟩
    | true => simpa using ihr fun r hr => hnamed r (List.mem_append_right _ hr)
  | or left right ihl ihr =>
    rcases ihl fun r hr => hnamed r (List.mem_append_left _ hr) with ⟨hm, hthrows⟩ | ⟨hm, hleft⟩
    · exact .inl ⟨.inl hm, throws_bind_iff.2 (.inl hthrows)⟩
    rw [evalPredicate, hleft, Failure.ok_bind, holdsOf, Meets, or_iff_right hm]
    cases holdsOf (columnOf columns) row left with
    | false => simpa using ihr fun r hr => hnamed r (List.mem_append_right _ hr)
    | true => exact .inr ⟨by simp, rfl⟩

/-- Some row makes the `WHERE` clause meet a reference that finds no column. -/
def MeetsIn (columns : List JoinedColumn) (where_ : Option Predicate) (rows : List Row) : Prop :=
  ∃ row ∈ rows, ∃ predicate, where_ = some predicate ∧ Meets columns row predicate

theorem throws_filterRows_joinPasses_iff {command : Select} {rows : List Row}
    (hnamed : ∀ reference ∈ whereReferences command, WellNamed columns reference) :
    Throws (filterRows (joinPasses (columns.map qualified) command.where_) rows) ↔
      MeetsIn columns command.where_ rows := by
  rw [throws_filterRows_iff, MeetsIn]
  refine exists_congr fun row => and_congr_right fun _ => ?_
  rw [whereReferences] at hnamed
  generalize command.where_ = where_ at hnamed ⊢
  cases where_ with
  | none => exact iff_of_false (by rintro ⟨_, ⟨⟩⟩) (by rintro ⟨_, ⟨⟩, _⟩)
  | some predicate =>
    rcases evalPredicate_meets hnamed with ⟨hmeets, hthrows⟩ | ⟨hmeets, heval⟩
    · exact iff_of_true hthrows ⟨predicate, rfl, hmeets⟩
    · refine iff_of_false ?_ ?_
      · rintro ⟨e, he⟩
        rw [joinPasses, heval] at he
        cases he
      · rintro ⟨_, ⟨⟩, h⟩
        exact hmeets h

/-! ### No silent ambiguity -/

variable {platform : Platform} {s : QueryExecutor} {command : Select} {join : JoinClause}
  {leftTable rightTable : Table}

/-- The columns of the join of a SELECT. -/
def columnsOf (command : Select) (join : JoinClause) (leftTable rightTable : Table) :
    List JoinedColumn := joinedColumns command.table leftTable join.table rightTable

/-- The joined rows of a SELECT before its `WHERE` clause, if the columns of `ON` exist. -/
def joinedRowsOf (s : QueryExecutor) (command : Select) (join : JoinClause)
    (leftTable rightTable : Table) : Option (List Row) := do
  let leftColumn ← resolveTableColumn leftTable command.table join.leftColumn
  let rightColumn ← resolveTableColumn rightTable join.table join.rightColumn
  return matchedRows leftColumn rightColumn (s.rowsSnapshotForRead leftTable)
    (s.rowsSnapshotForRead rightTable)

/-- No reference of the SELECT is silently ambiguous. -/
structure NeverAmbiguous (platform : Platform) (depth : ℕ) (s : QueryExecutor) (command : Select)
    (join : JoinClause) (leftTable rightTable : Table) : Prop where
  /-- A reference finds a column only if it is a name of that one and of no other one. -/
  resolved : ∀ reference ∈ fixedReferences command ++ whereReferences command, ∀ index,
    resolveResultColumn (joinedNames command.table leftTable join.table rightTable) reference =
      .ok (some index) → named (columnsOf command join leftTable rightTable) reference = [index]
  /-- A reference that is no name of a column is reported as unknown. -/
  unknown : ∀ reference ∈ fixedReferences command ++ whereReferences command,
    named (columnsOf command join leftTable rightTable) reference = [] →
    resolveResultColumn (joinedNames command.table leftTable join.table rightTable) reference =
      .ok none
  /-- The query throws if a reference of its projection or `ORDER BY` does not name one column. -/
  rejected : ∀ reference ∈ fixedReferences command,
    (named (columnsOf command join leftTable rightTable) reference).length ≠ 1 →
    Throws (execute platform (depth + 1) (.select command) s).1
  /-- So it does for a reference of `WHERE` if there is a joined row. -/
  rejectedWhere : ∀ reference ∈ whereReferences command,
    (named (columnsOf command join leftTable rightTable) reference).length ≠ 1 →
    ∀ rows, joinedRowsOf s command join leftTable rightTable = some rows → rows ≠ [] →
    Throws (execute platform (depth + 1) (.select command) s).1

/-- The references of the SELECT are well named, and its evaluation comes to one that finds no
column if a reference of `WHERE` does not name one column. -/
structure WellReferenced (s : QueryExecutor) (command : Select) (join : JoinClause)
    (leftTable rightTable : Table) : Prop where
  wellNamed : ∀ reference ∈ fixedReferences command ++ whereReferences command,
    WellNamed (columnsOf command join leftTable rightTable) reference
  met : ∀ reference ∈ whereReferences command,
    (named (columnsOf command join leftTable rightTable) reference).length ≠ 1 →
    ∀ rows, joinedRowsOf s command join leftTable rightTable = some rows → rows ≠ [] →
    (∃ r ∈ fixedReferences command, ¬ Found (columnsOf command join leftTable rightTable) r) ∨
      MeetsIn (columnsOf command join leftTable rightTable) command.where_ rows

theorem execute_join (hjoin : command.join = some join) (platform : Platform) (depth : ℕ) :
    (execute platform (depth + 1) (.select command) s).1 = s.joinSelect platform command join := by
  change s.select platform command = _
  rw [select, hjoin]

theorem throws_of_joinedRowsOf_none (hjoin : command.join = some join) (depth : ℕ)
    (hleft : s.requireTable command.table = .ok leftTable)
    (hright : s.requireTable join.table = .ok rightTable)
    (hrows : joinedRowsOf s command join leftTable rightTable = none) :
    Throws (execute platform (depth + 1) (.select command) s).1 := by
  rw [execute_join hjoin, joinSelect, hleft, Failure.ok_bind, hright, Failure.ok_bind]
  rw [joinedRowsOf] at hrows
  cases hl : resolveTableColumn leftTable command.table join.leftColumn with
  | none => exact ⟨_, rfl⟩
  | some leftColumn =>
    cases hr : resolveTableColumn rightTable join.table join.rightColumn with
    | none => exact ⟨_, rfl⟩
    | some rightColumn =>
      rw [hl, hr] at hrows
      cases hrows

/-- A join throws when it comes to a reference that finds no column, and only then. -/
theorem throws_execute_iff (hjoin : command.join = some join) (depth : ℕ)
    (hleft : s.requireTable command.table = .ok leftTable)
    (hright : s.requireTable join.table = .ok rightTable) {rows : List Row}
    (hrows : joinedRowsOf s command join leftTable rightTable = some rows)
    (hnamed : ∀ reference ∈ whereReferences command,
      WellNamed (columnsOf command join leftTable rightTable) reference) :
    Throws (execute platform (depth + 1) (.select command) s).1 ↔
      (∃ r ∈ fixedReferences command, ¬ Found (columnsOf command join leftTable rightTable) r) ∨
        MeetsIn (columnsOf command join leftTable rightTable) command.where_ rows := by
  obtain ⟨leftColumn, hl, hrows⟩ := Option.bind_eq_some_iff.1 hrows
  obtain ⟨rightColumn, hr, hrows⟩ := Option.bind_eq_some_iff.1 hrows
  cases hrows
  rw [execute_join hjoin, joinSelect_eq hleft hright hl hr, joinedNames_eq]
  have hprojection : Throws (joinProjection ((columnsOf command join leftTable rightTable).map
      qualified) command.columns) ↔ _ := throws_joinProjection_iff
  have hfilter := @throws_filterRows_joinPasses_iff _ _ (matchedRows leftColumn rightColumn
    (s.rowsSnapshotForRead leftTable) (s.rowsSnapshotForRead rightTable)) hnamed
  constructor
  · intro h
    rcases throws_bind_iff.1 h with h | ⟨_, -, h⟩
    · obtain ⟨r, hr, hno⟩ := hprojection.1 h
      exact .inl ⟨r, List.mem_append_left _ hr, hno⟩
    rcases throws_bind_iff.1 h with h | ⟨_, -, h⟩
    · exact .inr (hfilter.1 h)
    rcases throws_bind_iff.1 h with h | ⟨_, -, _, ⟨⟩⟩
    obtain ⟨r, hr, hno⟩ := throws_sortRows_iff.1 h
    exact .inl ⟨r, List.mem_append_right _ hr, hno⟩
  · intro h
    refine throws_bind_iff.2 (or_iff_not_imp_left.2 fun hp => ?_)
    obtain ⟨projection, hprojected⟩ := ok_of_not_throws hp
    refine ⟨projection, hprojected, throws_bind_iff.2 (or_iff_not_imp_left.2 fun hf => ?_)⟩
    obtain ⟨kept, hkept⟩ := ok_of_not_throws hf
    refine ⟨kept, hkept, throws_bind_iff.2 (.inl (throws_sortRows_iff.2 ?_))⟩
    -- only the reference of `ORDER BY` is left
    rcases h with ⟨r, hr, hno⟩ | hmeets
    · rcases List.mem_append.1 hr with hr | hr
      · exact absurd (hprojection.2 ⟨r, hr, hno⟩) hp
      · exact ⟨r, hr, hno⟩
    · exact absurd (hfilter.2 hmeets) hf

theorem WellNamed.length_named (h : WellNamed columns reference)
    (hfound : Found columns reference) : (named columns reference).length = 1 := by
  obtain ⟨index, hindex⟩ := found_iff.1 hfound
  rw [h.named_eq hindex]
  rfl

/-- **References of joins are not silently ambiguous** exactly for well-named references, as far as
the evaluation of `WHERE` comes to them. -/
theorem neverAmbiguous_iff (platform : Platform) (depth : ℕ) (hjoin : command.join = some join)
    (hleft : s.requireTable command.table = .ok leftTable)
    (hright : s.requireTable join.table = .ok rightTable) :
    NeverAmbiguous platform depth s command join leftTable rightTable ↔
      WellReferenced s command join leftTable rightTable := by
  constructor
  · intro h
    have hwell : ∀ reference ∈ fixedReferences command ++ whereReferences command,
        WellNamed (columnsOf command join leftTable rightTable) reference := by
      intro reference hmem
      have hresolved := h.resolved reference hmem
      have hunknown := h.unknown reference hmem
      rw [joinedNames_eq] at hresolved hunknown
      exact wellNamed_iff.2 ⟨hresolved, hunknown⟩
    refine ⟨hwell, fun reference hmem hlength rows hrows hne => ?_⟩
    have hwhere : ∀ r ∈ whereReferences command,
        WellNamed (columnsOf command join leftTable rightTable) r :=
      fun r hr => hwell r (List.mem_append_right _ hr)
    exact (throws_execute_iff hjoin depth hleft hright hrows hwhere).1
      (h.rejectedWhere reference hmem hlength rows hrows hne)
  · intro h
    have hwhere : ∀ reference ∈ whereReferences command,
        WellNamed (columnsOf command join leftTable rightTable) reference :=
      fun r hr => h.wellNamed r (List.mem_append_right _ hr)
    refine ⟨fun reference hmem index hindex => ?_, fun reference hmem hnone => ?_,
      fun reference hmem hlength => ?_, fun reference hmem hlength rows hrows hne => ?_⟩
    · rw [joinedNames_eq] at hindex
      exact (h.wellNamed reference hmem).named_eq hindex
    · rw [joinedNames_eq]
      exact (h.wellNamed reference hmem).unknown hnone
    · match hrows : joinedRowsOf s command join leftTable rightTable with
      | none => exact throws_of_joinedRowsOf_none hjoin depth hleft hright hrows
      | some rows =>
        -- a well-named reference that is found has one column only
        have hno : ¬ Found (columnsOf command join leftTable rightTable) reference := fun hfound =>
          hlength ((h.wellNamed reference (List.mem_append_left _ hmem)).length_named hfound)
        exact (throws_execute_iff hjoin depth hleft hright hrows hwhere).2
          (.inl ⟨reference, hmem, hno⟩)
    · exact (throws_execute_iff hjoin depth hleft hright hrows hwhere).2
        (h.met reference hmem hlength rows hrows hne)

instance (columns : List JoinedColumn) (reference : Str) : Decidable (Found columns reference) :=
  inferInstanceAs (Decidable (_ ∨ _))

instance (columns : List JoinedColumn) (reference : Str) :
    Decidable (WellNamed columns reference) :=
  decidable_of_iff
    (((∃ column ∈ columns, column.qualified = reference) → (named columns reference).length = 1) ∧
      ((∀ column ∈ columns, column.qualified ≠ reference) →
        (∃ column ∈ columns, column.EndsIn reference) →
        ∃ column ∈ columns, column.name = reference))
    ⟨fun h => ⟨h.1, h.2⟩, fun h => ⟨h.only, h.bare⟩⟩

/-- `SELECT * FROM t JOIN u ON b = u.b WHERE t.a > 1 AND b = NULL`. -/
def ambiguousSelect : Select :=
  { sampleJoinSelect with
    where_ := some (.and (.comparison (bytes "t.a") .greater (.int 1))
      (.comparison (bytes "b") .equal .null)) }

/-- Both tables have a column `b`, and a joined row comes to it. -/
theorem neverAmbiguous_ambiguousSelect :
    NeverAmbiguous (.byInsertion true) 0
      (sampleExecutor.withDatabase (some (putIn (putIn ⟨bytes "d", .empty⟩ (bytes "t")
        (Table.sampleTable.run sampleRows)) (bytes "u") (Table.sampleTable.run sampleRows))))
      ambiguousSelect ⟨bytes "u", bytes "b", bytes "u.b"⟩ (Table.sampleTable.run sampleRows)
      (Table.sampleTable.run sampleRows) := by
  refine (neverAmbiguous_iff (.byInsertion true) 0 rfl rfl rfl).2 ⟨by decide +kernel, ?_⟩
  intro reference hmem hlength rows hrows hne
  have hrow : (joinedRowsOf (sampleExecutor.withDatabase (some (putIn (putIn ⟨bytes "d", .empty⟩
      (bytes "t") (Table.sampleTable.run sampleRows)) (bytes "u")
      (Table.sampleTable.run sampleRows)))) ambiguousSelect ⟨bytes "u", bytes "b", bytes "u.b"⟩
      (Table.sampleTable.run sampleRows) (Table.sampleTable.run sampleRows)).any
      (fun rows => [.int 2, .null, .int 2, .null] ∈ rows) = true := by
    decide +kernel
  rw [hrows, Option.any_some, decide_eq_true_iff] at hrow
  have hambiguous : ¬ Found (columnsOf ambiguousSelect ⟨bytes "u", bytes "b", bytes "u.b"⟩
      (Table.sampleTable.run sampleRows) (Table.sampleTable.run sampleRows)) (bytes "b") := by
    decide +kernel
  exact .inr ⟨_, hrow, _, rfl, .inr ⟨by decide +kernel, hambiguous⟩⟩

/-- `SELECT t.a FROM t JOIN t ON a = a`. -/
def selfJoin : Select :=
  ⟨bytes "t", some ⟨bytes "t", bytes "a", bytes "a"⟩, [bytes "t.a"], none, none, none⟩

/-- Both joined columns have the name `t.a`, and the first one is selected. -/
theorem not_neverAmbiguous_selfJoin :
    Reachable (.byInsertion true) twoRows ∧
    Parser.parse (bytes "SELECT t.a FROM t JOIN t ON a = a;") = .ok (.select selfJoin) ∧
    (execute (.byInsertion true) 1 (.select selfJoin) twoRows).1 =
      .ok ⟨true, bytes "selected rows", [bytes "t.a"], [[.int 1], [.int 2]]⟩ ∧
    ∃ table, twoRows.requireTable (bytes "t") = .ok table ∧
      ¬ NeverAmbiguous (.byInsertion true) 0 twoRows selfJoin ⟨bytes "t", bytes "a", bytes "a"⟩
        table table := by
  refine ⟨reachable_twoRows, by decide +kernel, by decide +kernel, ?_⟩
  have hnames : (twoRows.requireTable (bytes "t")).map (fun table => table.schema.map Column.name) =
      .ok [bytes "a"] := by
    decide +kernel
  match htable : twoRows.requireTable (bytes "t") with
  | .error e => rw [htable] at hnames; cases hnames
  | .ok table =>
    refine ⟨table, rfl, fun h => ?_⟩
    rw [htable] at hnames
    have hschema : table.schema.map Column.name = [bytes "a"] := Except.ok.inj hnames
    have hcolumns : columnsOf selfJoin ⟨bytes "t", bytes "a", bytes "a"⟩ table table =
        [⟨bytes "t", bytes "a"⟩, ⟨bytes "t", bytes "a"⟩] := by
      have hmap (f : Str → JoinedColumn) : table.schema.map (fun column => f column.name) =
          [f (bytes "a")] := by
        change table.schema.map (f ∘ Column.name) = _
        rw [← List.map_map, hschema]
        rfl
      rw [columnsOf, joinedColumns, hmap, hmap]
      rfl
    have hresolved := h.resolved (bytes "t.a") (by decide +kernel) 0
    rw [joinedNames_eq] at hresolved
    change resolveResultColumn ((columnsOf selfJoin ⟨bytes "t", bytes "a", bytes "a"⟩ table
      table).map qualified) _ = _ → _ at hresolved
    rw [hcolumns] at hresolved
    exact absurd (hresolved (by decide +kernel)) (by decide +kernel)

end QueryExecutor

end VertexDB
