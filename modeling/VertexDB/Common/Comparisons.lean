import VertexDB.Common.Value

/-!
# The comparisons agree

Maps and sorts compare values by `operator<`, a hash index by `operator==` and a hash, scans by
`compare`.  Here doubles are compared by their places in any linear order; with the places of
`Binary64` the operators are those of `Value` (`ltBy_place`, `equalBy_place`, `compareBy_place`).

The switch of `operator<` between NULL, types and contents is the order of a sum
(`ltBy_iff`), and from there on the comparisons are those of one linear order
(`comparisonsAgree`).
-/

namespace VertexDB

section Comparisons

variable {δ : Type*} [LinearOrder δ] (place : Binary64 → δ)

namespace Value

/-- `operator<`, with doubles compared by their places. -/
def ltBy (lhs rhs : Value) : Bool :=
  if lhs.isNull || rhs.isNull then lhs.index < rhs.index
  else if lhs.typeCode ≠ rhs.typeCode then lhs.typeCode < rhs.typeCode
  else match lhs, rhs with
    | int a, int b => a.val < b.val
    | double a, double b => place a < place b
    | string a, string b => a < b
    | _, _ => false

/-- `operator==`: the same alternative of the variant, with equal contents. -/
def equalBy (lhs rhs : Value) : Bool :=
  match lhs, rhs with
  | null, null => true
  | int a, int b => a.val = b.val
  | double a, double b => place a = place b
  | string a, string b => a = b
  | _, _ => false

end Value

/-- `compare`, with doubles compared by their places. -/
def compareBy (left : Value) (op : ComparisonOperator) (right : Value) : Bool :=
  match op with
  | .equal => left.equalBy place right
  | .greater => right.ltBy place left
  | .less => left.ltBy place right

/-- `std::hash` of the alternatives of a value, into 64 bits. -/
structure StdHash where
  int : I64 → Fin (2 ^ 64)
  double : Binary64 → Fin (2 ^ 64)
  string : Str → Fin (2 ^ 64)
  /-- Equal doubles have equal hashes, also with different patterns. -/
  double_eq : ∀ a b, place a = place b → double a = double b

instance : Inhabited (StdHash place) := ⟨⟨fun _ => 0, fun _ => 0, fun _ => 0, fun _ _ _ => rfl⟩⟩

variable {place} in
/-- `HashIndex::ValueHash`. -/
def valueHash (std : StdHash place) : Value → Fin (2 ^ 64)
  | .null => 0x9e3779b97f4a7c15
  | .int i => std.int i
  | .double d => std.double d
  | .string s => std.string s

/-! ### The operators of `Value` -/

theorem Value.ltBy_place (a b : Value) : a.ltBy Binary64.place b = a.lt b := by
  cases a <;> cases b <;> rfl

theorem Value.equalBy_place (a b : Value) : a.equalBy Binary64.place b = a.equal b := by
  cases a <;> cases b <;> rfl

theorem compareBy_place (left : Value) (op : ComparisonOperator) (right : Value) :
    compareBy Binary64.place left op right = compare left op right := by
  cases op with
  | equal => exact left.equalBy_place right
  | greater => exact right.ltBy_place left
  | less => exact left.ltBy_place right

/-! ### One linear order -/

/-- The alternatives of the variant one after the other, each in its own order. -/
def Value.position : Value → Unit ⊕ₗ (ℤ ⊕ₗ (δ ⊕ₗ Str))
  | .null => Sum.inlₗ ()
  | .int i => Sum.inrₗ (Sum.inlₗ i.val)
  | .double d => Sum.inrₗ (Sum.inrₗ (Sum.inlₗ (place d)))
  | .string s => Sum.inrₗ (Sum.inrₗ (Sum.inrₗ s))

variable {place} {a b : Value}

theorem Value.ltBy_iff : a.ltBy place b = true ↔ a.position place < b.position place := by
  cases a <;> cases b <;>
    simp [ltBy, position, isNull, index, typeCode, ColumnType.code]

theorem Value.equalBy_iff : a.equalBy place b = true ↔ a.position place = b.position place := by
  cases a <;> cases b <;> simp [equalBy, position]

/-- What a comparison with an operator says of the positions. -/
theorem compareBy_iff {op : ComparisonOperator} : compareBy place a op b = true ↔
    match op with
    | .equal => a.position place = b.position place
    | .greater => b.position place < a.position place
    | .less => a.position place < b.position place := by
  cases op with
  | equal => exact Value.equalBy_iff
  | greater => exact Value.ltBy_iff
  | less => exact Value.ltBy_iff

theorem valueHash_eq (std : StdHash place) (h : a.equalBy place b = true) :
    valueHash std a = valueHash std b := by
  -- values of different alternatives are not equal
  cases a <;> cases b <;> simp only [Value.equalBy, Bool.false_eq_true, decide_eq_true_eq] at h
  case null.null => rfl
  case int.int i j => rw [Subtype.ext h]
  case double.double d e => exact std.double_eq d e h
  case string.string s t => rw [h]

/-- Exactly one of the operators holds of a row value and a literal. -/
theorem existsUnique_compareBy (x v : Value) :
    ∃! op, compareBy place x op v = true := by
  simp only [compareBy_iff]
  rcases lt_trichotomy (x.position place) (v.position place) with hlt | heq | hgt
  · refine ⟨.less, hlt, fun op hop => ?_⟩
    cases op with
    | equal => exact absurd hop hlt.ne
    | greater => exact absurd hop hlt.asymm
    | less => rfl
  · refine ⟨.equal, heq, fun op hop => ?_⟩
    cases op with
    | equal => rfl
    | greater => exact absurd heq hop.ne'
    | less => exact absurd heq hop.ne
  · refine ⟨.greater, hgt, fun op hop => ?_⟩
    cases op with
    | equal => exact absurd hop hgt.ne'
    | greater => rfl
    | less => exact absurd hop hgt.asymm

/-- What scans, maps, sorts and hashing rely on. -/
structure ComparisonsAgree (std : StdHash place) : Prop where
  irrefl : ∀ a : Value, ¬ a.ltBy place a
  trans : ∀ a b c : Value, a.ltBy place b → b.ltBy place c → a.ltBy place c
  total : ∀ a b : Value, a.ltBy place b ∨ a.equalBy place b ∨ b.ltBy place a
  equal_iff : ∀ a b : Value, ¬ a.ltBy place b ∧ ¬ b.ltBy place a ↔ a.equalBy place b
  hash_eq : ∀ a b : Value, a.equalBy place b → valueHash std a = valueHash std b
  one_holds : ∀ x v : Value, ∃! op, compareBy place x op v

/-- **The comparisons agree**, in whatever linear order the doubles have their places. -/
theorem comparisonsAgree (std : StdHash place) : ComparisonsAgree std where
  irrefl a h := lt_irrefl _ (Value.ltBy_iff.1 h)
  trans a b c hab hbc :=
    Value.ltBy_iff.2 ((Value.ltBy_iff.1 hab).trans (Value.ltBy_iff.1 hbc))
  total a b := by
    rw [Value.ltBy_iff, Value.equalBy_iff, Value.ltBy_iff]
    exact lt_trichotomy _ _
  equal_iff a b := by
    rw [Value.ltBy_iff, Value.equalBy_iff, Value.ltBy_iff, not_lt, not_lt]
    exact ⟨fun h => le_antisymm h.2 h.1, fun h => ⟨h.ge, h.le⟩⟩
  hash_eq _ _ := valueHash_eq std
  one_holds := existsUnique_compareBy

/-- The two zeros are equal doubles, and above NULL and every integer. -/
example : (Value.double ⟨2 ^ 63⟩).equal (.double ⟨0⟩) = true ∧
    (Value.int 5).lt (.double ⟨2 ^ 63⟩) = true ∧ Value.null.lt (.int 5) = true := by
  decide +kernel

end Comparisons

end VertexDB
