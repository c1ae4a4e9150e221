import VertexDB.Lib.Binary64
import VertexDB.Lib.SortedMap

/-!
# Values, columns and rows

`Value` is the variant of `common/value.hpp`, `Value.lt` its `operator<`, which orders first by
NULL, then by type, then by contents, and `Value.equal` its `operator==`.  Doubles are binary64
patterns, compared by their places: on all but NaN these comparisons are those of the C++
operators.

Values are preordered only, since the two zeros are different values that compare alike.  A map
finds its keys by the comparison, so they are values up to that (`Value.Key`), in a linear order.
-/

namespace VertexDB

open Ascii

/-- `std::string`: a string of bytes, compared lexicographically by unsigned byte. -/
abbrev Str := List Byte

/-- The exceptions the code throws, with their messages. -/
inductive Exception
  /-- `std::runtime_error` -/
  | runtimeError (what : String)
  /-- `std::invalid_argument` -/
  | invalidArgument (what : String)
  /-- `std::out_of_range` -/
  | outOfRange (what : String)
  /-- A loop of the model has used up its bound on iterations. -/
  | outOfFuel
  deriving DecidableEq

/-- `std::int64_t`. -/
abbrev I64 := { i : ℤ // -2 ^ 63 ≤ i ∧ i < 2 ^ 63 }

namespace I64

/-- The two's complement bit pattern. -/
def toBits (i : I64) : ℕ := (i.val % 2 ^ 64).toNat

/-- The integer of a 64-bit pattern. -/
def ofBits (n : ℕ) : I64 :=
  if h : n % 2 ^ 64 < 2 ^ 63 then ⟨n % 2 ^ 64, by omega⟩
  else ⟨(n % 2 ^ 64 : ℕ) - 2 ^ 64, by omega⟩

instance instOfNat (n : ℕ) : OfNat I64 n := ⟨ofBits n⟩

theorem toBits_lt (i : I64) : i.toBits < 2 ^ 64 := by
  unfold toBits; omega

theorem ofBits_toBits (i : I64) : ofBits i.toBits = i := by
  obtain ⟨i, h1, h2⟩ := i
  apply Subtype.ext
  unfold ofBits toBits
  split_ifs with h
  · simp only at h ⊢; omega
  · simp only at h ⊢; omega

end I64

/-- `ColumnType`, an enumeration over one byte.  `unknown` are the byte values without an
enumerator, which a cast from a byte can produce. -/
inductive ColumnType
  | int
  | double
  | string
  | unknown (raw : Fin 253)
  deriving DecidableEq

namespace ColumnType

/-- The numeric value of the enumeration. -/
def code : ColumnType → ℕ
  | int => 0
  | double => 1
  | string => 2
  | unknown raw => raw.val + 3

/-- `static_cast<ColumnType>`. -/
def ofCode (n : ℕ) : ColumnType :=
  match n % 256 with
  | 0 => int
  | 1 => double
  | 2 => string
  | m + 3 => unknown (Fin.ofNat _ m)

/-- `toString(ColumnType)`. -/
def toString : ColumnType → Str
  | int => bytes "INT"
  | double => bytes "DOUBLE"
  | string => bytes "STRING"
  | unknown _ => bytes "UNKNOWN"

theorem code_lt (t : ColumnType) : t.code < 256 := by
  cases t with
  | unknown raw => have := raw.isLt; simp only [code]; omega
  | _ => decide

theorem ofCode_code (t : ColumnType) : ofCode t.code = t := by
  cases t with
  | unknown raw =>
    have h := raw.isLt
    have hm : (raw.val + 3) % 256 = raw.val + 3 := Nat.mod_eq_of_lt (by omega)
    simp only [ofCode, code, hm, unknown.injEq]
    apply Fin.ext
    simp
  | _ => rfl

end ColumnType

/-- `columnTypeFromString`. -/
def columnTypeFromString (text : Str) : Option ColumnType :=
  let normalized := text.map toUpper
  if normalized = bytes "INT" then some .int
  else if normalized = bytes "DOUBLE" then some .double
  else if normalized = bytes "STRING" then some .string
  else none

/-- `Value`: a variant of nothing, an integer, a double and a string. -/
inductive Value
  | null
  | int (value : I64)
  | double (value : Binary64)
  | string (value : Str)
  deriving DecidableEq

instance : Inhabited Value := ⟨.null⟩

namespace Value

/-- `Value::isNull`. -/
def isNull : Value → Bool
  | null => true
  | _ => false

/-- The index of the variant's active alternative. -/
def index : Value → ℕ
  | null => 0
  | int _ => 1
  | double _ => 2
  | string _ => 3

/-- `Value::type`. -/
def type : Value → Except Exception ColumnType
  | null => throw (.runtimeError "null value has no concrete column type")
  | int _ => return .int
  | double _ => return .double
  | string _ => return .string

/-- The numeric value of the type of a value that is not NULL. -/
def typeCode : Value → ℕ
  | null => 0
  | int _ => ColumnType.int.code
  | double _ => ColumnType.double.code
  | string _ => ColumnType.string.code

/-- The decimal text of an integer. -/
def intToString (i : I64) : Str :=
  if i.val < 0 then byte '-' :: decimal i.val.natAbs else decimal i.val.natAbs

/-- `Value::toString`. -/
def toString : Value → Str
  | null => bytes "NULL"
  | int i => intToString i
  | double d => d.printG
  | string s => s

/-- `operator<`. -/
def lt (lhs rhs : Value) : Bool :=
  if lhs.isNull || rhs.isNull then lhs.index < rhs.index
  else if lhs.typeCode ≠ rhs.typeCode then lhs.typeCode < rhs.typeCode
  else match lhs, rhs with
    | int a, int b => a.val < b.val
    | double a, double b => a.place < b.place
    | string a, string b => a < b
    | _, _ => false

/-- `operator==`: the same alternative, with equal contents. -/
def equal (lhs rhs : Value) : Bool :=
  match lhs, rhs with
  | null, null => true
  | int a, int b => a.val = b.val
  | double a, double b => a.place = b.place
  | string a, string b => a = b
  | _, _ => false

theorem lt_irrefl (a : Value) : ¬ lt a a := by
  cases a <;> simp [lt, isNull, index]

theorem lt_asymm {a b : Value} (h : lt a b) : ¬ lt b a := by
  cases a <;> cases b <;> simp_all [lt, isNull, index, typeCode, ColumnType.code] <;>
    exact le_of_lt h

theorem not_lt_trans {a b c : Value} (h : ¬ lt b a) (h' : ¬ lt c b) : ¬ lt c a := by
  cases a <;> cases b <;> cases c <;>
    simp_all [lt, isNull, index, typeCode, ColumnType.code] <;>
    exact le_trans h h'

theorem equal_iff_not_lt {a b : Value} : equal a b ↔ ¬ lt b a ∧ ¬ lt a b := by
  cases a <;> cases b <;> simp [equal, lt, isNull, index, typeCode, ColumnType.code] <;>
    exact le_antisymm_iff

instance : Preorder Value where
  le a b := ¬ lt b a
  lt a b := lt a b
  le_refl := lt_irrefl
  le_trans _ _ _ := not_lt_trans
  lt_iff_le_not_ge _ _ := ⟨fun h => ⟨lt_asymm h, not_not.2 h⟩, fun h => not_not.1 h.2⟩

instance : DecidableLT Value := fun a b => inferInstanceAs (Decidable (lt a b = true))

instance : DecidableLE Value := fun a b => inferInstanceAs (Decidable (¬ lt b a = true))

instance : @Std.Total Value (· ≤ ·) where
  total a b := by
    by_cases h : lt b a
    · exact .inr (lt_asymm h)
    · exact .inl h

variable {a b : Value}

theorem lt_iff : lt a b = true ↔ a < b := Iff.rfl

theorem lt_eq_false_iff : lt a b = false ↔ b ≤ a := Bool.eq_false_iff

/-- What the comparisons see of a value: a key of a `std::map`. -/
abbrev Key := Antisymmetrization Value (· ≤ ·)

/-- The key of a value. -/
def key (value : Value) : Key := toAntisymmetrization (· ≤ ·) value

theorem key_lt_key_iff : a.key < b.key ↔ a < b := toAntisymmetrization_lt_toAntisymmetrization_iff

theorem key_le_key_iff : a.key ≤ b.key ↔ a ≤ b := toAntisymmetrization_le_toAntisymmetrization_iff

theorem equal_iff : equal a b = true ↔ a.key = b.key := by
  rw [le_antisymm_iff (a := a.key), key_le_key_iff, key_le_key_iff]
  exact equal_iff_not_lt

theorem decide_key_lt_key (a b : Value) : decide (a.key < b.key) = lt a b := by
  rw [Bool.eq_iff_iff, decide_eq_true_iff, key_lt_key_iff, lt_iff]

theorem decide_key_eq_key (a b : Value) : decide (a.key = b.key) = equal a b := by
  rw [Bool.eq_iff_iff, decide_eq_true_iff, equal_iff]

@[simp] theorem equal_self (a : Value) : equal a a = true := equal_iff.2 rfl

end Value

/-- `Column`. -/
structure Column where
  name : Str
  type : ColumnType
  nullable : Bool
  deriving DecidableEq

/-- `Row`. -/
abbrev Row := List Value

/-- `RowId`: the position of a row. -/
abbrev RowId := ℕ

/-- `row[index]`, which `std::vector` does not check. -/
def Row.at (row : Row) (index : ℕ) : Value := row.getD index .null

/-- `ComparisonOperator`. -/
inductive ComparisonOperator
  | equal
  | greater
  | less
  deriving DecidableEq

/-- `compare`. -/
def compare (left : Value) (op : ComparisonOperator) (right : Value) : Bool :=
  match op with
  | .equal => left.equal right
  | .greater => right.lt left
  | .less => left.lt right

end VertexDB
