import VertexDB.Lib.Ascii

/-!
# IEEE 754 binary64 numbers: exact values, nearest rounding, `%g` output and decimal input

A `Binary64` is a bit pattern.  Its magnitude is an exact rational number (`absValue`), and the
two conversions of the C library are defined on exact rationals:

* `nearest` rounds a rational to the nearest pattern, ties to even (`strtod`);
* `printG` prints six significant digits in the style of `%g`, which is what a default C++
  output stream does.

Numbers are compared by their places, which are those of the numbers that the patterns stand for
(`place_lt_place_iff`), so that the two zeros share one (`place_eq_place_iff`).  A NaN, which the
conversions never make, has a place beyond the infinities.
-/

instance instNeZeroWord : NeZero (2 ^ 64) := ⟨by decide⟩

/-- A binary64 number, as its bit pattern. -/
structure Binary64 where
  /-- Sign, exponent and fraction bits. -/
  bits : Fin (2 ^ 64)
  deriving DecidableEq

namespace Binary64

/-- The sign bit. -/
def isNegative (d : Binary64) : Bool := 2 ^ 63 ≤ d.bits.val

/-- The pattern without its sign bit. -/
def magnitude (d : Binary64) : ℕ := d.bits.val % 2 ^ 63

/-- Neither an infinity nor a NaN. -/
def isFinite (d : Binary64) : Bool := d.magnitude < 2047 * 2 ^ 52

/-- The pattern with the given sign and magnitude. -/
def ofMagnitude (negative : Bool) (m : ℕ) : Binary64 :=
  ⟨Fin.ofNat _ ((if negative then 2 ^ 63 else 0) + m % 2 ^ 63)⟩

/-- The place of a number in their order. -/
def place (d : Binary64) : ℤ := if d.isNegative then -(d.magnitude : ℤ) else d.magnitude

/-! ### Exact values -/

/-- The magnitude of a finite pattern of magnitude `m`. -/
def valueOf (m : ℕ) : ℚ :=
  if m / 2 ^ 52 = 0 then (m : ℚ) * 2 ^ (-1074 : ℤ)
  else ((2 ^ 52 + m % 2 ^ 52 : ℕ) : ℚ) * 2 ^ ((m / 2 ^ 52 : ℕ) - 1075 : ℤ)

/-- The magnitude of a finite number. -/
def absValue (d : Binary64) : ℚ := valueOf d.magnitude

/-- A finite number. -/
def value (d : Binary64) : ℚ := if d.isNegative then -d.absValue else d.absValue

theorem valueOf_nonneg (m : ℕ) : 0 ≤ valueOf m := by
  unfold valueOf
  split_ifs <;> positivity

theorem valueOf_zero : valueOf 0 = 0 := by simp [valueOf]

theorem valueOf_lt_succ (m : ℕ) : valueOf m < valueOf (m + 1) := by
  have hpos : ∀ e : ℤ, (0 : ℚ) < 2 ^ e := fun e => zpow_pos (by norm_num) e
  by_cases hlast : m % 2 ^ 52 = 2 ^ 52 - 1
  · -- the fraction is full, so the next exponent follows
    have hdiv : (m + 1) / 2 ^ 52 = m / 2 ^ 52 + 1 := by omega
    have hmod : (m + 1) % 2 ^ 52 = 0 := by omega
    rw [valueOf, valueOf, hdiv, hmod, if_neg (Nat.succ_ne_zero _), Nat.add_zero]
    by_cases hsub : m / 2 ^ 52 = 0
    · obtain rfl : m = 2 ^ 52 - 1 := by omega
      rw [if_pos hsub, hsub]
      exact mul_lt_mul_of_pos_right (by norm_num) (hpos (-1074))
    · rw [if_neg hsub, hlast]
      have hnext : ((m / 2 ^ 52 + 1 : ℕ) - 1075 : ℤ) = ((m / 2 ^ 52 : ℕ) - 1075) + 1 := by
        push_cast
        ring
      rw [hnext, zpow_add_one₀ (by norm_num)]
      have := hpos ((m / 2 ^ 52 : ℕ) - 1075)
      push_cast at this ⊢
      linarith
  · have hdiv : (m + 1) / 2 ^ 52 = m / 2 ^ 52 := by omega
    have hmod : (m + 1) % 2 ^ 52 = m % 2 ^ 52 + 1 := by omega
    rw [valueOf, valueOf, hdiv, hmod]
    split_ifs
    · exact mul_lt_mul_of_pos_right (by push_cast; linarith) (hpos (-1074))
    · exact mul_lt_mul_of_pos_right (by push_cast; linarith) (hpos _)

theorem strictMono_valueOf : StrictMono valueOf := strictMono_nat_of_lt_succ valueOf_lt_succ

theorem valueOf_le_valueOf_iff {m n : ℕ} : valueOf m ≤ valueOf n ↔ m ≤ n :=
  strictMono_valueOf.le_iff_le

/-- **The places are in the order of the numbers.** -/
theorem place_le_place_iff {a b : Binary64} : a.place ≤ b.place ↔ a.value ≤ b.value := by
  have ha := valueOf_nonneg a.magnitude
  have hb := valueOf_nonneg b.magnitude
  have hzero {m n : ℕ} : valueOf m ≤ -valueOf n ↔ m = 0 ∧ n = 0 := by
    have hm := valueOf_nonneg m
    have hn := valueOf_nonneg n
    rw [← Nat.le_zero, ← Nat.le_zero, ← valueOf_le_valueOf_iff, ← valueOf_le_valueOf_iff,
      valueOf_zero]
    constructor
    · intro h
      exact ⟨by linarith, by linarith⟩
    · rintro ⟨h, h'⟩
      linarith
  simp only [place, value, absValue]
  cases a.isNegative with
  | true =>
    cases b.isNegative with
    | true =>
      simp only [if_true, neg_le_neg_iff, Nat.cast_le, valueOf_le_valueOf_iff]
    | false =>
      simp only [if_true, Bool.false_eq_true, if_false]
      exact iff_of_true (by omega) (by linarith)
  | false =>
    cases b.isNegative with
    | true =>
      simp only [if_true, Bool.false_eq_true, if_false, hzero]
      omega
    | false =>
      simp only [Bool.false_eq_true, if_false, Nat.cast_le, valueOf_le_valueOf_iff]

theorem place_lt_place_iff {a b : Binary64} : a.place < b.place ↔ a.value < b.value := by
  rw [← not_le, place_le_place_iff, not_le]

theorem place_eq_place_iff {a b : Binary64} : a.place = b.place ↔ a.value = b.value := by
  rw [le_antisymm_iff, le_antisymm_iff, place_le_place_iff, place_le_place_iff]

/-- Rounding of a non-negative rational to the nearest natural number, ties to even. -/
def roundHalfEven (q : ℚ) : ℕ :=
  let f := ⌊q⌋₊
  if q - f < 1 / 2 then f
  else if 1 / 2 < q - f then f + 1
  else if f % 2 = 0 then f else f + 1

/-- The magnitude pattern nearest to a non-negative rational; patterns from `2047 * 2 ^ 52` on
mean overflow. -/
def nearestMagnitude (q : ℚ) : ℕ :=
  if q = 0 then 0
  else
    let e := max (-1074) (Int.log 2 q - 52)
    (e + 1074).toNat * 2 ^ 52 + roundHalfEven (q / 2 ^ e)

/-- The result of `strtod` on a number of the given sign and magnitude, or `none` when it sets
`ERANGE`: the result overflows, or it is inexact and below the normal numbers. -/
def nearest? (negative : Bool) (q : ℚ) : Option Binary64 :=
  let m := nearestMagnitude q
  if 2047 * 2 ^ 52 ≤ m then none
  else if m < 2 ^ 52 ∧ valueOf m ≠ q then none
  else some (ofMagnitude negative m)

/-! ### `%g` with six significant digits -/

/-- Six significant digits of a positive rational: the digits as a number of six digits, and the
decimal exponent of the first one. -/
def sixDigits (q : ℚ) : ℕ × ℤ :=
  let x := Int.log 10 q
  let digits := roundHalfEven (q * 10 ^ (5 - x))
  if digits = 10 ^ 6 then (10 ^ 5, x + 1) else (digits, x)

/-- Remove the trailing zeros of a string of digits. -/
def stripZeros (ds : List Byte) : List Byte :=
  (ds.reverse.dropWhile fun b => b == Ascii.digit 0).reverse

/-- A fraction with its decimal point, or nothing when it is zero. -/
def fraction (ds : List Byte) : List Byte :=
  if stripZeros ds = [] then [] else Ascii.byte '.' :: stripZeros ds

/-- A decimal exponent: its sign and at least two digits. -/
def printExponent (x : ℤ) : List Byte :=
  (if x < 0 then Ascii.byte '-' else Ascii.byte '+') ::
    (if x.natAbs < 10 then Ascii.digit 0 :: Ascii.decimal x.natAbs else Ascii.decimal x.natAbs)

/-- `%g` of a positive rational. -/
def printMagnitude (q : ℚ) : List Byte :=
  let (digits, x) := sixDigits q
  let ds := Ascii.decimal digits
  if x < -4 ∨ 6 ≤ x then ds.take 1 ++ fraction (ds.drop 1) ++ Ascii.byte 'e' :: printExponent x
  else if x < 0 then Ascii.digit 0 :: fraction (List.replicate (-x - 1).toNat (Ascii.digit 0) ++ ds)
  else ds.take (x.toNat + 1) ++ fraction (ds.drop (x.toNat + 1))

/-- What a default output stream prints for a number. -/
def printG (d : Binary64) : List Byte :=
  (if d.isNegative then [Ascii.byte '-'] else []) ++
    (if d.isFinite then
      if d.magnitude = 0 then [Ascii.digit 0] else printMagnitude d.absValue
    else if d.magnitude = 2047 * 2 ^ 52 then Ascii.bytes "inf" else Ascii.bytes "nan")

/-! ### `strtod` on signs, digits and points -/

/-- The longest prefix of `bs` that is a decimal number, as sign, magnitude and the number of
digits read: an optional minus sign, digits, and digits after a point. -/
def scanDecimal (bs : List Byte) : Bool × ℚ × ℕ :=
  let negative := bs.head? == some (Ascii.byte '-')
  let body := if negative then bs.tail else bs
  let whole := body.takeWhile Ascii.isDigit
  let rest := body.dropWhile Ascii.isDigit
  let frac := if rest.head? == some (Ascii.byte '.') then rest.tail.takeWhile Ascii.isDigit else []
  (negative, (Ascii.ofDecimal (whole ++ frac) : ℚ) / 10 ^ frac.length, whole.length + frac.length)

end Binary64
