import VertexDB.Lib.Binary64

/-!
# Rounding decimals to binary64 and back

A binary64 number nearest to a decimal of six significant digits still has those six digits: the
error of the rounding is at most `2 ^ (-53)` times the number, far less than half a unit of the
sixth digit.  `sixDigits_of_near` is the statement about digits, and
`abs_valueOf_nearestMagnitude_sub_le` the one about the error.
-/

namespace Binary64

/-! ### Rounding to a natural number -/

theorem abs_roundHalfEven_sub_le {q : ℚ} (hq : 0 ≤ q) : |(roundHalfEven q : ℚ) - q| ≤ 1 / 2 := by
  have hle := Nat.floor_le hq
  have hlt := Nat.lt_floor_add_one q
  unfold roundHalfEven
  simp only
  rw [abs_le]
  split_ifs <;> push_cast <;> constructor <;> linarith

theorem roundHalfEven_eq {q : ℚ} (hq : 0 ≤ q) {n : ℕ} (h : |q - n| < 1 / 2) :
    roundHalfEven q = n := by
  have hround := abs_roundHalfEven_sub_le hq
  rw [abs_le] at hround
  rw [abs_lt] at h
  have hlt : (roundHalfEven q : ℚ) < n + 1 := by linarith
  have hgt : (n : ℚ) < roundHalfEven q + 1 := by linarith
  have hlt' : roundHalfEven q < n + 1 := by exact_mod_cast hlt
  have hgt' : n < roundHalfEven q + 1 := by exact_mod_cast hgt
  omega

theorem le_roundHalfEven {q : ℚ} {n : ℕ} (h : (n : ℚ) ≤ q) : n ≤ roundHalfEven q := by
  have hround := abs_roundHalfEven_sub_le (le_trans (Nat.cast_nonneg n) h)
  rw [abs_le] at hround
  have hlt : (n : ℚ) < roundHalfEven q + 1 := by linarith
  have hlt' : n < roundHalfEven q + 1 := by exact_mod_cast hlt
  omega

theorem roundHalfEven_le {q : ℚ} (hq : 0 ≤ q) {n : ℕ} (h : q < n) : roundHalfEven q ≤ n := by
  have hround := abs_roundHalfEven_sub_le hq
  rw [abs_le] at hround
  have hlt : (roundHalfEven q : ℚ) < n + 1 := by linarith
  have hlt' : roundHalfEven q < n + 1 := by exact_mod_cast hlt
  omega

/-! ### Rounding to a pattern -/

/-- The pattern of a mantissa and an exponent of normal numbers. -/
theorem valueOf_add {e : ℤ} (he : -1074 ≤ e) {r : ℕ} (hr : 2 ^ 52 ≤ r) (hr' : r ≤ 2 ^ 53) :
    valueOf ((e + 1074).toNat * 2 ^ 52 + r) = r * 2 ^ e := by
  obtain ⟨k, rfl⟩ : ∃ k : ℕ, e = k - 1074 := ⟨(e + 1074).toNat, by omega⟩
  have hk : ((k : ℤ) - 1074 + 1074).toNat = k := by omega
  rw [hk, valueOf]
  rcases hr'.lt_or_eq with hlt | rfl
  · have hdiv : (k * 2 ^ 52 + r) / 2 ^ 52 = k + 1 := by omega
    have hmod : 2 ^ 52 + (k * 2 ^ 52 + r) % 2 ^ 52 = r := by omega
    rw [hdiv, if_neg (by omega), hmod]
    congr 2
    push_cast
    ring
  · have hdiv : (k * 2 ^ 52 + 2 ^ 53) / 2 ^ 52 = k + 2 := by omega
    have hmod : 2 ^ 52 + (k * 2 ^ 52 + 2 ^ 53) % 2 ^ 52 = 2 ^ 52 := by omega
    rw [hdiv, if_neg (by omega), hmod]
    have hexp : ((k + 2 : ℕ) : ℤ) - 1075 = 1 + (k - 1074) := by push_cast; ring
    rw [hexp, zpow_add₀ (by norm_num)]
    push_cast
    ring

variable {q : ℚ}

/-- The mantissa and the exponent that a number is rounded to. -/
theorem nearestMagnitude_eq (hq : (2 : ℚ) ^ (-1022 : ℤ) ≤ q) :
    ∃ r : ℕ, 2 ^ 52 ≤ r ∧ r ≤ 2 ^ 53 ∧ -1022 ≤ Int.log 2 q ∧
      nearestMagnitude q = (Int.log 2 q + 1022).toNat * 2 ^ 52 + r ∧
      |(r : ℚ) * 2 ^ (Int.log 2 q - 52) - q| ≤ 2 ^ (Int.log 2 q - 52) / 2 := by
  have hpos : 0 < q := lt_of_lt_of_le (zpow_pos (by norm_num) _) hq
  have hlog : -1022 ≤ Int.log 2 q :=
    (Int.zpow_le_iff_le_log (by norm_num) hpos).1 (by exact_mod_cast hq)
  set l := Int.log 2 q with hl
  have hscale : (0 : ℚ) < 2 ^ (l - 52) := zpow_pos (by norm_num) _
  have hsplit : ∀ j : ℤ, (2 : ℚ) ^ (l + j) = 2 ^ (52 + j) * 2 ^ (l - 52) := by
    intro j
    rw [← zpow_add₀ (by norm_num)]
    congr 1
    ring
  -- scaled to a unit in the last place, a normal number has 53 binary digits
  have hlow : (2 : ℚ) ^ 52 ≤ q / 2 ^ (l - 52) := by
    rw [le_div_iff₀ hscale]
    have := Int.zpow_log_le_self (b := 2) (by norm_num) hpos
    rw [← hl] at this
    have h0 := hsplit 0
    rw [add_zero] at h0
    push_cast at this
    rw [h0] at this
    exact_mod_cast this
  have hhigh : q / 2 ^ (l - 52) < 2 ^ 53 := by
    rw [div_lt_iff₀ hscale]
    have := Int.lt_zpow_succ_log_self (b := 2) (by norm_num) q
    rw [← hl] at this
    push_cast at this
    rw [hsplit 1] at this
    exact_mod_cast this
  have hnonneg : 0 ≤ q / 2 ^ (l - 52) := by positivity
  refine ⟨roundHalfEven (q / 2 ^ (l - 52)), le_roundHalfEven (by exact_mod_cast hlow),
    roundHalfEven_le hnonneg (by exact_mod_cast hhigh), hlog, ?_, ?_⟩
  · rw [nearestMagnitude, if_neg hpos.ne', ← hl]
    have hmax : max (-1074) (l - 52) = l - 52 := max_eq_right (by omega)
    simp only [hmax]
    congr 2
    ring_nf
  · have hround := abs_roundHalfEven_sub_le hnonneg
    have heq : (roundHalfEven (q / 2 ^ (l - 52)) : ℚ) * 2 ^ (l - 52) - q =
        (roundHalfEven (q / 2 ^ (l - 52)) - q / 2 ^ (l - 52)) * 2 ^ (l - 52) := by
      field_simp
    rw [heq, abs_mul, abs_of_pos hscale]
    have := mul_le_mul_of_nonneg_right hround hscale.le
    linarith

/-- The relative error of rounding a normal number. -/
theorem abs_valueOf_nearestMagnitude_sub_le (hq : (2 : ℚ) ^ (-1022 : ℤ) ≤ q) :
    |valueOf (nearestMagnitude q) - q| ≤ q / 2 ^ 53 := by
  obtain ⟨r, hr, hr', hlog, hm, herr⟩ := nearestMagnitude_eq hq
  have hexp : (Int.log 2 q + 1022).toNat = (Int.log 2 q - 52 + 1074).toNat := by congr 1; ring
  rw [hm, hexp, valueOf_add (by omega) hr hr']
  refine herr.trans ?_
  have hpos : 0 < q := lt_of_lt_of_le (zpow_pos (by norm_num) _) hq
  have hle := Int.zpow_log_le_self (b := 2) (by norm_num) hpos
  have hsplit : ((2 : ℕ) : ℚ) ^ Int.log 2 q = 2 ^ 52 * 2 ^ (Int.log 2 q - 52) := by
    rw [← zpow_natCast, ← zpow_add₀ (by norm_num)]
    push_cast
    congr 1
    ring
  rw [hsplit] at hle
  rw [div_le_div_iff₀ (by norm_num) (by positivity)]
  linarith

/-! ### Six digits -/

theorem log_eq_of_bounds {x : ℤ} (h : (10 : ℚ) ^ x ≤ q) (h' : q < 10 ^ (x + 1)) :
    Int.log 10 q = x := by
  have hpos : 0 < q := lt_of_lt_of_le (zpow_pos (by norm_num) _) h
  have hlow : x ≤ Int.log 10 q := (Int.zpow_le_iff_le_log (by norm_num) hpos).1
    (by exact_mod_cast h)
  have hhigh : Int.log 10 q < x + 1 :=
    (Int.lt_zpow_iff_log_lt (by norm_num) hpos).1 (by exact_mod_cast h')
  omega

/-- The digits of a positive number. -/
theorem sixDigits_bounds (hq : 0 < q) :
    10 ^ 5 ≤ (sixDigits q).1 ∧ (sixDigits q).1 < 10 ^ 6 := by
  have hscale : ∀ j : ℤ, (0 : ℚ) < 10 ^ j := fun j => zpow_pos (by norm_num) j
  have hlow : (10 : ℚ) ^ 5 ≤ q * 10 ^ (5 - Int.log 10 q) := by
    have := Int.zpow_log_le_self (b := 10) (by norm_num) hq
    have := mul_le_mul_of_nonneg_right this (hscale (5 - Int.log 10 q)).le
    push_cast at this
    rw [← zpow_add₀ (by norm_num), add_sub_cancel] at this
    exact_mod_cast this
  have hhigh : q * 10 ^ (5 - Int.log 10 q) < 10 ^ 6 := by
    have := Int.lt_zpow_succ_log_self (b := 10) (by norm_num) q
    have := mul_lt_mul_of_pos_right this (hscale (5 - Int.log 10 q))
    push_cast at this
    rw [← zpow_add₀ (by norm_num), show Int.log 10 q + 1 + (5 - Int.log 10 q) = 6 by ring] at this
    exact_mod_cast this
  have h1 : 10 ^ 5 ≤ roundHalfEven (q * 10 ^ (5 - Int.log 10 q)) :=
    le_roundHalfEven (by exact_mod_cast hlow)
  have h2 : roundHalfEven (q * 10 ^ (5 - Int.log 10 q)) ≤ 10 ^ 6 :=
    roundHalfEven_le (by positivity) (by exact_mod_cast hhigh)
  unfold sixDigits
  simp only
  split_ifs with h
  · norm_num
  · exact ⟨h1, lt_of_le_of_ne h2 h⟩

/-- A number near to one of six digits has these digits. -/
theorem sixDigits_of_near {a : ℚ} {n : ℕ} {x : ℤ} (hn : 10 ^ 5 ≤ n) (hn' : n < 10 ^ 6)
    (hq : q = n * 10 ^ (x - 5)) (ha : |a - q| ≤ q / 2 ^ 53) : sixDigits a = (n, x) := by
  have hscale : ∀ j : ℤ, (0 : ℚ) < 10 ^ j := fun j => zpow_pos (by norm_num) j
  have hunit : ∀ j : ℤ, (10 : ℚ) ^ (x + j) = 10 ^ (5 + j) * 10 ^ (x - 5) := by
    intro j
    rw [← zpow_add₀ (by norm_num)]
    congr 1
    ring
  set u : ℚ := 10 ^ (x - 5) with hu
  have hupos : 0 < u := hscale _
  have hnQ : (10 : ℚ) ^ 5 ≤ n := by exact_mod_cast hn
  have hnQ' : (n : ℚ) ≤ 10 ^ 6 - 1 := by
    have : (n : ℚ) + 1 ≤ 10 ^ 6 := by exact_mod_cast hn'
    linarith
  -- In units of the sixth digit the number is within a thousandth of its digits.
  obtain ⟨b, hb⟩ : ∃ b, a = b * u := ⟨a / u, by field_simp⟩
  have hnear : |b - n| ≤ 1 / 1000 := by
    rw [hb, hq, ← sub_mul, abs_mul, abs_of_pos hupos, mul_div_right_comm] at ha
    have := le_of_mul_le_mul_right ha hupos
    refine this.trans ?_
    rw [div_le_div_iff₀ (by positivity) (by norm_num)]
    linarith
  rw [abs_le] at hnear
  have h0 := hunit 0
  have h1 := hunit 1
  have hm1 := hunit (-1)
  norm_num at h0 h1 hm1
  by_cases hlow : (10 : ℚ) ^ x ≤ a
  · have hlog : Int.log 10 a = x := log_eq_of_bounds hlow (by rw [h1, hb]; nlinarith)
    have hdigits : a * 10 ^ (5 - x) = b := by
      rw [hb, mul_assoc, hu, ← zpow_add₀ (by norm_num)]
      simp
    have hround : roundHalfEven b = n := by
      refine roundHalfEven_eq (by linarith) ?_
      rw [abs_lt]
      constructor <;> linarith
    rw [sixDigits, hlog]
    simp only [hdigits, hround]
    rw [if_neg (by omega)]
  · have hblow : b < 10 ^ 5 := by
      rw [not_le, h0, hb] at hlow
      have := lt_of_mul_lt_mul_right hlow hupos.le
      linarith
    have hneq : n = 10 ^ 5 := by
      have : (n : ℚ) < 10 ^ 5 + 1 := by linarith
      have : n < 10 ^ 5 + 1 := by exact_mod_cast this
      omega
    have hlog : Int.log 10 a = x - 1 := by
      refine log_eq_of_bounds ?_ ?_
      · rw [show x - 1 = x + -1 by ring, hm1, hb]
        nlinarith
      · rw [sub_add_cancel]
        exact not_le.1 hlow
    have hdigits : a * 10 ^ (5 - (x - 1)) = b * 10 := by
      rw [hb, mul_assoc, hu, ← zpow_add₀ (by norm_num), show x - 5 + (5 - (x - 1)) = 1 by ring,
        zpow_one]
    have hround : roundHalfEven (b * 10) = 10 ^ 6 := by
      refine roundHalfEven_eq (by linarith) ?_
      rw [abs_lt]
      subst hneq
      push_cast at hnear ⊢
      constructor <;> linarith
    rw [sixDigits, hlog]
    simp only [hdigits, hround]
    rw [if_pos trivial, sub_add_cancel, hneq]

end Binary64
