import VertexDB.Lib.DecimalRounding

/-!
# The text of a binary64 number

What `printG` prints for a finite number is a string of digits, a string of digits with a point, or
a number with an exponent.  A text with a point reads back as the number exactly when the number is
nearest to a decimal of at most six digits (`ShortDecimal`).
-/

open Ascii

namespace Ascii

/-- A string of digits. -/
def Digits (bs : List Byte) : Prop := ∀ b ∈ bs, isDigit b = true

theorem Digits.append {as bs : List Byte} (ha : Digits as) (hb : Digits bs) : Digits (as ++ bs) :=
  List.forall_mem_append.2 ⟨ha, hb⟩

theorem digits_decimal (n : ℕ) : Digits (decimal n) := fun _ => isDigit_of_mem_decimal

theorem digits_replicate (n : ℕ) : Digits (List.replicate n (digit 0)) := by
  intro b hb
  rw [List.eq_of_mem_replicate hb]
  exact isDigit_digit (by norm_num)

theorem ofDecimal_append (as bs : List Byte) :
    ofDecimal (as ++ bs) = ofDecimal as * 10 ^ bs.length + ofDecimal bs := by
  induction bs using List.reverseRecOn with
  | nil => simp [ofDecimal]
  | append_singleton bs b ih =>
    rw [← List.append_assoc, ofDecimal_append_singleton, ofDecimal_append_singleton, ih,
      List.length_append, List.length_singleton, pow_succ]
    ring

theorem ofDecimal_replicate (n : ℕ) : ofDecimal (List.replicate n (digit 0)) = 0 := by
  induction n with
  | zero => rfl
  | succ n ih => rw [List.replicate_succ', ofDecimal_append_singleton, ih]; rfl

theorem ofDecimal_lt {bs : List Byte} (h : Digits bs) : ofDecimal bs < 10 ^ bs.length := by
  induction bs using List.reverseRecOn with
  | nil => norm_num [ofDecimal]
  | append_singleton bs b ih =>
    have hb := h b (by simp)
    have hlt := ih fun c hc => h c (by simp [hc])
    simp only [isDigit, Bool.and_eq_true, decide_eq_true_eq] at hb
    rw [ofDecimal_append_singleton, List.length_append, List.length_singleton, pow_succ]
    omega

theorem length_decimal {n : ℕ} (h : 10 ^ 5 ≤ n) (h' : n < 10 ^ 6) : (decimal n).length = 6 := by
  have hlog : Nat.log 10 n = 5 := Nat.log_eq_of_pow_le_of_lt_pow h h'
  have hn : n ≠ 0 := by omega
  rw [decimal, if_neg hn, List.length_reverse, List.length_map,
    Nat.length_digits 10 n (by norm_num) hn,
    hlog]

end Ascii

namespace Binary64

/-! ### Trailing zeros -/

theorem stripZeros_append (ds : List Byte) :
    ∃ n, ds = stripZeros ds ++ List.replicate n (digit 0) := by
  have htake : ds.reverse.takeWhile (fun b => b == digit 0) =
      List.replicate (ds.reverse.takeWhile (fun b => b == digit 0)).length (digit 0) := by
    rw [List.eq_replicate_iff]
    exact ⟨rfl, fun b hb => by simpa using List.mem_takeWhile_imp hb⟩
  refine ⟨(ds.reverse.takeWhile fun b => b == digit 0).length, ?_⟩
  have hsplit := @List.takeWhile_append_dropWhile _ (fun b => b == digit 0) ds.reverse
  have := congrArg List.reverse hsplit
  rw [List.reverse_append, List.reverse_reverse, htake, List.reverse_replicate] at this
  exact this.symm

theorem digits_stripZeros {ds : List Byte} (h : Digits ds) : Digits (stripZeros ds) := by
  obtain ⟨n, hn⟩ := stripZeros_append ds
  intro b hb
  exact h b (by rw [hn]; exact List.mem_append_left _ hb)

/-- Trailing zeros of a fraction do not change the value. -/
theorem ofDecimal_stripZeros (whole frac : List Byte) :
    (ofDecimal (whole ++ stripZeros frac) : ℚ) / 10 ^ (stripZeros frac).length =
      (ofDecimal (whole ++ frac) : ℚ) / 10 ^ frac.length := by
  obtain ⟨n, hn⟩ := stripZeros_append frac
  have hlen : frac.length = (stripZeros frac).length + n := by
    rw [hn, List.length_append, List.length_replicate, ← hn]
  have hvalue : ofDecimal (whole ++ frac) = ofDecimal (whole ++ stripZeros frac) * 10 ^ n := by
    rw [hn, ← List.append_assoc, ofDecimal_append, ofDecimal_replicate, List.length_replicate,
      add_zero, ← hn]
  rw [hvalue, hlen, pow_add]
  push_cast
  field_simp

theorem ofDecimal_eq_zero_of_stripZeros {ds : List Byte} (h : stripZeros ds = []) :
    ofDecimal ds = 0 := by
  obtain ⟨n, hn⟩ := stripZeros_append ds
  rw [hn, h, List.nil_append, ofDecimal_replicate]

theorem replicate_of_ofDecimal_eq_zero {ds : List Byte} (hd : Digits ds) (h : ofDecimal ds = 0) :
    ds = List.replicate ds.length (digit 0) := by
  induction ds using List.reverseRecOn with
  | nil => rfl
  | append_singleton ds b ih =>
    rw [ofDecimal_append_singleton] at h
    have hb := hd b (by simp)
    simp only [isDigit, Bool.and_eq_true, decide_eq_true_eq] at hb
    have hzero : b = digit 0 := Fin.ext (show b.val = 48 by omega)
    have hrest := ih (fun c hc => hd c (by simp [hc])) (by omega)
    rw [hzero, List.length_append, List.length_singleton, List.replicate_succ', ← hrest]

theorem stripZeros_eq_nil_iff {ds : List Byte} (hd : Digits ds) :
    stripZeros ds = [] ↔ ofDecimal ds = 0 := by
  refine ⟨ofDecimal_eq_zero_of_stripZeros, fun h => ?_⟩
  rw [replicate_of_ofDecimal_eq_zero hd h, stripZeros, List.reverse_replicate,
    List.dropWhile_eq_nil_iff.2 (fun b hb => by simp [List.eq_of_mem_replicate hb]),
    List.reverse_nil]

/-- A fraction is nothing exactly when the number is a multiple of its unit. -/
theorem stripZeros_eq_nil_iff_dvd (whole : List Byte) {frac : List Byte} (hd : Digits frac) :
    stripZeros frac = [] ↔ 10 ^ frac.length ∣ ofDecimal (whole ++ frac) := by
  rw [stripZeros_eq_nil_iff hd, ofDecimal_append, Nat.dvd_add_right (Dvd.intro_left _ rfl)]
  exact ⟨fun h => by rw [h]; exact dvd_zero _, fun h =>
    Nat.eq_zero_of_dvd_of_lt h (ofDecimal_lt hd)⟩

/-! ### Reading a text with a point -/

/-- The sign of a text. -/
def signText (negative : Bool) : List Byte := if negative then [byte '-'] else []

theorem head?_ne_minus {whole rest : List Byte} (hne : whole ≠ []) (hd : Digits whole) :
    (whole ++ rest).head? ≠ some (byte '-') := by
  obtain ⟨b, bs, rfl⟩ := List.exists_cons_of_ne_nil hne
  rintro ⟨⟩
  exact absurd (hd _ List.mem_cons_self) (by decide)

theorem head?_ne_minus_of_point {whole : List Byte} (hd : Digits whole) (rest : List Byte) :
    (whole ++ byte '.' :: rest).head? ≠ some (byte '-') := by
  match whole with
  | [] => rintro ⟨⟩
  | b :: whole => exact head?_ne_minus (List.cons_ne_nil b whole) hd

/-- What is read of a text with a point: nothing after the digits that follow the point. -/
theorem scanDecimal_prefix (negative : Bool) {whole frac more : List Byte} (hwhole : Digits whole)
    (hfrac : Digits frac) (hmore : ∀ b, more.head? = some b → isDigit b = false) :
    scanDecimal (signText negative ++ (whole ++ byte '.' :: (frac ++ more))) =
      (negative, (ofDecimal (whole ++ frac) : ℚ) / 10 ^ frac.length,
        whole.length + frac.length) := by
  have hdot : ¬ isDigit (byte '.') = true := by decide
  have htake : (whole ++ byte '.' :: (frac ++ more)).takeWhile isDigit = whole := by
    rw [List.takeWhile_append_of_pos hwhole, List.takeWhile_cons_of_neg hdot, List.append_nil]
  have hdrop : (whole ++ byte '.' :: (frac ++ more)).dropWhile isDigit =
      byte '.' :: (frac ++ more) := by
    rw [List.dropWhile_append_of_pos hwhole, List.dropWhile_cons_of_neg hdot]
  have hall : (frac ++ more).takeWhile isDigit = frac := by
    rw [List.takeWhile_append_of_pos hfrac]
    match more with
    | [] => rw [List.takeWhile_nil, List.append_nil]
    | b :: more =>
      rw [List.takeWhile_cons_of_neg (by rw [hmore b rfl]; decide), List.append_nil]
  match negative with
  | true =>
    have hsign : signText true ++ (whole ++ byte '.' :: (frac ++ more)) =
      byte '-' :: (whole ++ byte '.' :: (frac ++ more)) := rfl
    rw [hsign, scanDecimal]
    simp only [List.head?_cons, beq_self_eq_true, if_true, List.tail_cons, htake, hdrop, hall]
  | false =>
    have hsign : signText false ++ (whole ++ byte '.' :: (frac ++ more)) =
      whole ++ byte '.' :: (frac ++ more) := rfl
    have hhead : ((whole ++ byte '.' :: (frac ++ more)).head? == some (byte '-')) = false :=
      beq_false_of_ne (head?_ne_minus_of_point hwhole _)
    rw [hsign, scanDecimal]
    simp only [hhead, Bool.false_eq_true, if_false, htake, hdrop, List.head?_cons,
      beq_self_eq_true, if_true, List.tail_cons, hall]

theorem scanDecimal_point (negative : Bool) {whole frac : List Byte} (hwhole : Digits whole)
    (hfrac : Digits frac) :
    scanDecimal (signText negative ++ (whole ++ byte '.' :: frac)) =
      (negative, (ofDecimal (whole ++ frac) : ℚ) / 10 ^ frac.length,
        whole.length + frac.length) := by
  have hnone : ∀ b, ([] : List Byte).head? = some b → isDigit b = false := by rintro b ⟨⟩
  have hread := scanDecimal_prefix negative hwhole hfrac hnone
  rwa [List.append_nil] at hread

/-! ### What is printed -/

/-- The whole part and the fraction that are printed for six digits without an exponent. -/
theorem printMagnitude_fixed {q : ℚ} {n : ℕ} {x : ℤ} (hn : 10 ^ 5 ≤ n) (hn' : n < 10 ^ 6)
    (hq : sixDigits q = (n, x)) (hx : -4 ≤ x) (hx' : x < 6) :
    ∃ whole frac, whole ≠ [] ∧ Digits whole ∧ Digits frac ∧ frac.length = (5 - x).toNat ∧
      ofDecimal (whole ++ frac) = n ∧ printMagnitude q = whole ++ fraction frac := by
  have hlen := length_decimal hn hn'
  have hdigits := digits_decimal n
  have hprint : printMagnitude q =
      if x < 0 then digit 0 :: fraction (List.replicate (-x - 1).toNat (digit 0) ++ decimal n)
      else (decimal n).take (x.toNat + 1) ++ fraction ((decimal n).drop (x.toNat + 1)) := by
    rw [printMagnitude, hq]
    simp only
    rw [if_neg (by omega)]
  by_cases hneg : x < 0
  · refine ⟨[digit 0], List.replicate (-x - 1).toNat (digit 0) ++ decimal n, by simp,
      digits_replicate 1, (digits_replicate _).append hdigits, ?_, ?_, ?_⟩
    · rw [List.length_append, List.length_replicate, hlen]
      omega
    · have hzeros : [digit 0] ++ (List.replicate (-x - 1).toNat (digit 0) ++ decimal n) =
          List.replicate ((-x - 1).toNat + 1) (digit 0) ++ decimal n := by
        rw [List.replicate_succ]; rfl
      rw [hzeros, ofDecimal_append, ofDecimal_replicate, ofDecimal_decimal]
      omega
    · rw [hprint, if_pos hneg]
      rfl
  · refine ⟨(decimal n).take (x.toNat + 1), (decimal n).drop (x.toNat + 1), ?_, ?_, ?_, ?_, ?_, ?_⟩
    · intro hnil
      have := congrArg List.length hnil
      rw [List.length_take, hlen, List.length_nil] at this
      omega
    · exact fun b hb => hdigits b (List.mem_of_mem_take hb)
    · exact fun b hb => hdigits b (List.mem_of_mem_drop hb)
    · rw [List.length_drop, hlen]
      omega
    · rw [List.take_append_drop, ofDecimal_decimal]
    · rw [hprint, if_neg hneg]

/-- A text with an exponent. -/
structure ExponentText (text mantissa rest : List Byte) (sign : Byte) : Prop where
  ne_nil : mantissa ≠ []
  head : ∀ b, mantissa.head? = some b → isDigit b = true
  parts : ∀ b ∈ mantissa, isDigit b = true ∨ b = byte '.'
  sign_eq : sign = byte '+' ∨ sign = byte '-'
  text_eq : text = mantissa ++ byte 'e' :: sign :: rest

theorem printMagnitude_exponent {q : ℚ} {n : ℕ} {x : ℤ} (hn : 10 ^ 5 ≤ n) (hn' : n < 10 ^ 6)
    (hq : sixDigits q = (n, x)) (hx : x < -4 ∨ 6 ≤ x) :
    ∃ mantissa rest sign, ExponentText (printMagnitude q) mantissa rest sign := by
  have hlen := length_decimal hn hn'
  have hdigits := digits_decimal n
  obtain ⟨b, bs, hbs⟩ := List.exists_cons_of_ne_nil (decimal_ne_nil n)
  refine ⟨(decimal n).take 1 ++ fraction ((decimal n).drop 1),
    (if x.natAbs < 10 then digit 0 :: decimal x.natAbs else decimal x.natAbs),
    if x < 0 then byte '-' else byte '+', ?_, ?_, ?_, ?_, ?_⟩
  · simp [hbs]
  · intro c hc
    refine hdigits c ?_
    rw [hbs] at hc ⊢
    simp only [List.take_succ_cons, List.take_zero, List.cons_append, List.head?_cons,
      Option.some.injEq] at hc
    rw [hc]
    exact List.mem_cons_self
  · intro c hc
    rcases List.mem_append.1 hc with hc | hc
    · exact .inl (hdigits c (List.mem_of_mem_take hc))
    · unfold fraction at hc
      split_ifs at hc
      · cases hc
      · rcases List.mem_cons.1 hc with rfl | hc
        · exact .inr rfl
        · exact .inl (digits_stripZeros (fun c hc => hdigits c (List.mem_of_mem_drop hc)) c hc)
  · split_ifs
    · exact .inr rfl
    · exact .inl rfl
  · rw [printMagnitude, hq]
    simp only
    rw [if_pos hx, printExponent]

/-- A text with a point: the digits before it, and those after it with their trailing zeros. -/
structure PointText (text whole frac : List Byte) : Prop where
  ne_nil : whole ≠ []
  whole_digits : Digits whole
  frac_digits : Digits frac
  frac_ne : stripZeros frac ≠ []
  text_eq : text = whole ++ byte '.' :: stripZeros frac

/-- The decimal that a text with a point stands for. -/
def decimalValue (whole frac : List Byte) : ℚ := (ofDecimal (whole ++ frac) : ℚ) / 10 ^ frac.length

theorem PointText.scanDecimal_eq {text whole frac : List Byte} (h : PointText text whole frac)
    (negative : Bool) :
    ∃ n, n ≠ 0 ∧ scanDecimal (signText negative ++ text) =
      (negative, decimalValue whole frac, n) := by
  refine ⟨whole.length + (stripZeros frac).length, ?_, ?_⟩
  · have := List.length_pos_iff.2 h.ne_nil
    omega
  · rw [h.text_eq, scanDecimal_point negative h.whole_digits
      (digits_stripZeros h.frac_digits), ofDecimal_stripZeros, decimalValue]

/-- The number is nearest to a decimal of at most six digits that is no integer and not below
`0.0001`. -/
def ShortDecimal (d : Binary64) : Prop :=
  ∃ digits k : ℕ, digits < 10 ^ 6 ∧ ¬ 10 ^ k ∣ digits ∧ 10 ^ k ≤ digits * 10 ^ 4 ∧
    nearest? d.isNegative ((digits : ℚ) / 10 ^ k) = some d

theorem sixDigits_decimal {digits k : ℕ} (hlt : digits < 10 ^ 6) (hle : 10 ^ k ≤ digits * 10 ^ 4) :
    ∃ (n : ℕ) (x : ℤ), 10 ^ 5 ≤ n ∧ n < 10 ^ 6 ∧ -4 ≤ x ∧ x < 6 ∧
      (digits : ℚ) / 10 ^ k = n * 10 ^ (x - 5) := by
  have hpos : (0 : ℚ) < digits / 10 ^ k := by
    have : 0 < digits := Nat.pos_of_ne_zero fun h => by simp [h] at hle
    positivity
  set q : ℚ := digits / 10 ^ k with hq
  set x := Int.log 10 q with hx
  have hlow := Int.zpow_log_le_self (b := 10) (by norm_num) hpos
  have hhigh := Int.lt_zpow_succ_log_self (b := 10) (by norm_num) q
  rw [← hx] at hlow hhigh
  push_cast at hlow hhigh
  -- `x` is the exponent of the first digit, and the two bounds on the number bound it
  have hxk : x < 6 - k := by
    refine (Int.lt_zpow_iff_log_lt (b := 10) (by norm_num) hpos).1 ?_
    push_cast
    rw [zpow_sub₀ (by norm_num), zpow_natCast, hq]
    exact div_lt_div_of_pos_right (by exact_mod_cast hlt) (by positivity)
  have hx4 : -4 ≤ x := by
    refine (Int.zpow_le_iff_le_log (b := 10) (by norm_num) hpos).1 ?_
    push_cast
    rw [hq, zpow_neg, le_div_iff₀ (by positivity), inv_mul_le_iff₀ (by positivity), mul_comm]
    exact_mod_cast hle
  -- zeros behind the digits until there are six
  obtain ⟨j, hj⟩ : ∃ j : ℕ, (j : ℤ) = 5 - x - k := ⟨(5 - x - k).toNat, by omega⟩
  have heq : q = (digits * 10 ^ j : ℕ) * (10 : ℚ) ^ (x - 5) := by
    push_cast
    rw [← zpow_natCast, hj, mul_assoc, ← zpow_add₀ (by norm_num), hq,
      show 5 - x - (k : ℤ) + (x - 5) = -k by ring, zpow_neg, zpow_natCast]
    rfl
  have hunit : (0 : ℚ) < 10 ^ (x - 5) := zpow_pos (by norm_num) _
  refine ⟨digits * 10 ^ j, x, ?_, ?_, hx4, by omega, heq⟩
  · have : (10 : ℚ) ^ 5 ≤ (digits * 10 ^ j : ℕ) := by
      refine le_of_mul_le_mul_right ?_ hunit
      rw [← heq, ← zpow_natCast, ← zpow_add₀ (by norm_num)]
      simpa using hlow
    exact_mod_cast this
  · have : ((digits * 10 ^ j : ℕ) : ℚ) < 10 ^ 6 := by
      refine lt_of_mul_lt_mul_right ?_ hunit.le
      rw [← heq, ← zpow_natCast, ← zpow_add₀ (by norm_num)]
      refine hhigh.trans_eq ?_
      congr 1
      push_cast
      ring
    exact_mod_cast this

variable {d : Binary64}

theorem magnitude_of_nearest? {negative : Bool} {q : ℚ} (h : nearest? negative q = some d) :
    d.magnitude = nearestMagnitude q ∧ d.isFinite = true := by
  unfold nearest? at h
  simp only at h
  split_ifs at h with hover hunder
  cases h
  have hlt : nearestMagnitude q < 2 ^ 63 := by omega
  have hm : (ofMagnitude negative (nearestMagnitude q)).magnitude = nearestMagnitude q := by
    simp only [ofMagnitude, magnitude, Fin.val_ofNat]
    split_ifs <;> omega
  refine ⟨hm, ?_⟩
  rw [isFinite, hm]
  exact decide_eq_true (not_le.1 hover)

theorem valueOf_pos {m : ℕ} (h : m ≠ 0) : 0 < valueOf m := by
  have hm : (0 : ℚ) < m := by exact_mod_cast Nat.pos_of_ne_zero h
  unfold valueOf
  split_ifs
  · exact mul_pos hm (zpow_pos (by norm_num) _)
  · exact mul_pos (by positivity) (zpow_pos (by norm_num) _)

theorem printG_eq (hfin : d.isFinite = true) (hm : d.magnitude ≠ 0) :
    d.printG = signText d.isNegative ++ printMagnitude d.absValue := by
  rw [printG, if_pos hfin, if_neg hm]
  rfl

/-- A number nearest to a short decimal is printed as that decimal. -/
theorem ShortDecimal.pointText (h : d.ShortDecimal) :
    ∃ text whole frac, d.printG = signText d.isNegative ++ text ∧ PointText text whole frac ∧
      nearest? d.isNegative (decimalValue whole frac) = some d := by
  obtain ⟨digits, k, hlt, hdvd, hle, hnearest⟩ := h
  obtain ⟨n, x, hn, hn', hx, hx', hq⟩ := sixDigits_decimal hlt hle
  obtain ⟨hmag, hfin⟩ := magnitude_of_nearest? hnearest
  have hnormal : (2 : ℚ) ^ (-1022 : ℤ) ≤ (digits : ℚ) / 10 ^ k := by
    have hsmall : (10 : ℚ) ^ (-4 : ℤ) ≤ (digits : ℚ) / 10 ^ k := by
      rw [zpow_neg, le_div_iff₀ (by positivity), inv_mul_le_iff₀ (by positivity), mul_comm]
      exact_mod_cast hle
    refine le_trans ?_ hsmall
    calc (2 : ℚ) ^ (-1022 : ℤ) ≤ 2 ^ (-14 : ℤ) := zpow_le_zpow_right₀ (by norm_num) (by norm_num)
      _ ≤ 10 ^ (-4 : ℤ) := by norm_num
  -- the double is so close to the decimal that six digits of it are those of the decimal
  have hvalue : |d.absValue - (digits : ℚ) / 10 ^ k| ≤ (digits : ℚ) / 10 ^ k / 2 ^ 53 := by
    rw [absValue, hmag]
    exact abs_valueOf_nearestMagnitude_sub_le hnormal
  have hsix := sixDigits_of_near hn hn' hq hvalue
  obtain ⟨whole, frac, hne, hwhole, hfrac, hlen, hof, htext⟩ :=
    printMagnitude_fixed hn hn' hsix hx hx'
  have hdecimal : decimalValue whole frac = (digits : ℚ) / 10 ^ k := by
    obtain ⟨j, hj⟩ : ∃ j : ℕ, (j : ℤ) = 5 - x := ⟨(5 - x).toNat, by omega⟩
    have hj' : (5 - x).toNat = j := by omega
    rw [decimalValue, hof, hlen, hj', hq, show x - 5 = -(j : ℤ) by omega, zpow_neg, zpow_natCast]
    rfl
  have hm : d.magnitude ≠ 0 := by
    intro hzero
    have hle := abs_valueOf_nearestMagnitude_sub_le hnormal
    rw [← hmag, hzero, show valueOf 0 = 0 by norm_num [valueOf], zero_sub, abs_neg] at hle
    have hpos : (0 : ℚ) < (digits : ℚ) / 10 ^ k :=
      lt_of_lt_of_le (zpow_pos (by norm_num) _) hnormal
    rw [abs_of_pos hpos, le_div_iff₀ (by positivity)] at hle
    linarith
  -- an integer would be printed without a point, but the decimal is not one
  have hstrip : stripZeros frac ≠ [] := by
    rw [ne_eq, stripZeros_eq_nil_iff_dvd whole hfrac]
    rintro ⟨c, hc⟩
    have hint : (digits : ℚ) / 10 ^ k = c := by
      rw [← hdecimal, decimalValue, hc]
      push_cast
      field_simp
    rw [div_eq_iff (by positivity)] at hint
    exact hdvd ⟨c, by rw [mul_comm]; exact_mod_cast hint⟩
  refine ⟨printMagnitude d.absValue, whole, frac, printG_eq hfin hm,
    ⟨hne, hwhole, hfrac, hstrip, ?_⟩, ?_⟩
  · rw [htext, fraction, if_neg hstrip]
  · rw [hdecimal]
    exact hnearest

/-- What is printed for a finite number. -/
theorem printG_cases (hfin : d.isFinite = true) :
    (∃ ds, ds ≠ [] ∧ Digits ds ∧ d.printG = signText d.isNegative ++ ds) ∨
    (∃ text whole frac, d.printG = signText d.isNegative ++ text ∧ PointText text whole frac ∧
      (nearest? d.isNegative (decimalValue whole frac) = some d → d.ShortDecimal)) ∨
    ∃ text mantissa rest sign, d.printG = signText d.isNegative ++ text ∧
      ExponentText text mantissa rest sign := by
  by_cases hm : d.magnitude = 0
  · refine .inl ⟨[digit 0], by simp, digits_replicate 1, ?_⟩
    rw [printG, if_pos hfin, if_pos hm]
    rfl
  have hprint := printG_eq hfin hm
  obtain ⟨hn, hn'⟩ := sixDigits_bounds (valueOf_pos hm)
  obtain ⟨n, x, hsix⟩ : ∃ n x, sixDigits d.absValue = (n, x) := ⟨_, _, rfl⟩
  rw [show valueOf d.magnitude = d.absValue from rfl, hsix] at hn hn'
  simp only at hn hn'
  by_cases hx : x < -4 ∨ 6 ≤ x
  · obtain ⟨mantissa, rest, sign, htext⟩ := printMagnitude_exponent hn hn' hsix hx
    exact .inr (.inr ⟨_, mantissa, rest, sign, hprint, htext⟩)
  obtain ⟨whole, frac, hne, hwhole, hfrac, hlen, hof, htext⟩ :=
    printMagnitude_fixed hn hn' hsix (by omega) (by omega)
  by_cases hstrip : stripZeros frac = []
  · refine .inl ⟨whole, hne, hwhole, ?_⟩
    rw [hprint, htext, fraction, if_pos hstrip, List.append_nil]
  · refine .inr (.inl ⟨_, whole, frac, hprint, ⟨hne, hwhole, hfrac, hstrip, ?_⟩, fun hnearest =>
      ⟨n, frac.length, hn', ?_, ?_, ?_⟩⟩)
    · rw [htext, fraction, if_neg hstrip]
    · rw [← hof]
      exact fun hdvd => hstrip ((stripZeros_eq_nil_iff_dvd whole hfrac).2 hdvd)
    · have hpow : 10 ^ frac.length ≤ 10 ^ 9 := Nat.pow_le_pow_right (by norm_num) (by omega)
      omega
    · rw [← hof]
      exact hnearest

end Binary64
