import VertexDB.Lib.ByteCodec

/-!
# ASCII text as byte strings, and decimal numerals

The character classes are those of the "C" locale.  `decimal n` is the decimal numeral of `n`
and `ofDecimal` reads one back (`ofDecimal_decimal`).
-/

namespace Ascii

/-- The bytes of an ASCII text. -/
def bytes (s : String) : List Byte := s.toList.map fun c => Fin.ofNat 256 c.toNat

/-- The byte of an ASCII character. -/
def byte (c : Char) : Byte := Fin.ofNat 256 c.toNat

/-- `isdigit`. -/
def isDigit (b : Byte) : Bool := 48 ≤ b.val && b.val ≤ 57

/-- `isalpha`. -/
def isAlpha (b : Byte) : Bool := (65 ≤ b.val && b.val ≤ 90) || (97 ≤ b.val && b.val ≤ 122)

/-- `isalnum`. -/
def isAlnum (b : Byte) : Bool := isAlpha b || isDigit b

/-- `isspace`. -/
def isSpace (b : Byte) : Bool := b.val == 32 || (9 ≤ b.val && b.val ≤ 13)

/-- `toupper`. -/
def toUpper (b : Byte) : Byte := if 97 ≤ b.val && b.val ≤ 122 then b - 32 else b

/-! ### Decimal numerals -/

/-- The byte of a decimal digit. -/
def digit (d : ℕ) : Byte := Fin.ofNat 256 (48 + d)

/-- The decimal numeral of `n`, without leading zeros. -/
def decimal (n : ℕ) : List Byte :=
  if n = 0 then [digit 0] else ((Nat.digits 10 n).map digit).reverse

/-- The number a string of digits denotes. -/
def ofDecimal (bs : List Byte) : ℕ := bs.foldl (fun acc b => acc * 10 + (b.val - 48)) 0

theorem digit_val {d : ℕ} (h : d < 10) : (digit d).val = 48 + d := by
  simp only [digit, Fin.val_ofNat]
  omega

theorem isDigit_digit {d : ℕ} (h : d < 10) : isDigit (digit d) = true := by
  simp only [isDigit, digit_val h, Bool.and_eq_true, decide_eq_true_eq]
  omega

theorem decimal_ne_nil (n : ℕ) : decimal n ≠ [] := by
  unfold decimal
  split_ifs with h
  · simp
  · simpa [Nat.digits_eq_nil_iff_eq_zero] using h

theorem isDigit_of_mem_decimal {n : ℕ} {b : Byte} (h : b ∈ decimal n) : isDigit b = true := by
  unfold decimal at h
  split_ifs at h with hn
  · rw [List.mem_singleton.1 h]; exact isDigit_digit (by omega)
  · simp only [List.mem_reverse, List.mem_map] at h
    obtain ⟨d, hd, rfl⟩ := h
    exact isDigit_digit (Nat.digits_lt_base (by omega) hd)

theorem ofDecimal_append_singleton (bs : List Byte) (b : Byte) :
    ofDecimal (bs ++ [b]) = ofDecimal bs * 10 + (b.val - 48) := by
  simp [ofDecimal]

theorem ofDecimal_reverse_map_digit {ds : List ℕ} (h : ∀ d ∈ ds, d < 10) :
    ofDecimal (ds.map digit).reverse = Nat.ofDigits 10 ds := by
  induction ds with
  | nil => rfl
  | cons d ds ih =>
    have hd := h d List.mem_cons_self
    rw [List.map_cons, List.reverse_cons, ofDecimal_append_singleton,
      ih fun x hx => h x (List.mem_cons_of_mem _ hx), digit_val hd, Nat.ofDigits_cons]
    omega

theorem ofDecimal_decimal (n : ℕ) : ofDecimal (decimal n) = n := by
  unfold decimal
  split_ifs with h
  · subst h; rfl
  · rw [ofDecimal_reverse_map_digit fun d hd => Nat.digits_lt_base (by omega) hd,
      Nat.ofDigits_digits]

end Ascii
