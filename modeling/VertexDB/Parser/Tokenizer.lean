import VertexDB.Common.Value
import VertexDB.Lib.Failure

/-!
# The tokenizer

`tokenize` is the loop of `Tokenizer::tokenize`.  Its position in the text is the suffix of the
text still to be read, and the loop is bounded by the length of the text: every iteration
consumes at least one byte, so the bound is never reached (`tokenizeFrom_eq`).
-/

namespace VertexDB

open Ascii

/-- `TokenType`. -/
inductive TokenType
  | identifier
  | number
  | string
  | comma
  | semicolon
  | leftParen
  | rightParen
  | star
  | equal
  | greater
  | less
  | «end»
  deriving DecidableEq

/-- `Token`. -/
structure Token where
  type : TokenType
  lexeme : Str
  deriving DecidableEq

namespace Tokenizer

/-- `isIdentifierStart`. -/
def isIdentifierStart (ch : Byte) : Bool := isAlpha ch || ch == byte '_'

/-- `isIdentifierPart`. -/
def isIdentifierPart (ch : Byte) : Bool := isAlnum ch || ch == byte '_' || ch == byte '.'

/-- The bytes that continue a number. -/
def isNumberPart (ch : Byte) : Bool := isDigit ch || ch == byte '.'

/-- The contents of a string literal after its opening quote, and the text after its closing
quote.  A backslash takes the byte after it literally. -/
def scanString : Str → Except Exception (Str × Str)
  | [] => throw (.runtimeError "unterminated string literal")
  | ch :: rest =>
    if ch = byte '"' then return ([], rest)
    else if ch = byte '\\' then
      match rest with
      | [] => throw (.runtimeError "unterminated string literal")
      | escaped :: rest => do
        let (value, rest) ← scanString rest
        return (escaped :: value, rest)
    else do
      let (value, rest) ← scanString rest
      return (ch :: value, rest)

/-- The token types of the single-byte symbols. -/
def symbolType (ch : Byte) : Option TokenType :=
  if ch = byte ',' then some .comma
  else if ch = byte ';' then some .semicolon
  else if ch = byte '(' then some .leftParen
  else if ch = byte ')' then some .rightParen
  else if ch = byte '*' then some .star
  else if ch = byte '=' then some .equal
  else if ch = byte '>' then some .greater
  else if ch = byte '<' then some .less
  else none

/-- The tokens of a text, in at most `fuel` iterations of the loop. -/
def tokenizeFrom : ℕ → Str → Except Exception (List Token)
  | 0, _ => throw .outOfFuel
  | _ + 1, [] => return [⟨.end, []⟩]
  | fuel + 1, ch :: rest =>
    if isSpace ch then tokenizeFrom fuel rest
    else if isIdentifierStart ch then do
      let tokens ← tokenizeFrom fuel (rest.dropWhile isIdentifierPart)
      return ⟨.identifier, ch :: rest.takeWhile isIdentifierPart⟩ :: tokens
    else if isDigit ch || ch == byte '-' then do
      let tokens ← tokenizeFrom fuel (rest.dropWhile isNumberPart)
      return ⟨.number, ch :: rest.takeWhile isNumberPart⟩ :: tokens
    else if ch = byte '"' then do
      let (value, rest) ← scanString rest
      let tokens ← tokenizeFrom fuel rest
      return ⟨.string, value⟩ :: tokens
    else match symbolType ch with
      | some type => do
        let tokens ← tokenizeFrom fuel rest
        return ⟨type, [ch]⟩ :: tokens
      | none => throw (.runtimeError "unexpected character in SQL input")

/-- `Tokenizer::tokenize`. -/
def tokenize (sql : Str) : Except Exception (List Token) := tokenizeFrom (sql.length + 1) sql

/-! ### The loop ends -/

theorem length_scanString {s value rest : Str} (h : scanString s = .ok (value, rest)) :
    rest.length < s.length := by
  fun_induction scanString s generalizing value rest with
  | case1 => cases h
  | case2 => cases h; simp
  | case3 => cases h
  | case4 escaped tail _ ih =>
    obtain ⟨⟨v, r⟩, hs, hr⟩ := Failure.bind_eq_ok_iff.1 h
    cases hr
    have := ih hs
    simp only [List.length_cons]
    omega
  | case5 ch tail _ _ ih =>
    obtain ⟨⟨v, r⟩, hs, hr⟩ := Failure.bind_eq_ok_iff.1 h
    cases hr
    have := ih hs
    simp only [List.length_cons]
    omega

theorem scanString_ne_outOfFuel (text : Str) : scanString text ≠ .error .outOfFuel := by
  fun_induction scanString text with
  | case1 => rintro ⟨⟩
  | case2 => rintro ⟨⟩
  | case3 => rintro ⟨⟩
  | case4 _ _ _ ih => simpa [Failure.bind_eq_error_iff] using ih
  | case5 _ _ _ _ ih => simpa [Failure.bind_eq_error_iff] using ih

/-- The loop does not run out of a bound above the length of the text. -/
theorem tokenizeFrom_ne_outOfFuel {fuel : ℕ} {text : Str} (h : text.length < fuel) :
    tokenizeFrom fuel text ≠ .error .outOfFuel := by
  induction fuel generalizing text with
  | zero => exact absurd h (Nat.not_lt_zero _)
  | succ fuel ih =>
    cases text with
    | nil => rintro ⟨⟩
    | cons ch rest =>
      have hrest : rest.length < fuel := by simpa using h
      -- a token in front of those of a later part of the text
      have hcons (token : Token) {behind : Str} (hbehind : behind.length ≤ rest.length) :
          (tokenizeFrom fuel behind >>= fun tokens => pure (token :: tokens)) ≠
            .error .outOfFuel := by
        simpa [Failure.bind_eq_error_iff] using ih (hbehind.trans_lt hrest)
      rw [tokenizeFrom]
      split_ifs
      · exact ih hrest
      · exact hcons _ (List.dropWhile_suffix _).length_le
      · exact hcons _ (List.dropWhile_suffix _).length_le
      · intro herror
        rcases Failure.bind_eq_error_iff.1 herror with hscan | ⟨⟨value, behind⟩, hscan, htokens⟩
        · exact scanString_ne_outOfFuel rest hscan
        · exact hcons _ (length_scanString hscan).le htokens
      · cases symbolType ch with
        | none => rintro ⟨⟩
        | some type => exact hcons _ le_rfl

/-- Any bound above the length of the text gives the same result. -/
theorem tokenizeFrom_eq {fuel fuel' : ℕ} {s : Str} (h : s.length < fuel) (h' : s.length < fuel') :
    tokenizeFrom fuel s = tokenizeFrom fuel' s := by
  induction fuel generalizing fuel' s with
  | zero => omega
  | succ fuel ih =>
    obtain ⟨fuel', rfl⟩ : ∃ n, fuel' = n + 1 := ⟨fuel' - 1, by omega⟩
    cases s with
    | nil => rfl
    | cons ch rest =>
      simp only [List.length_cons] at h h'
      have hdrop (p : Byte → Bool) : tokenizeFrom fuel (rest.dropWhile p) =
          tokenizeFrom fuel' (rest.dropWhile p) := by
        have := (List.dropWhile_suffix (l := rest) p).length_le
        exact ih (by omega) (by omega)
      have hrest : tokenizeFrom fuel rest = tokenizeFrom fuel' rest := ih (by omega) (by omega)
      simp only [tokenizeFrom, hdrop, hrest]
      split_ifs
      · rfl
      · rfl
      · rfl
      · cases hs : scanString rest with
        | error e => rfl
        | ok p =>
          obtain ⟨value, r⟩ := p
          have := length_scanString hs
          have hr : tokenizeFrom fuel r = tokenizeFrom fuel' r := ih (by omega) (by omega)
          simp only [Failure.ok_bind, hr]
      · rfl

theorem tokenizeFrom_eq_tokenize {fuel : ℕ} {s : Str} (h : s.length < fuel) :
    tokenizeFrom fuel s = tokenize s := tokenizeFrom_eq h (Nat.lt_succ_self _)

end Tokenizer

end VertexDB
