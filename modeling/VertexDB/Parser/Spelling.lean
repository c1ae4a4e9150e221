import VertexDB.Parser.Lexing

/-!
# How tokens are spelled

`Spells text tokens` is the lexical grammar: blanks between tokens, names and numbers that go on as
far as they can, quoted strings with their escapes, and symbols.  `tokenize_iff` shows that the
tokenizer finds the tokens that a text spells, and none in a text that spells none.
-/

namespace VertexDB

open Ascii Failure

namespace Tokenizer

/-- The text behind an opening quote, up to the closing one, and the value that it quotes. -/
inductive Quotes : Str → Str → Prop
  | close : Quotes [byte '"'] []
  | escape (ch : Byte) {text value : Str} (h : Quotes text value) :
    Quotes (byte '\\' :: ch :: text) (ch :: value)
  | plain {ch : Byte} (hquote : ch ≠ byte '"') (hslash : ch ≠ byte '\\') {text value : Str}
    (h : Quotes text value) : Quotes (ch :: text) (ch :: value)

/-- The text does not go on with such a byte. -/
def StopsAt (p : Byte → Bool) (text : Str) : Prop := ∀ ch, text.head? = some ch → p ch = false

/-- The lexical grammar. -/
inductive Spells : Str → List Token → Prop
  | done : Spells [] [⟨.end, []⟩]
  | blank {ch : Byte} (hch : isSpace ch = true) {rest : Str} {tokens : List Token}
    (h : Spells rest tokens) : Spells (ch :: rest) tokens
  | identifier {ch : Byte} (hch : isIdentifierStart ch = true) {more rest : Str}
    (hmore : ∀ c ∈ more, isIdentifierPart c = true) (hstop : StopsAt isIdentifierPart rest)
    {tokens : List Token} (h : Spells rest tokens) :
    Spells (ch :: more ++ rest) (⟨.identifier, ch :: more⟩ :: tokens)
  | number {ch : Byte} (hch : (isDigit ch || ch == byte '-') = true) {more rest : Str}
    (hmore : ∀ c ∈ more, isNumberPart c = true) (hstop : StopsAt isNumberPart rest)
    {tokens : List Token} (h : Spells rest tokens) :
    Spells (ch :: more ++ rest) (⟨.number, ch :: more⟩ :: tokens)
  | string {quoted value rest : Str} (hquotes : Quotes quoted value) {tokens : List Token}
    (h : Spells rest tokens) : Spells (byte '"' :: quoted ++ rest) (⟨.string, value⟩ :: tokens)
  | symbol {ch : Byte} {type : TokenType} (hch : symbolType ch = some type) {rest : Str}
    {tokens : List Token} (h : Spells rest tokens) : Spells (ch :: rest) (⟨type, [ch]⟩ :: tokens)

/-! ### Quoted strings -/

theorem scanString_of_quotes {text value : Str} (h : Quotes text value) (rest : Str) :
    scanString (text ++ rest) = .ok (value, rest) := by
  induction h with
  | close => exact scanString_quote rest
  | escape ch _ ih =>
    rw [List.cons_append, List.cons_append, scanString_escape, ih]
    rfl
  | plain hquote hslash _ ih =>
    rw [List.cons_append, scanString_other hquote hslash, ih]
    rfl

theorem quotes_of_scanString {text value rest : Str} (h : scanString text = .ok (value, rest)) :
    ∃ quoted, text = quoted ++ rest ∧ Quotes quoted value := by
  fun_induction scanString text generalizing value rest with
  | case1 => cases h
  | case2 tail => cases h; exact ⟨[byte '"'], rfl, .close⟩
  | case3 => cases h
  | case4 escaped tail _ ih =>
    obtain ⟨⟨v, r⟩, hs, ⟨⟩⟩ := bind_eq_ok_iff.1 h
    obtain ⟨quoted, rfl, hquotes⟩ := ih hs
    exact ⟨byte '\\' :: escaped :: quoted, rfl, .escape escaped hquotes⟩
  | case5 ch tail hquote hslash ih =>
    obtain ⟨⟨v, r⟩, hs, ⟨⟩⟩ := bind_eq_ok_iff.1 h
    obtain ⟨quoted, rfl, hquotes⟩ := ih hs
    exact ⟨ch :: quoted, rfl, .plain hquote hslash hquotes⟩

/-! ### Texts -/

theorem stopsAt_dropWhile (p : Byte → Bool) (text : Str) : StopsAt p (text.dropWhile p) := by
  intro ch hch
  have h := List.head?_dropWhile_not p text
  rw [hch] at h
  simpa using h

/-- A symbol starts none of the other tokens. -/
theorem not_starts_of_symbolType : ∀ ch : Byte, (symbolType ch).isSome = true →
    isSpace ch = false ∧ isIdentifierStart ch = false ∧ (isDigit ch || ch == byte '-') = false ∧
      ch ≠ byte '"' := by decide +kernel

theorem tokenize_of_spells {text : Str} {tokens : List Token} (h : Spells text tokens) :
    tokenize text = .ok tokens := by
  induction h with
  | done => rfl
  | blank hch _ ih => rw [tokenize_cons, if_pos hch, ih]
  | identifier hch hmore hstop _ ih =>
    obtain ⟨htake, hdrop⟩ := takeWhile_append_of_stops hmore hstop
    rw [List.cons_append, tokenize_cons,
      if_neg (Bool.not_eq_true _ ▸ not_isSpace_of_isIdentifierStart _ hch), if_pos hch, htake,
        hdrop,
      ih]
    rfl
  | number hch hmore hstop _ ih => rw [tokenize_number hch hmore hstop, ih]; rfl
  | string hquotes _ ih =>
    rw [List.cons_append, tokenize_cons, if_neg (by decide), if_neg (by decide),
      if_neg (by decide), if_pos rfl, scanString_of_quotes hquotes, ok_bind]
    simp only [ih]
    rfl
  | @symbol ch type hch rest tokens _ ih =>
    obtain ⟨hspace, hstart, hdigit, hquote⟩ := not_starts_of_symbolType ch (by rw [hch]; rfl)
    rw [tokenize_cons, hspace, hstart, hdigit, if_neg Bool.false_ne_true, if_neg Bool.false_ne_true,
      if_neg Bool.false_ne_true, if_neg hquote, hch]
    simp only [ih]
    rfl

theorem spells_of_tokenizeFrom {fuel : ℕ} {text : Str} {tokens : List Token}
    (h : tokenizeFrom fuel text = .ok tokens) : Spells text tokens := by
  induction fuel generalizing text tokens with
  | zero => cases h
  | succ fuel ih =>
    cases text with
    | nil => cases h; exact .done
    | cons ch rest =>
      have hsplit (p : Byte → Bool) :
          ch :: rest = ch :: rest.takeWhile p ++ rest.dropWhile p := by
        rw [List.cons_append, List.takeWhile_append_dropWhile]
      have htaken (p : Byte → Bool) : ∀ c ∈ rest.takeWhile p, p c = true :=
        fun c => List.mem_takeWhile_imp
      simp only [tokenizeFrom] at h
      split_ifs at h with hspace hstart hdigit hquote
      · exact .blank hspace (ih h)
      · obtain ⟨found, hfound, ⟨⟩⟩ := bind_eq_ok_iff.1 h
        rw [hsplit isIdentifierPart]
        exact .identifier hstart (htaken _) (stopsAt_dropWhile _ rest) (ih hfound)
      · obtain ⟨found, hfound, ⟨⟩⟩ := bind_eq_ok_iff.1 h
        rw [hsplit isNumberPart]
        exact .number hdigit (htaken _) (stopsAt_dropWhile _ rest) (ih hfound)
      · obtain ⟨⟨value, left⟩, hscan, hleft⟩ := bind_eq_ok_iff.1 h
        obtain ⟨found, hfound, ⟨⟩⟩ := bind_eq_ok_iff.1 hleft
        obtain ⟨quoted, rfl, hquotes⟩ := quotes_of_scanString hscan
        rw [hquote]
        exact .string hquotes (ih hfound)
      · cases hsymbol : symbolType ch with
        | none => rw [hsymbol] at h; cases h
        | some type =>
          rw [hsymbol] at h
          obtain ⟨found, hfound, ⟨⟩⟩ := bind_eq_ok_iff.1 h
          exact .symbol hsymbol (ih hfound)

/-- The tokenizer finds the tokens that the text spells. -/
theorem tokenize_iff {text : Str} {tokens : List Token} :
    tokenize text = .ok tokens ↔ Spells text tokens :=
  ⟨spells_of_tokenizeFrom, tokenize_of_spells⟩

end Tokenizer

end VertexDB
