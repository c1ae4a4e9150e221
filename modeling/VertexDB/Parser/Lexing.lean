import VertexDB.Parser.Tokenizer

/-!
# Texts and their tokens

`Lexes text tokens` says that the tokenizer reads `tokens` off `text` when the text is followed by
a byte that cannot continue a name or a number, and `LexesAny` says so whatever follows.  Texts are
assembled by concatenation, and so are their tokens.
-/

namespace VertexDB

open Ascii

namespace Tokenizer

/-- A name of the tokenizer: a letter or an underscore, then letters, digits, underscores and
dots. -/
def IsIdentifier (name : Str) : Prop :=
  name ≠ [] ∧ (∀ ch, name.head? = some ch → isIdentifierStart ch = true) ∧
    ∀ ch ∈ name.tail, isIdentifierPart ch = true

instance (name : Str) : Decidable (IsIdentifier name) :=
  inferInstanceAs (Decidable (_ ∧ (∀ ch, ch ∈ name.head? → isIdentifierStart ch = true) ∧ _))

theorem not_mem_space_of_isIdentifier {name : Str} (h : IsIdentifier name) : byte ' ' ∉ name := by
  intro hmem
  obtain ⟨-, hhead, htail⟩ := h
  cases name with
  | nil => cases hmem
  | cons ch name =>
    rcases List.mem_cons.1 hmem with heq | hmem
    · have := hhead ch rfl
      rw [← heq] at this
      exact absurd this (by decide)
    · exact absurd (htail _ hmem) (by decide)

/-- A text does not continue a name or a number. -/
def Stops (text : Str) : Prop := ∀ ch, text.head? = some ch → isIdentifierPart ch = false

theorem stops_nil : Stops [] := by rintro _ ⟨⟩

theorem stops_cons {ch : Byte} (h : isIdentifierPart ch = false) (rest : Str) :
    Stops (ch :: rest) := by rintro _ ⟨⟩; exact h

/-- The loop of the tokenizer, without its bound. -/
theorem tokenize_cons (ch : Byte) (rest : Str) :
    tokenize (ch :: rest) =
      if isSpace ch then tokenize rest
      else if isIdentifierStart ch then do
        let tokens ← tokenize (rest.dropWhile isIdentifierPart)
        return ⟨.identifier, ch :: rest.takeWhile isIdentifierPart⟩ :: tokens
      else if isDigit ch || ch == byte '-' then do
        let tokens ← tokenize (rest.dropWhile isNumberPart)
        return ⟨.number, ch :: rest.takeWhile isNumberPart⟩ :: tokens
      else if ch = byte '"' then do
        let (value, rest) ← scanString rest
        let tokens ← tokenize rest
        return ⟨.string, value⟩ :: tokens
      else match symbolType ch with
        | some type => do
          let tokens ← tokenize rest
          return ⟨type, [ch]⟩ :: tokens
        | none => throw (.runtimeError "unexpected character in SQL input") := by
  have hdrop (p : Byte → Bool) : tokenizeFrom (rest.length + 1) (rest.dropWhile p) =
      tokenize (rest.dropWhile p) := by
    have := (List.dropWhile_suffix (l := rest) p).length_le
    exact tokenizeFrom_eq_tokenize (by omega)
  have hrest : tokenizeFrom (rest.length + 1) rest = tokenize rest := rfl
  rw [tokenize, List.length_cons, tokenizeFrom]
  simp only [hdrop, hrest]
  split_ifs
  · rfl
  · rfl
  · rfl
  · cases hs : scanString rest with
    | error e => rfl
    | ok p =>
      obtain ⟨value, r⟩ := p
      have := length_scanString hs
      simp only [Failure.ok_bind,
        tokenizeFrom_eq_tokenize (show r.length < rest.length + 1 by omega)]
  · rfl

/-- Tokens in front of those of the rest. -/
def before (tokens : List Token) (rest : Except Exception (List Token)) :
    Except Exception (List Token) := do
  let found ← rest
  return tokens ++ found

theorem before_nil (rest : Except Exception (List Token)) : before [] rest = rest := by
  cases rest <;> rfl

theorem before_before (tokens tokens' : List Token) (rest : Except Exception (List Token)) :
    before tokens (before tokens' rest) = before (tokens ++ tokens') rest := by
  cases rest with
  | error e => rfl
  | ok found => simp [before]

/-- The text has these tokens, when the text after it stops a name or number. -/
def Lexes (text : Str) (tokens : List Token) : Prop :=
  ∀ rest, Stops rest → tokenize (text ++ rest) = before tokens (tokenize rest)

/-- The text has these tokens, whatever comes after it. -/
def LexesAny (text : Str) (tokens : List Token) : Prop :=
  ∀ rest, tokenize (text ++ rest) = before tokens (tokenize rest)

variable {a b : Str} {ta tb : List Token}

theorem LexesAny.lexes (h : LexesAny a ta) : Lexes a ta := fun rest _ => h rest

theorem LexesAny.append (ha : LexesAny a ta) (hb : LexesAny b tb) :
    LexesAny (a ++ b) (ta ++ tb) := by
  intro rest
  rw [List.append_assoc, ha, hb, before_before]

theorem LexesAny.append_lexes (ha : LexesAny a ta) (hb : Lexes b tb) :
    Lexes (a ++ b) (ta ++ tb) := by
  intro rest hrest
  rw [List.append_assoc, ha, hb rest hrest, before_before]

theorem Lexes.append_any (ha : Lexes a ta) (hb : LexesAny b tb)
    (hs : ∀ rest, Stops (b ++ rest)) : LexesAny (a ++ b) (ta ++ tb) := by
  intro rest
  rw [List.append_assoc, ha _ (hs rest), hb, before_before]

theorem Lexes.append (ha : Lexes a ta) (hb : Lexes b tb)
    (hs : ∀ rest, Stops rest → Stops (b ++ rest)) : Lexes (a ++ b) (ta ++ tb) := by
  intro rest hrest
  rw [List.append_assoc, ha _ (hs rest hrest), hb rest hrest, before_before]

theorem lexes_nil : Lexes [] [] := fun rest _ => (before_nil (tokenize rest)).symm

/-- The tokens of a whole text. -/
theorem LexesAny.tokenize_eq (h : LexesAny a ta) : tokenize a = .ok (ta ++ [⟨.end, []⟩]) := by
  have := h []
  rwa [List.append_nil] at this

theorem Lexes.tokenize_eq (h : Lexes a ta) : tokenize a = .ok (ta ++ [⟨.end, []⟩]) := by
  have := h [] stops_nil
  rwa [List.append_nil] at this

/-! ### Names, blanks and symbols -/

theorem takeWhile_append_of_stops {p : Byte → Bool} {l rest : Str} (hl : ∀ ch ∈ l, p ch = true)
    (hrest : ∀ ch, rest.head? = some ch → p ch = false) :
    (l ++ rest).takeWhile p = l ∧ (l ++ rest).dropWhile p = rest := by
  rw [List.takeWhile_append_of_pos hl, List.dropWhile_append_of_pos hl]
  cases rest with
  | nil => simp
  | cons ch rest =>
    have := hrest ch rfl
    simp [this]

theorem lexesAny_space : LexesAny [byte ' '] [] := by
  intro rest
  rw [List.singleton_append, tokenize_cons, if_pos (by decide), before_nil]

theorem not_isSpace_of_isIdentifierStart :
    ∀ ch : Byte, isIdentifierStart ch = true → isSpace ch = false := by decide +kernel

theorem lexes_identifier {name : Str} (h : IsIdentifier name) :
    Lexes name [⟨.identifier, name⟩] := by
  obtain ⟨hne, hhead, htail⟩ := h
  cases name with
  | nil => exact absurd rfl hne
  | cons ch name =>
    intro rest hrest
    have hstart := hhead ch rfl
    obtain ⟨htake, hdrop⟩ := takeWhile_append_of_stops htail hrest
    rw [List.tail_cons] at htake hdrop
    rw [List.cons_append, tokenize_cons,
      if_neg (by simp [not_isSpace_of_isIdentifierStart ch hstart]),
      if_pos hstart, htake, hdrop]
    rfl

/-! ### Numbers and strings -/

theorem not_isNumberPart_of_not_isIdentifierPart :
    ∀ ch : Byte, isIdentifierPart ch = false → isNumberPart ch = false := by decide +kernel

theorem isDigit_or_minus : ∀ ch : Byte, (isDigit ch || ch == byte '-') = true →
    isSpace ch = false ∧ isIdentifierStart ch = false := by decide +kernel

/-- A number goes on to the first byte that cannot continue it. -/
theorem tokenize_number {ch : Byte} {text rest : Str} (hch : (isDigit ch || ch == byte '-') = true)
    (htext : ∀ c ∈ text, isNumberPart c = true)
    (hrest : ∀ c, rest.head? = some c → isNumberPart c = false) :
    tokenize (ch :: text ++ rest) = before [⟨.number, ch :: text⟩] (tokenize rest) := by
  obtain ⟨h1, h2⟩ := isDigit_or_minus ch hch
  obtain ⟨htake, hdrop⟩ := takeWhile_append_of_stops htext hrest
  rw [List.cons_append, tokenize_cons, if_neg (by simp [h1]), if_neg (by simp [h2]), if_pos hch,
    htake, hdrop]
  rfl

theorem lexes_number {ch : Byte} {text : Str} (hch : (isDigit ch || ch == byte '-') = true)
    (htext : ∀ c ∈ text, isNumberPart c = true) : Lexes (ch :: text) [⟨.number, ch :: text⟩] :=
  fun _ hrest => tokenize_number hch htext fun c hc =>
    not_isNumberPart_of_not_isIdentifierPart c (hrest c hc)

theorem lexesAny_string {text value : Str}
    (h : ∀ rest, scanString (text ++ byte '"' :: rest) = .ok (value, rest)) :
    LexesAny (byte '"' :: (text ++ [byte '"'])) [⟨.string, value⟩] := by
  intro rest
  rw [List.cons_append, List.append_assoc, tokenize_cons, if_neg (by decide), if_neg (by decide),
    if_neg (by decide), if_pos rfl, List.singleton_append, h]
  rfl

/-! ### Texts that end in a delimiter -/

theorem scanString_quote (rest : Str) : scanString (byte '"' :: rest) = .ok ([], rest) := by
  rw [scanString.eq_def]
  rfl

theorem scanString_escape (ch : Byte) (rest : Str) :
    scanString (byte '\\' :: ch :: rest) =
      (scanString rest >>= fun p => pure (ch :: p.1, p.2)) := by
  rw [scanString.eq_def]
  rfl

theorem scanString_other {ch : Byte} (h : ch ≠ byte '"') (h' : ch ≠ byte '\\') (rest : Str) :
    scanString (ch :: rest) = (scanString rest >>= fun p => pure (ch :: p.1, p.2)) := by
  rw [scanString.eq_def]
  simp only [if_neg h, if_neg h']

/-- A string literal is scanned up to its closing quote, whatever comes behind, and what it contains
is its value, apart from quotes and backslashes. -/
theorem scanString_split {text value rest : Str} (h : scanString text = .ok (value, rest)) :
    ∃ literal, text = literal ++ rest ∧
      (∀ ch ∈ literal, ch ≠ byte '"' → ch ≠ byte '\\' → ch ∈ value) ∧
      ∀ more, scanString (literal ++ more) = .ok (value, more) := by
  fun_induction scanString text generalizing value rest with
  | case1 => cases h
  | case2 tail =>
    cases h
    refine ⟨[byte '"'], rfl, fun ch hmem hquote _ => ?_, fun more => scanString_quote more⟩
    exact absurd (List.mem_singleton.1 hmem) hquote
  | case3 => cases h
  | case4 escaped tail hne ih =>
    obtain ⟨⟨v, r⟩, hs, ⟨⟩⟩ := Failure.bind_eq_ok_iff.1 h
    obtain ⟨literal, rfl, hvalue, hmore⟩ := ih hs
    refine ⟨byte '\\' :: escaped :: literal, rfl, fun ch hmem hquote hslash => ?_, fun more => ?_⟩
    · -- the escaped byte is in the value, whatever it is
      rcases List.mem_cons.1 ((List.mem_cons.1 hmem).resolve_left hslash) with rfl | hmem
      · exact List.mem_cons_self
      · exact List.mem_cons_of_mem _ (hvalue ch hmem hquote hslash)
    · rw [List.cons_append, List.cons_append, scanString_escape, hmore]
      rfl
  | case5 ch tail hquote hslash ih =>
    obtain ⟨⟨v, r⟩, hs, ⟨⟩⟩ := Failure.bind_eq_ok_iff.1 h
    obtain ⟨literal, rfl, hvalue, hmore⟩ := ih hs
    refine ⟨ch :: literal, rfl, fun b hmem hquote' hslash' => ?_, fun more => ?_⟩
    · rcases List.mem_cons.1 hmem with rfl | hmem
      · exact List.mem_cons_self
      · exact List.mem_cons_of_mem _ (hvalue b hmem hquote' hslash')
    · rw [List.cons_append, scanString_other hquote hslash, hmore]
      rfl

theorem scanString_append {text value rest : Str} (h : scanString text = .ok (value, rest))
    (more : Str) : scanString (text ++ more) = .ok (value, rest ++ more) := by
  obtain ⟨literal, rfl, -, hmore⟩ := scanString_split h
  rw [List.append_assoc]
  exact hmore (rest ++ more)

theorem scanString_suffix {text value rest : Str} (h : scanString text = .ok (value, rest)) :
    rest <:+ text := by
  obtain ⟨literal, rfl, -, -⟩ := scanString_split h
  exact List.suffix_append literal rest

theorem cons_bind_ne_nil {token : Token} {x : Except Exception (List Token)} :
    (do let tokens ← x; return token :: tokens) ≠ (.ok [] : Except Exception (List Token)) := by
  cases x <;> simp

/-- There is always an end token. -/
theorem tokenizeFrom_ne_nil (fuel : ℕ) (text : Str) : tokenizeFrom fuel text ≠ .ok [] := by
  induction fuel generalizing text with
  | zero => intro h; cases h
  | succ fuel ih =>
    cases text with
    | nil => intro h; cases h
    | cons ch text =>
      rw [tokenizeFrom]
      split_ifs
      · exact ih text
      · exact cons_bind_ne_nil
      · exact cons_bind_ne_nil
      · cases scanString text with
        | error e => intro h; cases h
        | ok p => exact cons_bind_ne_nil
      · cases symbolType ch with
        | none => intro h; cases h
        | some type => exact cons_bind_ne_nil

/-- The last byte of a text does not belong to a name or a number. -/
def EndsDelimited (text : Str) : Prop :=
  ∀ ch, text.getLast? = some ch → isIdentifierPart ch = false ∧ ch ≠ byte '-'

theorem EndsDelimited.of_suffix {text suffix : Str} (h : EndsDelimited text)
    (hs : suffix <:+ text) : EndsDelimited suffix := by
  intro ch hch
  obtain ⟨pre, rfl⟩ := hs
  refine h ch ?_
  rw [List.getLast?_append, hch]
  rfl

/-- Scanning a run of bytes stops at the delimiter. -/
theorem EndsDelimited.takeWhile {text : Str} (h : EndsDelimited text) (hne : text ≠ [])
    {p : Byte → Bool} (hp : ∀ ch, isIdentifierPart ch = false → p ch = false) (more : Str) :
    (text ++ more).takeWhile p = text.takeWhile p ∧
      (text ++ more).dropWhile p = text.dropWhile p ++ more := by
  have hlast : p (text.getLast hne) = false :=
    hp _ (h _ (List.getLast?_eq_some_getLast hne)).1
  have hnot : ¬ ∀ ch ∈ text, p ch = true := fun hall => by
    have := hall _ (List.getLast_mem hne)
    rw [hlast] at this
    cases this
  have hlen : (text.takeWhile p).length ≠ text.length := fun hlen =>
    hnot (List.takeWhile_eq_self_iff.1 ((List.takeWhile_prefix p).eq_of_length hlen))
  have hdrop : text.dropWhile p ≠ [] := fun hnil => hnot (List.dropWhile_eq_nil_iff.1 hnil)
  refine ⟨?_, ?_⟩
  · rw [List.takeWhile_append, if_neg hlen]
  · rw [List.dropWhile_append]
    cases hd : text.dropWhile p with
    | nil => exact absurd hd hdrop
    | cons c cs => rfl

theorem isIdentifierPart_of_isIdentifierStart :
    ∀ ch : Byte, isIdentifierStart ch = true → isIdentifierPart ch = true := by decide +kernel

theorem isIdentifierPart_of_isDigit :
    ∀ ch : Byte, (isDigit ch || ch == byte '-') = true →
      isIdentifierPart ch = true ∨ ch = byte '-' := by
  decide +kernel

/-- A text that ends in a delimiter has the tokens that the tokenizer finds in it, whatever
follows. -/
theorem lexesAny_of_tokenize {text : Str} {tokens : List Token}
    (h : tokenize text = .ok (tokens ++ [⟨.end, []⟩])) (hend : EndsDelimited text) :
    LexesAny text tokens := by
  suffices hgen : ∀ n (text : Str), text.length ≤ n → EndsDelimited text → ∀ tokens,
      tokenize text = .ok (tokens ++ [⟨.end, []⟩]) → LexesAny text tokens from
    hgen text.length text le_rfl hend tokens h
  intro n
  induction n with
  | zero =>
    intro text hlen _ tokens h
    obtain rfl := List.length_eq_zero_iff.1 (Nat.le_zero.1 hlen)
    have : tokens = [] := by
      have h' : [(⟨.end, []⟩ : Token)] = tokens ++ [⟨.end, []⟩] := Except.ok.inj h
      simpa using h'
    subst this
    exact fun rest => (before_nil _).symm
  | succ n ih =>
    intro text hlen hend tokens h rest
    cases text with
    | nil => exact ih [] (by simp) hend tokens h rest
    | cons ch text =>
      have hlen' : text.length ≤ n := by simpa using hlen
      have hsuffix : EndsDelimited text := hend.of_suffix (List.suffix_cons ch text)
      -- one token, then the rest by induction
      have hstep (tail : Str) (token : Token) (hs : tail <:+ text)
          (hbind : (do let ts ← tokenize tail; return token :: ts) =
            (.ok (tokens ++ [⟨.end, []⟩]) : Except Exception (List Token))) :
          (do let ts ← tokenize (tail ++ rest); return token :: ts) =
            before tokens (tokenize rest) := by
        obtain ⟨ts, hts, heq⟩ := Failure.bind_eq_ok_iff.1 hbind
        have heq : token :: ts = tokens ++ [⟨.end, []⟩] := Except.ok.inj heq
        cases tokens with
        | nil =>
          obtain ⟨rfl, rfl⟩ := List.cons.inj heq
          exact absurd hts (tokenizeFrom_ne_nil _ tail)
        | cons t tokens =>
          obtain ⟨rfl, rfl⟩ := List.cons.inj heq
          rw [ih tail (hs.length_le.trans hlen') (hsuffix.of_suffix hs) tokens hts rest]
          cases tokenize rest <;> rfl
      have hne : isIdentifierPart ch = true ∨ ch = byte '-' → text ≠ [] := by
        rintro hpart rfl
        obtain ⟨h1, h2⟩ := hend ch rfl
        rcases hpart with hpart | rfl
        · rw [h1] at hpart; cases hpart
        · exact h2 rfl
      rw [tokenize_cons] at h
      rw [List.cons_append, tokenize_cons]
      split_ifs at h ⊢ with h1 h2 h3 h4
      · exact ih text hlen' hsuffix tokens h rest
      · have hnil := hne (.inl (isIdentifierPart_of_isIdentifierStart ch h2))
        obtain ⟨htake, hdrop⟩ := hsuffix.takeWhile hnil (fun _ => id) rest
        rw [htake, hdrop]
        exact hstep _ _ (List.dropWhile_suffix _) h
      · have hnil := hne (isIdentifierPart_of_isDigit ch h3)
        obtain ⟨htake, hdrop⟩ := hsuffix.takeWhile hnil
          not_isNumberPart_of_not_isIdentifierPart rest
        rw [htake, hdrop]
        exact hstep _ _ (List.dropWhile_suffix _) h
      · obtain ⟨⟨value, tail⟩, hscan, h⟩ := Failure.bind_eq_ok_iff.1 h
        rw [scanString_append hscan rest]
        exact hstep _ _ (scanString_suffix hscan) h
      · cases htype : symbolType ch with
        | none => rw [htype] at h; cases h
        | some type =>
          rw [htype] at h
          exact hstep _ _ (List.suffix_refl _) h

/-- `lexesAny_of_tokenize` for a text that can be evaluated. -/
theorem lexesAny_literal {text : Str} {tokens : List Token}
    (h : tokenize text = .ok (tokens ++ [⟨.end, []⟩]))
    (hend : (text.getLast?.all fun ch => !isIdentifierPart ch && ch != byte '-') = true) :
    LexesAny text tokens := by
  refine lexesAny_of_tokenize h fun ch hch => ?_
  rw [hch] at hend
  simpa using hend

theorem stops_append {text : Str} (h : (text.head?.any fun ch => !isIdentifierPart ch) = true)
    (rest : Str) : Stops (text ++ rest) := by
  cases text with
  | nil => cases h
  | cons ch text => exact stops_cons (by simpa using h) _

end Tokenizer

end VertexDB
