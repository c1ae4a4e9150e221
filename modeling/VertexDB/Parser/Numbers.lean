import VertexDB.Lib.DecimalText
import VertexDB.Parser.PredicateGrammar

/-!
# Number literals

A number token is a digit or a minus sign with the digits and points that follow it.  `Denotes` says
that such a lexeme is well formed and that all of it makes the value.  `parseInt` reads the whole
lexeme, but `stod` reads the longest prefix that is a number: a second point and what comes after it
are dropped (`CutShort`).  Apart from that the literals of a text are what they should be
(`wellFormedNumbers_iff`), and an accepted statement has no two number tokens in a row, as `1-2`
would be.
-/

namespace VertexDB

open Ascii Tokenizer Failure Binary64

namespace Parser

/-- The lexeme is an optional minus sign and digits, with one decimal point or none, and the value
is that of all its digits. -/
inductive Denotes : Str → Value → Prop
  | int {negative : Bool} {digits : Str} {i : I64} (hne : digits ≠ []) (hdigits : Digits digits)
    (hi : i.val = if negative then -(ofDecimal digits : ℤ) else ofDecimal digits) :
    Denotes (signText negative ++ digits) (.int i)
  | double {negative : Bool} {whole frac : Str} {d : Binary64} (hne : whole ++ frac ≠ [])
    (hwhole : Digits whole) (hfrac : Digits frac)
    (hd : nearest? negative (decimalValue whole frac) = some d) :
    Denotes (signText negative ++ (whole ++ byte '.' :: frac)) (.double d)

/-- The lexeme has a second point, and what is in front of that is a number in the range of a
double. -/
def CutShort (lexeme : Str) : Prop :=
  ∃ negative whole frac more, lexeme =
      signText negative ++ (whole ++ byte '.' :: (frac ++ byte '.' :: more)) ∧
    Digits whole ∧ Digits frac ∧ whole ++ frac ≠ [] ∧
    (nearest? negative (decimalValue whole frac)).isSome = true

/-- The lexemes that the tokenizer makes number tokens of. -/
def NumberLexeme (lexeme : Str) : Prop :=
  ∃ ch rest, lexeme = ch :: rest ∧ (isDigit ch || ch == byte '-') = true ∧
    ∀ b ∈ rest, isNumberPart b = true

/-! ### The lexemes -/

theorem symbolType_ne_number : ∀ ch : Byte, symbolType ch ≠ some .number := by decide +kernel

theorem numberLexeme_of_tokenizeFrom {fuel : ℕ} {text : Str} {tokens : List Token}
    (h : tokenizeFrom fuel text = .ok tokens) :
    ∀ token ∈ tokens, token.type = .number → NumberLexeme token.lexeme := by
  induction fuel generalizing text tokens with
  | zero => cases h
  | succ fuel ih =>
    match text with
    | [] =>
      cases h
      rintro token hmem hnumber
      rw [List.mem_singleton.1 hmem] at hnumber
      exact absurd hnumber (by decide)
    | ch :: rest =>
      simp only [tokenizeFrom] at h
      split_ifs at h with hspace hstart hdigit hquote
      · exact ih h
      · obtain ⟨found, hfound, h⟩ := bind_eq_ok_iff.1 h
        cases h
        exact List.forall_mem_cons.2 ⟨by rintro ⟨⟩, ih hfound⟩
      · obtain ⟨found, hfound, h⟩ := bind_eq_ok_iff.1 h
        cases h
        refine List.forall_mem_cons.2 ⟨fun _ => ?_, ih hfound⟩
        exact ⟨ch, rest.takeWhile isNumberPart, rfl, hdigit, fun b hb => List.mem_takeWhile_imp hb⟩
      · obtain ⟨⟨value, rest⟩, -, h⟩ := bind_eq_ok_iff.1 h
        obtain ⟨found, hfound, h⟩ := bind_eq_ok_iff.1 h
        cases h
        exact List.forall_mem_cons.2 ⟨by rintro ⟨⟩, ih hfound⟩
      · cases hsymbol : symbolType ch with
        | none => rw [hsymbol] at h; cases h
        | some type =>
          rw [hsymbol] at h
          obtain ⟨found, hfound, h⟩ := bind_eq_ok_iff.1 h
          cases h
          refine List.forall_mem_cons.2 ⟨fun hnumber => ?_, ih hfound⟩
          simp only at hnumber
          rw [hnumber] at hsymbol
          exact absurd hsymbol (symbolType_ne_number ch)

/-- A number lexeme is a sign and a body of digits and points. -/
theorem NumberLexeme.split {lexeme : Str} (h : NumberLexeme lexeme) :
    ∃ negative body, lexeme = signText negative ++ body ∧ (∀ b ∈ body, isNumberPart b = true) ∧
      (negative = false → body ≠ []) := by
  obtain ⟨ch, rest, rfl, hch, hrest⟩ := h
  rcases Bool.or_eq_true_iff.1 hch with hdigit | hminus
  · refine ⟨false, ch :: rest, rfl, List.forall_mem_cons.2 ⟨?_, hrest⟩,
      fun _ => List.cons_ne_nil _ _⟩
    rw [isNumberPart, hdigit, Bool.true_or]
  · rw [beq_iff_eq] at hminus
    subst hminus
    exact ⟨true, rest, rfl, hrest, by rintro ⟨⟩⟩

theorem isDigit_of_isNumberPart {b : Byte} (h : isNumberPart b = true) (hne : b ≠ byte '.') :
    isDigit b = true := by
  rcases Bool.or_eq_true_iff.1 h with hdigit | hpoint
  · exact hdigit
  · exact absurd (beq_iff_eq.1 hpoint) hne

/-- Digits and points up to the first point, and from there on. -/
theorem split_point {body : Str} (h : ∀ b ∈ body, isNumberPart b = true) :
    Digits body ∨ ∃ digits rest, body = digits ++ byte '.' :: rest ∧ Digits digits := by
  induction body with
  | nil => exact .inl fun b hb => absurd hb List.not_mem_nil
  | cons b body ih =>
    obtain ⟨hb, hbody⟩ := List.forall_mem_cons.1 h
    by_cases hpoint : b = byte '.'
    · subst hpoint
      exact .inr ⟨[], body, rfl, fun b hb => absurd hb List.not_mem_nil⟩
    · have hdigit := isDigit_of_isNumberPart hb hpoint
      rcases ih hbody with hall | ⟨digits, rest, rfl, hdigits⟩
      · exact .inl (List.forall_mem_cons.2 ⟨hdigit, hall⟩)
      · exact .inr ⟨b :: digits, rest, rfl, List.forall_mem_cons.2 ⟨hdigit, hdigits⟩⟩

/-! ### What the parser makes of them -/

theorem signText_append_body (text : Str) :
    text = signText (text.head? == some (byte '-')) ++
      if text.head? == some (byte '-') then text.tail else text := by
  match text with
  | [] => rfl
  | b :: text =>
    rw [List.head?_cons]
    by_cases hb : b = byte '-'
    · subst hb
      rfl
    · have hfalse : (some b == some (byte '-')) = false :=
        beq_false_of_ne fun h => hb (Option.some_inj.1 h)
      rw [hfalse]
      rfl

/-- `parseInt` reads the whole text. -/
theorem parseInt_ok {text : Str} {i : I64} (h : parseInt text = .ok i) :
    ∃ negative digits, text = signText negative ++ digits ∧ digits ≠ [] ∧ Digits digits ∧
      i.val = if negative then -(ofDecimal digits : ℤ) else ofDecimal digits := by
  have hsplit := signText_append_body text
  rw [parseInt] at h
  generalize (text.head? == some (byte '-')) = negative at h hsplit
  generalize (if negative = true then text.tail else text) = digits at h hsplit
  have hgood (hbad : ¬ (digits = [] ∨ ¬ digits.all isDigit = true)) :
      digits ≠ [] ∧ Digits digits := by
    obtain ⟨hne, hall⟩ := not_or.1 hbad
    exact ⟨hne, fun b hb => List.all_eq_true.1 (not_not.1 hall) b hb⟩
  split_ifs at h with hbad hnegative
  · obtain ⟨hne, hdigits⟩ := hgood hbad
    refine ⟨negative, digits, hsplit, hne, hdigits, ?_⟩
    rw [if_pos hnegative, ← Except.ok.inj h]
  · obtain ⟨hne, hdigits⟩ := hgood hbad
    refine ⟨negative, digits, hsplit, hne, hdigits, ?_⟩
    rw [if_neg hnegative, ← Except.ok.inj h]

theorem denotes_of_parseInt {text : Str} {i : I64} (h : parseInt text = .ok i) :
    Denotes text (.int i) := by
  obtain ⟨negative, digits, rfl, hne, hdigits, hi⟩ := parseInt_ok h
  exact .int hne hdigits hi

theorem point_notMem {negative : Bool} {digits : Str} (h : Digits digits) :
    byte '.' ∉ signText negative ++ digits := by
  intro hmem
  rcases List.mem_append.1 hmem with hsign | hdigit
  · match negative with
    | true => exact absurd hsign (by decide)
    | false => exact absurd hsign List.not_mem_nil
  · exact absurd (h _ hdigit) (by decide)

/-- `stod` reads up to the second point. -/
theorem stod_longest (negative : Bool) {whole frac more : Str} (hwhole : Digits whole)
    (hfrac : Digits frac) (hmore : ∀ b, more.head? = some b → isDigit b = false) {d : Binary64} :
    stod (signText negative ++ (whole ++ byte '.' :: (frac ++ more))) = .ok d ↔
      whole ++ frac ≠ [] ∧ nearest? negative (decimalValue whole frac) = some d := by
  rw [stod, scanDecimal_prefix negative hwhole hfrac hmore]
  simp only
  have hlength : whole.length + frac.length = 0 ↔ whole ++ frac = [] := by
    rw [← List.length_append, List.length_eq_zero_iff]
  by_cases hnil : whole ++ frac = []
  · rw [if_pos (hlength.2 hnil)]
    exact ⟨by rintro ⟨⟩, fun h => absurd hnil h.1⟩
  · rw [if_neg fun h => hnil (hlength.1 h)]
    rw [← decimalValue]
    cases nearest? negative (decimalValue whole frac) with
    | none => exact ⟨by rintro ⟨⟩, by rintro ⟨-, ⟨⟩⟩⟩
    | some d' => exact ⟨fun h => ⟨hnil, congrArg some (Except.ok.inj h)⟩, fun h =>
        congrArg Except.ok (Option.some.inj h.2)⟩

/-- A number token that the parser makes a value of denotes it, unless it is cut short. -/
theorem denotes_or_cutShort {lexeme : Str} (h : NumberLexeme lexeme) {following rest : List Token}
    {value : Value} (hvalue : parseValue (⟨.number, lexeme⟩ :: following) = .ok (value, rest)) :
    Denotes lexeme value ∨ CutShort lexeme := by
  obtain ⟨negative, body, rfl, hbody, -⟩ := h.split
  rw [parseValue_number] at hvalue
  rcases split_point hbody with hdigits | ⟨whole, more, rfl, hwhole⟩
  · rw [if_neg (point_notMem hdigits)] at hvalue
    cases hint : parseInt (signText negative ++ body) with
    | error e => rw [hint] at hvalue; cases hvalue
    | ok i =>
      rw [hint] at hvalue
      cases hvalue
      exact .inl (denotes_of_parseInt hint)
  · have hpoint : byte '.' ∈ signText negative ++ (whole ++ byte '.' :: more) := by simp
    rw [if_pos hpoint] at hvalue
    have hmore : ∀ b ∈ more, isNumberPart b = true := fun b hb => hbody b (by simp [hb])
    cases hdouble : stod (signText negative ++ (whole ++ byte '.' :: more)) with
    | error e => rw [hdouble] at hvalue; cases hvalue
    | ok d =>
      rw [hdouble] at hvalue
      cases hvalue
      -- what follows the point is digits, or digits and another point
      rcases split_point hmore with hfrac | ⟨frac, more, rfl, hfrac⟩
      · have hnone : ∀ b, ([] : Str).head? = some b → isDigit b = false := by rintro b ⟨⟩
        have hstod := (@stod_longest negative whole more [] hwhole hfrac hnone d).1
          (by rwa [List.append_nil])
        exact .inl (.double hstod.1 hwhole hfrac hstod.2)
      · have hstop : ∀ b, (byte '.' :: more).head? = some b → isDigit b = false := by
          rintro b ⟨⟩
          decide
        have hstod := (stod_longest negative hwhole hfrac hstop).1 hdouble
        refine .inr ⟨negative, whole, frac, more, rfl, hwhole, hfrac, hstod.1, ?_⟩
        rw [hstod.2]
        rfl

theorem count_point_of_denotes {lexeme : Str} {value : Value} (h : Denotes lexeme value) :
    lexeme.count (byte '.') ≤ 1 := by
  have hzero {digits : Str} (hdigits : Digits digits) : digits.count (byte '.') = 0 :=
    List.count_eq_zero.2 fun hmem => absurd (hdigits _ hmem) (by decide)
  have hsign (negative : Bool) : (signText negative).count (byte '.') = 0 := by
    match negative with
    | true => decide
    | false => rfl
  cases h with
  | int hne hdigits hi => rw [List.count_append, hsign, hzero hdigits]; omega
  | double hne hwhole hfrac hd =>
    rw [List.count_append, List.count_append, List.count_cons_self, hsign, hzero hwhole,
      hzero hfrac]

/-- A lexeme that is cut short has a value, and does not denote it. -/
theorem CutShort.parseValue_ok {lexeme : Str} (h : CutShort lexeme) (following : List Token) :
    ∃ value, parseValue (⟨.number, lexeme⟩ :: following) = .ok (value, following) ∧
      ¬ Denotes lexeme value := by
  obtain ⟨negative, whole, frac, more, rfl, hwhole, hfrac, hne, hd⟩ := h
  obtain ⟨d, hd⟩ := Option.isSome_iff_exists.1 hd
  have hstop : ∀ b, (byte '.' :: more).head? = some b → isDigit b = false := by
    rintro b ⟨⟩
    decide
  have hstod := (stod_longest negative hwhole hfrac hstop).2 ⟨hne, hd⟩
  refine ⟨.double d, ?_, fun hdenotes => ?_⟩
  · rw [parseValue_number, if_pos (by simp), hstod]
    rfl
  · have := count_point_of_denotes hdenotes
    simp only [List.count_append, List.count_cons_self] at this
    omega

/-! ### Number tokens in a statement -/

/-- The parser makes a value of the lexeme. -/
def IsLiteral (lexeme : Str) : Prop :=
  ∃ value, ∀ following, parseValue (⟨.number, lexeme⟩ :: following) = .ok (value, following)

/-- No two number tokens follow each other, and the parser makes values of all of them. -/
structure Spaced (tokens : List Token) : Prop where
  apart : tokens.IsChain fun a b => a.type = .number → b.type ≠ .number
  literal : ∀ token ∈ tokens, token.type = .number → IsLiteral token.lexeme

/-- A parsing function takes spaced tokens. -/
def Takes {α : Type} (p : Parser α) : Prop :=
  ∀ tokens a rest, p tokens = .ok (a, rest) → ∃ used, tokens = used ++ rest ∧ Spaced used

/-- A parsing function takes spaced tokens, of which the first one is no number. -/
def TakesNext {α : Type} (p : Parser α) : Prop :=
  ∀ tokens a rest, p tokens = .ok (a, rest) → ∃ used, tokens = used ++ rest ∧ Spaced used ∧
    ∀ token, used.head? = some token → token.type ≠ .number

variable {α β : Type} {p : Parser α} {f : α → Parser β}

theorem spaced_nil : Spaced [] := ⟨.nil, fun _ h => absurd h List.not_mem_nil⟩

theorem Spaced.cons {token : Token} (h : token.type ≠ .number) {tokens : List Token}
    (h' : Spaced tokens) : Spaced (token :: tokens) :=
  ⟨List.isChain_cons.2 ⟨fun _ _ hnumber => absurd hnumber h, h'.apart⟩,
    List.forall_mem_cons.2 ⟨fun hnumber => absurd hnumber h, h'.literal⟩⟩

theorem Spaced.append {tokens tokens' : List Token} (h : Spaced tokens) (h' : Spaced tokens')
    (hnext : ∀ token, tokens'.head? = some token → token.type ≠ .number) :
    Spaced (tokens ++ tokens') := by
  refine ⟨List.isChain_append.2 ⟨h.apart, h'.apart, fun _ _ b hb _ => hnext b hb⟩, ?_⟩
  exact List.forall_mem_append.2 ⟨h.literal, h'.literal⟩

theorem TakesNext.takes (h : TakesNext p) : Takes p := by
  intro tokens a rest hp
  obtain ⟨used, hused, hspaced, -⟩ := h tokens a rest hp
  exact ⟨used, hused, hspaced⟩

theorem takesNext_pure (a : α) : TakesNext (pure a) := by
  rintro tokens _ _ ⟨⟩
  exact ⟨[], rfl, spaced_nil, by rintro token ⟨⟩⟩

theorem takesNext_throw (e : Exception) : TakesNext (throw e : Parser α) := by
  rintro tokens a rest ⟨⟩

theorem Takes.bind (h : Takes p) (hf : ∀ a, TakesNext (f a)) : Takes (p >>= f) := by
  intro tokens b rest hpf
  obtain ⟨a, mid, hp, hfa⟩ := bind_apply_eq_ok_iff.1 hpf
  obtain ⟨used, rfl, hused⟩ := h tokens a mid hp
  obtain ⟨used', rfl, hused', hnext⟩ := hf a mid b rest hfa
  exact ⟨used ++ used', (List.append_assoc _ _ _).symm, hused.append hused' hnext⟩

theorem TakesNext.bind (h : TakesNext p) (hf : ∀ a, TakesNext (f a)) : TakesNext (p >>= f) := by
  intro tokens b rest hpf
  obtain ⟨a, mid, hp, hfa⟩ := bind_apply_eq_ok_iff.1 hpf
  obtain ⟨used, rfl, hused, hfirst⟩ := h tokens a mid hp
  obtain ⟨used', rfl, hused', hnext⟩ := hf a mid b rest hfa
  refine ⟨used ++ used', (List.append_assoc _ _ _).symm, hused.append hused' hnext, ?_⟩
  match used with
  | [] => exact hnext
  | token :: used => exact hfirst

theorem takesNext_ite {c : Prop} [Decidable c] {q : Parser α} (hp : TakesNext p)
    (hq : TakesNext q) : TakesNext (if c then p else q) := by
  by_cases h : c
  · rw [if_pos h]; exact hp
  · rw [if_neg h]; exact hq

/-- Exactly one token is taken, which is no number. -/
def TakesOne (p : Parser α) : Prop :=
  ∀ tokens a rest, p tokens = .ok (a, rest) → ∃ token, tokens = token :: rest ∧
    token.type ≠ .number

/-- A number may follow any other token. -/
theorem TakesOne.bind (h : TakesOne p) (hf : ∀ a, Takes (f a)) : TakesNext (p >>= f) := by
  intro tokens b rest hpf
  obtain ⟨a, mid, hp, hfa⟩ := bind_apply_eq_ok_iff.1 hpf
  obtain ⟨token, rfl, htoken⟩ := h tokens a mid hp
  obtain ⟨used, rfl, hused⟩ := hf a mid b rest hfa
  exact ⟨token :: used, rfl, hused.cons htoken, by rintro _ ⟨⟩; exact htoken⟩

theorem TakesOne.takesNext (h : TakesOne p) : TakesNext p := by
  have := h.bind fun a => (takesNext_pure a).takes
  rwa [bind_pure] at this

/-- A token that may be there, after which a number may follow. -/
theorem takesNext_matchToken_bind {type : TokenType} (hnumber : type ≠ .number) (hend : type ≠ .end)
    (lexeme : Str) {q r : Parser β} (hq : Takes q) (hr : TakesNext r) :
    TakesNext (matchToken type lexeme >>= fun found => if found = true then q else r) := by
  intro tokens b rest hok
  obtain ⟨found, mid, hmatch, hbranch⟩ := bind_apply_eq_ok_iff.1 hok
  rcases matchToken_ok hend hmatch with ⟨token, rfl, ⟨htype, -⟩, rfl⟩ | ⟨rfl, rfl⟩
  · obtain ⟨used, rfl, hused⟩ := hq mid b rest hbranch
    have htoken : token.type ≠ .number := htype ▸ hnumber
    exact ⟨token :: used, rfl, hused.cons htoken, by rintro _ ⟨⟩; exact htoken⟩
  · exact hr mid b rest hbranch

theorem takesNext_matchToken {type : TokenType} (hnumber : type ≠ .number) (hend : type ≠ .end)
    (lexeme : Str) : TakesNext (matchToken type lexeme) := by
  intro tokens found rest hmatch
  rcases matchToken_ok hend hmatch with ⟨token, rfl, ⟨htype, -⟩, rfl⟩ | ⟨rfl, rfl⟩
  · have htoken : token.type ≠ .number := htype ▸ hnumber
    exact ⟨[token], rfl, spaced_nil.cons htoken, by rintro _ ⟨⟩; exact htoken⟩
  · exact ⟨[], rfl, spaced_nil, by rintro token ⟨⟩⟩

theorem takesOne_expect {type : TokenType} (hnumber : type ≠ .number) (hend : type ≠ .end)
    (lexeme : Str) : TakesOne (expect type lexeme) := by
  intro tokens _ rest hok
  obtain ⟨found, mid, hmatch, hbranch⟩ := bind_apply_eq_ok_iff.1 hok
  rcases matchToken_ok hend hmatch with ⟨token, rfl, ⟨htype, -⟩, rfl⟩ | ⟨rfl, rfl⟩
  · cases hbranch
    exact ⟨token, rfl, htype ▸ hnumber⟩
  · cases hbranch

theorem takesOne_identifier (message : String) : TakesOne (identifier message) := by
  intro tokens name rest hok
  obtain ⟨lexeme, mid, rfl, hbranch⟩ := ofType_ok (by decide) hok
  cases hbranch
  exact ⟨⟨.identifier, lexeme⟩, rfl, by rintro ⟨⟩⟩

theorem takesNext_identifier (message : String) : TakesNext (identifier message) :=
  (takesOne_identifier message).takesNext

theorem takesNext_expect {type : TokenType} (hnumber : type ≠ .number) (hend : type ≠ .end) :
    TakesNext (expect type []) := (takesOne_expect hnumber hend []).takesNext

theorem takesNext_expectKeyword (w : String) : TakesNext (expectKeyword w) :=
  (takesOne_expect (by decide) (by decide) _).takesNext

/-- A keyword that may be there. -/
theorem takesNext_keyword_bind {w : String} {f : Bool → Parser β}
    (h : ∀ found, TakesNext (f found)) : TakesNext (keyword w >>= f) :=
  (takesNext_matchToken (by decide) (by decide) _).bind h

theorem takesOne_parseOperator : TakesOne parseOperator := by
  intro tokens op rest hok
  obtain ⟨type, lexeme, rfl, hoperator⟩ := operator_of_parseOperator hok
  exact ⟨_, rfl, by rintro ⟨⟩; cases hoperator⟩

/-- One token, which is no number or one that the parser makes a value of. -/
theorem spaced_singleton {token : Token} (h : token.type = .number → IsLiteral token.lexeme) :
    Spaced [token] :=
  ⟨.singleton token, fun _ hmem hnumber => by
    obtain rfl := List.mem_singleton.1 hmem
    exact h hnumber⟩

/-- A value is one token. -/
theorem parseValue_ok {tokens rest : List Token} {value : Value}
    (h : parseValue tokens = .ok (value, rest)) :
    ∃ token, tokens = token :: rest ∧ (token.type = .number → IsLiteral token.lexeme) := by
  obtain ⟨⟨type, lexeme⟩, rfl, hliteral⟩ := literal_of_parseValue h
  refine ⟨_, rfl, ?_⟩
  rintro ⟨⟩
  exact ⟨value, parseValue_of_literal hliteral⟩

theorem takes_parseValue : Takes parseValue := by
  intro tokens value rest hok
  obtain ⟨token, rfl, htoken⟩ := parseValue_ok hok
  exact ⟨[token], rfl, spaced_singleton htoken⟩

/-! ### The statements -/

theorem takes_commaLoop {item : Parser α} (h : Takes item) (fuel : ℕ) :
    Takes (commaLoop item fuel) := by
  induction fuel with
  | zero => exact (takesNext_throw _).takes
  | succ fuel ih =>
    exact h.bind fun x => takesNext_matchToken_bind (by decide) (by decide) _
      (ih.bind fun _ => takesNext_pure _) (takesNext_pure _)

theorem takesNext_commaLoop {item : Parser α} (h : TakesNext item) (fuel : ℕ) :
    TakesNext (commaLoop item fuel) := by
  match fuel with
  | 0 => exact takesNext_throw _
  | fuel + 1 =>
    exact h.bind fun x => takesNext_matchToken_bind (by decide) (by decide) _
      ((takes_commaLoop h.takes fuel).bind fun _ => takesNext_pure _) (takesNext_pure _)

theorem takes_get_bind {f : List Token → Parser β} (h : ∀ tokens, Takes (f tokens)) :
    Takes (get >>= f) := fun tokens b rest hok => h tokens tokens b rest hok

theorem takesNext_get_bind {f : List Token → Parser β} (h : ∀ tokens, TakesNext (f tokens)) :
    TakesNext (get >>= f) := fun tokens b rest hok => h tokens tokens b rest hok

theorem takesNext_commaSeparated {item : Parser α} (h : TakesNext item) :
    TakesNext (commaSeparated item) := takesNext_get_bind fun _ => takesNext_commaLoop h _

/-- Literals in parentheses. -/
theorem takesNext_parseTuple : TakesNext parseTuple :=
  (takesOne_expect (by decide) (by decide) []).bind fun _ =>
    (takes_get_bind fun _ => takes_commaLoop takes_parseValue _).bind fun _ =>
      (takesNext_expect (by decide) (by decide)).bind fun _ => takesNext_pure _

theorem takesNext_parseComparisonPredicate : TakesNext parseComparisonPredicate :=
  (takesNext_identifier _).bind fun _ => takesOne_parseOperator.bind fun _ =>
    takes_parseValue.bind fun _ => takesNext_pure _

theorem takesNext_connective {w : String} {node : Predicate → Predicate → Predicate}
    {operand : Parser Predicate} (h : TakesNext operand) :
    TakesNext (connective w node operand) := by
  have hloop (fuel : ℕ) (predicate : Predicate) :
      TakesNext (connectiveLoop w node operand fuel predicate) := by
    induction fuel generalizing predicate with
    | zero => exact takesNext_throw _
    | succ fuel ih =>
      exact takesNext_keyword_bind fun _ => takesNext_ite (h.bind fun _ => ih _) (takesNext_pure _)
  exact h.bind fun predicate => takesNext_get_bind fun _ => hloop _ predicate

theorem takesNext_parsePredicateTo (depth : ℕ) : TakesNext (parsePredicateTo depth) := by
  induction depth with
  | zero => exact takesNext_throw _
  | succ depth ih =>
    have hprimary : TakesNext (parsePrimaryPredicate (parsePredicateTo depth)) :=
      (takesNext_matchToken (by decide) (by decide) _).bind fun _ => takesNext_ite
        (ih.bind fun _ => (takesNext_expect (by decide) (by decide)).bind fun _ => takesNext_pure _)
        takesNext_parseComparisonPredicate
    exact takesNext_connective (takesNext_connective hprimary)

theorem takesNext_parseWhere : TakesNext parseWhere :=
  takesNext_keyword_bind fun _ => takesNext_ite
    ((takesNext_get_bind fun _ => takesNext_parsePredicateTo _).bind fun _ => takesNext_pure _)
    (takesNext_pure _)

theorem takesNext_parseColumn : TakesNext parseColumn := by
  have hnullable : TakesNext parseNullable := takesNext_keyword_bind fun _ => takesNext_ite
    ((takesNext_expectKeyword _).bind fun _ => takesNext_pure _)
    (takesNext_matchToken (by decide) (by decide) _)
  refine (takesNext_identifier _).bind fun _ => (takesNext_identifier _).bind fun typeName => ?_
  match columnTypeFromString typeName with
  | none => exact takesNext_throw _
  | some type => exact hnullable.bind fun _ => takesNext_pure _

theorem takesNext_parseCreate : TakesNext parseCreate := by
  refine takesNext_keyword_bind fun _ => takesNext_ite ?_ ?_
  · exact ((takesNext_identifier _).bind fun _ => takesNext_pure _).bind fun _ => takesNext_pure _
  refine takesNext_keyword_bind fun _ => takesNext_ite ?_ ?_
  · exact ((takesNext_identifier _).bind fun _ =>
      (takesNext_expect (by decide) (by decide)).bind fun _ =>
      (takesNext_commaSeparated takesNext_parseColumn).bind fun _ =>
      (takesNext_expect (by decide) (by decide)).bind fun _ => takesNext_pure _).bind
        fun _ => takesNext_pure _
  refine takesNext_keyword_bind fun _ => takesNext_ite ?_ (takesNext_throw _)
  exact ((takesNext_identifier _).bind fun _ => (takesNext_expectKeyword _).bind fun _ =>
    (takesNext_identifier _).bind fun _ => (takesNext_expect (by decide) (by decide)).bind fun _ =>
    (takesNext_identifier _).bind fun _ => (takesNext_expect (by decide) (by decide)).bind fun _ =>
      takesNext_pure _).bind fun _ => takesNext_pure _

theorem takesNext_parseInsert : TakesNext parseInsert :=
  (takesNext_expectKeyword _).bind fun _ => (takesNext_identifier _).bind fun _ =>
    (takesNext_expectKeyword _).bind fun _ =>
      (takesNext_commaSeparated takesNext_parseTuple).bind fun _ => takesNext_pure _

/-- The count after `LIMIT` is a literal too. -/
theorem takesNext_parseLimit : TakesNext parseLimit := by
  have hcount : Takes (advance >>= fun count =>
      if count.type ≠ .number then throw (.runtimeError "expected numeric limit")
      else do
        let i ← parseInt count.lexeme
        return some i.toBits : Parser (Option ℕ)) := by
    intro tokens limit rest hok
    obtain ⟨lexeme, mid, rfl, hbranch⟩ := ofType_ok (by decide) hok
    cases hi : parseInt lexeme with
    | error e => simp only [hi] at hbranch; cases hbranch
    | ok i =>
      simp only [hi] at hbranch
      cases hbranch
      refine ⟨[⟨.number, lexeme⟩], rfl, spaced_singleton fun _ => ⟨.int i, fun following => ?_⟩⟩
      obtain ⟨negative, digits, rfl, -, hdigits, -⟩ := parseInt_ok hi
      rw [parseValue_number, if_neg (point_notMem hdigits), hi]
      rfl
  exact takesNext_matchToken_bind (by decide) (by decide) _ hcount (takesNext_pure _)

theorem takesNext_parseSelect : TakesNext parseSelect := by
  have hcolumns : TakesNext parseSelectColumns :=
    (takesNext_matchToken (by decide) (by decide) _).bind fun _ => takesNext_ite (takesNext_pure _)
      (takesNext_commaSeparated (takesNext_identifier _))
  have hjoin : TakesNext parseJoin := takesNext_keyword_bind fun _ => takesNext_ite
    ((takesNext_identifier _).bind fun _ => (takesNext_expectKeyword _).bind fun _ =>
      (takesNext_identifier _).bind fun _ => (takesNext_expect (by decide) (by decide)).bind
        fun _ => (takesNext_identifier _).bind fun _ => takesNext_pure _) (takesNext_pure _)
  have hascending : TakesNext parseAscending := takesNext_keyword_bind fun _ =>
    takesNext_ite (takesNext_pure _) (takesNext_keyword_bind fun _ => takesNext_pure _)
  have horderBy : TakesNext parseOrderBy := takesNext_keyword_bind fun _ => takesNext_ite
    ((takesNext_expectKeyword _).bind fun _ => (takesNext_identifier _).bind fun _ =>
      hascending.bind fun _ => takesNext_pure _) (takesNext_pure _)
  exact hcolumns.bind fun _ => (takesNext_expectKeyword _).bind fun _ =>
    (takesNext_identifier _).bind fun _ => hjoin.bind fun _ => takesNext_parseWhere.bind fun _ =>
      horderBy.bind fun _ => takesNext_parseLimit.bind fun _ => takesNext_pure _

theorem takesNext_parseUpdate : TakesNext parseUpdate :=
  (takesNext_identifier _).bind fun _ => (takesNext_expectKeyword _).bind fun _ =>
    (takesNext_identifier _).bind fun _ =>
      (takesOne_expect (by decide) (by decide) []).bind fun _ => takes_parseValue.bind fun _ =>
        takesNext_parseWhere.bind fun _ => takesNext_pure _

theorem takesNext_parseDelete : TakesNext parseDelete :=
  (takesNext_expectKeyword _).bind fun _ => (takesNext_identifier _).bind fun _ =>
    takesNext_parseWhere.bind fun _ => takesNext_pure _

theorem takesNext_parsePrepare : TakesNext parsePrepare := by
  refine (takesNext_identifier _).bind fun _ => (takesNext_expectKeyword _).bind fun _ => ?_
  intro tokens command rest hok
  obtain ⟨lexeme, mid, rfl, hbranch⟩ := ofType_ok (by decide) hok
  cases hbranch
  have hnumber : TokenType.string ≠ .number := by decide
  exact ⟨[⟨.string, lexeme⟩], rfl, spaced_nil.cons hnumber, by rintro _ ⟨⟩; exact hnumber⟩

theorem takesNext_parseExecutePrepared : TakesNext parseExecutePrepared :=
  (takesNext_identifier _).bind fun _ => takesNext_keyword_bind fun _ => takesNext_ite
    (takesNext_parseTuple.bind fun _ => takesNext_pure _) (takesNext_pure _)

theorem takesNext_parseLoadDatabase : TakesNext parseLoadDatabase := by
  intro tokens command rest hok
  match tokens with
  | [] => cases hok
  | token :: tokens =>
    rw [parseLoadDatabase, bind_apply_of_eq (peek_cons token tokens)] at hok
    split_ifs at hok with htype
    · have hend : token.type ≠ .end := by rw [htype]; decide
      have hnumber : token.type ≠ .number := by rw [htype]; decide
      rw [bind_apply_of_eq (advance_cons hend)] at hok
      cases hok
      exact ⟨[token], rfl, spaced_nil.cons hnumber, by rintro _ ⟨⟩; exact hnumber⟩
    · cases hok
      exact ⟨[], rfl, spaced_nil, by rintro token ⟨⟩⟩

/-- A command that starts with a keyword. -/
theorem takesNext_clause {w : String} {p q : Parser Query} (hp : TakesNext p) (hq : TakesNext q) :
    TakesNext (keyword w >>= fun found => if found = true then p else q) :=
  takesNext_keyword_bind fun _ => takesNext_ite hp hq

theorem takesNext_map {g : α → Query} (h : TakesNext p) : TakesNext (p >>= fun a => pure (g a)) :=
  h.bind fun _ => takesNext_pure _

theorem takesNext_parseCommand : TakesNext parseCommand := by
  have hdrop : TakesNext parseDropTable := (takesNext_expectKeyword _).bind fun _ =>
    (takesNext_identifier _).bind fun _ => takesNext_pure _
  have hrename : TakesNext parseRenameTable := (takesNext_expectKeyword _).bind fun _ =>
    (takesNext_identifier _).bind fun _ => (takesNext_expectKeyword _).bind fun _ =>
      (takesNext_identifier _).bind fun _ => takesNext_pure _
  refine takesNext_clause takesNext_parseCreate ?_
  refine takesNext_clause (takesNext_map hdrop) ?_
  refine takesNext_clause (takesNext_map hrename) ?_
  refine takesNext_clause ((takesNext_expectKeyword _).bind fun _ => takesNext_pure _) ?_
  refine takesNext_clause (takesNext_map takesNext_parseInsert) ?_
  refine takesNext_clause (takesNext_map takesNext_parseSelect) ?_
  refine takesNext_clause (takesNext_map takesNext_parseUpdate) ?_
  refine takesNext_clause (takesNext_map takesNext_parseDelete) ?_
  refine takesNext_clause ((takesNext_expectKeyword _).bind fun _ => takesNext_pure _) ?_
  refine takesNext_clause ((takesNext_expectKeyword _).bind fun _ =>
    takesNext_map takesNext_parseLoadDatabase) ?_
  refine takesNext_clause (takesNext_pure _) ?_
  refine takesNext_clause (takesNext_pure _) ?_
  refine takesNext_clause (takesNext_pure _) ?_
  refine takesNext_clause (takesNext_map takesNext_parsePrepare) ?_
  refine takesNext_clause (takesNext_map takesNext_parseExecutePrepared) ?_
  exact takesNext_clause (takesNext_pure _) (takesNext_throw _)

/-- The number tokens of an accepted statement are spaced. -/
theorem spaced_of_parse {sql : Str} {query : Query} (h : parse sql = .ok query) :
    ∃ tokens, tokenize sql = .ok tokens ∧ Spaced tokens := by
  obtain ⟨tokens, htokens, hparse⟩ := bind_eq_ok_iff.1 h
  obtain ⟨⟨query', rest⟩, hstatement, -⟩ := bind_eq_ok_iff.1 hparse
  obtain ⟨command, mid, hcommand, hending⟩ := bind_apply_eq_ok_iff.1 hstatement
  obtain ⟨used, rfl, hused, -⟩ := takesNext_parseCommand tokens command mid hcommand
  obtain ⟨_, rest', hend, -⟩ := bind_apply_eq_ok_iff.1 hending
  refine ⟨_, htokens, ?_⟩
  obtain ⟨token, tail, htype, rfl | ⟨lexeme, rfl⟩⟩ := expectStatementEnd_ok hend
  · rw [eq_end_of_suffix htokens (List.suffix_append _ _) htype]
    refine hused.append (spaced_nil.cons (by rintro ⟨⟩)) ?_
    rintro _ ⟨⟩ ⟨⟩
  · have hsuffix : token :: tail <:+ used ++ ⟨.semicolon, lexeme⟩ :: token :: tail :=
      (List.suffix_cons _ _).trans (List.suffix_append _ _)
    rw [eq_end_of_suffix htokens hsuffix htype]
    refine hused.append ((spaced_nil.cons (by rintro ⟨⟩)).cons (by rintro ⟨⟩)) ?_
    rintro _ ⟨⟩ ⟨⟩

/-- The number literals of a text are well formed: a number token that the parser makes a value of
denotes it, and if the text is accepted then there is no other digit, point or minus sign in its
number tokens, and no two of them follow each other. -/
structure WellFormedNumbers (sql : Str) : Prop where
  denotes : ∀ tokens, tokenize sql = .ok tokens → ∀ token ∈ tokens, token.type = .number →
    NumberLexeme token.lexeme ∧ ∀ following value rest,
      parseValue (token :: following) = .ok (value, rest) → Denotes token.lexeme value
  accepted : ∀ query, parse sql = .ok query → ∃ tokens, tokenize sql = .ok tokens ∧ Spaced tokens

/-- **Number literals are accepted only when well formed, unless one is cut short**: they are in
exactly those texts in which no number token has a second point after a number in range. -/
theorem wellFormedNumbers_iff (sql : Str) :
    WellFormedNumbers sql ↔ ∀ tokens, tokenize sql = .ok tokens → ∀ token ∈ tokens,
      token.type = .number → ¬ CutShort token.lexeme := by
  constructor
  · intro h tokens htokens token hmem hnumber hcut
    obtain ⟨value, hvalue, hnot⟩ := hcut.parseValue_ok []
    obtain ⟨type, lexeme⟩ := token
    cases hnumber
    exact hnot ((h.denotes tokens htokens _ hmem rfl).2 _ _ _ hvalue)
  · intro h
    refine ⟨fun tokens htokens token hmem hnumber => ?_, fun query hparse =>
      spaced_of_parse hparse⟩
    have hlexeme := numberLexeme_of_tokenizeFrom htokens token hmem hnumber
    refine ⟨hlexeme, fun following value rest hvalue => ?_⟩
    obtain ⟨type, lexeme⟩ := token
    cases hnumber
    exact (denotes_or_cutShort hlexeme hvalue).resolve_right (h tokens htokens _ hmem rfl)

/-- `1.2.3` is read as `1.2`. -/
theorem not_wellFormedNumbers_twoPoints :
    parse (bytes "INSERT INTO t VALUES (1.2.3);") = parse (bytes "INSERT INTO t VALUES (1.2);") ∧
      (parse (bytes "INSERT INTO t VALUES (1.2.3);")).toOption.isSome = true ∧
      ¬ WellFormedNumbers (bytes "INSERT INTO t VALUES (1.2.3);") := by
  refine ⟨by decide +kernel, by decide +kernel, fun h => ?_⟩
  have htokens : tokenize (bytes "INSERT INTO t VALUES (1.2.3);") =
      .ok [⟨.identifier, bytes "INSERT"⟩, ⟨.identifier, bytes "INTO"⟩, ⟨.identifier, bytes "t"⟩,
        ⟨.identifier, bytes "VALUES"⟩, ⟨.leftParen, bytes "("⟩, ⟨.number, bytes "1.2.3"⟩,
        ⟨.rightParen, bytes ")"⟩, ⟨.semicolon, bytes ";"⟩, ⟨.end, []⟩] := by decide +kernel
  have hcut : CutShort (bytes "1.2.3") := by
    have hone : Digits (bytes "1") := List.forall_mem_singleton.2 (by decide)
    have htwo : Digits (bytes "2") := List.forall_mem_singleton.2 (by decide)
    exact ⟨false, bytes "1", bytes "2", bytes "3", by decide, hone, htwo, by decide,
      by decide +kernel⟩
  obtain ⟨value, hvalue, hnot⟩ := hcut.parseValue_ok []
  exact hnot ((h.denotes _ htokens _ (by decide) rfl).2 _ _ _ hvalue)

end Parser

end VertexDB
