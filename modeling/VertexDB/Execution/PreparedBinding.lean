import VertexDB.Execution.PreparedSql
import VertexDB.Execution.Replay

/-!
# Placeholders between delimiters

`tokenizeTemplate` reads a template like the tokenizer, and a question mark between two tokens as a
placeholder.  Binding replaces bytes and not tokens, but when every question mark stands between
delimiters (`Isolated`), the tokens of the bound text are those of the template with a literal for
each placeholder, and the parser reads each parameter back from its literal (`binds_exactly`).

The template is cut into pieces, one for each iteration of the tokenizer (`piece_of_template`); what
is behind a piece can be replaced as long as it ends the piece in the same way.
-/

namespace VertexDB

open Ascii Tokenizer QueryExecutor

/-! ### Templates -/

/-- A token of a template. -/
inductive TemplateToken
  | token (token : Token)
  | placeholder
  deriving DecidableEq

namespace Tokenizer

/-- The loop of the tokenizer, with a question mark as one more symbol. -/
def tokenizeTemplateFrom : ℕ → Str → Except Exception (List TemplateToken)
  | 0, _ => throw .outOfFuel
  | _ + 1, [] => return [.token ⟨.end, []⟩]
  | fuel + 1, ch :: rest =>
    if isSpace ch then tokenizeTemplateFrom fuel rest
    else if isIdentifierStart ch then do
      let tokens ← tokenizeTemplateFrom fuel (rest.dropWhile isIdentifierPart)
      return .token ⟨.identifier, ch :: rest.takeWhile isIdentifierPart⟩ :: tokens
    else if isDigit ch || ch == byte '-' then do
      let tokens ← tokenizeTemplateFrom fuel (rest.dropWhile isNumberPart)
      return .token ⟨.number, ch :: rest.takeWhile isNumberPart⟩ :: tokens
    else if ch = byte '"' then do
      let (value, rest) ← scanString rest
      let tokens ← tokenizeTemplateFrom fuel rest
      return .token ⟨.string, value⟩ :: tokens
    else if ch = byte '?' then do
      let tokens ← tokenizeTemplateFrom fuel rest
      return .placeholder :: tokens
    else match symbolType ch with
      | some type => do
        let tokens ← tokenizeTemplateFrom fuel rest
        return .token ⟨type, [ch]⟩ :: tokens
      | none => throw (.runtimeError "unexpected character in SQL input")

/-- The tokens and placeholders of a template. -/
def tokenizeTemplate (template : Str) : Except Exception (List TemplateToken) :=
  tokenizeTemplateFrom (template.length + 1) template

/-- White space, or one of the symbols `, ; ( ) * = > <`. -/
def isDelimiter (ch : Byte) : Bool := isSpace ch || (symbolType ch).isSome

/-- The text ends here, or goes on with a delimiter. -/
def Delimited (ch : Option Byte) : Prop := ∀ c, ch = some c → isDelimiter c = true

instance (ch : Option Byte) : Decidable (Delimited ch) := match ch with
  | none => .isTrue (by rintro _ ⟨⟩)
  | some c => decidable_of_iff (isDelimiter c = true) ⟨by rintro h _ ⟨⟩; exact h, fun h => h c rfl⟩

/-- Every question mark stands between delimiters, in a text behind `previous`. -/
def Isolated : Option Byte → Str → Prop
  | _, [] => True
  | previous, ch :: rest =>
    (ch = byte '?' → Delimited previous ∧ Delimited rest.head?) ∧ Isolated (some ch) rest

instance decidableIsolated : (previous : Option Byte) → (text : Str) →
    Decidable (Isolated previous text)
  | _, [] => instDecidableTrue
  | previous, ch :: rest =>
    have := decidableIsolated (some ch) rest
    inferInstanceAs (Decidable
      ((ch = byte '?' → Delimited previous ∧ Delimited rest.head?) ∧ Isolated (some ch) rest))

end Tokenizer

/-- No string literal has a question mark. -/
def OutsideLiterals (tokens : List TemplateToken) : Prop :=
  ∀ lexeme, .token ⟨.string, lexeme⟩ ∈ tokens → byte '?' ∉ lexeme

/-- The tokens with a literal for each placeholder, in their order. -/
def fillIn : List TemplateToken → List Token → List Token
  | [], _ => []
  | .token token :: tokens, literals => token :: fillIn tokens literals
  | .placeholder :: tokens, [] => fillIn tokens []
  | .placeholder :: tokens, literal :: literals => literal :: fillIn tokens literals

namespace Tokenizer

/-! ### The loop of a template -/

/-- The loop does not run out of its bound. -/
theorem tokenizeTemplateFrom_ne_outOfFuel {fuel : ℕ} {text : Str} (h : text.length < fuel) :
    tokenizeTemplateFrom fuel text ≠ .error .outOfFuel := by
  induction fuel generalizing text with
  | zero => exact absurd h (Nat.not_lt_zero _)
  | succ fuel ih =>
    cases text with
    | nil => rintro ⟨⟩
    | cons ch rest =>
      have hrest : rest.length < fuel := by simpa using h
      -- a token in front of those of a later part of the text
      have hcons (token : TemplateToken) {behind : Str} (hbehind : behind <:+ rest) :
          (tokenizeTemplateFrom fuel behind >>= fun tokens => pure (token :: tokens)) ≠
            .error .outOfFuel := by
        simpa [Failure.bind_eq_error_iff] using ih (hbehind.length_le.trans_lt hrest)
      rw [tokenizeTemplateFrom]
      split_ifs
      · exact ih hrest
      · exact hcons _ (List.dropWhile_suffix _)
      · exact hcons _ (List.dropWhile_suffix _)
      · intro herror
        rcases Failure.bind_eq_error_iff.1 herror with hscan | ⟨⟨value, behind⟩, hscan, htokens⟩
        · exact scanString_ne_outOfFuel rest hscan
        · exact hcons _ (scanString_suffix hscan) htokens
      · exact hcons _ List.suffix_rfl
      · cases symbolType ch with
        | none => rintro ⟨⟩
        | some type => exact hcons _ List.suffix_rfl

/-- Without question marks, a template is read as the tokenizer reads it. -/
theorem tokenizeTemplateFrom_eq (fuel : ℕ) {text : Str} (h : byte '?' ∉ text) :
    tokenizeTemplateFrom fuel text = (tokenizeFrom fuel text).map (List.map .token) := by
  induction fuel generalizing text with
  | zero => rfl
  | succ fuel ih =>
    cases text with
    | nil => rfl
    | cons ch rest =>
      have hcons (token : Token) {behind : Str} (hbehind : behind <:+ rest) :
          (tokenizeTemplateFrom fuel behind >>= fun tokens => pure (.token token :: tokens)) =
            (tokenizeFrom fuel behind >>= fun tokens =>
              (pure (token :: tokens) : Except Exception (List Token))).map (List.map .token) := by
        rw [ih fun hmem => h (List.mem_cons_of_mem _ (hbehind.subset hmem))]
        cases tokenizeFrom fuel behind <;> rfl
      have hmark : ch ≠ byte '?' := fun heq => h (heq ▸ List.mem_cons_self)
      rw [tokenizeTemplateFrom, tokenizeFrom]
      split_ifs
      · exact ih fun hmem => h (List.mem_cons_of_mem _ hmem)
      · exact hcons _ (List.dropWhile_suffix _)
      · exact hcons _ (List.dropWhile_suffix _)
      · cases hscan : scanString rest with
        | error e => rfl
        | ok p => exact hcons _ (scanString_suffix hscan)
      · cases symbolType ch with
        | none => rfl
        | some type => exact hcons _ List.suffix_rfl

/-! ### Pieces -/

/-- A part of a template without question marks, with the tokens that it has in front of any text
that ends it where `rest` does. -/
structure Piece (piece rest : Str) (tokens : List Token) : Prop where
  ne_nil : piece ≠ []
  unmarked : byte '?' ∉ piece
  tokenize_eq : ∀ following, Delimited piece.getLast? ∨ following.head? = rest.head? →
    tokenize (piece ++ following) = before tokens (tokenize following)

theorem not_isDelimiter_of_word : ∀ ch : Byte,
    isIdentifierPart ch = true ∨ ch = byte '-' → isDelimiter ch = false := by decide +kernel

theorem isIdentifierPart_of_isNumberPart (ch : Byte) (h : isNumberPart ch = true) :
    isIdentifierPart ch = true := by
  by_contra hnot
  rw [not_isNumberPart_of_not_isIdentifierPart ch (by simpa using hnot)] at h
  cases h

/-- The bytes of a name or a number. -/
theorem not_delimited_of_word {piece : Str} (hne : piece ≠ [])
    (h : ∀ ch ∈ piece, isIdentifierPart ch = true ∨ ch = byte '-') :
    ¬ Delimited piece.getLast? := by
  intro hlast
  have hdelimiter := hlast _ (List.getLast?_eq_some_getLast hne)
  rw [not_isDelimiter_of_word _ (h _ (List.getLast_mem hne))] at hdelimiter
  cases hdelimiter

theorem unmarked_of_word {piece : Str}
    (h : ∀ ch ∈ piece, isIdentifierPart ch = true ∨ ch = byte '-') : byte '?' ∉ piece :=
  fun hmem => absurd (h _ hmem) (by decide)

variable {ch : Byte} {rest : Str}

theorem piece_space (h : isSpace ch = true) : Piece [ch] rest [] where
  ne_nil := List.cons_ne_nil _ _
  unmarked hmem := by
    rw [← List.mem_singleton.1 hmem] at h
    exact absurd h (by decide)
  tokenize_eq following _ := by
    rw [List.singleton_append, tokenize_cons, if_pos h, before_nil]

theorem piece_identifier (h : isIdentifierStart ch = true) :
    Piece (ch :: rest.takeWhile isIdentifierPart) (rest.dropWhile isIdentifierPart)
      [⟨.identifier, ch :: rest.takeWhile isIdentifierPart⟩] := by
  have hpart : ∀ c ∈ rest.takeWhile isIdentifierPart, isIdentifierPart c = true :=
    fun c hc => List.mem_takeWhile_imp hc
  have hword : ∀ c ∈ ch :: rest.takeWhile isIdentifierPart,
      isIdentifierPart c = true ∨ c = byte '-' :=
    List.forall_mem_cons.2 ⟨.inl (isIdentifierPart_of_isIdentifierStart ch h),
      fun c hc => .inl (hpart c hc)⟩
  refine ⟨List.cons_ne_nil _ _, unmarked_of_word hword, fun following hend => ?_⟩
  have hhead := hend.resolve_left (not_delimited_of_word (List.cons_ne_nil _ _) hword)
  refine lexes_identifier ⟨List.cons_ne_nil _ _, ?_, hpart⟩ following fun c hc => ?_
  · rintro _ ⟨⟩
    exact h
  · rw [hhead] at hc
    have := List.head?_dropWhile_not isIdentifierPart rest
    rw [hc] at this
    exact this

theorem piece_number (h : (isDigit ch || ch == byte '-') = true) :
    Piece (ch :: rest.takeWhile isNumberPart) (rest.dropWhile isNumberPart)
      [⟨.number, ch :: rest.takeWhile isNumberPart⟩] := by
  have hpart : ∀ c ∈ rest.takeWhile isNumberPart, isNumberPart c = true :=
    fun c hc => List.mem_takeWhile_imp hc
  have hword : ∀ c ∈ ch :: rest.takeWhile isNumberPart,
      isIdentifierPart c = true ∨ c = byte '-' :=
    List.forall_mem_cons.2 ⟨isIdentifierPart_of_isDigit ch h,
      fun c hc => .inl (isIdentifierPart_of_isNumberPart c (hpart c hc))⟩
  refine ⟨List.cons_ne_nil _ _, unmarked_of_word hword, fun following hend => ?_⟩
  have hhead := hend.resolve_left (not_delimited_of_word (List.cons_ne_nil _ _) hword)
  refine tokenize_number h hpart fun c hc => ?_
  rw [hhead] at hc
  have := List.head?_dropWhile_not isNumberPart rest
  rw [hc] at this
  exact this

theorem piece_string {literal value : Str} (hmark : byte '?' ∉ literal)
    (hscan : ∀ more, scanString (literal ++ more) = .ok (value, more)) :
    Piece (byte '"' :: literal) rest [⟨.string, value⟩] where
  ne_nil := List.cons_ne_nil _ _
  unmarked hmem := (List.mem_cons.1 hmem).elim (fun h => absurd h (by decide)) hmark
  tokenize_eq following _ := by
    rw [List.cons_append, tokenize_cons, if_neg (by decide), if_neg (by decide),
      if_neg (by decide), if_pos rfl, hscan]
    rfl

theorem symbolType_other : ∀ ch : Byte, (symbolType ch).isSome = true → isSpace ch = false ∧
    isIdentifierStart ch = false ∧ (isDigit ch || ch == byte '-') = false ∧ ch ≠ byte '"' ∧
    ch ≠ byte '?' := by decide +kernel

theorem piece_symbol {type : TokenType} (h : symbolType ch = some type) :
    Piece [ch] rest [⟨type, [ch]⟩] := by
  obtain ⟨hspace, hname, hnumber, hquote, hmark⟩ := symbolType_other ch (by rw [h]; rfl)
  refine ⟨List.cons_ne_nil _ _, fun hmem => hmark (List.mem_singleton.1 hmem).symm,
    fun following _ => ?_⟩
  rw [List.singleton_append, tokenize_cons, if_neg (by simp [hspace]), if_neg (by simp [hname]),
    if_neg (by simp [hnumber]), if_neg hquote, h]
  rfl

/-- One iteration of the loop: the end of the template, a placeholder or a piece. -/
theorem piece_of_template {fuel : ℕ} {text : Str} {tokens : List TemplateToken}
    (h : tokenizeTemplateFrom (fuel + 1) text = .ok tokens) (houtside : OutsideLiterals tokens) :
    (text = [] ∧ tokens = [.token ⟨.end, []⟩]) ∨
    (∃ rest found, text = byte '?' :: rest ∧ tokenizeTemplateFrom fuel rest = .ok found ∧
      tokens = .placeholder :: found) ∨
    ∃ piece rest emitted found, text = piece ++ rest ∧ Piece piece rest emitted ∧
      tokenizeTemplateFrom fuel rest = .ok found ∧ tokens = emitted.map .token ++ found := by
  cases text with
  | nil =>
    cases h
    exact .inl ⟨rfl, rfl⟩
  | cons ch rest =>
    refine .inr ?_
    rw [tokenizeTemplateFrom] at h
    split_ifs at h with hspace hname hnumber hquote hmark
    · exact .inr ⟨[ch], rest, [], tokens, rfl, piece_space hspace, h, rfl⟩
    · obtain ⟨found, hfound, ⟨⟩⟩ := Failure.bind_eq_ok_iff.1 h
      refine .inr ⟨_, _, _, found, ?_, piece_identifier hname, hfound, rfl⟩
      rw [List.cons_append, List.takeWhile_append_dropWhile]
    · obtain ⟨found, hfound, ⟨⟩⟩ := Failure.bind_eq_ok_iff.1 h
      refine .inr ⟨_, _, _, found, ?_, piece_number hnumber, hfound, rfl⟩
      rw [List.cons_append, List.takeWhile_append_dropWhile]
    · obtain ⟨⟨value, behind⟩, hscan, hrest⟩ := Failure.bind_eq_ok_iff.1 h
      obtain ⟨found, hfound, ⟨⟩⟩ := Failure.bind_eq_ok_iff.1 hrest
      obtain ⟨literal, rfl, hvalue, hmore⟩ := scanString_split hscan
      -- a question mark of the literal would be one of its value
      have hno : byte '?' ∉ literal := fun hmem =>
        houtside value List.mem_cons_self (hvalue _ hmem (by decide) (by decide))
      subst hquote
      exact .inr ⟨_, behind, _, found, rfl, piece_string hno hmore, hfound, rfl⟩
    · obtain ⟨found, hfound, ⟨⟩⟩ := Failure.bind_eq_ok_iff.1 h
      subst hmark
      exact .inl ⟨rest, found, rfl, hfound, rfl⟩
    · cases htype : symbolType ch with
      | none => rw [htype] at h; cases h
      | some type =>
        rw [htype] at h
        obtain ⟨found, hfound, ⟨⟩⟩ := Failure.bind_eq_ok_iff.1 h
        exact .inr ⟨[ch], rest, _, found, rfl, piece_symbol htype, hfound, rfl⟩

theorem Isolated.append {previous : Option Byte} {piece rest : Str} (hne : piece ≠ [])
    (h : Isolated previous (piece ++ rest)) : Isolated piece.getLast? rest := by
  induction piece generalizing previous with
  | nil => exact absurd rfl hne
  | cons ch piece ih =>
    cases piece with
    | nil => exact h.2
    | cons next piece =>
      rw [List.getLast?_cons_cons]
      exact ih (List.cons_ne_nil _ _) h.2

end Tokenizer

/-! ### Binding a template -/

/-- Binding copies what has no question mark. -/
theorem bindParameters_append_eq_ok {piece rest text : Str} {parameters : List Value}
    (h : byte '?' ∉ piece) : bindParameters (piece ++ rest) parameters = .ok text ↔
      ∃ bound, bindParameters rest parameters = .ok bound ∧ text = piece ++ bound := by
  induction piece generalizing text with
  | nil => simp
  | cons ch piece ih =>
    rw [List.mem_cons, not_or] at h
    rw [List.cons_append, bindParameters_cons_eq_ok (Ne.symm h.1)]
    simp only [ih h.2]
    constructor
    · rintro ⟨_, ⟨bound, hbound, rfl⟩, rfl⟩
      exact ⟨bound, hbound, rfl⟩
    · rintro ⟨bound, hbound, rfl⟩
      exact ⟨_, ⟨bound, hbound, rfl⟩, rfl⟩

theorem head?_of_bindParameters {template text : Str} {parameters : List Value}
    (hbind : bindParameters template parameters = .ok text)
    (h : template.head? ≠ some (byte '?')) : text.head? = template.head? := by
  cases template with
  | nil => rw [(bindParameters_nil_eq_ok hbind).2]
  | cons ch template =>
    have hch : ch ≠ byte '?' := fun heq => h (congrArg some heq)
    obtain ⟨bound, -, rfl⟩ := (bindParameters_cons_eq_ok hch).1 hbind
    rfl

/-- Binding succeeds for as many parameters as there are question marks. -/
theorem exists_bindParameters_iff {template : Str} {parameters : List Value} :
    (∃ text, bindParameters template parameters = .ok text) ↔
      parameters.length = template.count (byte '?') := by
  induction template generalizing parameters with
  | nil =>
    cases parameters with
    | nil => exact iff_of_true ⟨[], rfl⟩ rfl
    | cons parameter parameters => exact iff_of_false (by rintro ⟨_, ⟨⟩⟩) (by simp)
  | cons ch template ih =>
    by_cases hch : ch = byte '?'
    · subst hch
      rw [List.count_cons_self]
      cases parameters with
      | nil => exact iff_of_false (by rintro ⟨_, ⟨⟩⟩) (by simp)
      | cons parameter parameters =>
        simp only [bindParameters_question_eq_ok, List.length_cons, Nat.add_right_cancel_iff, ← ih]
        exact ⟨fun ⟨_, bound, hbound, _⟩ => ⟨bound, hbound⟩,
          fun ⟨bound, hbound⟩ => ⟨_, bound, hbound, rfl⟩⟩
    · rw [List.count_cons_of_ne hch, ← ih]
      simp only [bindParameters_cons_eq_ok hch]
      exact ⟨fun ⟨_, bound, hbound, _⟩ => ⟨bound, hbound⟩,
        fun ⟨bound, hbound⟩ => ⟨_, bound, hbound, rfl⟩⟩

theorem OutsideLiterals.of_append {front tokens : List TemplateToken}
    (h : OutsideLiterals (front ++ tokens)) : OutsideLiterals tokens :=
  fun lexeme hmem => h lexeme (List.mem_append_right _ hmem)

/-- Every question mark of the template is a placeholder. -/
theorem count_placeholder {fuel : ℕ} {template : Str} {tokens : List TemplateToken}
    (h : tokenizeTemplateFrom fuel template = .ok tokens) (houtside : OutsideLiterals tokens) :
    tokens.count .placeholder = template.count (byte '?') := by
  induction fuel generalizing template tokens with
  | zero => cases h
  | succ fuel ih =>
    rcases piece_of_template h houtside with ⟨rfl, rfl⟩ | ⟨rest, found, rfl, hfound, rfl⟩ |
      ⟨piece, rest, emitted, found, rfl, hpiece, hfound, rfl⟩
    · rfl
    · have hrest : OutsideLiterals ([.placeholder] ++ found) := houtside
      rw [List.count_cons_self, List.count_cons_self, ih hfound hrest.of_append]
    · have hno : TemplateToken.placeholder ∉ emitted.map TemplateToken.token := by simp
      rw [List.count_append, List.count_append, List.count_eq_zero_of_not_mem hno,
        List.count_eq_zero_of_not_mem hpiece.unmarked, ih hfound houtside.of_append]

theorem fillIn_map_token (emitted : List Token) (tokens : List TemplateToken)
    (literals : List Token) :
    fillIn (emitted.map .token ++ tokens) literals = emitted ++ fillIn tokens literals := by
  induction emitted with
  | nil => rfl
  | cons token emitted ih => exact congrArg (token :: ·) ih

theorem not_isIdentifierPart_of_isDelimiter : ∀ ch : Byte, isDelimiter ch = true →
    isIdentifierPart ch = false ∧ ch ≠ byte '?' := by decide +kernel

/-- **The tokens of a bound text**: a token for each parameter, where the placeholders are. -/
theorem tokenize_bound {fuel : ℕ} {previous : Option Byte} {template text : Str}
    {tokens : List TemplateToken} {parameters : List Value}
    (h : tokenizeTemplateFrom fuel template = .ok tokens) (houtside : OutsideLiterals tokens)
    (hisolated : Isolated previous template)
    (hvalues : ∀ value ∈ parameters, value.Printable)
    (hbind : bindParameters template parameters = .ok text) :
    tokenize text = .ok (fillIn tokens (parameters.map valueToken)) := by
  induction fuel generalizing previous template text tokens parameters with
  | zero => cases h
  | succ fuel ih =>
    rcases piece_of_template h houtside with ⟨rfl, rfl⟩ | ⟨rest, found, rfl, hfound, rfl⟩ |
      ⟨piece, rest, emitted, found, rfl, hpiece, hfound, rfl⟩
    · rw [(bindParameters_nil_eq_ok hbind).2]
      rfl
    · -- a literal ends at the delimiter behind its question mark
      have hrest : OutsideLiterals ([.placeholder] ++ found) := houtside
      obtain ⟨hmark, hbehind⟩ := hisolated
      cases parameters with
      | nil => cases hbind
      | cons parameter parameters =>
        rw [List.forall_mem_cons] at hvalues
        obtain ⟨bound, hbound, rfl⟩ := bindParameters_question_eq_ok.1 hbind
        have hdelimiter {c : Byte} (hc : rest.head? = some c) :=
          not_isIdentifierPart_of_isDelimiter c ((hmark rfl).2 c hc)
        have hhead : bound.head? = rest.head? :=
          head?_of_bindParameters hbound fun hc => (hdelimiter hc).2 rfl
        have hstops : Stops bound := fun c hc => (hdelimiter (hhead ▸ hc)).1
        rw [lexes_sqlLiteral hvalues.1 bound hstops,
          ih hfound hrest.of_append hbehind hvalues.2 hbound]
        rfl
    · obtain ⟨bound, hbound, rfl⟩ := (bindParameters_append_eq_ok hpiece.unmarked).1 hbind
      have hbehind := hisolated.append hpiece.ne_nil
      -- a placeholder behind the piece stands behind a delimiter
      have hend : Delimited piece.getLast? ∨ bound.head? = rest.head? := by
        by_cases hrest : rest.head? = some (byte '?')
        · obtain ⟨behind, rfl⟩ := List.head?_eq_some_iff.1 hrest
          exact .inl (hbehind.1 rfl).1
        · exact .inr (head?_of_bindParameters hbound hrest)
      rw [hpiece.tokenize_eq bound hend, ih hfound houtside.of_append hbehind hvalues hbound,
        fillIn_map_token]
      rfl

namespace QueryExecutor

variable {s : QueryExecutor} {name template : Str} {tokens : List TemplateToken}

/-- **Binding is exact** for question marks between delimiters: the bound text has the tokens of the
template, with a literal for each placeholder from which the parser reads the parameter. -/
theorem binds_exactly (hprepared : s.preparedStatements.find? name = some template)
    (htokens : tokenizeTemplate template = .ok tokens) (houtside : OutsideLiterals tokens)
    (hisolated : Isolated none template) {parameters : List Value}
    (hvalues : ∀ value ∈ parameters, value.NoDouble) :
    (parameters.length = tokens.count .placeholder → ∃ text literals,
      s.bindPreparedSql ⟨name, parameters⟩ = .ok text ∧
      tokenize text = .ok (fillIn tokens literals) ∧
      List.Forall₂ (fun literal value => ∀ rest,
        Parser.parseValue (literal :: rest) = .ok (value, rest)) literals parameters) ∧
    (parameters.length ≠ tokens.count .placeholder →
      ∃ e, s.bindPreparedSql ⟨name, parameters⟩ = .error e) := by
  have hcount : tokens.count .placeholder = template.count (byte '?') :=
    count_placeholder htokens houtside
  rw [bindPreparedSql_eq hprepared, hcount]
  refine ⟨fun hlength => ?_, fun hlength => ?_⟩
  · obtain ⟨text, hbind⟩ := exists_bindParameters_iff.2 hlength
    have hprintable : ∀ value ∈ parameters, value.Printable :=
      fun value hmem => (hvalues value hmem).printable
    refine ⟨text, _, hbind,
      tokenize_bound htokens houtside hisolated hprintable hbind, ?_⟩
    rw [List.forall₂_map_left_iff, List.forall₂_same]
    exact fun value hmem => Parser.reads_parseValue (hprintable value hmem)
  · match hbind : bindParameters template parameters with
    | .error e => exact ⟨e, rfl⟩
    | .ok text => exact absurd (exists_bindParameters_iff.1 ⟨text, hbind⟩) hlength

/-- `UPDATE t SET a = ? WHERE b = ?;`. -/
def updateTokens : List TemplateToken :=
  [.token (word "UPDATE"), .token (nameToken (bytes "t")), .token (word "SET"),
    .token (nameToken (bytes "a")), .token (symbol .equal '='), .placeholder,
    .token (word "WHERE"), .token (nameToken (bytes "b")), .token (symbol .equal '='),
    .placeholder, .token (symbol .semicolon ';'), .token ⟨.end, []⟩]

/-- A negative number, and a string with a quote, a question mark and a backslash. -/
theorem binds_exactly_preparedUpdate : ∃ text literals,
    preparedUpdate.bindPreparedSql
      ⟨bytes "q", [.int ⟨-1, by decide⟩, .string (bytes "\"?\\")]⟩ = .ok text ∧
    tokenize text = .ok (fillIn updateTokens literals) ∧
    List.Forall₂ (fun literal value => ∀ rest,
      Parser.parseValue (literal :: rest) = .ok (value, rest)) literals
      [.int ⟨-1, by decide⟩, .string (bytes "\"?\\")] := by
  have hprepared : preparedUpdate.preparedStatements.find? (bytes "q") =
      some (bytes "UPDATE t SET a = ? WHERE b = ?;") := by decide +kernel
  have htokens : tokenizeTemplate (bytes "UPDATE t SET a = ? WHERE b = ?;") = .ok updateTokens := by
    decide +kernel
  have houtside : OutsideLiterals updateTokens := by
    intro lexeme hmem
    simp [updateTokens, word, nameToken, symbol] at hmem
  exact (binds_exactly hprepared htokens houtside (by decide +kernel) (by decide)).1 rfl

end QueryExecutor

end VertexDB
