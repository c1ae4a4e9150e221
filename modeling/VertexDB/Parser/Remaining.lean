import VertexDB.Parser.Lexing
import VertexDB.Parser.Parser

/-!
# What a parsing function leaves

A parsing function drops tokens from the left and leaves the rest, whatever it returns (`Drops`).
So an invariant of tokens that holds of every suffix is kept by parsing, and the clause that a
SELECT ends with stands right before what is left: `limitLiteral_of_parse` finds the literal of
`LIMIT` in the text.
-/

namespace VertexDB

open Ascii Tokenizer Failure

namespace Parser

variable {α β : Type} {p : Parser α} {f : α → Parser β}

/-- What the parsing function leaves is a suffix of the tokens that it starts from. -/
def Drops (p : Parser α) : Prop := ∀ tokens, Ensures (· <:+ tokens) p fun _ => True

theorem Drops.suffix (h : Drops p) {tokens rest : List Token} {a : α}
    (hp : p tokens = .ok (a, rest)) : rest <:+ tokens :=
  (h tokens tokens a rest List.suffix_rfl hp).2

/-- What holds of every suffix is kept. -/
theorem Drops.keeps (h : Drops p) {inv : List Token → Prop}
    (hinv : ∀ {tokens rest}, rest <:+ tokens → inv tokens → inv rest) :
    Ensures inv p fun _ => True :=
  fun _ _ _ hs hp => ⟨trivial, hinv (h.suffix hp) hs⟩

theorem drops_pure (a : α) : Drops (pure a) := fun _ => ensures_pure trivial

theorem drops_throw (e : Exception) : Drops (throw e : Parser α) := fun _ => ensures_throw e

theorem drops_lift (r : Except Exception α) : Drops (liftM r : Parser α) :=
  fun _ => ensures_lift fun _ _ => trivial

theorem Drops.bind (h : Drops p) (hf : ∀ a, Drops (f a)) : Drops (p >>= f) :=
  fun tokens => (h tokens).bind fun a _ => hf a tokens

theorem drops_get_bind {f : List Token → Parser β} (h : ∀ tokens, Drops (f tokens)) :
    Drops (get >>= f) := fun tokens => ensures_get_bind fun s => h s tokens

theorem drops_ite {c : Prop} [Decidable c] {q : Parser α} (hp : Drops p) (hq : Drops q) :
    Drops (if c then p else q) := fun tokens => ensures_ite (fun _ => hp tokens) fun _ => hq tokens

/-! ### Tokens -/

theorem peek_cons (token : Token) (rest : List Token) :
    peek (token :: rest) = .ok (token, token :: rest) := rfl

theorem advance_cons {token : Token} {rest : List Token}
    (h : token.type ≠ .end) : advance (token :: rest) = .ok (token, rest) := by
  rw [advance, bind_apply_of_eq (peek_cons token rest), if_pos h]
  rfl

theorem advance_end {token : Token} {rest : List Token} (h : token.type = .end) :
    advance (token :: rest) = .ok (token, token :: rest) := by
  rw [advance, bind_apply_of_eq (peek_cons token rest), if_neg (not_not.2 h)]
  rfl

/-- The token is of that type and, unless the lexeme is empty, has that lexeme. -/
def IsMatch (token : Token) (type : TokenType) (lexeme : Str) : Prop :=
  token.type = type ∧ (lexeme = [] ∨ equalsIgnoreCase token.lexeme lexeme = true)

theorem matchToken_of_isMatch {token : Token} {type : TokenType} {lexeme : Str}
    {rest : List Token} (h : IsMatch token type lexeme)
    (hend : type ≠ .end) : matchToken type lexeme (token :: rest) = .ok (true, rest) := by
  obtain ⟨rfl, hlexeme⟩ := h
  have hno : ¬ (lexeme ≠ [] ∧ ¬ equalsIgnoreCase token.lexeme lexeme = true) := by tauto
  rw [matchToken, bind_apply_of_eq (peek_cons token rest), if_neg (not_not.2 rfl),
    if_neg hno, bind_apply_of_eq (advance_cons hend)]
  rfl

theorem matchToken_of_not_isMatch {token : Token} {type : TokenType} {lexeme : Str}
    {rest : List Token} (h : ¬ IsMatch token type lexeme) :
    matchToken type lexeme (token :: rest) = .ok (false, token :: rest) := by
  rw [matchToken, bind_apply_of_eq (peek_cons token rest)]
  split_ifs with htype hlexeme
  · rfl
  · rfl
  · exact absurd ⟨not_not.1 htype, by tauto⟩ h

/-- A number token is a double if it has a point, and otherwise an integer. -/
theorem parseValue_number (lexeme : Str) (following : List Token) :
    parseValue (⟨.number, lexeme⟩ :: following) =
      if byte '.' ∈ lexeme then (stod lexeme).map fun d => (.double d, following)
      else (parseInt lexeme).map fun i => (.int i, following) := by
  rw [parseValue, bind_apply_of_eq (advance_cons (by rintro ⟨⟩))]
  rw [if_neg (by rintro ⟨⟨⟩, -⟩), if_neg (by rintro ⟨⟩), if_pos rfl]
  by_cases hpoint : byte '.' ∈ lexeme
  · rw [if_pos hpoint, if_pos hpoint]
    cases stod lexeme <;> rfl
  · rw [if_neg hpoint, if_neg hpoint]
    cases parseInt lexeme <;> rfl

theorem drops_peek : Drops peek := by
  rintro tokens (_ | ⟨token, rest⟩) _ _ hs h
  · cases h
  · cases h; exact ⟨trivial, hs⟩

theorem drops_tail : Drops (modify List.tail) := by
  rintro tokens s _ _ hs ⟨⟩
  exact ⟨trivial, (List.tail_suffix s).trans hs⟩

theorem drops_advance : Drops advance :=
  drops_peek.bind fun token => drops_ite (drops_tail.bind fun _ => drops_pure token)
    (drops_pure token)

theorem drops_matchToken (type : TokenType) (lexeme : Str) : Drops (matchToken type lexeme) :=
  drops_peek.bind fun _ => drops_ite (drops_pure _) <| drops_ite (drops_pure _) <|
    drops_advance.bind fun _ => drops_pure _

theorem drops_expect (type : TokenType) (lexeme : Str) : Drops (expect type lexeme) :=
  (drops_matchToken type lexeme).bind fun _ => drops_ite (drops_throw _) (drops_pure _)

theorem drops_identifier (message : String) : Drops (identifier message) :=
  drops_advance.bind fun _ => drops_ite (drops_throw _) (drops_pure _)

/-- A keyword that may be there. -/
theorem drops_keyword {w : String} {f : Bool → Parser β} (h : ∀ found, Drops (f found)) :
    Drops (keyword w >>= f) := (drops_matchToken _ _).bind h

/-! ### Lists and predicates -/

theorem drops_commaLoop {item : Parser α} (h : Drops item) (fuel : ℕ) :
    Drops (commaLoop item fuel) := by
  induction fuel with
  | zero => exact drops_throw _
  | succ fuel ih =>
    rw [commaLoop]
    exact h.bind fun x => (drops_matchToken _ _).bind fun more =>
      drops_ite (ih.bind fun _ => drops_pure _) (drops_pure _)

theorem drops_commaSeparated {item : Parser α} (h : Drops item) : Drops (commaSeparated item) :=
  drops_get_bind fun _ => drops_commaLoop h _

theorem drops_parseValue : Drops parseValue :=
  drops_advance.bind fun _ => drops_ite (drops_pure _) <| drops_ite (drops_pure _) <|
    drops_ite (drops_ite ((drops_lift _).bind fun _ => drops_pure _)
      ((drops_lift _).bind fun _ => drops_pure _)) (drops_throw _)

theorem drops_parseOperator : Drops parseOperator :=
  (drops_matchToken _ _).bind fun _ => drops_ite (drops_pure _) <|
    (drops_matchToken _ _).bind fun _ => drops_ite (drops_pure _) <|
      (drops_matchToken _ _).bind fun _ => drops_ite (drops_pure _) (drops_throw _)

theorem drops_parsePrimaryPredicate {nested : Parser Predicate} (h : Drops nested) :
    Drops (parsePrimaryPredicate nested) :=
  (drops_matchToken _ _).bind fun _ => drops_ite
    (h.bind fun _ => (drops_expect _ _).bind fun _ => drops_pure _)
    ((drops_identifier _).bind fun _ => drops_parseOperator.bind fun _ =>
      drops_parseValue.bind fun _ => drops_pure _)

theorem drops_connective {w : String} {node : Predicate → Predicate → Predicate}
    {operand : Parser Predicate} (h : Drops operand) : Drops (connective w node operand) := by
  have hloop (fuel : ℕ) (predicate : Predicate) :
      Drops (connectiveLoop w node operand fuel predicate) := by
    induction fuel generalizing predicate with
    | zero => exact drops_throw _
    | succ fuel ih =>
      rw [connectiveLoop]
      exact drops_keyword fun _ => drops_ite (h.bind fun _ => ih _) (drops_pure _)
  exact h.bind fun predicate => drops_get_bind fun _ => hloop _ predicate

theorem drops_parsePredicateTo (depth : ℕ) : Drops (parsePredicateTo depth) := by
  induction depth with
  | zero => exact drops_throw _
  | succ depth ih =>
    exact drops_connective (drops_connective (drops_parsePrimaryPredicate ih))

theorem drops_parseWhere : Drops parseWhere :=
  drops_keyword fun _ => drops_ite
    ((drops_get_bind fun _ => drops_parsePredicateTo _).bind fun _ => drops_pure _) (drops_pure _)

/-! ### The clauses of a SELECT -/

theorem drops_parseSelectColumns : Drops parseSelectColumns :=
  (drops_matchToken _ _).bind fun _ => drops_ite (drops_pure _)
    (drops_commaSeparated (drops_identifier _))

theorem drops_parseJoin : Drops parseJoin :=
  drops_keyword fun _ => drops_ite ((drops_identifier _).bind fun _ =>
    (drops_expect _ _).bind fun _ => (drops_identifier _).bind fun _ =>
      (drops_expect _ _).bind fun _ => (drops_identifier _).bind fun _ => drops_pure _)
    (drops_pure _)

theorem drops_parseOrderBy : Drops parseOrderBy := by
  have hascending : Drops parseAscending := drops_keyword fun _ =>
    drops_ite (drops_pure _) (drops_keyword fun _ => drops_pure _)
  exact drops_keyword fun _ => drops_ite ((drops_expect _ _).bind fun _ =>
    (drops_identifier _).bind fun _ => hascending.bind fun _ => drops_pure _) (drops_pure _)

theorem drops_parseLimit : Drops parseLimit :=
  drops_keyword fun _ => drops_ite (drops_advance.bind fun _ => drops_ite (drops_throw _)
    ((drops_lift _).bind fun _ => drops_pure _)) (drops_pure _)

theorem drops_parseSelect : Drops parseSelect :=
  drops_parseSelectColumns.bind fun _ => (drops_expect _ _).bind fun _ =>
    (drops_identifier _).bind fun _ => drops_parseJoin.bind fun _ => drops_parseWhere.bind fun _ =>
      drops_parseOrderBy.bind fun _ => drops_parseLimit.bind fun _ => drops_pure _

/-! ### The literal of LIMIT -/

/-- The end of a statement, with or without a semicolon. -/
def EndsStatement (tokens : List Token) : Prop :=
  tokens = [⟨.end, []⟩] ∨ ∃ lexeme, tokens = [⟨.semicolon, lexeme⟩, ⟨.end, []⟩]

/-- The text ends in a `LIMIT` clause with the integer literal `k`. -/
def LimitLiteral (sql : Str) (k : I64) : Prop :=
  ∃ before word literal ending, tokenize sql =
      .ok (before ++ ⟨.identifier, word⟩ :: ⟨.number, literal⟩ :: ending) ∧
    equalsIgnoreCase word (bytes "LIMIT") = true ∧ parseInt literal = .ok k ∧ EndsStatement ending

theorem EndsStatement.literal_eq {before before' ending ending' : List Token}
    {word word' literal literal' : Str} (h : EndsStatement ending) (h' : EndsStatement ending')
    (heq : before ++ ⟨.identifier, word⟩ :: ⟨.number, literal⟩ :: ending =
      before' ++ ⟨.identifier, word'⟩ :: ⟨.number, literal'⟩ :: ending') : literal = literal' := by
  have hreverse := congrArg List.reverse heq
  rcases h with rfl | ⟨lexeme, rfl⟩ <;> rcases h' with rfl | ⟨lexeme', rfl⟩ <;>
    simp at hreverse
  · exact hreverse.1
  · exact hreverse.2.1

/-- A text has one literal after `LIMIT` at most. -/
theorem LimitLiteral.unique {sql : Str} {k k' : I64} (h : LimitLiteral sql k)
    (h' : LimitLiteral sql k') : k = k' := by
  obtain ⟨before, word, literal, ending, htokens, -, hk, hending⟩ := h
  obtain ⟨before', word', literal', ending', htokens', -, hk', hending'⟩ := h'
  rw [htokens] at htokens'
  cases hending.literal_eq hending' (Except.ok.inj htokens')
  rw [hk] at hk'
  exact Except.ok.inj hk'

theorem symbolType_ne_end {ch : Byte} {type : TokenType} (h : symbolType ch = some type) :
    type ≠ .end := by
  rintro rfl
  unfold symbolType at h
  split_ifs at h <;> cases h

/-- The only end token is the last token. -/
theorem tokenizeFrom_end {fuel : ℕ} {text : Str} {tokens : List Token}
    (h : tokenizeFrom fuel text = .ok tokens) :
    ∃ before, tokens = before ++ [⟨.end, []⟩] ∧ ∀ token ∈ before, token.type ≠ .end := by
  -- a token in front of the others is no end token
  have hcons {token : Token} {tokens : List Token} (htoken : token.type ≠ .end)
      (htokens : ∃ before, tokens = before ++ [⟨.end, []⟩] ∧
        ∀ token ∈ before, token.type ≠ .end) :
      ∃ before, token :: tokens = before ++ [⟨.end, []⟩] ∧ ∀ token ∈ before, token.type ≠ .end := by
    obtain ⟨before, rfl, hbefore⟩ := htokens
    exact ⟨token :: before, rfl, List.forall_mem_cons.2 ⟨htoken, hbefore⟩⟩
  induction fuel generalizing text tokens with
  | zero => cases h
  | succ fuel ih =>
    cases text with
    | nil => cases h; exact ⟨[], rfl, fun _ hmem => absurd hmem List.not_mem_nil⟩
    | cons ch rest =>
      simp only [tokenizeFrom] at h
      split_ifs at h with hspace hstart hdigit hquote
      · exact ih h
      · obtain ⟨found, hfound, h⟩ := bind_eq_ok_iff.1 h
        cases h
        exact hcons (by rintro ⟨⟩) (ih hfound)
      · obtain ⟨found, hfound, h⟩ := bind_eq_ok_iff.1 h
        cases h
        exact hcons (by rintro ⟨⟩) (ih hfound)
      · obtain ⟨⟨value, rest⟩, -, h⟩ := bind_eq_ok_iff.1 h
        obtain ⟨found, hfound, h⟩ := bind_eq_ok_iff.1 h
        cases h
        exact hcons (by rintro ⟨⟩) (ih hfound)
      · cases hsymbol : symbolType ch with
        | none => rw [hsymbol] at h; cases h
        | some type =>
          rw [hsymbol] at h
          obtain ⟨found, hfound, h⟩ := bind_eq_ok_iff.1 h
          cases h
          exact hcons (symbolType_ne_end hsymbol) (ih hfound)

/-- The tokens of a text from an end token on. -/
theorem eq_end_of_suffix {text : Str} {tokens : List Token} (h : tokenize text = .ok tokens)
    {token : Token} {rest : List Token} (hsuffix : token :: rest <:+ tokens)
    (htype : token.type = .end) : token :: rest = [⟨.end, []⟩] := by
  obtain ⟨before, rfl, hbefore⟩ := tokenizeFrom_end h
  obtain ⟨front, hfront⟩ := hsuffix
  rcases List.append_eq_append_iff.1 hfront with ⟨middle, rfl, hmiddle⟩ | ⟨middle, rfl, hmiddle⟩
  · cases middle with
    | nil => exact hmiddle
    | cons first middle =>
      cases hmiddle
      exact absurd htype (hbefore _ (by simp))
  · rcases List.append_eq_singleton_iff.1 hmiddle.symm with ⟨-, h⟩ | ⟨-, h⟩
    · exact h
    · cases h

theorem matchToken_ok {type : TokenType} {lexeme : Str} {tokens rest : List Token} {found : Bool}
    (hend : type ≠ .end) (h : matchToken type lexeme tokens = .ok (found, rest)) :
    (∃ token, found = true ∧ IsMatch token type lexeme ∧ tokens = token :: rest) ∨
      found = false ∧ rest = tokens := by
  cases tokens with
  | nil => cases h
  | cons token tail =>
    by_cases hmatch : IsMatch token type lexeme
    · rw [matchToken_of_isMatch hmatch hend] at h
      cases h
      exact .inl ⟨token, rfl, hmatch, rfl⟩
    · rw [matchToken_of_not_isMatch hmatch] at h
      cases h
      exact .inr ⟨rfl, rfl⟩

theorem advance_ok {tokens rest : List Token} {token : Token} (htype : token.type ≠ .end)
    (h : advance tokens = .ok (token, rest)) : tokens = token :: rest := by
  cases tokens with
  | nil => cases h
  | cons first tail =>
    by_cases hfirst : first.type = .end
    · rw [advance_end hfirst] at h
      cases h
      exact absurd hfirst htype
    · rw [advance_cons hfirst] at h
      cases h
      rfl

/-- A token that has to be of one type is what is read. -/
theorem ofType_ok {α : Type} {type : TokenType} (hend : type ≠ .end) {message : String}
    {f : Token → Parser α} {tokens rest : List Token} {a : α}
    (h : (advance >>= fun token =>
      if token.type ≠ type then throw (.runtimeError message) else f token) tokens =
        .ok (a, rest)) :
    ∃ lexeme mid, tokens = ⟨type, lexeme⟩ :: mid ∧ f ⟨type, lexeme⟩ mid = .ok (a, rest) := by
  obtain ⟨⟨found, lexeme⟩, mid, hadvance, hbranch⟩ := bind_apply_eq_ok_iff.1 h
  split_ifs at hbranch with htype
  · cases hbranch
  obtain rfl : found = type := not_not.1 htype
  exact ⟨lexeme, mid, advance_ok hend hadvance, hbranch⟩

/-- The clause stands right before what is left. -/
theorem parseLimit_some {tokens rest : List Token} {n : ℕ}
    (h : parseLimit tokens = .ok (some n, rest)) :
    ∃ word literal k, tokens = ⟨.identifier, word⟩ :: ⟨.number, literal⟩ :: rest ∧
      equalsIgnoreCase word (bytes "LIMIT") = true ∧ parseInt literal = .ok k ∧ n = k.toBits := by
  obtain ⟨found, left, hword, hclause⟩ := bind_apply_eq_ok_iff.1 h
  clear h
  rcases matchToken_ok (by decide) hword with ⟨word, rfl, ⟨hidentifier, hlimit⟩, rfl⟩ | ⟨rfl, -⟩
  swap
  · cases hclause
  obtain ⟨text, left, rfl, hcount⟩ := ofType_ok (by decide) hclause
  clear hclause
  obtain ⟨word, lexeme⟩ := word
  cases hidentifier
  obtain ⟨k, left', hk, hcount⟩ := bind_apply_eq_ok_iff.1 hcount
  cases hint : parseInt text with
  | error e => simp only [hint] at hk; cases hk
  | ok k' =>
    simp only [hint] at hk
    cases hk
    cases hcount
    exact ⟨lexeme, text, k, rfl, hlimit.resolve_left (by decide), hint, rfl⟩

theorem expectStatementEnd_ok {tokens rest : List Token}
    (h : expectStatementEnd tokens = .ok ((), rest)) :
    ∃ token tail, token.type = .end ∧
      (tokens = token :: tail ∨ ∃ lexeme, tokens = ⟨.semicolon, lexeme⟩ :: token :: tail) := by
  obtain ⟨found, left, hsemicolon, hend⟩ := bind_apply_eq_ok_iff.1 h
  obtain ⟨token, left', hpeek, hthrow⟩ := bind_apply_eq_ok_iff.1 hend
  clear h hend
  split_ifs at hthrow with htype
  · cases hthrow
  rw [not_not] at htype
  cases left with
  | nil => cases hpeek
  | cons first tail =>
    cases hpeek
    refine ⟨token, tail, htype, ?_⟩
    rcases matchToken_ok (by decide) hsemicolon with ⟨⟨type, lexeme⟩, -, ⟨htype, -⟩, rfl⟩ | ⟨-, rfl⟩
    · cases htype
      exact .inr ⟨lexeme, rfl⟩
    · exact .inl rfl

/-! ### A command is a SELECT -/

/-- The parsing function never returns a SELECT. -/
def NoSelect (p : Parser Query) : Prop :=
  ∀ tokens command rest, p tokens ≠ .ok (.select command, rest)

/-- The parsing function returns a SELECT only from `parseSelect`. -/
def ReadsSelect (p : Parser Query) : Prop :=
  ∀ tokens command rest, p tokens = .ok (.select command, rest) →
    ∃ left, left <:+ tokens ∧ parseSelect left = .ok (command, rest)

theorem noSelect_pure {query : Query} (h : ∀ command, query ≠ .select command := by simp) :
    NoSelect (pure query) := by
  rintro tokens command rest hok
  cases hok
  exact h command rfl

theorem noSelect_bind {g : α → Parser Query} (h : ∀ a, NoSelect (g a)) : NoSelect (p >>= g) := by
  intro tokens command rest hok
  obtain ⟨a, left, -, hg⟩ := bind_apply_eq_ok_iff.1 hok
  exact h a left command rest hg

theorem noSelect_ite {c : Prop} [Decidable c] {p q : Parser Query} (hp : NoSelect p)
    (hq : NoSelect q) : NoSelect (if c then p else q) := by
  by_cases h : c
  · rw [if_pos h]; exact hp
  · rw [if_neg h]; exact hq

theorem NoSelect.readsSelect {p : Parser Query} (h : NoSelect p) : ReadsSelect p :=
  fun tokens command rest hok => absurd hok (h tokens command rest)

theorem readsSelect_keyword {w : String} {p q : Parser Query} (hp : ReadsSelect p)
    (hq : ReadsSelect q) :
    ReadsSelect (keyword w >>= fun found => if found = true then p else q) := by
  intro tokens command rest hok
  obtain ⟨found, left, hword, hbranch⟩ := bind_apply_eq_ok_iff.1 hok
  have hleft := (drops_matchToken _ _).suffix hword
  have hfound : ∃ left', left' <:+ left ∧ parseSelect left' = .ok (command, rest) := by
    cases found with
    | true => exact hp left command rest hbranch
    | false => exact hq left command rest hbranch
  obtain ⟨left', hleft', hparse⟩ := hfound
  exact ⟨left', hleft'.trans hleft, hparse⟩

/-- The keyword of another command. -/
theorem readsSelect_other {w : String} {g : α → Query} {q : Parser Query}
    (hq : ReadsSelect q) (hg : ∀ a command, g a ≠ .select command := by simp) :
    ReadsSelect (keyword w >>= fun found =>
      if found = true then (p >>= fun a => pure (g a)) else q) :=
  readsSelect_keyword (noSelect_bind fun a => noSelect_pure (hg a)).readsSelect hq

theorem readsSelect_parseCommand : ReadsSelect parseCommand := by
  have hcreate : NoSelect parseCreate := by
    refine noSelect_bind fun _ => noSelect_ite (noSelect_bind fun _ => noSelect_pure) ?_
    refine noSelect_bind fun _ => noSelect_ite (noSelect_bind fun _ => noSelect_pure) ?_
    refine noSelect_bind fun _ => noSelect_ite (noSelect_bind fun _ => noSelect_pure) ?_
    rintro _ _ _ ⟨⟩
  refine readsSelect_keyword hcreate.readsSelect ?_
  refine readsSelect_other <| readsSelect_other <| readsSelect_other <| readsSelect_other ?_
  refine readsSelect_keyword ?_ ?_
  · intro tokens command rest hok
    obtain ⟨command', rest', hparse, hreturn⟩ := bind_apply_eq_ok_iff.1 hok
    cases hreturn
    exact ⟨tokens, List.suffix_rfl, hparse⟩
  refine readsSelect_other <| readsSelect_other <| readsSelect_other ?_
  refine readsSelect_keyword (noSelect_bind fun _ => noSelect_bind fun _ =>
    noSelect_pure).readsSelect ?_
  refine readsSelect_keyword (noSelect_pure).readsSelect ?_
  refine readsSelect_keyword (noSelect_pure).readsSelect ?_
  refine readsSelect_keyword (noSelect_pure).readsSelect ?_
  refine readsSelect_other <| readsSelect_other ?_
  refine readsSelect_keyword (noSelect_pure).readsSelect ?_
  rintro _ _ _ ⟨⟩

theorem parseSelect_limit {tokens rest : List Token} {command : Select} {n : ℕ}
    (h : parseSelect tokens = .ok (command, rest)) (hlimit : command.limit = some n) :
    ∃ left, left <:+ tokens ∧ parseLimit left = .ok (some n, rest) := by
  obtain ⟨columns, left₁, hcolumns, h₁⟩ := bind_apply_eq_ok_iff.1 h
  obtain ⟨_, left₂, hfrom, h₂⟩ := bind_apply_eq_ok_iff.1 h₁
  obtain ⟨table, left₃, htable, h₃⟩ := bind_apply_eq_ok_iff.1 h₂
  obtain ⟨join, left₄, hjoin, h₄⟩ := bind_apply_eq_ok_iff.1 h₃
  obtain ⟨where_, left₅, hwhere, h₅⟩ := bind_apply_eq_ok_iff.1 h₄
  obtain ⟨orderBy, left₆, horder, h₆⟩ := bind_apply_eq_ok_iff.1 h₅
  obtain ⟨limit, left₇, hcount, hreturn⟩ := bind_apply_eq_ok_iff.1 h₆
  cases hreturn
  cases hlimit
  exact ⟨left₆, (drops_parseOrderBy.suffix horder).trans <|
    (drops_parseWhere.suffix hwhere).trans <|
    (drops_parseJoin.suffix hjoin).trans <| ((drops_identifier _).suffix htable).trans <|
    ((drops_expect _ _).suffix hfrom).trans (drops_parseSelectColumns.suffix hcolumns), hcount⟩

/-- **The limit of a parsed SELECT is the literal of its text**, cast to an unsigned size. -/
theorem limitLiteral_of_parse {sql : Str} {command : Select} {n : ℕ}
    (h : parse sql = .ok (.select command)) (hlimit : command.limit = some n) :
    ∃ k, LimitLiteral sql k ∧ n = k.toBits := by
  obtain ⟨tokens, htokens, hparse⟩ := bind_eq_ok_iff.1 h
  obtain ⟨⟨query, rest⟩, hstatement, hreturn⟩ := bind_eq_ok_iff.1 hparse
  cases hreturn
  obtain ⟨query', rest', hcommand, hend⟩ := bind_apply_eq_ok_iff.1 hstatement
  obtain ⟨_, rest'', hend, hreturn⟩ := bind_apply_eq_ok_iff.1 hend
  cases hreturn
  obtain ⟨left, hleft, hselect⟩ := readsSelect_parseCommand tokens command rest' hcommand
  obtain ⟨left', hleft', hcount⟩ := parseSelect_limit hselect hlimit
  obtain ⟨word, literal, k, rfl, hword, hk, rfl⟩ := parseLimit_some hcount
  obtain ⟨before, hbefore⟩ := hleft'.trans hleft
  refine ⟨k, ⟨before, word, literal, rest', ?_, hword, hk, ?_⟩, rfl⟩
  · rw [hbefore, htokens]
  have hsuffix : rest' <:+ tokens := ((List.suffix_cons _ _).trans (List.suffix_cons _ _)).trans
    (hleft'.trans hleft)
  obtain ⟨token, tail, htype, rfl | ⟨lexeme, rfl⟩⟩ := expectStatementEnd_ok hend
  · exact .inl (eq_end_of_suffix htokens hsuffix htype)
  · refine .inr ⟨lexeme, ?_⟩
    rw [eq_end_of_suffix htokens ((List.suffix_cons _ _).trans hsuffix) htype]

/-- The limit is determined by the literal. -/
theorem LimitLiteral.limit_eq {sql : Str} {command : Select} {k : I64} {n : ℕ}
    (hk : LimitLiteral sql k) (h : parse sql = .ok (.select command))
    (hlimit : command.limit = some n) : n = k.toBits := by
  obtain ⟨k', hk', rfl⟩ := limitLiteral_of_parse h hlimit
  rw [hk.unique hk']

end Parser

end VertexDB
