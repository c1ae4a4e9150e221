import VertexDB.Lib.Progress
import VertexDB.Parser.Remaining

/-!
# The parser comes to an end

`Parser::advance` does not move at the end token, so what makes the loops of the parser stop is that
they take a token wherever they go on.  Each parsing function keeps to one discipline: it stands at
the end token or before it, takes neither the end token nor a semicolon, never reads past the end of
the tokens and never uses up a bound (`Advances`).  The bounds of the model are therefore no bounds
of the source: with them the functions satisfy the equations of the source, which have none.
-/

namespace VertexDB

open Ascii Tokenizer Failure Progress

namespace Parser

/-- What `peek` throws behind the last token. -/
def pastEnd : Exception := .runtimeError "parser read past end of token stream"

/-- The tokens end with an end token, which is the only one. -/
def Ended (tokens : List Token) : Prop :=
  ∃ before, tokens = before ++ [⟨.end, []⟩] ∧ ∀ token ∈ before, token.type ≠ .end

theorem Ended.tail {token : Token} {rest : List Token} (htype : token.type ≠ .end)
    (h : Ended (token :: rest)) : Ended rest := by
  obtain ⟨before, heq, hbefore⟩ := h
  match before with
  | [] =>
    cases heq
    exact absurd rfl htype
  | first :: before =>
    cases heq
    exact ⟨before, rfl, (List.forall_mem_cons.1 hbefore).2⟩

/-- What the functions of the parser keep to. -/
def discipline : Discipline Token Exception where
  stands := Ended
  takes token := token.type ≠ .end ∧ token.type ≠ .semicolon
  fault e := e = pastEnd ∨ e = .outOfFuel
  ne_nil_of_stands := by
    rintro _ ⟨before, rfl, -⟩
    simp
  stands_of_takes htakes := Ended.tail htakes.1

/-- From the end token or before it, with at most `n` tokens left, `p` takes at least `k` tokens. -/
abbrev Advances {α : Type} (n k : ℕ) (p : Parser α) : Prop := discipline.Keeps n k p

variable {α β : Type} {n k : ℕ} {p q : Parser α}

theorem not_fault_runtimeError {what : String}
    (h : what ≠ "parser read past end of token stream") :
    ¬ discipline.fault (.runtimeError what) := by
  rintro (h' | h')
  · exact h (Exception.runtimeError.inj h')
  · cases h'

theorem advances_throw {what : String}
    (h : what ≠ "parser read past end of token stream") :
    Advances n k (throw (.runtimeError what) : Parser α) :=
  Discipline.keeps_throw (not_fault_runtimeError h)

/-! ### Tokens -/

/-- A token that the function goes on with, unless it is an end token or a semicolon. -/
theorem advances_advance {f : Token → Parser α} (hf : ∀ token, Advances n 0 (f token))
    (hreject : ∀ token, token.type = .end ∨ token.type = .semicolon →
      ∃ e, ¬ discipline.fault e ∧ f token = throw e) : Advances n 1 (advance >>= f) := by
  refine Discipline.keeps_of_step fun text hended => ?_
  obtain ⟨token, rest, rfl⟩ := List.exists_cons_of_ne_nil (discipline.ne_nil_of_stands hended)
  by_cases htakes : discipline.takes token
  · refine .inl ⟨token, rest, f token, htakes, rfl, bind_apply_of_eq (advance_cons htakes.1), ?_⟩
    exact (hf token).mono (Nat.sub_le _ _) le_rfl
  · obtain ⟨e, hfault, hthrow⟩ := hreject token (by
      by_contra hno
      exact htakes ⟨fun hend => hno (.inl hend), fun hsemicolon => hno (.inr hsemicolon)⟩)
    refine .inr ⟨throw e, ?_, Discipline.keeps_throw hfault⟩
    obtain ⟨left, hadvance⟩ : ∃ left, advance (token :: rest) = .ok (token, left) := by
      by_cases hend : token.type = .end
      · exact ⟨_, advance_end hend⟩
      · exact ⟨_, advance_cons hend⟩
    rw [bind_apply_of_eq hadvance, hthrow]
    rfl

/-- A token that has to be of one type. -/
theorem advances_ofType {type : TokenType} (hend : type ≠ .end) (hsemicolon : type ≠ .semicolon)
    {message : String} (h : message ≠ "parser read past end of token stream")
    {f : Token → Parser α} (hf : ∀ token, Advances n 0 (f token)) :
    Advances n 1 (advance >>= fun token =>
      if token.type ≠ type then throw (.runtimeError message) else f token) := by
  refine advances_advance (fun token => Discipline.keeps_ite (advances_throw h) (hf token)) ?_
  intro token htoken
  refine ⟨_, not_fault_runtimeError h, if_pos fun htype => ?_⟩
  rw [htype] at htoken
  exact htoken.elim hend hsemicolon

theorem advances_identifier {message : String}
    (h : message ≠ "parser read past end of token stream") :
    Advances n 1 (identifier message) :=
  advances_ofType (by decide) (by decide) h fun _ => Discipline.keeps_pure _

/-- A token that may be there. -/
theorem advances_matchToken_bind {type : TokenType} (hend : type ≠ .end)
    (hsemicolon : type ≠ .semicolon) (lexeme : Str) {f : Bool → Parser α}
    (htrue : Advances (n - 1) (k - 1) (f true)) (hfalse : Advances n k (f false)) :
    Advances n k (matchToken type lexeme >>= f) := by
  refine Discipline.keeps_of_step fun text hended => ?_
  obtain ⟨token, rest, rfl⟩ := List.exists_cons_of_ne_nil (discipline.ne_nil_of_stands hended)
  by_cases hmatch : IsMatch token type lexeme
  · have htakes : discipline.takes token := ⟨hmatch.1 ▸ hend, hmatch.1 ▸ hsemicolon⟩
    exact .inl ⟨token, rest, f true, htakes, rfl,
      bind_apply_of_eq (matchToken_of_isMatch hmatch hend), htrue⟩
  · exact .inr ⟨f false, bind_apply_of_eq (matchToken_of_not_isMatch hmatch), hfalse⟩

theorem advances_matchToken {type : TokenType} (hend : type ≠ .end) (hsemicolon : type ≠ .semicolon)
    (lexeme : Str) : Advances n 0 (matchToken type lexeme) := by
  have := advances_matchToken_bind (n := n) hend hsemicolon lexeme
    (Discipline.keeps_pure true) (Discipline.keeps_pure false)
  rwa [bind_pure] at this

theorem advances_expect {type : TokenType} (hend : type ≠ .end) (hsemicolon : type ≠ .semicolon)
    (lexeme : Str) : Advances n 1 (expect type lexeme) :=
  advances_matchToken_bind hend hsemicolon lexeme (Discipline.keeps_pure _)
    (advances_throw (by decide))

theorem advances_expectKeyword (w : String) : Advances n 1 (expectKeyword w) :=
  advances_expect (by decide) (by decide) _

/-- A keyword that may be there. -/
theorem advances_keyword {w : String} {f : Bool → Parser α} (htrue : Advances n 0 (f true))
    (hfalse : Advances n 0 (f false)) : Advances n 0 (keyword w >>= f) :=
  advances_matchToken_bind (by decide) (by decide) _ (htrue.mono (Nat.sub_le _ _) le_rfl) hfalse

/-! ### Loops -/

/-- One iteration of `do item while (match(Comma))`: the item, and whether another one follows. -/
def commaIteration (item : Parser α) : Parser (α × Bool) := do
  let x ← item
  let more ← matchToken .comma []
  return (x, more)

/-- One iteration of `while (match(word))`: the operand, or nothing if the loop ends. -/
def connectiveIteration (w : String) (operand : Parser Predicate) : Parser (Option Predicate) := do
  if ← keyword w then
    let right ← operand
    return some right
  return none

theorem commaLoop_succ (item : Parser α) (fuel : ℕ) :
    commaLoop item (fuel + 1) = commaIteration item >>= fun p =>
      if p.2 = true then commaLoop item fuel >>= fun xs => pure (p.1 :: xs) else pure [p.1] := by
  simp only [commaLoop, commaIteration, bind_assoc, pure_bind]

theorem connectiveLoop_succ (w : String) (node : Predicate → Predicate → Predicate)
    (operand : Parser Predicate) (fuel : ℕ) (predicate : Predicate) :
    connectiveLoop w node operand (fuel + 1) predicate =
      connectiveIteration w operand >>= fun right => match right with
        | some right => connectiveLoop w node operand fuel (node predicate right)
        | none => pure predicate := by
  simp only [connectiveLoop, connectiveIteration, bind_assoc]
  congr 1
  funext found
  cases found with
  | false => rfl
  | true => simp only [if_true, bind_assoc, pure_bind]

theorem advances_commaIteration {item : Parser α} (h : Advances n 1 item) :
    Advances n 1 (commaIteration item) :=
  h.andThen fun _ => (advances_matchToken (by decide) (by decide) _).followed fun _ =>
    Discipline.keeps_pure _

/-- Every level of the loop takes the comma in front of it. -/
theorem advances_commaLoop {item : Parser α} (h : ∀ n, Advances n 1 item) (n : ℕ) :
    Advances n 1 (commaLoop item n) := by
  induction n with
  | zero => exact Discipline.keeps_zero _
  | succ n ih =>
    refine (h (n + 1)).andThen fun x => ?_
    refine advances_matchToken_bind (by decide) (by decide) _ ?_ (Discipline.keeps_pure _)
    exact ih.followed fun _ => Discipline.keeps_pure _

theorem advances_commaSeparated {item : Parser α} (h : ∀ n, Advances n 1 item) :
    Advances n 1 (commaSeparated item) :=
  Discipline.keeps_get_bind fun tokens _ =>
    (advances_commaLoop h (tokens.length + 1)).mono (Nat.le_succ _) le_rfl

/-- Every level of the loop takes the connective in front of it. -/
theorem advances_connectiveLoop {w : String} {node : Predicate → Predicate → Predicate}
    {operand : Parser Predicate} (h : Advances n 1 operand) {m fuel : ℕ} (hm : m ≤ n)
    (hfuel : m ≤ fuel) (predicate : Predicate) :
    Advances m 0 (connectiveLoop w node operand fuel predicate) := by
  induction fuel generalizing m predicate with
  | zero =>
    rw [Nat.le_zero.1 hfuel]
    exact Discipline.keeps_zero _
  | succ fuel ih =>
    refine advances_matchToken_bind (by decide) (by decide) _ ?_ (Discipline.keeps_pure _)
    exact (h.mono (by omega) le_rfl).followed fun right =>
      ih (by omega) (by omega) (node predicate right)

theorem advances_connective {w : String} {node : Predicate → Predicate → Predicate}
    {operand : Parser Predicate} (h : Advances n 1 operand) :
    Advances n 1 (connective w node operand) :=
  h.andThen fun predicate => Discipline.keeps_get_bind fun _ hle =>
    advances_connectiveLoop h hle (Nat.le_succ _) predicate

/-! ### Literals and predicates -/

theorem advances_parseInt (text : Str) : Advances n 0 (liftM (parseInt text) : Parser I64) := by
  refine Discipline.keeps_lift fun e he => ?_
  unfold parseInt at he
  simp only at he
  split_ifs at he <;> cases he <;> exact not_fault_runtimeError (by decide)

theorem advances_stod (text : Str) : Advances n 0 (liftM (stod text) : Parser Binary64) := by
  refine Discipline.keeps_lift fun e he => ?_
  unfold stod at he
  simp only at he
  split_ifs at he
  · cases he
    rintro (⟨⟨⟩⟩ | ⟨⟨⟩⟩)
  · split at he
    · cases he
    · cases he
      rintro (⟨⟨⟩⟩ | ⟨⟨⟩⟩)

theorem advances_parseValue : Advances n 1 parseValue := by
  refine advances_advance (fun token => ?_) fun token htoken => ?_
  · refine Discipline.keeps_ite (Discipline.keeps_pure _) ?_
    refine Discipline.keeps_ite (Discipline.keeps_pure _) ?_
    refine Discipline.keeps_ite (Discipline.keeps_ite ?_ ?_) (advances_throw (by decide))
    · exact (advances_stod _).andThen fun _ => Discipline.keeps_pure _
    · exact (advances_parseInt _).followed fun _ => Discipline.keeps_pure _
  · refine ⟨.runtimeError "expected literal value", not_fault_runtimeError (by decide), ?_⟩
    rcases htoken with htype | htype <;> simp [htype]

theorem advances_parseOperator : Advances n 0 parseOperator := by
  refine advances_matchToken_bind (by decide) (by decide) _ (Discipline.keeps_pure _) ?_
  refine advances_matchToken_bind (by decide) (by decide) _ (Discipline.keeps_pure _) ?_
  exact advances_matchToken_bind (by decide) (by decide) _ (Discipline.keeps_pure _)
    (advances_throw (by decide))

theorem advances_parseComparisonPredicate : Advances n 1 parseComparisonPredicate :=
  (advances_identifier (by decide)).andThen fun _ => advances_parseOperator.followed fun _ =>
    advances_parseValue.followed fun _ => Discipline.keeps_pure _

/-- The nested predicate has one token less left. -/
theorem advances_parsePrimaryPredicate {nested : Parser Predicate} (h : Advances n 1 nested) :
    Advances (n + 1) 1 (parsePrimaryPredicate nested) := by
  refine advances_matchToken_bind (by decide) (by decide) _ ?_ advances_parseComparisonPredicate
  exact h.followed fun _ => (advances_expect (by decide) (by decide) _).followed fun _ =>
    Discipline.keeps_pure _

theorem advances_parsePredicateTo (depth : ℕ) : Advances depth 1 (parsePredicateTo depth) := by
  induction depth with
  | zero => exact Discipline.keeps_zero _
  | succ depth ih =>
    exact advances_connective (advances_connective (advances_parsePrimaryPredicate ih))

theorem advances_parsePredicate : Advances n 1 parsePredicate :=
  Discipline.keeps_get_bind fun tokens _ =>
    (advances_parsePredicateTo (tokens.length + 1)).mono (Nat.le_succ _) le_rfl

theorem advances_parseWhere : Advances n 0 parseWhere :=
  advances_keyword (advances_parsePredicate.followed fun _ => Discipline.keeps_pure _)
    (Discipline.keeps_pure _)

/-! ### Statements -/

theorem advances_parseCreateDatabase : Advances n 1 parseCreateDatabase :=
  (advances_identifier (by decide)).andThen fun _ => Discipline.keeps_pure _

theorem advances_parseColumn : Advances n 1 parseColumn := by
  have hnullable : Advances n 0 parseNullable := advances_keyword
    ((advances_expectKeyword _).followed fun _ => Discipline.keeps_pure _)
    (advances_matchToken (by decide) (by decide) _)
  refine (advances_identifier (by decide)).andThen fun _ =>
    (advances_identifier (by decide)).followed fun typeName => ?_
  match columnTypeFromString typeName with
  | none => exact (advances_throw (by decide))
  | some type => exact hnullable.followed fun _ => Discipline.keeps_pure _

theorem advances_parseCreateTable : Advances n 1 parseCreateTable :=
  (advances_identifier (by decide)).andThen fun _ =>
    (advances_expect (by decide) (by decide) _).followed fun _ =>
      (advances_commaSeparated fun _ => advances_parseColumn).followed fun _ =>
        (advances_expect (by decide) (by decide) _).followed fun _ => Discipline.keeps_pure _

theorem advances_parseDropTable : Advances n 1 parseDropTable :=
  (advances_expectKeyword _).andThen fun _ => (advances_identifier (by decide)).followed fun _ =>
    Discipline.keeps_pure _

theorem advances_parseRenameTable : Advances n 1 parseRenameTable :=
  (advances_expectKeyword _).andThen fun _ => (advances_identifier (by decide)).followed fun _ =>
    (advances_expectKeyword _).followed fun _ => (advances_identifier (by decide)).followed fun _ =>
      Discipline.keeps_pure _

theorem advances_parseCreateIndex : Advances n 1 parseCreateIndex :=
  (advances_identifier (by decide)).andThen fun _ => (advances_expectKeyword _).followed fun _ =>
    (advances_identifier (by decide)).followed fun _ =>
      (advances_expect (by decide) (by decide) _).followed fun _ =>
        (advances_identifier (by decide)).followed fun _ =>
          (advances_expect (by decide) (by decide) _).followed fun _ => Discipline.keeps_pure _

theorem advances_parseTuple : Advances n 1 parseTuple :=
  (advances_expect (by decide) (by decide) _).andThen fun _ =>
    (advances_commaSeparated fun _ => advances_parseValue).followed fun _ =>
      (advances_expect (by decide) (by decide) _).followed fun _ => Discipline.keeps_pure _

theorem advances_parseInsert : Advances n 1 parseInsert :=
  (advances_expectKeyword _).andThen fun _ => (advances_identifier (by decide)).followed fun _ =>
    (advances_expectKeyword _).followed fun _ =>
      (advances_commaSeparated fun _ => advances_parseTuple).followed fun _ =>
        Discipline.keeps_pure _

theorem advances_parseSelectColumns : Advances n 1 parseSelectColumns :=
  advances_matchToken_bind (by decide) (by decide) _ (Discipline.keeps_pure _)
    (advances_commaSeparated fun _ => advances_identifier (by decide))

theorem advances_parseJoin : Advances n 0 parseJoin := by
  refine advances_keyword ?_ (Discipline.keeps_pure _)
  refine (advances_identifier (by decide)).followed fun _ =>
    (advances_expectKeyword _).followed fun _ => ?_
  exact (advances_identifier (by decide)).followed fun _ =>
    (advances_expect (by decide) (by decide) _).followed fun _ =>
      (advances_identifier (by decide)).followed fun _ => Discipline.keeps_pure _

theorem advances_parseOrderBy : Advances n 0 parseOrderBy := by
  have hascending : Advances n 0 parseAscending := advances_keyword (Discipline.keeps_pure _)
    (advances_keyword (Discipline.keeps_pure _) (Discipline.keeps_pure _))
  refine advances_keyword ?_ (Discipline.keeps_pure _)
  exact (advances_expectKeyword _).followed fun _ =>
    (advances_identifier (by decide)).followed fun _ =>
      hascending.followed fun _ => Discipline.keeps_pure _

theorem advances_parseLimit : Advances n 0 parseLimit := by
  refine advances_keyword (Discipline.Keeps.mono (k := 1) ?_ le_rfl (Nat.zero_le _))
    (Discipline.keeps_pure _)
  exact advances_ofType (by decide) (by decide) (by decide) fun _ =>
    (advances_parseInt _).followed fun _ => Discipline.keeps_pure _

theorem advances_parseSelect : Advances n 1 parseSelect := by
  refine advances_parseSelectColumns.andThen fun _ =>
    (advances_expectKeyword _).followed fun _ => ?_
  refine (advances_identifier (by decide)).followed fun _ => advances_parseJoin.followed fun _ => ?_
  refine advances_parseWhere.followed fun _ => advances_parseOrderBy.followed fun _ => ?_
  exact advances_parseLimit.followed fun _ => Discipline.keeps_pure _

theorem advances_parseUpdate : Advances n 1 parseUpdate :=
  (advances_identifier (by decide)).andThen fun _ => (advances_expectKeyword _).followed fun _ =>
    (advances_identifier (by decide)).followed fun _ =>
      (advances_expect (by decide) (by decide) _).followed fun _ =>
        advances_parseValue.followed fun _ => advances_parseWhere.followed fun _ =>
          Discipline.keeps_pure _

theorem advances_parseDelete : Advances n 1 parseDelete :=
  (advances_expectKeyword _).andThen fun _ => (advances_identifier (by decide)).followed fun _ =>
    advances_parseWhere.followed fun _ => Discipline.keeps_pure _

theorem advances_parsePrepare : Advances n 1 parsePrepare := by
  refine (advances_identifier (by decide)).andThen fun _ =>
    (advances_expectKeyword _).followed fun _ => ?_
  refine Discipline.Keeps.mono (k := 1) ?_ le_rfl (Nat.zero_le _)
  exact advances_ofType (by decide) (by decide) (by decide) fun _ => Discipline.keeps_pure _

theorem advances_parseExecutePrepared : Advances n 1 parseExecutePrepared :=
  (advances_identifier (by decide)).andThen fun _ => advances_keyword
    (advances_parseTuple.followed fun _ => Discipline.keeps_pure _) (Discipline.keeps_pure _)

/-- The name is taken only if there is one. -/
theorem advances_parseLoadDatabase : Advances n 0 parseLoadDatabase := by
  refine Discipline.keeps_of_step fun text hended => ?_
  obtain ⟨token, rest, rfl⟩ := List.exists_cons_of_ne_nil (discipline.ne_nil_of_stands hended)
  by_cases htype : token.type = .identifier
  · have hend : token.type ≠ .end := by rw [htype]; decide
    have hsemicolon : token.type ≠ .semicolon := by rw [htype]; decide
    refine .inl ⟨token, rest, pure ⟨some token.lexeme⟩, ⟨hend, hsemicolon⟩, rfl, ?_,
      Discipline.keeps_pure _⟩
    rw [parseLoadDatabase, bind_apply_of_eq (peek_cons token rest), if_pos htype,
      bind_apply_of_eq (advance_cons hend)]
  · refine .inr ⟨pure ⟨none⟩, ?_, Discipline.keeps_pure _⟩
    rw [parseLoadDatabase, bind_apply_of_eq (peek_cons token rest), if_neg htype]

theorem advances_map {g : α → Query} (h : Advances n k p) :
    Advances n 0 (p >>= fun a => pure (g a)) :=
  h.followed fun _ => Discipline.keeps_pure _

theorem advances_parseCreate : Advances n 0 parseCreate := by
  refine advances_keyword (advances_map advances_parseCreateDatabase) ?_
  refine advances_keyword (advances_map advances_parseCreateTable) ?_
  exact advances_keyword (advances_map advances_parseCreateIndex) (advances_throw (by decide))

theorem advances_parseCommand : Advances n 0 parseCommand := by
  refine advances_keyword advances_parseCreate ?_
  refine advances_keyword (advances_map advances_parseDropTable) ?_
  refine advances_keyword (advances_map advances_parseRenameTable) ?_
  refine advances_keyword (advances_map (advances_expectKeyword _)) ?_
  refine advances_keyword (advances_map advances_parseInsert) ?_
  refine advances_keyword (advances_map advances_parseSelect) ?_
  refine advances_keyword (advances_map advances_parseUpdate) ?_
  refine advances_keyword (advances_map advances_parseDelete) ?_
  refine advances_keyword (advances_map (advances_expectKeyword _)) ?_
  refine advances_keyword ((advances_expectKeyword _).followed fun _ =>
    advances_map advances_parseLoadDatabase) ?_
  refine advances_keyword (Discipline.keeps_pure _) ?_
  refine advances_keyword (Discipline.keeps_pure _) ?_
  refine advances_keyword (Discipline.keeps_pure _) ?_
  refine advances_keyword (advances_map advances_parsePrepare) ?_
  refine advances_keyword (advances_map advances_parseExecutePrepared) ?_
  exact advances_keyword (Discipline.keeps_pure _) (advances_throw (by decide))

/-! ### The bounds do not matter -/

/-- The functions do the same from the end token or before it, with at most `n` tokens left. -/
abbrev AgreeTo {α : Type} (n : ℕ) (p q : Parser α) : Prop := discipline.AgreeTo n p q

theorem agreeTo_matchToken_bind {type : TokenType} (hend : type ≠ .end) (lexeme : Str)
    {f g : Bool → Parser α} (htrue : AgreeTo (n - 1) (f true) (g true))
    (hfalse : AgreeTo n (f false) (g false)) :
    AgreeTo n (matchToken type lexeme >>= f) (matchToken type lexeme >>= g) := by
  intro text hended hle
  obtain ⟨token, rest, rfl⟩ := List.exists_cons_of_ne_nil (discipline.ne_nil_of_stands hended)
  by_cases hmatch : IsMatch token type lexeme
  · have htaken : matchToken type lexeme (token :: rest) = .ok (true, rest) :=
      matchToken_of_isMatch hmatch hend
    rw [bind_apply_of_eq htaken, bind_apply_of_eq htaken]
    have htype : token.type ≠ .end := hmatch.1 ▸ hend
    exact htrue rest (hended.tail htype) (Nat.le_sub_one_of_lt hle)
  · have hleft : matchToken type lexeme (token :: rest) = .ok (false, token :: rest) :=
      matchToken_of_not_isMatch hmatch
    rw [bind_apply_of_eq hleft, bind_apply_of_eq hleft]
    exact hfalse _ hended hle

theorem agreeTo_commaLoop {item : Parser α} (h : ∀ n, Advances n 1 item) {fuel fuel' : ℕ}
    (hfuel : n ≤ fuel) (hfuel' : n ≤ fuel') :
    AgreeTo n (commaLoop item fuel) (commaLoop item fuel') := by
  induction fuel generalizing n fuel' with
  | zero =>
    rw [Nat.le_zero.1 hfuel]
    exact Discipline.agreeTo_zero _ _
  | succ fuel ih =>
    match n, fuel' with
    | 0, _ => exact Discipline.agreeTo_zero _ _
    | n + 1, fuel' + 1 =>
      refine (Discipline.agreeTo_refl item).bind (h (n + 1)) fun x => ?_
      refine agreeTo_matchToken_bind (by decide) _ ?_ (Discipline.agreeTo_refl _)
      have hrest : Advances (n + 1 - 1 - 1) 1 (commaLoop item fuel) :=
        (advances_commaLoop h fuel).mono (by omega) le_rfl
      exact (ih (by omega) (by omega)).bind hrest fun xs => Discipline.agreeTo_refl _

theorem agreeTo_connectiveLoop {w : String} {node : Predicate → Predicate → Predicate}
    {operand operand' : Parser Predicate} (hoperand : Advances n 1 operand)
    (h : AgreeTo n operand operand') {m fuel fuel' : ℕ} (hm : m ≤ n) (hfuel : m ≤ fuel)
    (hfuel' : m ≤ fuel') (predicate : Predicate) :
    AgreeTo m (connectiveLoop w node operand fuel predicate)
      (connectiveLoop w node operand' fuel' predicate) := by
  induction fuel generalizing m fuel' predicate with
  | zero =>
    rw [Nat.le_zero.1 hfuel]
    exact Discipline.agreeTo_zero _ _
  | succ fuel ih =>
    match m, fuel' with
    | 0, _ => exact Discipline.agreeTo_zero _ _
    | m + 1, fuel' + 1 =>
      refine agreeTo_matchToken_bind (by decide) _ ?_ (Discipline.agreeTo_refl _)
      have hright : Advances m 1 operand := hoperand.mono (by omega) le_rfl
      refine (h.mono (by omega)).bind hright fun right => ?_
      exact ih (by omega) (by omega) (by omega) (node predicate right)

theorem agreeTo_connective {w : String} {node : Predicate → Predicate → Predicate}
    {operand operand' : Parser Predicate} (hoperand : Advances n 1 operand)
    (h : AgreeTo n operand operand') :
    AgreeTo n (connective w node operand) (connective w node operand') :=
  h.bind hoperand fun predicate => Discipline.agreeTo_get_bind fun _ hle =>
    agreeTo_connectiveLoop hoperand h (hle.trans (Nat.sub_le _ _)) (Nat.le_succ _) (Nat.le_succ _)
      predicate

theorem agreeTo_parseOrPredicate {nested nested' : Parser Predicate} (hnested : Advances n 1 nested)
    (h : AgreeTo n nested nested') :
    AgreeTo (n + 1) (parseOrPredicate nested) (parseOrPredicate nested') := by
  have hprimary :
      AgreeTo (n + 1) (parsePrimaryPredicate nested) (parsePrimaryPredicate nested') := by
    refine agreeTo_matchToken_bind (by decide) _ ?_ (Discipline.agreeTo_refl _)
    exact h.bind hnested fun _ => Discipline.agreeTo_refl _
  have hadvances := advances_parsePrimaryPredicate hnested
  exact agreeTo_connective (advances_connective hadvances) (agreeTo_connective hadvances hprimary)

theorem agreeTo_parsePredicateTo {depth depth' : ℕ} (h : n ≤ depth) (h' : n ≤ depth') :
    AgreeTo n (parsePredicateTo depth) (parsePredicateTo depth') := by
  induction depth generalizing n depth' with
  | zero =>
    rw [Nat.le_zero.1 h]
    exact Discipline.agreeTo_zero _ _
  | succ depth ih =>
    match n, depth' with
    | 0, _ => exact Discipline.agreeTo_zero _ _
    | n + 1, depth' + 1 =>
      have hnested : Advances n 1 (parsePredicateTo depth) :=
        (advances_parsePredicateTo depth).mono (by omega) le_rfl
      exact agreeTo_parseOrPredicate hnested (ih (by omega) (by omega))

/-- `Parser::parsePredicate` is `parseOrPredicate`, whose nested predicates it parses itself. -/
theorem parsePredicate_eq {tokens : List Token} (h : Ended tokens) :
    parsePredicate tokens = parseOrPredicate parsePredicate tokens := by
  have hnested : AgreeTo tokens.length (parsePredicateTo tokens.length) parsePredicate :=
    fun text hended hle => agreeTo_parsePredicateTo hle (Nat.le_succ _) text hended le_rfl
  exact agreeTo_parseOrPredicate (advances_parsePredicateTo tokens.length) hnested tokens h
    (Nat.le_succ _)

/-- `do item while (match(Comma))`, without a bound. -/
theorem commaSeparated_eq {item : Parser α} (h : ∀ n, Advances n 1 item) {tokens : List Token}
    (hended : Ended tokens) :
    commaSeparated item tokens = (commaIteration item >>= fun p =>
      if p.2 = true then commaSeparated item >>= fun xs => pure (p.1 :: xs)
      else pure [p.1]) tokens := by
  have hrest : AgreeTo tokens.length (commaLoop item tokens.length) (commaSeparated item) :=
    fun text hstands hle => agreeTo_commaLoop h hle (Nat.le_succ _) text hstands le_rfl
  have hiteration : Advances tokens.length 1 (commaIteration item) := advances_commaIteration (h _)
  change commaLoop item (tokens.length + 1) tokens = _
  rw [commaLoop_succ]
  refine (Discipline.agreeTo_refl _).bind hiteration (fun p => ?_) tokens hended le_rfl
  refine Discipline.agreeTo_ite ?_ (Discipline.agreeTo_refl _)
  have hloop : Advances (tokens.length - 1) 1 (commaLoop item tokens.length) :=
    (advances_commaLoop h tokens.length).mono (Nat.sub_le _ _) le_rfl
  exact (hrest.mono (Nat.sub_le _ _)).bind hloop fun xs => Discipline.agreeTo_refl _

/-- `while (match(word))` on the predicate that has been parsed so far. -/
def connectiveRest (w : String) (node : Predicate → Predicate → Predicate)
    (operand : Parser Predicate) (predicate : Predicate) : Parser Predicate := do
  let tokens ← get
  connectiveLoop w node operand (tokens.length + 1) predicate

theorem connective_eq (w : String) (node : Predicate → Predicate → Predicate)
    (operand : Parser Predicate) :
    connective w node operand = operand >>= connectiveRest w node operand := rfl

/-- `while (match(word))`, without a bound. -/
theorem connectiveRest_eq {w : String} {node : Predicate → Predicate → Predicate}
    {operand : Parser Predicate} (h : ∀ n, Advances n 1 operand) {tokens : List Token}
    (hended : Ended tokens) (predicate : Predicate) :
    connectiveRest w node operand predicate tokens =
      (connectiveIteration w operand >>= fun right => match right with
        | some right => connectiveRest w node operand (node predicate right)
        | none => pure predicate) tokens := by
  have hrest (predicate : Predicate) : AgreeTo tokens.length
      (connectiveLoop w node operand tokens.length predicate)
      (connectiveRest w node operand predicate) := fun text hstands hle =>
    agreeTo_connectiveLoop (h _) (Discipline.agreeTo_refl _) le_rfl hle (Nat.le_succ _) predicate
      text hstands le_rfl
  have hiteration : Advances tokens.length 0 (connectiveIteration w operand) :=
    advances_keyword ((h _).followed fun _ => Discipline.keeps_pure _) (Discipline.keeps_pure _)
  change connectiveLoop w node operand (tokens.length + 1) predicate tokens = _
  rw [connectiveLoop_succ]
  refine (Discipline.agreeTo_refl _).bind hiteration (fun right => ?_) tokens hended le_rfl
  cases right with
  | none => exact Discipline.agreeTo_refl _
  | some right => exact hrest (node predicate right)

/-! ### From the start to the end of a text -/

/-- From the end token or before it, `p` leaves off there too: `current_` does not pass the end
token, nothing is read behind it, and no bound is used up. -/
structure StaysInside (tokens : List Token) (p : Parser α) : Prop where
  error : ∀ current e, current < tokens.length → p (tokens.drop current) = .error e →
    e ≠ pastEnd ∧ e ≠ .outOfFuel
  ok : ∀ current a rest, current < tokens.length → p (tokens.drop current) = .ok (a, rest) →
    ∃ current', current ≤ current' ∧ current' < tokens.length ∧ rest = tokens.drop current'

/-- Whenever the result of `p` is one to go on with, `current_` has moved on, and not behind the end
token. -/
def Consumes (tokens : List Token) (goesOn : α → Prop) (p : Parser α) : Prop :=
  ∀ current a rest, current < tokens.length → goesOn a → p (tokens.drop current) = .ok (a, rest) →
    ∃ current', current < current' ∧ current' < tokens.length ∧ rest = tokens.drop current'

/-- The functions of the class `Parser`, by their results. -/
inductive ParseFunction : Type → Type
  | peek : ParseFunction Token
  | advance : ParseFunction Token
  | matchToken (type : TokenType) (lexeme : Str) : ParseFunction Bool
  | expect (type : TokenType) (lexeme : Str) : ParseFunction Unit
  | expectStatementEnd : ParseFunction Unit
  | parse : ParseFunction Query
  | parseCreateDatabase : ParseFunction CreateDatabase
  | parseCreateTable : ParseFunction CreateTable
  | parseDropTable : ParseFunction DropTable
  | parseRenameTable : ParseFunction RenameTable
  | parseCreateIndex : ParseFunction CreateIndex
  | parseInsert : ParseFunction Insert
  | parseSelect : ParseFunction Select
  | parseUpdate : ParseFunction Update
  | parseDelete : ParseFunction Delete
  | parsePrepare : ParseFunction PrepareStatement
  | parseExecutePrepared : ParseFunction ExecutePrepared
  | parsePredicate : ParseFunction Predicate
  | parseOrPredicate : ParseFunction Predicate
  | parseAndPredicate : ParseFunction Predicate
  | parsePrimaryPredicate : ParseFunction Predicate
  | parseComparisonPredicate : ParseFunction Predicate
  | parseValue : ParseFunction Value

/-- What a function does. -/
def ParseFunction.run : {α : Type} → ParseFunction α → Parser α
  | _, .peek => Parser.peek
  | _, .advance => Parser.advance
  | _, .matchToken type lexeme => Parser.matchToken type lexeme
  | _, .expect type lexeme => Parser.expect type lexeme
  | _, .expectStatementEnd => Parser.expectStatementEnd
  | _, .parse => parseStatement
  | _, .parseCreateDatabase => Parser.parseCreateDatabase
  | _, .parseCreateTable => Parser.parseCreateTable
  | _, .parseDropTable => Parser.parseDropTable
  | _, .parseRenameTable => Parser.parseRenameTable
  | _, .parseCreateIndex => Parser.parseCreateIndex
  | _, .parseInsert => Parser.parseInsert
  | _, .parseSelect => Parser.parseSelect
  | _, .parseUpdate => Parser.parseUpdate
  | _, .parseDelete => Parser.parseDelete
  | _, .parsePrepare => Parser.parsePrepare
  | _, .parseExecutePrepared => Parser.parseExecutePrepared
  | _, .parsePredicate => Parser.parsePredicate
  | _, .parseOrPredicate => Parser.parseOrPredicate Parser.parsePredicate
  | _, .parseAndPredicate => Parser.parseAndPredicate Parser.parsePredicate
  | _, .parsePrimaryPredicate => Parser.parsePrimaryPredicate Parser.parsePredicate
  | _, .parseComparisonPredicate => Parser.parseComparisonPredicate
  | _, .parseValue => Parser.parseValue

/-- The discipline of functions that may take a semicolon. -/
def reading : Discipline Token Exception where
  stands := Ended
  takes token := token.type ≠ .end
  fault := discipline.fault
  ne_nil_of_stands := discipline.ne_nil_of_stands
  stands_of_takes := Ended.tail

theorem Advances.reading {p : Parser α} (h : Advances n k p) : reading.Keeps n k p :=
  h.relax (fun _ hended => hended) (fun _ htakes => htakes.1) fun _ hfault => hfault

theorem reading_peek : reading.Keeps n 0 peek := by
  refine Discipline.keeps_of_step fun text hended => ?_
  obtain ⟨token, rest, rfl⟩ := List.exists_cons_of_ne_nil (reading.ne_nil_of_stands hended)
  exact .inr ⟨pure token, rfl, Discipline.keeps_pure _⟩

theorem reading_advance : reading.Keeps n 0 advance := by
  refine Discipline.keeps_of_step fun text hended => ?_
  obtain ⟨token, rest, rfl⟩ := List.exists_cons_of_ne_nil (reading.ne_nil_of_stands hended)
  by_cases hend : token.type = .end
  · exact .inr ⟨pure token, advance_end hend, Discipline.keeps_pure _⟩
  · exact .inl ⟨token, rest, pure token, hend, rfl, advance_cons hend, Discipline.keeps_pure _⟩

theorem reading_matchToken (type : TokenType) (lexeme : Str) :
    reading.Keeps n 0 (matchToken type lexeme) :=
  reading_peek.followed fun _ => Discipline.keeps_ite (Discipline.keeps_pure _) <|
    Discipline.keeps_ite (Discipline.keeps_pure _) <|
      reading_advance.followed fun _ => Discipline.keeps_pure _

theorem reading_expectStatementEnd : reading.Keeps n 0 expectStatementEnd :=
  (reading_matchToken _ _).followed fun _ => reading_peek.followed fun _ =>
    Discipline.keeps_ite (Discipline.keeps_throw (not_fault_runtimeError (by decide)))
      (Discipline.keeps_pure _)

/-- Every function keeps to the discipline. -/
theorem ParseFunction.reading (function : ParseFunction α) :
    reading.Keeps n 0 function.run := by
  have hor : Advances n 1 (Parser.parsePrimaryPredicate Parser.parsePredicate) :=
    (advances_parsePrimaryPredicate (n := n) advances_parsePredicate).mono (Nat.le_succ _) le_rfl
  have hany {β : Type} {p : Parser β} (h : Advances n 1 p) : Parser.reading.Keeps n 0 p :=
    h.reading.mono le_rfl (Nat.zero_le _)
  cases function with
  | peek => exact reading_peek
  | advance => exact reading_advance
  | matchToken type lexeme => exact reading_matchToken type lexeme
  | expect type lexeme =>
    exact (reading_matchToken type lexeme).followed fun _ => Discipline.keeps_ite
      (Discipline.keeps_throw (not_fault_runtimeError (by decide))) (Discipline.keeps_pure _)
  | expectStatementEnd => exact reading_expectStatementEnd
  | parse =>
    exact advances_parseCommand.reading.followed fun _ =>
      reading_expectStatementEnd.followed fun _ => Discipline.keeps_pure _
  | parseCreateDatabase => exact hany advances_parseCreateDatabase
  | parseCreateTable => exact hany advances_parseCreateTable
  | parseDropTable => exact hany advances_parseDropTable
  | parseRenameTable => exact hany advances_parseRenameTable
  | parseCreateIndex => exact hany advances_parseCreateIndex
  | parseInsert => exact hany advances_parseInsert
  | parseSelect => exact hany advances_parseSelect
  | parseUpdate => exact hany advances_parseUpdate
  | parseDelete => exact hany advances_parseDelete
  | parsePrepare => exact hany advances_parsePrepare
  | parseExecutePrepared => exact hany advances_parseExecutePrepared
  | parsePredicate => exact hany advances_parsePredicate
  | parseOrPredicate => exact hany (advances_connective (advances_connective hor))
  | parseAndPredicate => exact hany (advances_connective hor)
  | parsePrimaryPredicate => exact hany hor
  | parseComparisonPredicate => exact hany advances_parseComparisonPredicate
  | parseValue => exact hany advances_parseValue

theorem Ended.drop {tokens : List Token} (h : Ended tokens) {current : ℕ}
    (hcurrent : current < tokens.length) : Ended (tokens.drop current) := by
  obtain ⟨before, rfl, hbefore⟩ := h
  have hle : current ≤ before.length := by
    rw [List.length_append, List.length_singleton] at hcurrent
    omega
  exact ⟨before.drop current, List.drop_append_of_le_length hle,
    fun token hmem => hbefore token (List.mem_of_mem_drop hmem)⟩

section Positions

variable {tokens rest : List Token} {current : ℕ} {a : α}

/-- Where a function leaves off. -/
theorem moved (hended : Ended tokens) (h : ∀ n, reading.Keeps n k p)
    (hcurrent : current < tokens.length) (hp : p (tokens.drop current) = .ok (a, rest)) :
    ∃ current', current + k ≤ current' ∧ current' < tokens.length ∧
      rest = tokens.drop current' := by
  have hstart := hended.drop hcurrent
  obtain ⟨taken, htaken, hk, -⟩ := (h _).ok _ a rest hstart le_rfl hp
  have hrest : rest = tokens.drop (current + taken.length) := by
    rw [← List.drop_drop, htaken, List.drop_left]
  refine ⟨current + taken.length, by omega, ?_, hrest⟩
  have hne : rest ≠ [] := reading.ne_nil_of_stands ((h _).next hstart le_rfl hp).1
  by_contra hlength
  exact hne (hrest.trans (List.drop_eq_nil_of_le (not_lt.1 hlength)))

theorem staysInside_of_reading (hended : Ended tokens) (h : ∀ n, reading.Keeps n 0 p) :
    StaysInside tokens p where
  error _ e hcurrent hp :=
    not_or.1 ((h _).error _ e (hended.drop hcurrent) le_rfl hp)
  ok _ _ _ hcurrent hp := moved hended h hcurrent hp

theorem consumes_commaIteration (hended : Ended tokens) (h : ∀ n, Advances n 1 p) :
    Consumes tokens (fun _ => True) (commaIteration p) := fun _ _ _ hcurrent _ hp =>
  moved hended (fun n => (advances_commaIteration (h n)).reading) hcurrent hp

/-- What is found is what `expect` takes. -/
theorem consumes_matchToken (hended : Ended tokens) {type : TokenType} (hend : type ≠ .end)
    (hsemicolon : type ≠ .semicolon) (lexeme : Str) :
    Consumes tokens (· = true) (matchToken type lexeme) := by
  rintro current _ rest hcurrent rfl hp
  have hexpect : expect type lexeme (tokens.drop current) = .ok ((), rest) := bind_apply_of_eq hp
  exact moved hended (fun _ => (advances_expect hend hsemicolon lexeme).reading) hcurrent hexpect

theorem consumes_connectiveIteration (hended : Ended tokens) (w : String)
    {operand : Parser Predicate} (h : ∀ n, Advances n 1 operand) :
    Consumes tokens (fun right => right.isSome = true) (connectiveIteration w operand) := by
  intro current right rest hcurrent hsome hp
  obtain ⟨found, mid, hword, hbranch⟩ := bind_apply_eq_ok_iff.1 hp
  cases found with
  | false =>
    cases hbranch
    cases hsome
  | true =>
    obtain ⟨predicate, mid', hoperand, hreturn⟩ := bind_apply_eq_ok_iff.1 hbranch
    cases hreturn
    obtain ⟨next, hnext, hlength, rfl⟩ :=
      consumes_matchToken hended (by decide) (by decide) _ current true mid hcurrent rfl hword
    obtain ⟨last, hlast, hlength', hrest⟩ := moved hended (fun n => (h n).reading) hlength hoperand
    exact ⟨last, by omega, hlength', hrest⟩

end Positions

/-- What an accepted text consists of: a command without semicolons, and the end of the
statement. -/
theorem parse_eq_ok {sql : Str} {tokens : List Token} {query : Query}
    (h : tokenize sql = .ok tokens) (hparse : parse sql = .ok query) :
    ∃ before ending, tokens = before ++ ending ∧ EndsStatement ending ∧
      (∀ token ∈ before, token.type ≠ .end ∧ token.type ≠ .semicolon) ∧
      parseCommand tokens = .ok (query, ending) ∧
      parseStatement tokens = .ok (query, [⟨.end, []⟩]) := by
  obtain ⟨_, htokens, hparse⟩ := bind_eq_ok_iff.1 hparse
  rw [h] at htokens
  cases htokens
  obtain ⟨⟨query', rest⟩, hstatement, hreturn⟩ := bind_eq_ok_iff.1 hparse
  cases hreturn
  obtain ⟨query', ending, hcommand, hrest⟩ := bind_apply_eq_ok_iff.1 hstatement
  obtain ⟨_, rest', hend, hreturn⟩ := bind_apply_eq_ok_iff.1 hrest
  cases hreturn
  obtain ⟨before, rfl, -, hbefore⟩ :=
    advances_parseCommand.ok tokens query ending (tokenizeFrom_end h) le_rfl hcommand
  obtain ⟨token, tail, htype, hending⟩ := expectStatementEnd_ok hend
  have hsuffix : token :: tail <:+ ending := by
    rcases hending with rfl | ⟨lexeme, rfl⟩
    · exact List.suffix_rfl
    · exact List.suffix_cons _ _
  rw [eq_end_of_suffix h (hsuffix.trans (List.suffix_append _ _)) htype] at hending
  rcases hending with rfl | ⟨lexeme, rfl⟩
  · cases hend
    exact ⟨before, _, rfl, .inl rfl, hbefore, hcommand, hstatement⟩
  · cases hend
    exact ⟨before, _, rfl, .inr ⟨lexeme, rfl⟩, hbefore, hcommand, hstatement⟩

/-- Parsing the tokens is safe and ends.  Every function stays inside the tokens; every iteration of
a loop, and every parenthesis of a predicate, takes a token; and what is accepted is read to its
end. -/
structure EndsSafely (sql : Str) (tokens : List Token) : Prop where
  terminates : parse sql ≠ .error .outOfFuel
  readsInside : parse sql ≠ .error pastEnd
  functions : ∀ {α : Type} (function : ParseFunction α), StaysInside tokens function.run
  columns : Consumes tokens (fun _ => True) (commaIteration parseColumn)
  rows : Consumes tokens (fun _ => True) (commaIteration parseTuple)
  values : Consumes tokens (fun _ => True) (commaIteration parseValue)
  selected : Consumes tokens (fun _ => True)
    (commaIteration (identifier "expected selected column"))
  and : Consumes tokens (fun right => right.isSome = true)
    (connectiveIteration "AND" (parsePrimaryPredicate parsePredicate))
  or : Consumes tokens (fun right => right.isSome = true)
    (connectiveIteration "OR" (parseAndPredicate parsePredicate))
  parenthesis : Consumes tokens (· = true) (matchToken .leftParen [])
  consumed : ∀ query, parse sql = .ok query → ∃ before ending, tokens = before ++ ending ∧
    EndsStatement ending ∧ (∀ token ∈ before, token.type ≠ .end ∧ token.type ≠ .semicolon) ∧
    parseCommand tokens = .ok (query, ending) ∧ parseStatement tokens = .ok (query, [⟨.end, []⟩])

/-- The errors that parsing the tokens does not throw. -/
theorem not_fault_of_parse {sql : Str} {tokens : List Token} {e : Exception}
    (h : tokenize sql = .ok tokens) (he : parse sql = .error e) : e ≠ pastEnd ∧ e ≠ .outOfFuel := by
  rw [parse, h] at he
  replace he : parseTokens tokens = .error e := he
  rcases bind_eq_error_iff.1 he with hstatement | ⟨_, -, ⟨⟩⟩
  exact not_or.1 (ParseFunction.parse.reading.error tokens e (tokenizeFrom_end h) le_rfl hstatement)

/-- No text makes the parser run out of fuel. -/
theorem parse_ne_outOfFuel (sql : Str) : parse sql ≠ .error .outOfFuel := by
  intro he
  cases htokens : tokenize sql with
  | error e =>
    rw [parse, htokens] at he
    cases he
    exact tokenizeFrom_ne_outOfFuel (Nat.lt_succ_self _) htokens
  | ok tokens => exact (not_fault_of_parse htokens he).2 rfl

/-- **Parsing what the tokenizer accepts is safe and ends.** -/
theorem endsSafely_of_tokenize {sql : Str} {tokens : List Token} (h : tokenize sql = .ok tokens) :
    EndsSafely sql tokens := by
  have hended : Ended tokens := tokenizeFrom_end h
  have hprimary (n : ℕ) : Advances n 1 (parsePrimaryPredicate parsePredicate) :=
    (advances_parsePrimaryPredicate (n := n) advances_parsePredicate).mono (Nat.le_succ _) le_rfl
  exact {
    terminates := parse_ne_outOfFuel sql
    readsInside := fun he => (not_fault_of_parse h he).1 rfl
    functions := fun function => staysInside_of_reading hended fun _ => function.reading
    columns := consumes_commaIteration hended fun _ => advances_parseColumn
    rows := consumes_commaIteration hended fun _ => advances_parseTuple
    values := consumes_commaIteration hended fun _ => advances_parseValue
    selected := consumes_commaIteration hended fun _ => advances_identifier (by decide)
    and := consumes_connectiveIteration hended _ hprimary
    or := consumes_connectiveIteration hended _ fun n => advances_connective (hprimary n)
    parenthesis := consumes_matchToken hended (by decide) (by decide) _
    consumed := fun _ hquery => parse_eq_ok h hquery }

/-- A nested predicate and one semicolon. -/
theorem endsSafely_of_tokenize_nested :
    EndsSafely (bytes "DELETE FROM t WHERE (a = 1);")
      [⟨.identifier, bytes "DELETE"⟩, ⟨.identifier, bytes "FROM"⟩, ⟨.identifier, bytes "t"⟩,
        ⟨.identifier, bytes "WHERE"⟩, ⟨.leftParen, bytes "("⟩, ⟨.identifier, bytes "a"⟩,
        ⟨.equal, bytes "="⟩, ⟨.number, bytes "1"⟩, ⟨.rightParen, bytes ")"⟩,
        ⟨.semicolon, bytes ";"⟩, ⟨.end, []⟩] :=
  endsSafely_of_tokenize (by decide +kernel)

end Parser

end VertexDB
