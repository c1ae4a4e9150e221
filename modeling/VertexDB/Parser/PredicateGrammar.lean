import VertexDB.Lib.Reading
import VertexDB.Parser.Remaining

/-!
# The grammar of predicates

`Derives` is the grammar of predicates with the trees of its derivations:

    disjunction := conjunction (OR conjunction)*
    conjunction := primary (AND primary)*
    primary     := ( disjunction ) | identifier (= | > | <) literal

where a sequence of operands is joined to the left.  `parsePredicate` reads what the grammar derives
and nothing else, as far as a keyword does not continue it (`parsePredicate_iff`).
-/

namespace VertexDB

open Ascii Reading Failure

namespace Parser

/-- The values of literal tokens. -/
inductive Literal : Token → Value → Prop
  | null {lexeme : Str} (h : equalsIgnoreCase lexeme (bytes "NULL") = true) :
    Literal ⟨.identifier, lexeme⟩ .null
  | string (lexeme : Str) : Literal ⟨.string, lexeme⟩ (.string lexeme)
  | int {lexeme : Str} {i : I64} (hpoint : byte '.' ∉ lexeme) (h : parseInt lexeme = .ok i) :
    Literal ⟨.number, lexeme⟩ (.int i)
  | double {lexeme : Str} {d : Binary64} (hpoint : byte '.' ∈ lexeme) (h : stod lexeme = .ok d) :
    Literal ⟨.number, lexeme⟩ (.double d)

/-- The comparison operators. -/
inductive Operator : TokenType → ComparisonOperator → Prop
  | equal : Operator .equal .equal
  | greater : Operator .greater .greater
  | less : Operator .less .less

/-- A keyword, in any letter case. -/
def IsWord (w : String) (token : Token) : Prop :=
  token.type = .identifier ∧ equalsIgnoreCase token.lexeme (bytes w) = true

/-- A connective and the operand on its right. -/
structure Operand where
  word : Token
  tokens : List Token
  predicate : Predicate

/-- The tokens of operands. -/
def operandTokens (operands : List Operand) : List Token :=
  operands.flatMap fun operand => operand.word :: operand.tokens

/-- Operands joined to the left. -/
def joinLeft (node : Predicate → Predicate → Predicate) (first : Predicate)
    (operands : List Operand) : Predicate :=
  operands.foldl (fun left operand => node left operand.predicate) first

/-- The nonterminals of the grammar. -/
inductive Nonterminal
  | disjunction
  | conjunction
  | primary

/-- The nonterminal derives the tokens, and this is the tree of the derivation. -/
inductive Derives : Nonterminal → List Token → Predicate → Prop
  | comparison {column lexeme : Str} {type : TokenType} {op : ComparisonOperator} {literal : Token}
    {value : Value} (hop : Operator type op) (hvalue : Literal literal value) :
    Derives .primary [⟨.identifier, column⟩, ⟨type, lexeme⟩, literal] (.comparison column op value)
  | parentheses {opening closing : Str} {tokens : List Token} {p : Predicate}
    (h : Derives .disjunction tokens p) :
    Derives .primary (⟨.leftParen, opening⟩ :: (tokens ++ [⟨.rightParen, closing⟩])) p
  | conjunction {tokens : List Token} {first : Predicate} {operands : List Operand}
    (hfirst : Derives .primary tokens first)
    (hwords : ∀ operand ∈ operands, IsWord "AND" operand.word)
    (hoperands : ∀ operand ∈ operands, Derives .primary operand.tokens operand.predicate) :
    Derives .conjunction (tokens ++ operandTokens operands) (joinLeft .and first operands)
  | disjunction {tokens : List Token} {first : Predicate} {operands : List Operand}
    (hfirst : Derives .conjunction tokens first)
    (hwords : ∀ operand ∈ operands, IsWord "OR" operand.word)
    (hoperands : ∀ operand ∈ operands, Derives .conjunction operand.tokens operand.predicate) :
    Derives .disjunction (tokens ++ operandTokens operands) (joinLeft .or first operands)

/-- The tokens begin with the keyword. -/
def Begins (w : String) (tokens : List Token) : Prop :=
  ∃ token rest, tokens = token :: rest ∧ IsWord w token

/-! ### Tokens -/

theorem parseValue_of_literal {token : Token} {value : Value} (h : Literal token value)
    (rest : List Token) : parseValue (token :: rest) = .ok (value, rest) := by
  cases h with
  | null h =>
    rw [parseValue, bind_apply_of_eq (advance_cons (by rintro ⟨⟩)), if_pos ⟨rfl, h⟩]
    rfl
  | string lexeme => rfl
  | int hpoint h =>
    rw [parseValue_number, if_neg hpoint, h]
    rfl
  | double hpoint h =>
    rw [parseValue_number, if_pos hpoint, h]
    rfl

theorem literal_of_parseValue {tokens rest : List Token} {value : Value}
    (h : parseValue tokens = .ok (value, rest)) :
    ∃ token, tokens = token :: rest ∧ Literal token value := by
  obtain ⟨⟨type, lexeme⟩, mid, hadvance, hbranch⟩ := bind_apply_eq_ok_iff.1 h
  by_cases hnull : type = .identifier ∧ equalsIgnoreCase lexeme (bytes "NULL") = true
  · obtain ⟨rfl, hword⟩ := hnull
    obtain rfl := advance_ok (by rintro ⟨⟩) hadvance
    rw [if_pos ⟨rfl, hword⟩] at hbranch
    cases hbranch
    exact ⟨_, rfl, .null hword⟩
  rw [if_neg hnull] at hbranch
  by_cases hstring : type = .string
  · subst hstring
    obtain rfl := advance_ok (by rintro ⟨⟩) hadvance
    cases hbranch
    exact ⟨_, rfl, .string lexeme⟩
  rw [if_neg hstring] at hbranch
  by_cases hnumber : type = .number
  · subst hnumber
    obtain rfl := advance_ok (by rintro ⟨⟩) hadvance
    clear hbranch
    rw [parseValue_number] at h
    by_cases hpoint : byte '.' ∈ lexeme
    · rw [if_pos hpoint] at h
      cases hd : stod lexeme with
      | error e => rw [hd] at h; cases h
      | ok d => rw [hd] at h; cases h; exact ⟨_, rfl, .double hpoint hd⟩
    · rw [if_neg hpoint] at h
      cases hi : parseInt lexeme with
      | error e => rw [hi] at h; cases h
      | ok i => rw [hi] at h; cases h; exact ⟨_, rfl, .int hpoint hi⟩
  · rw [if_neg hnumber] at hbranch
    cases hbranch

theorem parseOperator_of_operator {type : TokenType} {op : ComparisonOperator}
    (h : Operator type op) (lexeme : Str) (rest : List Token) :
    parseOperator (⟨type, lexeme⟩ :: rest) = .ok (op, rest) := by
  cases h with
  | equal => rfl
  | greater => rfl
  | less => rfl

theorem operator_of_parseOperator {tokens rest : List Token} {op : ComparisonOperator}
    (h : parseOperator tokens = .ok (op, rest)) :
    ∃ type lexeme, tokens = ⟨type, lexeme⟩ :: rest ∧ Operator type op := by
  -- one comparison after the other
  have hnext {type : TokenType} (hend : type ≠ .end) {found : ComparisonOperator}
      (hfound : Operator type found) {r : Parser ComparisonOperator} {tokens : List Token}
      (hr : r tokens = .ok (op, rest) →
        ∃ type lexeme, tokens = ⟨type, lexeme⟩ :: rest ∧ Operator type op)
      (h : (matchToken type [] >>= fun b => if b = true then pure found else r) tokens =
        .ok (op, rest)) :
      ∃ type lexeme, tokens = ⟨type, lexeme⟩ :: rest ∧ Operator type op := by
    obtain ⟨b, mid, hmatch, hbranch⟩ := bind_apply_eq_ok_iff.1 h
    rcases matchToken_ok hend hmatch with ⟨⟨_, lexeme⟩, rfl, ⟨rfl, -⟩, rfl⟩ | ⟨rfl, rfl⟩
    · cases hbranch
      exact ⟨_, lexeme, rfl, hfound⟩
    · exact hr hbranch
  refine hnext (by decide) .equal (hnext (by decide) .greater (hnext (by decide) .less ?_)) h
  rintro ⟨⟩

theorem isMatch_iff_isWord {w : String} (hw : bytes w ≠ []) {token : Token} :
    IsMatch token .identifier (bytes w) ↔ IsWord w token := by
  rw [IsMatch, IsWord, or_iff_right hw]

theorem keyword_of_isWord {w : String} {token : Token} (h : IsWord w token) (rest : List Token) :
    keyword w (token :: rest) = .ok (true, rest) :=
  matchToken_of_isMatch ⟨h.1, .inr h.2⟩ (by decide)

theorem keyword_of_not_begins {w : String} (hw : bytes w ≠ []) {tokens : List Token}
    (hne : tokens ≠ []) (h : ¬ Begins w tokens) : keyword w tokens = .ok (false, tokens) := by
  obtain ⟨token, rest, rfl⟩ := List.exists_cons_of_ne_nil hne
  refine matchToken_of_not_isMatch fun hmatch => h ⟨token, rest, rfl, ?_⟩
  exact (isMatch_iff_isWord hw).1 hmatch

theorem keyword_ok {w : String} (hw : bytes w ≠ []) {tokens rest : List Token} {found : Bool}
    (h : keyword w tokens = .ok (found, rest)) :
    (∃ token, found = true ∧ tokens = token :: rest ∧ IsWord w token) ∨
      found = false ∧ rest = tokens ∧ tokens ≠ [] ∧ ¬ Begins w tokens := by
  match tokens with
  | [] => cases h
  | token :: tail =>
    by_cases hword : IsWord w token
    · rw [keyword_of_isWord hword] at h
      cases h
      exact .inl ⟨token, rfl, rfl, hword⟩
    · have hbegins : ¬ Begins w (token :: tail) := by
        rintro ⟨_, _, ⟨⟩, hbegins⟩
        exact hword hbegins
      rw [keyword_of_not_begins hw (List.cons_ne_nil token tail) hbegins] at h
      cases h
      exact .inr ⟨rfl, rfl, List.cons_ne_nil token tail, hbegins⟩

/-! ### Connectives -/

section Connective

variable {w : String} {node : Predicate → Predicate → Predicate} {operand : Parser Predicate}
  {derives : List Token → Predicate → Prop} {follows : List Token → Prop}

/-- What `connectiveLoop` joins to the predicate that it has. -/
theorem connectiveLoop_ok (hw : bytes w ≠ [])
    (hoperand : ∀ tokens p rest, operand tokens = .ok (p, rest) →
      ∃ used, tokens = used ++ rest ∧ derives used p ∧ follows rest)
    {fuel : ℕ} {first p : Predicate} {tokens rest : List Token} (hfollows : follows tokens)
    (h : connectiveLoop w node operand fuel first tokens = .ok (p, rest)) :
    ∃ operands : List Operand, tokens = operandTokens operands ++ rest ∧
      p = joinLeft node first operands ∧ (∀ operand ∈ operands, IsWord w operand.word) ∧
      (∀ operand ∈ operands, derives operand.tokens operand.predicate) ∧ follows rest ∧
      ¬ Begins w rest := by
  induction fuel generalizing first tokens with
  | zero => cases h
  | succ fuel ih =>
    obtain ⟨found, mid, hkeyword, hbranch⟩ := bind_apply_eq_ok_iff.1 h
    rcases keyword_ok hw hkeyword with ⟨token, rfl, rfl, hword⟩ | ⟨rfl, rfl, -, hbegins⟩
    · obtain ⟨right, left, hright, hloop⟩ := bind_apply_eq_ok_iff.1 hbranch
      obtain ⟨used, rfl, hderives, hfollows'⟩ := hoperand mid right left hright
      obtain ⟨operands, rfl, rfl, hwords, hall, hend⟩ := ih hfollows' hloop
      refine ⟨⟨token, used, right⟩ :: operands, ?_, rfl, ?_, ?_, hend⟩
      · simp [operandTokens]
      · exact List.forall_mem_cons.2 ⟨hword, hwords⟩
      · exact List.forall_mem_cons.2 ⟨hderives, hall⟩
    · cases hbranch
      exact ⟨[], rfl, rfl, fun _ hmem => absurd hmem List.not_mem_nil,
        fun _ hmem => absurd hmem List.not_mem_nil, hfollows, hbegins⟩

theorem connective_ok (hw : bytes w ≠ [])
    (hoperand : ∀ tokens p rest, operand tokens = .ok (p, rest) →
      ∃ used, tokens = used ++ rest ∧ derives used p ∧ follows rest)
    {p : Predicate} {tokens rest : List Token}
    (h : connective w node operand tokens = .ok (p, rest)) :
    ∃ used first operands, tokens = used ++ operandTokens operands ++ rest ∧ derives used first ∧
      p = joinLeft node first operands ∧ (∀ operand ∈ operands, IsWord w operand.word) ∧
      (∀ operand ∈ operands, derives operand.tokens operand.predicate) ∧ follows rest ∧
      ¬ Begins w rest := by
  obtain ⟨first, mid, hfirst, hloop⟩ := bind_apply_eq_ok_iff.1 h
  obtain ⟨used, rfl, hderives, hfollows⟩ := hoperand tokens first mid hfirst
  obtain ⟨operands, rfl, hjoin⟩ := connectiveLoop_ok hw hoperand hfollows hloop
  exact ⟨used, first, operands, (List.append_assoc _ _ _).symm, hderives, hjoin⟩

/-- Where a sequence of operands stops: a token follows that is not the keyword. -/
def Stops (w : String) (rest : List Token) : Prop := rest ≠ [] ∧ ¬ Begins w rest

/-- An operand stands in front of the next connective or of the rest. -/
theorem follows_operandTokens {operands : List Operand} {rest : List Token}
    (hfollows : ∀ token rest, IsWord w token → follows (token :: rest))
    (hwords : ∀ operand ∈ operands, IsWord w operand.word) (hrest : follows rest) :
    follows (operandTokens operands ++ rest) := by
  match operands with
  | [] => exact hrest
  | next :: _ => exact hfollows next.word _ (hwords next List.mem_cons_self)

/-- The loop reads operands that it has the fuel for, up to where they stop. -/
theorem readsBefore_operands (hw : bytes w ≠ []) {operands : List Operand}
    (hfollows : ∀ token rest, IsWord w token → follows (token :: rest))
    (hwords : ∀ operand ∈ operands, IsWord w operand.word)
    (hoperands : ∀ o ∈ operands, ReadsBefore follows operand o.predicate o.tokens)
    {fuel : ℕ} (hfuel : operands.length < fuel) (first : Predicate) :
    ReadsBefore (fun rest => follows rest ∧ Stops w rest)
      (connectiveLoop w node operand fuel first) (joinLeft node first operands)
      (operandTokens operands) := by
  intro rest hrest
  induction operands generalizing fuel first with
  | nil =>
    obtain ⟨fuel, rfl⟩ := Nat.exists_eq_add_one.2 hfuel
    exact bind_apply_of_eq (keyword_of_not_begins hw hrest.2.1 hrest.2.2)
  | cons o operands ih =>
    obtain ⟨fuel, rfl⟩ := Nat.exists_eq_add_one.2 (Nat.zero_lt_of_lt hfuel)
    have hword : IsWord w o.word := hwords o List.mem_cons_self
    have hread : ReadsBefore follows operand o.predicate o.tokens := hoperands o List.mem_cons_self
    have hnext : follows (operandTokens operands ++ rest) :=
      follows_operandTokens hfollows (fun o ho => hwords o (List.mem_cons_of_mem _ ho)) hrest.1
    have htokens : operandTokens (o :: operands) ++ rest =
        o.word :: (o.tokens ++ (operandTokens operands ++ rest)) := by
      simp [operandTokens]
    rw [htokens, connectiveLoop, bind_apply_of_eq (keyword_of_isWord hword _)]
    exact (bind_apply_of_eq (hread _ hnext)).trans
      (ih (fun o ho => hwords o (List.mem_cons_of_mem _ ho))
        (fun o ho => hoperands o (List.mem_cons_of_mem _ ho)) (Nat.lt_of_succ_lt_succ hfuel)
        (node first o.predicate))

theorem length_le_operandTokens (operands : List Operand) :
    operands.length ≤ (operandTokens operands).length := by
  induction operands with
  | nil => exact le_rfl
  | cons o operands ih =>
    rw [operandTokens, List.flatMap_cons, List.length_append, List.length_cons, List.length_cons]
    have : (operandTokens operands).length =
      (operands.flatMap fun operand => operand.word :: operand.tokens).length := rfl
    omega

theorem readsBefore_connective (hw : bytes w ≠ []) {tokens : List Token} {first : Predicate}
    {operands : List Operand} (hfollows : ∀ token rest, IsWord w token → follows (token :: rest))
    (hfirst : ReadsBefore follows operand first tokens)
    (hwords : ∀ operand ∈ operands, IsWord w operand.word)
    (hoperands : ∀ o ∈ operands, ReadsBefore follows operand o.predicate o.tokens) :
    ReadsBefore (fun rest => follows rest ∧ Stops w rest) (connective w node operand)
      (joinLeft node first operands) (tokens ++ operandTokens operands) := by
  intro rest hrest
  have hnext : follows (operandTokens operands ++ rest) :=
    follows_operandTokens hfollows hwords hrest.1
  have hfuel : operands.length < (operandTokens operands ++ rest).length + 1 := by
    have := length_le_operandTokens operands
    rw [List.length_append]
    omega
  rw [List.append_assoc]
  exact (bind_apply_of_eq (hfirst _ hnext)).trans
    (readsBefore_operands hw hfollows hwords hoperands hfuel first rest hrest)

end Connective

/-! ### What the parser reads is derived -/

/-- A parser of nested predicates reads disjunctions. -/
def Sound (derived : Nonterminal) (p : Parser Predicate) : Prop :=
  ∀ tokens predicate rest, p tokens = .ok (predicate, rest) →
    ∃ used, tokens = used ++ rest ∧ Derives derived used predicate

theorem derives_of_parseComparisonPredicate : Sound .primary parseComparisonPredicate := by
  intro tokens predicate rest h
  obtain ⟨column, mid, hcolumn, hrest⟩ := bind_apply_eq_ok_iff.1 h
  obtain ⟨op, mid', hop, hrest⟩ := bind_apply_eq_ok_iff.1 hrest
  obtain ⟨value, mid'', hvalue, ⟨⟩⟩ := bind_apply_eq_ok_iff.1 hrest
  obtain ⟨name, left, rfl, hname⟩ := ofType_ok (by decide) hcolumn
  cases hname
  obtain ⟨type, lexeme, rfl, hoperator⟩ := operator_of_parseOperator hop
  obtain ⟨literal, rfl, hliteral⟩ := literal_of_parseValue hvalue
  exact ⟨_, rfl, .comparison hoperator hliteral⟩

theorem Sound.parsePrimaryPredicate {nested : Parser Predicate} (h : Sound .disjunction nested) :
    Sound .primary (parsePrimaryPredicate nested) := by
  intro tokens predicate rest hp
  obtain ⟨found, mid, hopen, hbranch⟩ := bind_apply_eq_ok_iff.1 hp
  rcases matchToken_ok (by decide) hopen with ⟨⟨_, opening⟩, rfl, ⟨rfl, -⟩, rfl⟩ | ⟨rfl, rfl⟩
  · obtain ⟨p, mid', hp, hbranch⟩ := bind_apply_eq_ok_iff.1 hbranch
    obtain ⟨_, mid'', hclose, ⟨⟩⟩ := bind_apply_eq_ok_iff.1 hbranch
    obtain ⟨closed, left, hmatch, hclosed⟩ := bind_apply_eq_ok_iff.1 hclose
    obtain ⟨used, rfl, hderives⟩ := h mid predicate mid' hp
    rcases matchToken_ok (by decide) hmatch with ⟨⟨_, closing⟩, rfl, ⟨rfl, -⟩, rfl⟩ | ⟨rfl, rfl⟩
    · cases hclosed
      have hderived : Derives .primary
          (⟨.leftParen, opening⟩ :: (used ++ [⟨.rightParen, closing⟩])) predicate :=
        .parentheses hderives
      exact ⟨_, by simp, hderived⟩
    · cases hclosed
  · exact derives_of_parseComparisonPredicate mid predicate rest hbranch

/-- What the parser of predicates leaves begins with neither connective. -/
theorem parsePredicateTo_ok {depth : ℕ} {tokens rest : List Token} {p : Predicate}
    (h : parsePredicateTo depth tokens = .ok (p, rest)) :
    ∃ used, tokens = used ++ rest ∧ Derives .disjunction used p ∧ ¬ Begins "AND" rest ∧
      ¬ Begins "OR" rest := by
  induction depth generalizing tokens rest p with
  | zero => cases h
  | succ depth ih =>
    have hnested : Sound .disjunction (parsePredicateTo depth) := by
      intro tokens p rest hp
      obtain ⟨used, htokens, hderives, -⟩ := ih hp
      exact ⟨used, htokens, hderives⟩
    have hprimary : ∀ tokens p rest,
        parsePrimaryPredicate (parsePredicateTo depth) tokens = .ok (p, rest) →
        ∃ used, tokens = used ++ rest ∧ Derives .primary used p ∧ True := by
      intro tokens p rest hp
      obtain ⟨used, htokens, hderives⟩ := hnested.parsePrimaryPredicate tokens p rest hp
      exact ⟨used, htokens, hderives, trivial⟩
    have hconjunction : ∀ tokens p rest,
        parseAndPredicate (parsePredicateTo depth) tokens = .ok (p, rest) →
        ∃ used, tokens = used ++ rest ∧ Derives .conjunction used p ∧ ¬ Begins "AND" rest := by
      intro tokens p rest hp
      obtain ⟨used, first, operands, rfl, hfirst, rfl, hwords, hall, -, hend⟩ :=
        connective_ok (by decide) hprimary hp
      exact ⟨_, rfl, .conjunction hfirst hwords hall, hend⟩
    obtain ⟨used, first, operands, rfl, hfirst, rfl, hwords, hall, hand, hor⟩ :=
      connective_ok (by decide) hconjunction h
    exact ⟨_, rfl, .disjunction hfirst hwords hall, hand, hor⟩

/-! ### What is derived is read -/

theorem not_begins_of_type {w : String} {token : Token} (h : token.type ≠ .identifier)
    (rest : List Token) : ¬ Begins w (token :: rest) := by
  rintro ⟨_, _, ⟨⟩, hword⟩
  exact h hword.1

/-- `OR` is not `AND`. -/
theorem stops_and_of_or {token : Token} (h : IsWord "OR" token) (rest : List Token) :
    Stops "AND" (token :: rest) := by
  refine ⟨List.cons_ne_nil _ _, ?_⟩
  rintro ⟨_, _, ⟨⟩, hand⟩
  have hor : token.lexeme.map toUpper = (bytes "OR").map toUpper := eq_of_beq h.2
  have heq : token.lexeme.map toUpper = (bytes "AND").map toUpper := eq_of_beq hand.2
  exact absurd (hor.symm.trans heq) (by decide)

/-- How a nonterminal is read with enough depth. -/
def ReadAs (depth : ℕ) (tokens : List Token) (p : Predicate) : Nonterminal → Prop
  | .primary => Reads (parsePrimaryPredicate (parsePredicateTo depth)) p tokens
  | .conjunction =>
    ReadsBefore (Stops "AND") (parseAndPredicate (parsePredicateTo depth)) p tokens
  | .disjunction =>
    ReadsBefore (fun rest => Stops "AND" rest ∧ Stops "OR" rest) (parsePredicateTo (depth + 1)) p
      tokens

theorem reads_parentheses {nested : Parser Predicate} {tokens : List Token} {p : Predicate}
    (h : ReadsBefore (fun rest => Stops "AND" rest ∧ Stops "OR" rest) nested p tokens)
    (opening closing : Str) :
    Reads (parsePrimaryPredicate nested) p
      (⟨.leftParen, opening⟩ :: (tokens ++ [⟨.rightParen, closing⟩])) := by
  intro rest
  have hstop (w : String) : Stops w (⟨.rightParen, closing⟩ :: rest) :=
    ⟨List.cons_ne_nil _ _, not_begins_of_type (by rintro ⟨⟩) rest⟩
  have hclosing : IsMatch ⟨.rightParen, closing⟩ .rightParen [] := ⟨rfl, .inl rfl⟩
  have hclose : expect .rightParen [] (⟨.rightParen, closing⟩ :: rest) = .ok ((), rest) :=
    bind_apply_of_eq (matchToken_of_isMatch hclosing (by decide))
  have hparen : IsMatch ⟨.leftParen, opening⟩ .leftParen [] := ⟨rfl, .inl rfl⟩
  have hopen (following : List Token) :
      matchToken .leftParen [] (⟨.leftParen, opening⟩ :: following) = .ok (true, following) :=
    matchToken_of_isMatch hparen (by rintro ⟨⟩)
  rw [List.cons_append, List.append_assoc, List.singleton_append]
  exact (bind_apply_of_eq (hopen _)).trans <|
    (bind_apply_of_eq (h _ ⟨hstop "AND", hstop "OR"⟩)).trans (bind_apply_of_eq hclose)

theorem reads_comparison {nested : Parser Predicate} {column lexeme : Str} {type : TokenType}
    {op : ComparisonOperator} {literal : Token} {value : Value} (hop : Operator type op)
    (hvalue : Literal literal value) :
    Reads (parsePrimaryPredicate nested) (.comparison column op value)
      [⟨.identifier, column⟩, ⟨type, lexeme⟩, literal] := by
  intro rest
  have hskip : matchToken .leftParen [] (⟨.identifier, column⟩ :: ⟨type, lexeme⟩ :: literal :: rest)
      = .ok (false, ⟨.identifier, column⟩ :: ⟨type, lexeme⟩ :: literal :: rest) :=
    matchToken_of_not_isMatch (by rintro ⟨⟨⟩, -⟩)
  refine (bind_apply_of_eq hskip).trans ?_
  have hname : identifier "expected predicate column"
      (⟨.identifier, column⟩ :: ⟨type, lexeme⟩ :: literal :: rest) =
      .ok (column, ⟨type, lexeme⟩ :: literal :: rest) :=
    bind_apply_of_eq (advance_cons (show TokenType.identifier ≠ .end by decide))
  exact (bind_apply_of_eq hname).trans <|
    (bind_apply_of_eq (parseOperator_of_operator hop lexeme _)).trans
      (bind_apply_of_eq (parseValue_of_literal hvalue rest))

/-- The nesting of a derivation is within the number of its tokens. -/
theorem readAs_of_derives {derived : Nonterminal} {tokens : List Token} {p : Predicate}
    (h : Derives derived tokens p) {depth : ℕ} (hdepth : tokens.length ≤ depth) :
    ReadAs depth tokens p derived := by
  have hmem {operands : List Operand} {o : Operand} (ho : o ∈ operands) :
      o.tokens.length ≤ (operandTokens operands).length := by
    have hsub : (o.word :: o.tokens).Sublist (operandTokens operands) :=
      List.sublist_flatten_of_mem (List.mem_map.2 ⟨o, ho, rfl⟩)
    exact (Nat.le_succ _).trans hsub.length_le
  induction h generalizing depth with
  | comparison hop hvalue => exact reads_comparison hop hvalue
  | @parentheses opening closing tokens p h ih =>
    simp only [List.length_cons, List.length_append, List.length_nil] at hdepth
    obtain ⟨depth, rfl⟩ := Nat.exists_eq_add_one.2 (show 0 < depth by omega)
    exact reads_parentheses (ih (show tokens.length ≤ depth by omega)) opening closing
  | @conjunction tokens first operands _ hwords _ ihfirst ihall =>
    rw [List.length_append] at hdepth
    have hfirst : Reads (parsePrimaryPredicate (parsePredicateTo depth)) first tokens :=
      ihfirst (by omega)
    have hread : ReadsBefore (fun rest => True ∧ Stops "AND" rest)
        (parseAndPredicate (parsePredicateTo depth)) (joinLeft .and first operands)
        (tokens ++ operandTokens operands) :=
      readsBefore_connective (by decide) (fun _ _ _ => trivial) hfirst.before hwords
        fun o ho => (ihall o ho (by have := hmem ho; omega)).before
    exact hread.mono fun _ hrest => ⟨trivial, hrest⟩
  | @disjunction tokens first operands _ hwords _ ihfirst ihall =>
    rw [List.length_append] at hdepth
    exact readsBefore_connective (by decide) (fun _ rest hor => stops_and_of_or hor rest)
      (ihfirst (by omega)) hwords fun o ho => ihall o ho (by have := hmem ho; omega)

theorem Literal.type_ne_end {token : Token} {value : Value} (h : Literal token value) :
    token.type ≠ .end := by
  cases h <;> rintro ⟨⟩

theorem Operator.type_ne_end {type : TokenType} {op : ComparisonOperator} (h : Operator type op) :
    type ≠ .end := by
  cases h <;> rintro ⟨⟩

/-- No derivation goes past the end of the text. -/
theorem Derives.type_ne_end {derived : Nonterminal} {tokens : List Token} {p : Predicate}
    (h : Derives derived tokens p) : ∀ token ∈ tokens, token.type ≠ .end := by
  have hoperands {w : String} {operands : List Operand}
      (hwords : ∀ operand ∈ operands, IsWord w operand.word)
      (hall : ∀ operand ∈ operands, ∀ token ∈ operand.tokens, token.type ≠ .end) :
      ∀ token ∈ operandTokens operands, token.type ≠ .end := by
    intro token htoken
    obtain ⟨o, ho, hmem⟩ := List.mem_flatMap.1 htoken
    rcases List.mem_cons.1 hmem with rfl | hmem
    · rw [(hwords o ho).1]
      rintro ⟨⟩
    · exact hall o ho token hmem
  induction h with
  | comparison hop hvalue =>
    simpa using ⟨hop.type_ne_end, hvalue.type_ne_end⟩
  | parentheses _ ih => simpa [or_imp, forall_and] using ih
  | conjunction _ hwords _ ihfirst ihall =>
    exact List.forall_mem_append.2 ⟨ihfirst, hoperands hwords ihall⟩
  | disjunction _ hwords _ ihfirst ihall =>
    exact List.forall_mem_append.2 ⟨ihfirst, hoperands hwords ihall⟩

/-- **The parser of predicates accepts its grammar.**  It reads `p` and leaves `rest` exactly when
the tokens before `rest` are derived with the tree `p` and no connective continues them. -/
theorem parsePredicate_iff (before : List Token) (lexeme : Str) (p : Predicate)
    (rest : List Token) :
    parsePredicate (before ++ [⟨.end, lexeme⟩]) = .ok (p, rest) ↔
      ∃ used, before ++ [⟨.end, lexeme⟩] = used ++ rest ∧ Derives .disjunction used p ∧
        ¬ Begins "AND" rest ∧ ¬ Begins "OR" rest := by
  refine ⟨parsePredicateTo_ok, ?_⟩
  rintro ⟨used, htokens, hderives, hand, hor⟩
  -- the token at the end is not one of those derived
  have hrest : rest ≠ [] := by
    rintro rfl
    rw [List.append_nil] at htokens
    have hend : (⟨.end, lexeme⟩ : Token) ∈ used := by rw [← htokens]; simp
    exact hderives.type_ne_end _ hend rfl
  rw [htokens]
  have hread : ReadAs (used ++ rest).length used p .disjunction :=
    readAs_of_derives hderives (by simp)
  exact hread rest ⟨⟨hrest, hand⟩, ⟨hrest, hor⟩⟩

/-- Columns may be called `OR` and `AND`, and `AND` binds tighter. -/
example : ((Tokenizer.tokenize (bytes "or=NULL OR b=NULL and AND=NULL")).bind parsePredicate).map
    Prod.fst = .ok (.or (.comparison (bytes "or") .equal .null)
      (.and (.comparison (bytes "b") .equal .null) (.comparison (bytes "AND") .equal .null))) := by
  decide +kernel

end Parser

end VertexDB
