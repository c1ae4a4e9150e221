import VertexDB.Parser.Remaining

/-!
# What the parser accepts is well formed

Every name in a parsed command is an identifier of the tokenizer, a created table has a column,
and every inserted row has a value.  Each parsing function `Ensures` its part of this from tokens
whose names are identifiers.
-/

namespace VertexDB

open Ascii Tokenizer Failure

/-- Every column of a predicate is an identifier. -/
def Predicate.Named : Predicate → Prop
  | .comparison column _ _ => IsIdentifier column
  | .and left right => left.Named ∧ right.Named
  | .or left right => left.Named ∧ right.Named

/-- A column with a name and one of the three types. -/
def Column.WellFormed (column : Column) : Prop :=
  IsIdentifier column.name ∧ column.type ∈ [ColumnType.int, .double, .string]

/-- What the syntax asks of the commands that are logged. -/
def Query.WellFormed : Query → Prop
  | .createDatabase command => IsIdentifier command.name
  | .createTable command => IsIdentifier command.name ∧ command.columns ≠ [] ∧
      ∀ column ∈ command.columns, column.WellFormed
  | .dropTable command => IsIdentifier command.name
  | .renameTable command => IsIdentifier command.oldName ∧ IsIdentifier command.newName
  | .insert command => IsIdentifier command.table ∧ ∀ row ∈ command.rows, row ≠ []
  | .update command => IsIdentifier command.table ∧ IsIdentifier command.column ∧
      ∀ predicate, command.where_ = some predicate → predicate.Named
  | .delete command => IsIdentifier command.table ∧
      ∀ predicate, command.where_ = some predicate → predicate.Named
  | .createIndex command => IsIdentifier command.name ∧ IsIdentifier command.table ∧
      IsIdentifier command.column
  | _ => True

namespace Tokenizer

/-- The names among the tokens are identifiers. -/
def NamesIdentifiers (tokens : List Token) : Prop :=
  ∀ token ∈ tokens, token.type = .identifier → IsIdentifier token.lexeme

theorem NamesIdentifiers.cons {token : Token} {tokens : List Token}
    (h : token.type = .identifier → IsIdentifier token.lexeme) (ht : NamesIdentifiers tokens) :
    NamesIdentifiers (token :: tokens) := List.forall_mem_cons.2 ⟨h, ht⟩

theorem symbolType_ne_identifier {ch : Byte} {type : TokenType} (h : symbolType ch = some type) :
    type ≠ .identifier := by
  rintro rfl
  unfold symbolType at h
  split_ifs at h <;> cases h

theorem namesIdentifiers_tokenizeFrom {fuel : ℕ} {text : Str} {tokens : List Token}
    (h : tokenizeFrom fuel text = .ok tokens) : NamesIdentifiers tokens := by
  induction fuel generalizing text tokens with
  | zero => cases h
  | succ fuel ih =>
    cases text with
    | nil =>
      cases h
      exact .cons (by rintro ⟨⟩) fun _ hmem => absurd hmem List.not_mem_nil
    | cons ch rest =>
      simp only [tokenizeFrom] at h
      split_ifs at h with hspace hstart hdigit hquote
      · exact ih h
      · obtain ⟨found, hfound, h⟩ := bind_eq_ok_iff.1 h
        cases h
        refine .cons (fun _ => ⟨by simp, ?_, ?_⟩) (ih hfound)
        · rintro _ ⟨⟩; exact hstart
        · exact fun c hc => List.mem_takeWhile_imp hc
      · obtain ⟨found, hfound, h⟩ := bind_eq_ok_iff.1 h
        cases h
        exact .cons (by rintro ⟨⟩) (ih hfound)
      · obtain ⟨⟨value, rest⟩, -, h⟩ := bind_eq_ok_iff.1 h
        obtain ⟨found, hfound, h⟩ := bind_eq_ok_iff.1 h
        cases h
        exact .cons (by rintro ⟨⟩) (ih hfound)
      · cases hsymbol : symbolType ch with
        | none => rw [hsymbol] at h; cases h
        | some type =>
          rw [hsymbol] at h
          obtain ⟨found, hfound, h⟩ := bind_eq_ok_iff.1 h
          cases h
          exact .cons (fun htype => absurd htype (symbolType_ne_identifier hsymbol)) (ih hfound)

end Tokenizer

namespace Parser

/-- The parsing function returns something with the property, and leaves tokens whose names are
identifiers. -/
abbrev Yields {α : Type} (p : Parser α) (post : α → Prop) : Prop := Ensures NamesIdentifiers p post

variable {α : Type}

/-! ### Tokens -/

theorem yields_peek :
    Yields peek fun token => token.type = .identifier → IsIdentifier token.lexeme := by
  intro tokens _ _ hs h
  cases tokens with
  | nil => cases h
  | cons token rest => cases h; exact ⟨hs _ List.mem_cons_self, hs⟩

theorem yields_tail : Yields (modify List.tail) fun _ => True := by
  rintro tokens _ _ hs ⟨⟩
  exact ⟨trivial, fun t ht => hs t (List.mem_of_mem_tail ht)⟩

theorem yields_advance :
    Yields advance fun token => token.type = .identifier → IsIdentifier token.lexeme :=
  yields_peek.bind fun _ htoken =>
    ensures_ite (fun _ => yields_tail.bind fun _ _ => ensures_pure htoken)
      fun _ => ensures_pure htoken

/-- What is dropped does not matter. -/
theorem Drops.yields {p : Parser α} (h : Drops p) : Yields p fun _ => True :=
  h.keeps fun hsuffix hs token hmem => hs token (hsuffix.subset hmem)

theorem yields_matchToken (type : TokenType) (lexeme : Str) :
    Yields (matchToken type lexeme) fun _ => True := (drops_matchToken type lexeme).yields

theorem yields_expect (type : TokenType) (lexeme : Str) :
    Yields (expect type lexeme) fun _ => True := (drops_expect type lexeme).yields

theorem yields_identifier (message : String) : Yields (identifier message) IsIdentifier :=
  yields_advance.bind fun _ htoken => ensures_ite (fun _ => ensures_throw _) fun htype =>
    ensures_pure (htoken (not_not.1 htype))

/-- A keyword that may be there. -/
theorem yields_keyword {β : Type} {w : String} {f : Bool → Parser β} {post : β → Prop}
    (h : ∀ found, Yields (f found) post) : Yields (keyword w >>= f) post :=
  (yields_matchToken _ _).bind fun found _ => h found

/-! ### Lists and predicates -/

theorem yields_commaLoop {item : Parser α} {post : α → Prop} (h : Yields item post) (fuel : ℕ) :
    Yields (commaLoop item fuel) fun xs => xs ≠ [] ∧ ∀ x ∈ xs, post x := by
  induction fuel with
  | zero => exact ensures_throw _
  | succ fuel ih =>
    rw [commaLoop]
    refine h.bind fun x hx => (yields_matchToken _ _).bind fun more _ => ?_
    refine ensures_ite (fun _ => ih.bind fun xs hxs => ensures_pure ?_) fun _ => ensures_pure ?_
    · exact ⟨by simp, List.forall_mem_cons.2 ⟨hx, hxs.2⟩⟩
    · exact ⟨by simp, by simpa using hx⟩

theorem yields_commaSeparated {item : Parser α} {post : α → Prop} (h : Yields item post) :
    Yields (commaSeparated item) fun xs => xs ≠ [] ∧ ∀ x ∈ xs, post x :=
  ensures_get_bind fun _ => yields_commaLoop h _

theorem yields_parseValue : Yields parseValue fun _ => True := drops_parseValue.yields

theorem yields_parseOperator : Yields parseOperator fun _ => True := drops_parseOperator.yields

theorem yields_parsePrimaryPredicate {nested : Parser Predicate}
    (h : Yields nested Predicate.Named) :
    Yields (parsePrimaryPredicate nested) Predicate.Named := by
  refine (yields_matchToken _ _).bind fun _ _ => ensures_ite (fun _ => ?_) fun _ => ?_
  · exact h.bind fun p hp => (yields_expect _ _).bind fun _ _ => ensures_pure hp
  · exact (yields_identifier _).bind fun column hcolumn => yields_parseOperator.bind fun _ _ =>
      yields_parseValue.bind fun _ _ => ensures_pure hcolumn

theorem yields_connective {w : String} {node : Predicate → Predicate → Predicate}
    {operand : Parser Predicate} (h : Yields operand Predicate.Named)
    (hnode : ∀ p q, Predicate.Named p → Predicate.Named q → (node p q).Named) :
    Yields (connective w node operand) Predicate.Named := by
  have hloop : ∀ (fuel : ℕ) (p : Predicate), p.Named →
      Yields (connectiveLoop w node operand fuel p) Predicate.Named := by
    intro fuel
    induction fuel with
    | zero => exact fun _ _ => ensures_throw _
    | succ fuel ih =>
      intro p hp
      rw [connectiveLoop]
      refine yields_keyword fun found => ensures_ite (fun _ => ?_) fun _ => ensures_pure hp
      exact h.bind fun q hq => ih _ (hnode p q hp hq)
  exact h.bind fun p hp => ensures_get_bind fun _ => hloop _ p hp

theorem yields_parsePredicateTo (depth : ℕ) : Yields (parsePredicateTo depth) Predicate.Named := by
  induction depth with
  | zero => exact ensures_throw _
  | succ depth ih =>
    exact yields_connective (yields_connective (yields_parsePrimaryPredicate ih)
      fun _ _ hp hq => ⟨hp, hq⟩) fun _ _ hp hq => ⟨hp, hq⟩

theorem yields_parseWhere :
    Yields parseWhere fun where_ => ∀ predicate, where_ = some predicate → predicate.Named := by
  refine yields_keyword fun found => ensures_ite (fun _ => ?_) fun _ =>
    ensures_pure (by rintro _ ⟨⟩)
  refine Ensures.bind (ensures_get_bind fun _ => yields_parsePredicateTo _) fun p hp => ?_
  exact ensures_pure (by rintro _ ⟨⟩; exact hp)

/-! ### Statements -/

theorem yields_parseColumn : Yields parseColumn Column.WellFormed := by
  refine (yields_identifier _).bind fun name hname =>
    (yields_identifier _).bind fun typeName _ => ?_
  cases htype : columnTypeFromString typeName with
  | none => exact ensures_throw _
  | some type =>
    have hknown : type ∈ [ColumnType.int, .double, .string] := by
      simp only [columnTypeFromString] at htype
      split_ifs at htype <;> cases htype <;> simp
    have hnullable : Yields parseNullable fun _ => True := by
      refine yields_keyword fun found => ensures_ite (fun _ => ?_) fun _ => yields_matchToken _ _
      exact (yields_expect _ _).bind fun _ _ => ensures_pure trivial
    exact hnullable.bind fun _ _ => ensures_pure ⟨hname, hknown⟩

theorem yields_parseTuple : Yields parseTuple fun row => row ≠ [] :=
  (yields_expect _ _).bind fun _ _ => (yields_commaSeparated yields_parseValue).bind fun _ hrow =>
    (yields_expect _ _).bind fun _ _ => ensures_pure hrow.1

theorem yields_parseCreateTable :
    Yields parseCreateTable fun command => (Query.createTable command).WellFormed :=
  (yields_identifier _).bind fun _ hname => (yields_expect _ _).bind fun _ _ =>
    (yields_commaSeparated yields_parseColumn).bind fun _ hcolumns =>
      (yields_expect _ _).bind fun _ _ => ensures_pure ⟨hname, hcolumns⟩

theorem yields_parseRenameTable :
    Yields parseRenameTable fun command => (Query.renameTable command).WellFormed :=
  (yields_expect _ _).bind fun _ _ => (yields_identifier _).bind fun _ hold =>
    (yields_expect _ _).bind fun _ _ => (yields_identifier _).bind fun _ hnew =>
      ensures_pure ⟨hold, hnew⟩

theorem yields_parseCreateIndex :
    Yields parseCreateIndex fun command => (Query.createIndex command).WellFormed :=
  (yields_identifier _).bind fun _ hname => (yields_expect _ _).bind fun _ _ =>
    (yields_identifier _).bind fun _ htable => (yields_expect _ _).bind fun _ _ =>
      (yields_identifier _).bind fun _ hcolumn => (yields_expect _ _).bind fun _ _ =>
        ensures_pure ⟨hname, htable, hcolumn⟩

theorem yields_parseInsert :
    Yields parseInsert fun command => (Query.insert command).WellFormed :=
  (yields_expect _ _).bind fun _ _ => (yields_identifier _).bind fun _ htable =>
    (yields_expect _ _).bind fun _ _ =>
      (yields_commaSeparated yields_parseTuple).bind fun _ hrows =>
      ensures_pure ⟨htable, hrows.2⟩

theorem yields_parseUpdate :
    Yields parseUpdate fun command => (Query.update command).WellFormed :=
  (yields_identifier _).bind fun _ htable => (yields_expect _ _).bind fun _ _ =>
    (yields_identifier _).bind fun _ hcolumn => (yields_expect _ _).bind fun _ _ =>
      yields_parseValue.bind fun _ _ => yields_parseWhere.bind fun _ hwhere =>
        ensures_pure ⟨htable, hcolumn, hwhere⟩

theorem yields_parseDelete :
    Yields parseDelete fun command => (Query.delete command).WellFormed :=
  (yields_expect _ _).bind fun _ _ => (yields_identifier _).bind fun _ htable =>
    yields_parseWhere.bind fun _ hwhere => ensures_pure ⟨htable, hwhere⟩

theorem yields_parseSelect : Yields parseSelect fun _ => True := drops_parseSelect.yields

theorem yields_parsePrepare : Yields parsePrepare fun _ => True :=
  (yields_identifier _).bind fun _ _ => (yields_expect _ _).bind fun _ _ =>
    yields_advance.bind fun _ _ => ensures_ite (fun _ => ensures_throw _) fun _ =>
      ensures_pure trivial

theorem yields_parseExecutePrepared : Yields parseExecutePrepared fun _ => True :=
  (yields_identifier _).bind fun _ _ => yields_keyword fun _ =>
    ensures_ite (fun _ => yields_parseTuple.bind fun _ _ => ensures_pure trivial) fun _ =>
      ensures_pure trivial

theorem yields_parseLoadDatabase : Yields parseLoadDatabase fun _ => True :=
  yields_peek.bind fun _ _ => ensures_ite (fun _ => yields_advance.bind fun _ _ =>
    ensures_pure trivial) fun _ => ensures_pure trivial

theorem yields_parseCreate : Yields parseCreate Query.WellFormed := by
  refine yields_keyword fun _ => ensures_ite (fun _ => ?_) fun _ => ?_
  · exact Ensures.bind ((yields_identifier _).bind fun _ hname => ensures_pure hname)
      fun _ hname => ensures_pure hname
  refine yields_keyword fun _ => ensures_ite (fun _ => ?_) fun _ => ?_
  · exact yields_parseCreateTable.bind fun _ h => ensures_pure h
  refine yields_keyword fun _ => ensures_ite (fun _ => ?_) fun _ => ensures_throw _
  exact yields_parseCreateIndex.bind fun _ h => ensures_pure h

theorem yields_parseCommand : Yields parseCommand Query.WellFormed := by
  refine yields_keyword fun _ => ensures_ite (fun _ => ?_) fun _ => ?_
  · exact yields_parseCreate
  refine yields_keyword fun _ => ensures_ite (fun _ => ?_) fun _ => ?_
  · exact Ensures.bind ((yields_expect _ _).bind fun _ _ =>
      (yields_identifier _).bind fun _ hname =>
      ensures_pure hname) fun _ hname => ensures_pure hname
  refine yields_keyword fun _ => ensures_ite (fun _ => ?_) fun _ => ?_
  · exact yields_parseRenameTable.bind fun _ h => ensures_pure h
  refine yields_keyword fun _ => ensures_ite (fun _ => ?_) fun _ => ?_
  · exact (yields_expect _ _).bind fun _ _ => ensures_pure trivial
  refine yields_keyword fun _ => ensures_ite (fun _ => ?_) fun _ => ?_
  · exact yields_parseInsert.bind fun _ h => ensures_pure h
  refine yields_keyword fun _ => ensures_ite (fun _ => ?_) fun _ => ?_
  · exact yields_parseSelect.bind fun _ _ => ensures_pure trivial
  refine yields_keyword fun _ => ensures_ite (fun _ => ?_) fun _ => ?_
  · exact yields_parseUpdate.bind fun _ h => ensures_pure h
  refine yields_keyword fun _ => ensures_ite (fun _ => ?_) fun _ => ?_
  · exact yields_parseDelete.bind fun _ h => ensures_pure h
  refine yields_keyword fun _ => ensures_ite (fun _ => ?_) fun _ => ?_
  · exact (yields_expect _ _).bind fun _ _ => ensures_pure trivial
  refine yields_keyword fun _ => ensures_ite (fun _ => ?_) fun _ => ?_
  · exact (yields_expect _ _).bind fun _ _ => yields_parseLoadDatabase.bind fun _ _ =>
      ensures_pure trivial
  refine yields_keyword fun _ => ensures_ite (fun _ => ensures_pure trivial) fun _ => ?_
  refine yields_keyword fun _ => ensures_ite (fun _ => ensures_pure trivial) fun _ => ?_
  refine yields_keyword fun _ => ensures_ite (fun _ => ensures_pure trivial) fun _ => ?_
  refine yields_keyword fun _ => ensures_ite (fun _ => ?_) fun _ => ?_
  · exact yields_parsePrepare.bind fun _ _ => ensures_pure trivial
  refine yields_keyword fun _ => ensures_ite (fun _ => ?_) fun _ => ?_
  · exact yields_parseExecutePrepared.bind fun _ _ => ensures_pure trivial
  exact yields_keyword fun _ => ensures_ite (fun _ => ensures_pure trivial) fun _ =>
    ensures_throw _

/-- **Every command that the parser returns is well formed.** -/
theorem wellFormed_of_parse {sql : Str} {query : Query} (h : parse sql = .ok query) :
    query.WellFormed := by
  obtain ⟨tokens, htokens, h⟩ := bind_eq_ok_iff.1 h
  obtain ⟨⟨found, rest⟩, hstatement, h⟩ := bind_eq_ok_iff.1 h
  cases h
  obtain ⟨found, mid, hcommand, h⟩ := bind_apply_eq_ok_iff.1 hstatement
  obtain ⟨_, _, -, h⟩ := bind_apply_eq_ok_iff.1 h
  cases h
  exact (yields_parseCommand tokens _ mid (namesIdentifiers_tokenizeFrom htokens) hcommand).1

end Parser

end VertexDB
