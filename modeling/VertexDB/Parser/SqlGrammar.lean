import VertexDB.Lib.Grammar
import VertexDB.Parser.PredicateGrammar
import VertexDB.Parser.Spelling

/-!
# The grammar of SQL texts

`Sql.statement` is the grammar of the statements.  Its phrases are lists of tokens; keywords are
read in any letter case.  `parse_iff` shows that the parser, which decides by the next token and
never goes back, reads all of its phrases and nothing else.
-/

namespace VertexDB

open Ascii Grammar Reading Failure

namespace Sql

open VertexDB.Parser

/-! ### Tokens -/

/-- A keyword. -/
def word (w : String) : Grammar Token Unit := one fun token _ => IsWord w token

/-- A token that is only there to separate others. -/
def punctuation (type : TokenType) : Grammar Token Unit := one fun token _ => token.type = type

/-- The text of a token. -/
def lexeme (type : TokenType) : Grammar Token Str := one fun token text => token = ⟨type, text⟩

/-- A name; keywords are names too. -/
def name : Grammar Token Str := lexeme .identifier

/-- A literal. -/
def literal : Grammar Token Value := one Literal

/-- A predicate. -/
def predicate : Grammar Token Predicate := Derives .disjunction

/-- Phrases with commas between them. -/
def list {α : Type} (item : Grammar Token α) : Grammar Token (List α) :=
  separated (fun token => token.type = .comma) item

/-! ### Clauses -/

/-- `NOT NULL`, `NULL` or nothing. -/
def nullability : Grammar Token Bool := oneOf [
  do word "NOT"; word "NULL"; return false,
  do word "NULL"; return true,
  return false]

/-- A column of `CREATE TABLE`. -/
def column : Grammar Token Column := do
  let columnName ← name
  let typeName ← name
  let type ← suchThat (columnTypeFromString typeName = some ·)
  let nullable ← nullability
  return ⟨columnName, type, nullable⟩

/-- Literals in parentheses. -/
def tuple : Grammar Token (List Value) := do
  punctuation .leftParen
  let values ← list literal
  punctuation .rightParen
  return values

/-- What a SELECT selects. -/
def selection : Grammar Token (List Str) := oneOf [
  do punctuation .star; return [bytes "*"],
  list name]

/-- `JOIN table ON column = column`, or nothing. -/
def join : Grammar Token (Option JoinClause) := oneOf [
  do
    word "JOIN"
    let joinedTable ← name
    word "ON"
    let leftColumn ← name
    punctuation .equal
    let rightColumn ← name
    return some ⟨joinedTable, leftColumn, rightColumn⟩,
  return none]

/-- `WHERE predicate`, or nothing. -/
def condition : Grammar Token (Option Predicate) := oneOf [
  do word "WHERE"; let found ← predicate; return some found,
  return none]

/-- `DESC`, `ASC` or nothing. -/
def direction : Grammar Token Bool := oneOf [
  do word "DESC"; return false,
  do word "ASC"; return true,
  return true]

/-- `ORDER BY column` with a direction, or nothing. -/
def order : Grammar Token (Option OrderBy) := oneOf [
  do
    word "ORDER"
    word "BY"
    let column ← name
    let ascending ← direction
    return some ⟨column, ascending⟩,
  return none]

/-- `LIMIT integer`, or nothing. -/
def limit : Grammar Token (Option ℕ) := oneOf [
  do
    word "LIMIT"
    let count ← lexeme .number
    let i ← suchThat (parseInt count = .ok ·)
    return some i.toBits,
  return none]

/-! ### Statements -/

/-- What follows `CREATE DATABASE`. -/
def createDatabase : Grammar Token CreateDatabase := do
  let database ← name
  return ⟨database⟩

/-- What follows `CREATE TABLE`. -/
def createTable : Grammar Token CreateTable := do
  let table ← name
  punctuation .leftParen
  let columns ← list column
  punctuation .rightParen
  return ⟨table, columns⟩

/-- What follows `CREATE INDEX`. -/
def createIndex : Grammar Token CreateIndex := do
  let index ← name
  word "ON"
  let table ← name
  punctuation .leftParen
  let column ← name
  punctuation .rightParen
  return ⟨index, table, column⟩

/-- What follows `CREATE`. -/
def create : Grammar Token Query := oneOf [
  do word "DATABASE"; let found ← createDatabase; return .createDatabase found,
  do word "TABLE"; let found ← createTable; return .createTable found,
  do word "INDEX"; let found ← createIndex; return .createIndex found]

/-- What follows `DROP`. -/
def dropTable : Grammar Token DropTable := do
  word "TABLE"
  let table ← name
  return ⟨table⟩

/-- What follows `RENAME`. -/
def renameTable : Grammar Token RenameTable := do
  word "TABLE"
  let oldName ← name
  word "TO"
  let newName ← name
  return ⟨oldName, newName⟩

/-- What follows `INSERT`. -/
def insert : Grammar Token Insert := do
  word "INTO"
  let table ← name
  word "VALUES"
  let rows ← list tuple
  return ⟨table, rows⟩

/-- What follows `SELECT`. -/
def select : Grammar Token Select := do
  let columns ← selection
  word "FROM"
  let table ← name
  let join ← join
  let where_ ← condition
  let orderBy ← order
  let limit ← limit
  return ⟨table, join, columns, where_, orderBy, limit⟩

/-- What follows `UPDATE`. -/
def update : Grammar Token Update := do
  let table ← name
  word "SET"
  let column ← name
  punctuation .equal
  let value ← literal
  let where_ ← condition
  return ⟨table, column, value, where_⟩

/-- What follows `DELETE`. -/
def delete : Grammar Token Delete := do
  word "FROM"
  let table ← name
  let where_ ← condition
  return ⟨table, where_⟩

/-- A name after `LOAD DATABASE`, or nothing. -/
def loadDatabase : Grammar Token LoadDatabase := oneOf [
  do let database ← name; return ⟨some database⟩,
  return ⟨none⟩]

/-- What follows `PREPARE`. -/
def prepareStatement : Grammar Token PrepareStatement := do
  let statement ← name
  word "AS"
  let sql ← lexeme .string
  return ⟨statement, sql⟩

/-- What follows `EXECUTE`. -/
def executePrepared : Grammar Token ExecutePrepared := do
  let statement ← name
  oneOf [
    do word "VALUES"; let parameters ← tuple; return ⟨statement, parameters⟩,
    return ⟨statement, []⟩]

/-- The commands, each with the keyword that it starts with. -/
def commands : List (Grammar Token Query) := [
  do word "CREATE"; create,
  do word "DROP"; let found ← dropTable; return .dropTable found,
  do word "RENAME"; let found ← renameTable; return .renameTable found,
  do word "LIST"; word "TABLES"; return .listTables,
  do word "INSERT"; let found ← insert; return .insert found,
  do word "SELECT"; let found ← select; return .select found,
  do word "UPDATE"; let found ← update; return .update found,
  do word "DELETE"; let found ← delete; return .delete found,
  do word "SAVE"; word "DATABASE"; return .saveDatabase,
  do word "LOAD"; word "DATABASE"; let found ← loadDatabase; return .loadDatabase found,
  do word "BEGIN"; return .beginTransaction,
  do word "COMMIT"; return .commitTransaction,
  do word "ROLLBACK"; return .rollbackTransaction,
  do word "PREPARE"; let found ← prepareStatement; return .prepareStatement found,
  do word "EXECUTE"; let found ← executePrepared; return .executePrepared found,
  do word "EXIT"; return .exit]

/-- A command. -/
def command : Grammar Token Query := oneOf commands

/-- A semicolon, which may be left out, and the end of the text. -/
def ending : Grammar Token Unit := do
  oneOf [punctuation .semicolon, return ()]
  punctuation .end

/-- A command up to the end of the text. -/
def statement : Grammar Token Query := do
  let found ← command
  ending
  return found

end Sql

namespace Parser

open Sql

variable {α : Type} {stop : List Token → Prop}

/-! ### Tokens -/

theorem tests_keyword {w : String} (hw : bytes w ≠ []) : Tests (IsWord w) (keyword w) where
  taken := fun _ rest h => keyword_of_isWord h rest
  left := fun token rest h => keyword_of_not_begins hw (List.cons_ne_nil token rest) (by
    rintro ⟨_, _, ⟨⟩, hword⟩
    exact h hword)
  fails := by rintro _ ⟨⟩

theorem isMatch_nil_iff {token : Token} {type : TokenType} :
    IsMatch token type [] ↔ token.type = type := by
  rw [IsMatch, and_iff_left (.inl rfl)]

theorem tests_matchToken {type : TokenType} (hend : type ≠ .end) :
    Tests (fun token => token.type = type) (matchToken type []) where
  taken := fun _ _ h => matchToken_of_isMatch (isMatch_nil_iff.2 h) hend
  left := fun _ _ h => matchToken_of_not_isMatch fun hmatch => h (isMatch_nil_iff.1 hmatch)
  fails := by rintro _ ⟨⟩

theorem next_of_type {token : Token} {type type' : TokenType} (h : token.type = type)
    (hne : type ≠ type') (rest : List Token) :
    Next (fun token => token.type ≠ type') (token :: rest) :=
  ⟨token, rest, rfl, fun heq => hne (h.symm.trans heq)⟩

theorem accepts_expectKeyword {w : String} (hw : bytes w ≠ []) :
    Accepts (fun _ => True) (expectKeyword w) (word w) := by
  have h : expectKeyword w = (keyword w >>= fun found =>
      if found = true then pure () else throw (.runtimeError "unexpected token")) := by
    refine bind_congr fun found => ?_
    cases found <;> rfl
  rw [h]
  exact accepts_one_of_tests (tests_keyword hw) _

theorem accepts_expect {type : TokenType} (hend : type ≠ .end) :
    Accepts (fun _ => True) (expect type []) (punctuation type) := by
  have h : expect type [] = (matchToken type [] >>= fun found =>
      if found = true then pure () else throw (.runtimeError "unexpected token")) := by
    refine bind_congr fun found => ?_
    cases found <;> rfl
  rw [h]
  exact accepts_one_of_tests (tests_matchToken hend) _

/-- A token that has to be of one type. -/
theorem accepts_lexeme_bind {type : TokenType} (hend : type ≠ .end) {message : String}
    {f : Token → Parser α} {g : Str → Grammar Token α}
    (h : ∀ text, Accepts stop (f ⟨type, text⟩) (g text)) :
    Accepts stop (advance >>= fun token =>
      if token.type ≠ type then throw (.runtimeError message) else f token)
      (lexeme type >>= g) where
  derives := by
    intro tokens x rest hx
    obtain ⟨text, middle, rfl, hf⟩ := ofType_ok hend hx
    obtain ⟨phrase, rfl, hphrase⟩ := (h text).derives middle x rest hf
    exact ⟨⟨type, text⟩ :: phrase, rfl, one_bind_iff.2 ⟨_, text, phrase, rfl, rfl, hphrase⟩⟩
  reads := by
    intro phrase x hx rest hrest
    obtain ⟨_, text, right, rfl, rfl, hright⟩ := one_bind_iff.1 hx
    have hadvance : advance (⟨type, text⟩ :: (right ++ rest)) =
        .ok (⟨type, text⟩, right ++ rest) := advance_cons hend
    refine (bind_apply_of_eq hadvance).trans ?_
    rw [if_neg (not_not.2 rfl)]
    exact (h text).reads right x hright rest hrest

theorem accepts_identifier (message : String) :
    Accepts (fun _ => True) (identifier message) name := by
  have h : Accepts (fun _ => True) (identifier message)
      (lexeme .identifier >>= fun text => pure text) :=
    accepts_lexeme_bind (by decide) fun text => accepts_pure text
  refine ⟨fun tokens x rest hx => ?_, fun phrase x hx => h.reads phrase x ?_⟩
  · obtain ⟨_, rfl, x, left, _, rfl, hleft, rfl, rfl⟩ := h.derives tokens x rest hx
    exact ⟨left, by rw [List.append_nil], hleft⟩
  · exact ⟨x, phrase, [], (List.append_nil phrase).symm, hx, rfl, rfl⟩

theorem accepts_parseValue : Accepts (fun _ => True) parseValue literal where
  derives := by
    intro tokens value rest h
    obtain ⟨token, rfl, hliteral⟩ := literal_of_parseValue h
    exact ⟨[token], rfl, token, rfl, hliteral⟩
  reads := by
    rintro _ value ⟨token, rfl, hliteral⟩ rest -
    exact parseValue_of_literal hliteral rest

theorem accepts_parsePredicate :
    Accepts (fun rest => Stops "AND" rest ∧ Stops "OR" rest) parsePredicate predicate where
  derives := by
    intro tokens p rest h
    obtain ⟨used, htokens, hderives, -⟩ := parsePredicateTo_ok h
    exact ⟨used, htokens, hderives⟩
  reads := by
    intro phrase p hderives rest hrest
    have hread : ReadAs (phrase ++ rest).length phrase p .disjunction :=
      readAs_of_derives hderives (by simp)
    exact hread rest hrest

/-! ### Lists -/

/-- The next token is there and is no comma. -/
abbrev NoComma : List Token → Prop := Next fun token => token.type ≠ .comma

theorem commaLoop_derives {item : Parser α} {g : Grammar Token α}
    (hitem : Accepts stop item g) {fuel : ℕ} {tokens rest : List Token} {xs : List α}
    (h : commaLoop item fuel tokens = .ok (xs, rest)) :
    ∃ phrase, tokens = phrase ++ rest ∧ list g phrase xs := by
  induction fuel generalizing tokens xs with
  | zero => cases h
  | succ fuel ih =>
    obtain ⟨x, middle, hx, hafter⟩ := bind_apply_eq_ok_iff.1 h
    obtain ⟨found, after, htest, hmore⟩ := bind_apply_eq_ok_iff.1 hafter
    clear h hafter
    obtain ⟨phrase, rfl, hphrase⟩ := hitem.derives tokens x middle hx
    rcases (tests_matchToken (by decide)).ok htest with ⟨token, rfl, rfl, hcomma⟩ | ⟨rfl, rfl, -⟩
    · obtain ⟨ys, left, hys, ⟨⟩⟩ := bind_apply_eq_ok_iff.1 hmore
      obtain ⟨more, rfl, hlist⟩ := ih hys
      exact ⟨phrase ++ token :: more, by simp, .cons hphrase hcomma hlist⟩
    · cases hmore
      exact ⟨phrase, rfl, .last hphrase⟩

/-- With fuel for all items the loop reads them. -/
theorem commaLoop_reads {item : Parser α} {g : Grammar Token α} (hitem : Accepts stop item g)
    (hcomma : ∀ token rest, token.type = .comma → stop (token :: rest)) {phrase : List Token}
    {xs : List α} (h : list g phrase xs) {fuel : ℕ} (hfuel : xs.length ≤ fuel) :
    ReadsBefore (fun rest => stop rest ∧ NoComma rest) (commaLoop item fuel) xs phrase := by
  induction h generalizing fuel with
  | @last phrase x h =>
    obtain ⟨fuel, rfl⟩ := Nat.exists_eq_add_one.2 (Nat.lt_of_lt_of_le Nat.one_pos hfuel)
    rintro rest ⟨hstop, token, tail, rfl, htoken⟩
    refine (bind_apply_of_eq (hitem.reads phrase x h _ hstop)).trans ?_
    exact bind_apply_of_eq ((tests_matchToken (by decide)).left token tail htoken)
  | @cons phrase more x xs token h htoken hmore ih =>
    obtain ⟨fuel, rfl⟩ := Nat.exists_eq_add_one.2 (Nat.zero_lt_of_lt hfuel)
    intro rest hrest
    have hnext := hitem.reads phrase x h (token :: (more ++ rest)) (hcomma _ _ htoken)
    have htest := (tests_matchToken (by decide)).taken token (more ++ rest) htoken
    have hothers := ih (Nat.le_of_succ_le_succ hfuel) rest hrest
    rw [List.append_assoc, List.cons_append]
    exact (bind_apply_of_eq hnext).trans <|
      (bind_apply_of_eq htest).trans (bind_apply_of_eq hothers)

theorem accepts_commaSeparated {item : Parser α} {g : Grammar Token α} (hitem : Accepts stop item g)
    (hcomma : ∀ token rest, token.type = .comma → stop (token :: rest)) :
    Accepts (fun rest => stop rest ∧ NoComma rest) (commaSeparated item) (list g) where
  derives := fun tokens xs rest h => commaLoop_derives hitem h
  reads := by
    intro phrase xs h rest hrest
    have hfuel := Grammar.Separated.length_le h
    have hread := commaLoop_reads hitem hcomma h
      (show xs.length ≤ (phrase ++ rest).length + 1 by rw [List.length_append]; omega)
    exact hread rest hrest

/-! ### What comes next -/

/-- One of the keywords. -/
def Among (ws : List String) (token : Token) : Prop := ∃ w ∈ ws, IsWord w token

/-- The end of a statement or one of the keywords. -/
def Ends (ws : List String) (token : Token) : Prop :=
  token.type = .semicolon ∨ token.type = .end ∨ Among ws token

theorem Among.not_isWord {ws : List String} {w : String} {token : Token} (h : Among ws token)
    (hw : ∀ w' ∈ ws, equalsIgnoreCase (bytes w') (bytes w) = false) : ¬ IsWord w token := by
  obtain ⟨w', hmem, -, hw'⟩ := h
  rintro ⟨-, hword⟩
  have hsame : (bytes w').map toUpper = (bytes w).map toUpper :=
    (eq_of_beq hw').symm.trans (eq_of_beq hword)
  have hdiffer := hw w' hmem
  rw [equalsIgnoreCase, hsame, beq_self_eq_true] at hdiffer
  cases hdiffer

theorem Ends.not_isWord {ws : List String} {w : String} {token : Token} (h : Ends ws token)
    (hw : ∀ w' ∈ ws, equalsIgnoreCase (bytes w') (bytes w) = false) : ¬ IsWord w token := by
  rcases h with h | h | h
  · rintro ⟨hidentifier, -⟩
    rw [h] at hidentifier
    cases hidentifier
  · rintro ⟨hidentifier, -⟩
    rw [h] at hidentifier
    cases hidentifier
  · exact h.not_isWord hw

theorem Ends.type_ne {ws : List String} {token : Token} (h : Ends ws token) {type : TokenType}
    (hsemicolon : type ≠ .semicolon) (hend : type ≠ .end) (hidentifier : type ≠ .identifier) :
    token.type ≠ type := by
  rcases h with h | h | ⟨_, -, h, -⟩ <;> rw [h]
  · exact hsemicolon.symm
  · exact hend.symm
  · exact hidentifier.symm

theorem Ends.mono {ws ws' : List String} {token : Token} (h : Ends ws token) (hsub : ws ⊆ ws') :
    Ends ws' token := by
  rcases h with h | h | ⟨w, hmem, h⟩
  · exact .inl h
  · exact .inr (.inl h)
  · exact .inr (.inr ⟨w, hsub hmem, h⟩)

/-- What comes next is the end of the statement or one of the keywords. -/
abbrev Before (ws : List String) : List Token → Prop := Next (Ends ws)

theorem Before.stops {ws : List String} {rest : List Token} (h : Before ws rest) {w : String}
    (hw : ∀ w' ∈ ws, equalsIgnoreCase (bytes w') (bytes w) = false) : Stops w rest := by
  obtain ⟨token, tail, rfl, hends⟩ := h
  refine ⟨List.cons_ne_nil token tail, ?_⟩
  rintro ⟨_, _, ⟨⟩, hword⟩
  exact hends.not_isWord hw hword

/-- A clause that starts with a keyword, or nothing. -/
theorem accepts_clause {w : String} {ws : List String} {p : Parser (Option α)}
    {g : Grammar Token (Option α)} (hw : bytes w ≠ [])
    (hne : ∀ w' ∈ ws, equalsIgnoreCase (bytes w') (bytes w) = false)
    (h : Accepts (Before ws) p g) :
    Accepts (Before ws) (keyword w >>= fun found => if found = true then p else pure none)
      (oneOf [word w >>= fun _ => g, pure none]) := by
  refine Accepts.choice (tests_keyword hw) h (accepts_pure none).oneOf_singleton ?_
  intro phrase x rest hx hrest
  obtain ⟨rfl, -⟩ := oneOf_singleton_iff.1 hx
  exact Next.mono hrest fun token hends => hends.not_isWord hne

theorem leads_clause {w : String} {ws : List String} {g : Grammar Token (Option α)} :
    Leads (oneOf [word w >>= fun _ => g, pure none]) (Ends ws) (Ends (w :: ws)) := by
  refine leads_oneOf_cons (leads_one_bind fun token _ h => ?_) <|
    leads_oneOf_cons (leads_pure fun token h => h.mono (List.subset_cons_self w ws)) leads_oneOf_nil
  exact .inr (.inr ⟨w, List.mem_cons_self, h⟩)

/-! ### Clauses -/

theorem accepts_parseNullable :
    Accepts (Next fun token => token.type ≠ .identifier) parseNullable nullability := by
  have hnext {w : String} (token : Token) (h : token.type ≠ .identifier) : ¬ IsWord w token :=
    fun hword => h hword.1
  have hnull : Accepts (Next fun token => token.type ≠ .identifier) (keyword "NULL")
      (oneOf [do word "NULL"; return true, return false]) := by
    have h : keyword "NULL" =
        (keyword "NULL" >>= fun found => if found = true then pure true else pure false) := by
      conv_lhs => rw [← bind_pure (keyword "NULL")]
      refine bind_congr fun found => ?_
      cases found <;> rfl
    rw [h]
    refine Accepts.choice (tests_keyword (by decide)) (accepts_pure true)
      (accepts_pure false).oneOf_singleton ?_
    intro phrase x rest hx hrest
    obtain ⟨rfl, -⟩ := oneOf_singleton_iff.1 hx
    exact Next.mono hrest hnext
  refine Accepts.choice (tests_keyword (by decide)) ?_ hnull ?_
  · exact (accepts_expectKeyword (by decide)).before fun _ => accepts_pure false
  · intro phrase x rest hx hrest
    refine leads_oneOf_cons (leads_one_bind fun token _ h => ?_)
      (leads_oneOf_cons (leads_pure hnext) leads_oneOf_nil) phrase x rest hx hrest
    have hamong : Among ["NULL"] token := ⟨"NULL", List.mem_singleton_self _, h⟩
    exact hamong.not_isWord (by decide)

theorem accepts_parseColumn :
    Accepts (Next fun token => token.type ≠ .identifier) parseColumn column := by
  refine (accepts_identifier _).before fun columnName => (accepts_identifier _).before
    fun typeName => ?_
  cases htype : columnTypeFromString typeName with
  | none =>
    refine ⟨by rintro _ _ _ ⟨⟩, ?_⟩
    rintro _ x ⟨type, _, _, -, ⟨-, ⟨⟩⟩, -⟩
  | some type =>
    have h : Accepts (Next fun token => token.type ≠ .identifier)
        (parseNullable >>= fun nullable => pure ⟨columnName, type, nullable⟩)
        (nullability >>= fun nullable => (pure ⟨columnName, type, nullable⟩ :
          Grammar Token Column)) := accepts_parseNullable.map
    refine ⟨fun tokens x rest hx => ?_, ?_⟩
    · obtain ⟨phrase, htokens, hphrase⟩ := h.derives tokens x rest hx
      exact ⟨phrase, htokens, type, [], phrase, rfl, ⟨rfl, rfl⟩, hphrase⟩
    · rintro _ x ⟨_, _, right, rfl, ⟨rfl, ⟨⟩⟩, hright⟩
      exact h.reads right x hright

theorem accepts_parseTuple : Accepts (fun _ => True) parseTuple tuple := by
  refine (accepts_expect (by decide)).before fun _ => ?_
  have hvalues : Accepts (fun rest => True ∧ NoComma rest) (commaSeparated parseValue)
      (list literal) := accepts_commaSeparated accepts_parseValue fun _ _ _ => trivial
  refine hvalues.bind (fun values => (accepts_expect (by decide)).before fun _ =>
    accepts_pure values) ?_
  intro values phrase x rest hx _
  obtain ⟨token, -, right, rfl, hclose, -⟩ := one_bind_iff.1 hx
  exact ⟨trivial, next_of_type hclose (by decide) _⟩

theorem accepts_parseSelectColumns : Accepts NoComma parseSelectColumns selection := by
  have hnames : Accepts NoComma (commaSeparated (identifier "expected selected column"))
      (list name) :=
    (accepts_commaSeparated (accepts_identifier _) fun _ _ _ => trivial).mono
      fun _ hrest => ⟨trivial, hrest⟩
  refine Accepts.choice (tests_matchToken (by decide)) (accepts_pure _) hnames.oneOf_singleton ?_
  intro phrase names rest hx _
  -- every list of names starts with a name
  have hname {phrase : List Token} {found : Str} (h : name phrase found) (rest : List Token) :
      Next (fun token => ¬ token.type = .star) (phrase ++ rest) := by
    obtain ⟨_, rfl, rfl⟩ := h
    exact ⟨_, rest, rfl, by rintro ⟨⟩⟩
  cases oneOf_singleton_iff.1 hx with
  | last h => exact hname h rest
  | cons h hcomma hmore =>
    rw [List.append_assoc]
    exact hname h _

theorem accepts_parseJoin : Accepts (Before ["WHERE", "ORDER", "LIMIT"]) parseJoin join :=
  accepts_clause (by decide) (by decide) <|
    (accepts_identifier _).before fun _ => (accepts_expectKeyword (by decide)).before fun _ =>
    (accepts_identifier _).before fun _ => (accepts_expect (by decide)).before fun _ =>
    (accepts_identifier _).before fun _ => accepts_pure _

theorem accepts_parseWhere : Accepts (Before ["ORDER", "LIMIT"]) parseWhere condition := by
  have hpredicate : Accepts (Before ["ORDER", "LIMIT"]) parsePredicate predicate :=
    accepts_parsePredicate.mono fun _ hrest => ⟨hrest.stops (by decide), hrest.stops (by decide)⟩
  exact accepts_clause (by decide) (by decide) hpredicate.map

theorem accepts_parseAscending : Accepts (Before ["LIMIT"]) parseAscending direction := by
  have hnext {phrase rest : List Token} {x : Bool} {w : String}
      (hw : ∀ w' ∈ ["ASC", "LIMIT"], equalsIgnoreCase (bytes w') (bytes w) = false)
      (hx : oneOf [do word "ASC"; return true, return true] phrase x)
      (hrest : Before ["LIMIT"] rest) : Next (fun token => ¬ IsWord w token) (phrase ++ rest) := by
    rcases oneOf_cons_iff.1 hx with hx | hx
    · obtain ⟨token, -, right, rfl, htoken, -⟩ := one_bind_iff.1 hx
      refine ⟨token, right ++ rest, rfl, ?_⟩
      have hamong : Among ["ASC", "LIMIT"] token := ⟨"ASC", by simp, htoken⟩
      exact hamong.not_isWord hw
    · obtain ⟨rfl, -⟩ := oneOf_singleton_iff.1 hx
      exact Next.mono hrest fun token hends => hends.not_isWord fun w' hw' =>
        hw w' (List.mem_cons_of_mem _ hw')
  refine Accepts.choice (tests_keyword (by decide)) (accepts_pure false) ?_
    fun _ _ _ => hnext (by decide)
  have h : (keyword "ASC" >>= fun _ => pure true) =
      (keyword "ASC" >>= fun found => if found = true then pure true else pure true) := by
    refine bind_congr fun found => ?_
    cases found <;> rfl
  rw [h]
  refine Accepts.choice (tests_keyword (by decide)) (accepts_pure true)
    (accepts_pure true).oneOf_singleton ?_
  intro phrase x rest hx hrest
  obtain ⟨rfl, -⟩ := oneOf_singleton_iff.1 hx
  exact Next.mono hrest fun token hends => hends.not_isWord (by decide)

theorem accepts_parseOrderBy : Accepts (Before ["LIMIT"]) parseOrderBy order :=
  accepts_clause (by decide) (by decide) <|
    (accepts_expectKeyword (by decide)).before fun _ => (accepts_identifier _).before fun _ =>
    accepts_parseAscending.map

theorem accepts_parseLimit : Accepts (Before []) parseLimit limit :=
  accepts_clause (by decide) (by decide) <|
    accepts_lexeme_bind (by decide) fun _ => accepts_lift.map

/-! ### Statements -/

theorem accepts_parseSelect : Accepts (Before []) parseSelect select := by
  -- the clauses start with their keywords, in this order
  have hlimit {α : Type} (f : Option ℕ → α) :
      Leads (limit >>= fun limit => pure (f limit)) (Ends []) (Ends ["LIMIT"]) :=
    leads_clause.bind fun _ => leads_pure fun _ h => h
  have horder {α : Type} (f : Option OrderBy → Option ℕ → α) :
      Leads (order >>= fun orderBy => limit >>= fun limit => pure (f orderBy limit)) (Ends [])
        (Ends ["ORDER", "LIMIT"]) := leads_clause.bind fun orderBy => hlimit (f orderBy)
  have hwhere {α : Type} (f : Option Predicate → Option OrderBy → Option ℕ → α) :
      Leads (condition >>= fun where_ => order >>= fun orderBy => limit >>= fun limit =>
        pure (f where_ orderBy limit)) (Ends []) (Ends ["WHERE", "ORDER", "LIMIT"]) :=
    leads_clause.bind fun where_ => horder (f where_)
  refine accepts_parseSelectColumns.bind (fun columns =>
    (accepts_expectKeyword (by decide)).before fun _ => (accepts_identifier _).before fun table =>
    accepts_parseJoin.bind (fun join => accepts_parseWhere.bind (fun where_ =>
      accepts_parseOrderBy.bind (fun orderBy => accepts_parseLimit.map)
        fun _ => hlimit _) fun _ => horder _) fun _ => hwhere _) ?_
  rintro columns phrase x rest hx -
  obtain ⟨token, -, right, rfl, hfrom, -⟩ := one_bind_iff.1 hx
  exact next_of_type hfrom.1 (by decide) _

theorem accepts_parseUpdate : Accepts (Before []) parseUpdate update :=
  (accepts_identifier _).before fun _ => (accepts_expectKeyword (by decide)).before fun _ =>
    (accepts_identifier _).before fun _ => (accepts_expect (by decide)).before fun _ =>
    accepts_parseValue.before fun _ =>
    (accepts_parseWhere.mono fun _ hrest => hrest.mono fun _ h => h.mono (by simp)).map

theorem accepts_parseExecutePrepared :
    Accepts (Before []) parseExecutePrepared executePrepared := by
  refine (accepts_identifier _).before fun statement => Accepts.choice (tests_keyword (by decide))
    (accepts_parseTuple.before fun _ => accepts_pure _) (accepts_pure _).oneOf_singleton ?_
  intro phrase x rest hx hrest
  obtain ⟨rfl, -⟩ := oneOf_singleton_iff.1 hx
  exact Next.mono hrest fun token hends => hends.not_isWord (by decide)

/-- A parser that decides by keywords, none of which is another one. -/
structure Dispatches (ws : List String) (p : Parser Query) (gs : List (Grammar Token Query)) :
    Prop where
  accepts : Accepts (Before []) p (oneOf gs)
  starts : ∀ phrase query, oneOf gs phrase query → Next (Among ws) phrase

theorem dispatches_throw (e : Exception) : Dispatches [] (throw e) [] :=
  ⟨accepts_throw e, by rintro _ _ ⟨_, ⟨⟩, _⟩⟩

theorem Dispatches.cons {ws : List String} {p q : Parser Query} {g : Grammar Token Query}
    {gs : List (Grammar Token Query)} (h : Dispatches ws q gs) {w : String} (hw : bytes w ≠ [])
    (hne : ∀ w' ∈ ws, equalsIgnoreCase (bytes w') (bytes w) = false)
    (hp : Accepts (Before []) p g) :
    Dispatches (w :: ws) (keyword w >>= fun found => if found = true then p else q)
      ((word w >>= fun _ => g) :: gs) where
  accepts := by
    refine Accepts.choice (tests_keyword hw) hp h.accepts ?_
    intro phrase query rest hquery _
    obtain ⟨token, tail, rfl, hamong⟩ := h.starts phrase query hquery
    exact ⟨token, tail ++ rest, rfl, hamong.not_isWord hne⟩
  starts := by
    intro phrase query hquery
    rcases oneOf_cons_iff.1 hquery with hquery | hquery
    · obtain ⟨token, -, right, rfl, hword, -⟩ := one_bind_iff.1 hquery
      exact ⟨token, right, rfl, w, List.mem_cons_self, hword⟩
    · refine (h.starts phrase query hquery).mono ?_
      rintro token ⟨w', hmem, hword⟩
      exact ⟨w', List.mem_cons_of_mem w hmem, hword⟩

theorem accepts_parseCreateTable : Accepts (Before []) parseCreateTable createTable := by
  have hcolumns := accepts_commaSeparated accepts_parseColumn fun token rest hcomma =>
    next_of_type hcomma (by decide) rest
  refine (accepts_identifier _).before fun table => (accepts_expect (by decide)).before fun _ =>
    hcolumns.bind (fun columns => (accepts_expect (by decide)).before fun _ => accepts_pure _) ?_
  intro columns phrase x rest hx _
  obtain ⟨token, -, right, rfl, hclose, -⟩ := one_bind_iff.1 hx
  exact ⟨next_of_type hclose (by decide) _, next_of_type hclose (by decide) _⟩

theorem accepts_parseCreateIndex : Accepts (Before []) parseCreateIndex createIndex :=
  (accepts_identifier _).before fun _ => (accepts_expectKeyword (by decide)).before fun _ =>
    (accepts_identifier _).before fun _ => (accepts_expect (by decide)).before fun _ =>
    (accepts_identifier _).before fun _ => (accepts_expect (by decide)).before fun _ =>
    accepts_pure _

theorem accepts_parseCreate : Accepts (Before []) parseCreate create := by
  have hdatabase : Accepts (Before []) parseCreateDatabase createDatabase :=
    (accepts_identifier _).before fun _ => accepts_pure _
  have h : Dispatches ["DATABASE", "TABLE", "INDEX"] parseCreate _ :=
    (((dispatches_throw _).cons (by decide) (by decide) accepts_parseCreateIndex.map).cons
      (by decide) (by decide) accepts_parseCreateTable.map).cons (by decide) (by decide)
      hdatabase.map
  exact h.accepts

theorem accepts_parseDropTable : Accepts (Before []) parseDropTable dropTable :=
  (accepts_expectKeyword (by decide)).before fun _ => (accepts_identifier _).before fun _ =>
    accepts_pure _

theorem accepts_parseRenameTable : Accepts (Before []) parseRenameTable renameTable :=
  (accepts_expectKeyword (by decide)).before fun _ => (accepts_identifier _).before fun _ =>
    (accepts_expectKeyword (by decide)).before fun _ => (accepts_identifier _).before fun _ =>
    accepts_pure _

theorem accepts_parseInsert : Accepts (Before []) parseInsert insert := by
  have hrows : Accepts (Before []) (commaSeparated parseTuple) (list tuple) :=
    (accepts_commaSeparated accepts_parseTuple fun _ _ _ => trivial).mono fun _ hrest =>
      ⟨trivial, hrest.mono fun _ h => h.type_ne (by decide) (by decide) (by decide)⟩
  exact (accepts_expectKeyword (by decide)).before fun _ => (accepts_identifier _).before fun _ =>
    (accepts_expectKeyword (by decide)).before fun _ => hrows.map

theorem accepts_parseDelete : Accepts (Before []) parseDelete delete :=
  (accepts_expectKeyword (by decide)).before fun _ => (accepts_identifier _).before fun _ =>
    (accepts_parseWhere.mono fun _ hrest => hrest.mono fun _ h => h.mono (by simp)).map

theorem accepts_parseLoadDatabase : Accepts (Before []) parseLoadDatabase loadDatabase where
  derives := by
    intro tokens command rest h
    obtain ⟨⟨type, text⟩, left, hpeek, hbranch⟩ := bind_apply_eq_ok_iff.1 h
    match tokens with
    | [] => cases hpeek
    | token :: tail =>
      cases hpeek
      split_ifs at hbranch with htype
      · obtain rfl : type = .identifier := htype
        have hadvance : advance (⟨.identifier, text⟩ :: tail) =
            .ok (⟨.identifier, text⟩, tail) :=
              advance_cons (show TokenType.identifier ≠ .end by decide)
        rw [bind_apply_of_eq hadvance] at hbranch
        cases hbranch
        refine ⟨[⟨.identifier, text⟩], rfl, oneOf_cons_iff.2 (.inl ?_)⟩
        exact one_bind_iff.2 ⟨_, text, [], rfl, rfl, rfl, rfl⟩
      · cases hbranch
        exact ⟨[], rfl, oneOf_cons_iff.2 (.inr (oneOf_singleton_iff.2 ⟨rfl, rfl⟩))⟩
  reads := by
    intro phrase command h rest hrest
    rcases oneOf_cons_iff.1 h with h | h
    · obtain ⟨_, text, _, rfl, rfl, rfl, rfl⟩ := one_bind_iff.1 h
      rfl
    · obtain ⟨rfl, rfl⟩ := oneOf_singleton_iff.1 h
      obtain ⟨token, tail, rfl, hends⟩ := hrest
      have htype : token.type ≠ .identifier := by
        rcases hends with h | h | ⟨_, ⟨⟩, _⟩ <;> rw [h] <;> decide
      refine (bind_apply_of_eq (peek_cons token tail)).trans ?_
      rw [if_neg htype]
      rfl

theorem accepts_parsePrepare : Accepts (Before []) parsePrepare prepareStatement :=
  (accepts_identifier _).before fun _ => (accepts_expectKeyword (by decide)).before fun _ =>
    accepts_lexeme_bind (by decide) fun _ => accepts_pure _

theorem accepts_parseCommand : Accepts (Before []) parseCommand command := by
  have h : Dispatches ["CREATE", "DROP", "RENAME", "LIST", "INSERT", "SELECT", "UPDATE", "DELETE",
      "SAVE", "LOAD", "BEGIN", "COMMIT", "ROLLBACK", "PREPARE", "EXECUTE", "EXIT"]
      parseCommand commands := by
    refine .cons ?_ (by decide) (by decide) accepts_parseCreate
    refine .cons ?_ (by decide) (by decide) accepts_parseDropTable.map
    refine .cons ?_ (by decide) (by decide) accepts_parseRenameTable.map
    refine .cons ?_ (by decide) (by decide)
      ((accepts_expectKeyword (by decide)).before fun _ => accepts_pure Query.listTables)
    refine .cons ?_ (by decide) (by decide) accepts_parseInsert.map
    refine .cons ?_ (by decide) (by decide) accepts_parseSelect.map
    refine .cons ?_ (by decide) (by decide) accepts_parseUpdate.map
    refine .cons ?_ (by decide) (by decide) accepts_parseDelete.map
    refine .cons ?_ (by decide) (by decide)
      ((accepts_expectKeyword (by decide)).before fun _ => accepts_pure Query.saveDatabase)
    refine .cons ?_ (by decide) (by decide)
      ((accepts_expectKeyword (by decide)).before fun _ => accepts_parseLoadDatabase.map)
    refine .cons ?_ (by decide) (by decide) (accepts_pure Query.beginTransaction)
    refine .cons ?_ (by decide) (by decide) (accepts_pure Query.commitTransaction)
    refine .cons ?_ (by decide) (by decide) (accepts_pure Query.rollbackTransaction)
    refine .cons ?_ (by decide) (by decide) accepts_parsePrepare.map
    refine .cons ?_ (by decide) (by decide) accepts_parseExecutePrepared.map
    exact (dispatches_throw _).cons (by decide) (by decide) (accepts_pure Query.exit)
  exact h.accepts

/-! ### Whole texts -/

theorem ending_iff {tokens : List Token} : ending tokens () ↔ ∃ token, token.type = .end ∧
    (tokens = [token] ∨ ∃ lexeme, tokens = [⟨.semicolon, lexeme⟩, token]) := by
  constructor
  · rintro ⟨_, left, _, rfl, hleft, token, rfl, htoken⟩
    refine ⟨token, htoken, ?_⟩
    rcases oneOf_cons_iff.1 hleft with ⟨⟨_, lexeme⟩, rfl, rfl⟩ | hleft
    · exact .inr ⟨lexeme, rfl⟩
    · obtain ⟨rfl, -⟩ := oneOf_singleton_iff.1 hleft
      exact .inl rfl
  · rintro ⟨token, htoken, rfl | ⟨lexeme, rfl⟩⟩
    · exact ⟨(), [], [token], rfl, oneOf_cons_iff.2 (.inr (oneOf_singleton_iff.2 ⟨rfl, rfl⟩)),
        token, rfl, htoken⟩
    · exact ⟨(), [⟨.semicolon, lexeme⟩], [token], rfl, oneOf_cons_iff.2 (.inl ⟨_, rfl, rfl⟩),
        token, rfl, htoken⟩

theorem expectStatementEnd_of_ending {tokens : List Token} (h : ending tokens ()) :
    ∃ rest, expectStatementEnd tokens = .ok ((), rest) := by
  obtain ⟨⟨_, lexeme⟩, rfl, rfl | ⟨_, rfl⟩⟩ := ending_iff.1 h
  · exact ⟨_, rfl⟩
  · exact ⟨_, rfl⟩

theorem statement_iff {tokens : List Token} {query : Query} : statement tokens query ↔
    ∃ phrase rest, tokens = phrase ++ rest ∧ command phrase query ∧ ending rest () := by
  constructor
  · rintro ⟨_, phrase, _, rfl, hcommand, _, rest, _, rfl, hending, rfl, rfl⟩
    exact ⟨phrase, rest, by rw [List.append_nil], hcommand, hending⟩
  · rintro ⟨phrase, rest, rfl, hcommand, hending⟩
    exact ⟨query, phrase, rest, rfl, hcommand, (), rest, [], (List.append_nil rest).symm, hending,
      rfl, rfl⟩

theorem parseStatement_of_statement {tokens : List Token} {query : Query}
    (h : statement tokens query) : ∃ rest, parseStatement tokens = .ok (query, rest) := by
  obtain ⟨phrase, rest, rfl, hcommand, hending⟩ := statement_iff.1 h
  have hrest : Before [] rest := by
    obtain ⟨token, htoken, rfl | ⟨lexeme, rfl⟩⟩ := ending_iff.1 hending
    · exact ⟨token, [], rfl, .inr (.inl htoken)⟩
    · exact ⟨_, [token], rfl, .inl rfl⟩
  obtain ⟨left, hend⟩ := expectStatementEnd_of_ending hending
  have hread := accepts_parseCommand.reads phrase query hcommand rest hrest
  exact ⟨left, (bind_apply_of_eq hread).trans (bind_apply_of_eq hend)⟩

/-- No tokens make two statements. -/
theorem statement_unique {tokens : List Token} {query query' : Query} (h : statement tokens query)
    (h' : statement tokens query') : query = query' := by
  obtain ⟨rest, hparse⟩ := parseStatement_of_statement h
  obtain ⟨rest', hparse'⟩ := parseStatement_of_statement h'
  rw [hparse] at hparse'
  cases hparse'
  rfl

/-- **The parser accepts the language of the grammar**, from the bytes of the text to the query:
the text spells tokens that make a statement. -/
theorem parse_eq_ok_iff (sql : Str) (query : Query) : parse sql = .ok query ↔
    ∃ tokens, Tokenizer.Spells sql tokens ∧ statement tokens query := by
  constructor
  · intro h
    obtain ⟨tokens, htokens, hparse⟩ := bind_eq_ok_iff.1 h
    obtain ⟨⟨_, rest⟩, hstatement, ⟨⟩⟩ := bind_eq_ok_iff.1 hparse
    obtain ⟨_, left, hcommand, hend⟩ := bind_apply_eq_ok_iff.1 hstatement
    obtain ⟨_, _, hend, ⟨⟩⟩ := bind_apply_eq_ok_iff.1 hend
    obtain ⟨phrase, rfl, hphrase⟩ := accepts_parseCommand.derives tokens query left hcommand
    refine ⟨_, Tokenizer.tokenize_iff.1 htokens, statement_iff.2 ⟨phrase, left, rfl, hphrase, ?_⟩⟩
    -- the only end token is the last one
    have hsuffix : left <:+ phrase ++ left := List.suffix_append phrase left
    obtain ⟨token, tail, htype, rfl | ⟨lexeme, rfl⟩⟩ := expectStatementEnd_ok hend
    · rw [eq_end_of_suffix htokens hsuffix htype]
      exact ending_iff.2 ⟨_, rfl, .inl rfl⟩
    · rw [eq_end_of_suffix htokens ((List.suffix_cons _ _).trans hsuffix) htype]
      exact ending_iff.2 ⟨_, rfl, .inr ⟨lexeme, rfl⟩⟩
  · rintro ⟨tokens, hspells, hstatement⟩
    obtain ⟨rest, hparse⟩ := parseStatement_of_statement hstatement
    rw [parse, Tokenizer.tokenize_of_spells hspells, ok_bind, parseTokens, hparse]
    rfl

/-- Keywords are names where a name is read. -/
example : parse (bytes "select FROM from FROM join Join on a=b order BY desc DESC;") =
    .ok (.select ⟨bytes "FROM", some ⟨bytes "Join", bytes "a", bytes "b"⟩, [bytes "FROM"], none,
      some ⟨bytes "desc", false⟩, none⟩) := by
  decide +kernel

end Parser

end VertexDB
