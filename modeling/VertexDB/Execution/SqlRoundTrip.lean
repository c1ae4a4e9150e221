import VertexDB.Execution.SqlTokens
import VertexDB.Parser.PredicateGrammar

/-!
# The parser undoes SQL text

Each parsing function reads back what the token functions of `SqlTokens` write.  A function that
looks at the token after its own does so only for a keyword or a comma, so it reads back in front
of any other token: `ReadsBefore Punctuated`.  `parse_sql` puts the tokenizer and the parser
together.
-/

namespace VertexDB

open Ascii Reading

namespace Parser

/-! ### Single tokens -/

variable {token : Token} {type : TokenType} {rest : List Token}

theorem reads_matchToken (h : IsMatch token type []) (hend : type ≠ .end) :
    Reads (matchToken type []) true [token] := fun _ => matchToken_of_isMatch h hend

theorem reads_expect (h : IsMatch token type []) (hend : type ≠ .end) :
    Reads (expect type []) () [token] :=
  (reads_matchToken h hend).bind_nil (reads_pure ())

theorem isMatch_word (w : String) : IsMatch (word w) .identifier (bytes w) :=
  ⟨rfl, .inr (beq_self_eq_true _)⟩

theorem reads_keyword (w : String) : Reads (keyword w) true [word w] := fun _ =>
  matchToken_of_isMatch (isMatch_word w) (by decide)

theorem reads_expectKeyword (w : String) : Reads (expectKeyword w) () [word w] :=
  (reads_keyword w).bind_nil (reads_pure ())

theorem reads_identifier (message : String) (name : Str) :
    Reads (identifier message) name [nameToken name] := by
  have hadvance : Reads advance (nameToken name) [nameToken name] := fun _ =>
    advance_cons (show TokenType.identifier ≠ .end by decide)
  exact hadvance.bind_nil (reads_pure name)

/-! ### Looking ahead -/

/-- The next token is there and is not the keyword. -/
def NotWord (w : String) (tokens : List Token) : Prop :=
  ∃ token rest, tokens = token :: rest ∧ ¬ IsMatch token .identifier (bytes w)

/-- The next token is there and is neither a name nor a keyword. -/
def Punctuated (tokens : List Token) : Prop :=
  ∃ token rest, tokens = token :: rest ∧ token.type ≠ .identifier

/-- The next token is there, and it is neither a name, a keyword nor a comma. -/
def Closes (tokens : List Token) : Prop :=
  ∃ token rest, tokens = token :: rest ∧ token.type ≠ .identifier ∧ token.type ≠ .comma

theorem Punctuated.notWord (w : String) {tokens : List Token} (h : Punctuated tokens) :
    NotWord w tokens := by
  obtain ⟨token, rest, rfl, htype⟩ := h
  exact ⟨token, rest, rfl, fun hmatch => htype hmatch.1⟩

theorem Punctuated.stops (w : String) {tokens : List Token} (h : Punctuated tokens) :
    Stops w tokens := by
  obtain ⟨token, rest, rfl, htype⟩ := h
  exact ⟨List.cons_ne_nil token rest, not_begins_of_type htype rest⟩

theorem Closes.punctuated {tokens : List Token} (h : Closes tokens) : Punctuated tokens := by
  obtain ⟨token, rest, rfl, htype, -⟩ := h
  exact ⟨token, rest, rfl, htype⟩

theorem punctuated_symbol {ch : Char} (h : type ≠ .identifier) (rest : List Token) :
    Punctuated (symbol type ch :: rest) := ⟨_, rest, rfl, h⟩

theorem closes_symbol {ch : Char} (h : type ≠ .identifier) (h' : type ≠ .comma)
    (rest : List Token) : Closes (symbol type ch :: rest) := ⟨_, rest, rfl, h, h'⟩

theorem notWord_word {w w' : String} (h : equalsIgnoreCase (bytes w') (bytes w) = false)
    (hne : bytes w ≠ []) (rest : List Token) : NotWord w (word w' :: rest) := by
  refine ⟨_, rest, rfl, fun hmatch => ?_⟩
  rcases hmatch.2 with hnil | heq
  · exact hne hnil
  · rw [word, nameToken, h] at heq
    cases heq

theorem readsBefore_keyword (w : String) : ReadsBefore (NotWord w) (keyword w) false [] := by
  rintro _ ⟨token, rest, rfl, h⟩
  exact matchToken_of_not_isMatch h

theorem readsBefore_comma : ReadsBefore Closes (matchToken .comma []) false [] := by
  rintro _ ⟨token, rest, rfl, -, h⟩
  exact matchToken_of_not_isMatch fun hmatch => h hmatch.1

variable {α : Type} {stop : List Token → Prop} {f : Bool → Parser α} {x : α} {xs : List Token}

/-- A keyword that is there. -/
theorem ReadsBefore.keyword_then {w : String} (h : ReadsBefore stop (f true) x xs) :
    ReadsBefore stop (keyword w >>= f) x (word w :: xs) :=
  (reads_keyword w).bind_before h

/-- A keyword that is not there. -/
theorem ReadsBefore.keyword_else {w : String} (h : ReadsBefore stop (f false) x xs)
    (hw : ∀ rest, stop rest → NotWord w (xs ++ rest)) :
    ReadsBefore stop (keyword w >>= f) x xs :=
  (readsBefore_keyword w).bind h hw

/-- Another keyword. -/
theorem ReadsBefore.keyword_skip {w w' : String}
    (h : ReadsBefore stop (f false) x (word w' :: xs))
    (hw : equalsIgnoreCase (bytes w') (bytes w) = false) (hne : bytes w ≠ []) :
    ReadsBefore stop (keyword w >>= f) x (word w' :: xs) :=
  ReadsBefore.keyword_else h fun _ _ => notWord_word hw hne _

/-! ### Lists -/

theorem length_le_commaTokens (xs : List (List Token)) :
    xs.length ≤ (commaTokens xs).length + 1 := by
  induction xs with
  | nil => simp
  | cons tokens xs ih =>
    cases xs with
    | nil => simp [commaTokens]
    | cons tokens' xs =>
      simp only [commaTokens, List.length_append, List.length_cons] at ih ⊢
      omega

theorem readsBefore_commaLoop {item : Parser α} {tokens : α → List Token} {xs : List α}
    (hne : xs ≠ []) (h : ∀ x ∈ xs, ReadsBefore Punctuated item x (tokens x)) {fuel : ℕ}
    (hfuel : xs.length ≤ fuel) :
    ReadsBefore Closes (commaLoop item fuel) xs (commaTokens (xs.map tokens)) := by
  induction xs generalizing fuel with
  | nil => exact absurd rfl hne
  | cons x xs ih =>
    obtain ⟨fuel, rfl⟩ : ∃ n, fuel = n + 1 := ⟨fuel - 1, by simp at hfuel; omega⟩
    have hx := h x List.mem_cons_self
    rw [commaLoop]
    cases xs with
    | nil =>
      refine (hx.mono fun _ => Closes.punctuated).bind_nil ?_
      exact readsBefore_comma.bind_nil (reads_pure [x]).before
    | cons y ys =>
      have hrest := ih (by simp) (fun z hz => h z (List.mem_cons_of_mem _ hz))
        (by simpa using hfuel)
      have hcomma : IsMatch (symbol .comma ',') .comma [] := ⟨rfl, .inl rfl⟩
      refine hx.bind ?_ fun rest _ => punctuated_symbol (by decide) _
      exact (reads_matchToken hcomma (by decide)).bind_before
        (hrest.bind_nil (reads_pure (x :: y :: ys)).before)

theorem readsBefore_commaSeparated {item : Parser α} {tokens : α → List Token} {xs : List α}
    (hne : xs ≠ []) (h : ∀ x ∈ xs, ReadsBefore Punctuated item x (tokens x)) :
    ReadsBefore Closes (commaSeparated item) xs (commaTokens (xs.map tokens)) := by
  intro rest hrest
  refine readsBefore_commaLoop hne h ?_ rest hrest
  have := length_le_commaTokens (xs.map tokens)
  rw [List.length_map] at this
  rw [List.length_append]
  omega

/-! ### Literals and predicates -/

theorem not_isDigit_minus : isDigit (byte '-') = false := by decide

theorem parseInt_decimal {n : ℕ} (h : (n : ℤ) < 2 ^ 63) :
    parseInt (decimal n) = .ok ⟨n, by omega, h⟩ := by
  have hhead : ((decimal n).head? == some (byte '-')) = false := by
    refine beq_eq_false_iff_ne.2 fun hmin => ?_
    have := isDigit_of_mem_decimal (List.mem_of_mem_head? hmin)
    rw [not_isDigit_minus] at this
    cases this
  have hdigits : ¬ (decimal n = [] ∨ ¬ (decimal n).all isDigit) := by
    rw [not_or, not_not]
    exact ⟨decimal_ne_nil n, List.all_eq_true.2 fun _ => isDigit_of_mem_decimal⟩
  simp only [parseInt, hhead, Bool.false_eq_true, if_false, if_neg hdigits, ofDecimal_decimal]
  exact dif_pos ⟨by omega, h⟩

theorem parseInt_minus_decimal {n : ℕ} (h : -2 ^ 63 ≤ -(n : ℤ)) :
    parseInt (byte '-' :: decimal n) = .ok ⟨-n, h, by omega⟩ := by
  have hdigits : ¬ (decimal n = [] ∨ ¬ (decimal n).all isDigit) := by
    rw [not_or, not_not]
    exact ⟨decimal_ne_nil n, List.all_eq_true.2 fun _ => isDigit_of_mem_decimal⟩
  simp only [parseInt, List.head?_cons, beq_self_eq_true, if_true, List.tail_cons, if_neg hdigits,
    ofDecimal_decimal]
  exact dif_pos ⟨h, by omega⟩

theorem parseInt_intToString (i : I64) : parseInt (Value.intToString i) = .ok i := by
  obtain ⟨i, hlow, hhigh⟩ := i
  unfold Value.intToString
  split_ifs with hneg
  · rw [parseInt_minus_decimal (by simp only at hneg ⊢; omega)]
    congr 2
    simp only at hneg ⊢
    omega
  · rw [parseInt_decimal (by simp only at hneg ⊢; omega)]
    congr 2
    simp only at hneg ⊢
    omega

theorem dot_notMem_intToString (i : I64) : byte '.' ∉ Value.intToString i := by
  have hdot : ∀ n, byte '.' ∉ decimal n := fun n hmem => by
    have := isDigit_of_mem_decimal hmem
    rw [show isDigit (byte '.') = false by decide] at this
    cases this
  unfold Value.intToString
  split_ifs
  · exact List.not_mem_cons_of_ne_of_not_mem (by decide) (hdot _)
  · exact hdot _

theorem stod_printG {d : Binary64} (h : d.ShortDecimal) :
    byte '.' ∈ d.printG ∧ stod d.printG = .ok d := by
  obtain ⟨text, whole, frac, hprint, htext, hnearest⟩ := h.pointText
  obtain ⟨n, hn, hscan⟩ := htext.scanDecimal_eq d.isNegative
  constructor
  · rw [hprint, htext.text_eq]
    simp
  · rw [stod, hprint, hscan]
    simp only [hn, if_false, hnearest]
    rfl

theorem literal_valueToken {value : Value} (h : value.Printable) :
    Literal (valueToken value) value := by
  cases value with
  | null => exact .null (beq_self_eq_true _)
  | string text => exact .string text
  | int i => exact .int (dot_notMem_intToString i) (parseInt_intToString i)
  | double d =>
    obtain ⟨hdot, hstod⟩ := stod_printG h
    exact .double hdot hstod

theorem reads_parseValue {value : Value} (h : value.Printable) :
    Reads parseValue value [valueToken value] :=
  parseValue_of_literal (literal_valueToken h)

theorem operator_operatorToken (op : ComparisonOperator) : Operator (operatorToken op).type op := by
  cases op with
  | equal => exact .equal
  | greater => exact .greater
  | less => exact .less

theorem isWord_word (w : String) : IsWord w (word w) := ⟨rfl, beq_self_eq_true _⟩

section Derives

variable {p q : Predicate} {xs ys : List Token}

theorem Derives.conjunction_single (h : Derives .primary xs p) : Derives .conjunction xs p := by
  have hderives : Derives .conjunction (xs ++ operandTokens []) (joinLeft .and p []) :=
    .conjunction h (fun _ => nofun) fun _ => nofun
  rwa [operandTokens, List.flatMap_nil, List.append_nil] at hderives

theorem Derives.disjunction_single (h : Derives .conjunction xs p) : Derives .disjunction xs p := by
  have hderives : Derives .disjunction (xs ++ operandTokens []) (joinLeft .or p []) :=
    .disjunction h (fun _ => nofun) fun _ => nofun
  rwa [operandTokens, List.flatMap_nil, List.append_nil] at hderives

theorem Derives.conjunction_pair (hp : Derives .primary xs p) (hq : Derives .primary ys q) :
    Derives .conjunction (xs ++ word "AND" :: ys) (.and p q) := by
  have hderives : Derives .conjunction (xs ++ operandTokens [⟨word "AND", ys, q⟩])
      (joinLeft .and p [⟨word "AND", ys, q⟩]) :=
    .conjunction hp (List.forall_mem_singleton.2 (isWord_word "AND"))
      (List.forall_mem_singleton.2 hq)
  rwa [operandTokens, List.flatMap_singleton] at hderives

theorem Derives.disjunction_pair (hp : Derives .conjunction xs p) (hq : Derives .conjunction ys q) :
    Derives .disjunction (xs ++ word "OR" :: ys) (.or p q) := by
  have hderives : Derives .disjunction (xs ++ operandTokens [⟨word "OR", ys, q⟩])
      (joinLeft .or p [⟨word "OR", ys, q⟩]) :=
    .disjunction hp (List.forall_mem_singleton.2 (isWord_word "OR"))
      (List.forall_mem_singleton.2 hq)
  rwa [operandTokens, List.flatMap_singleton] at hderives

/-- A connective is written between parentheses, so its text is an operand again. -/
theorem derives_predicateTokens (h : p.Printable) : Derives .primary (predicateTokens p) p := by
  induction p with
  | comparison column op value =>
    exact .comparison (operator_operatorToken op) (literal_valueToken h.2)
  | and left right ihl ihr =>
    have hderives : Derives .primary (symbol .leftParen '(' :: (predicateTokens left ++
        word "AND" :: predicateTokens right ++ [symbol .rightParen ')'])) (.and left right) :=
      .parentheses ((ihl h.1).conjunction_pair (ihr h.2)).disjunction_single
    rwa [List.append_assoc] at hderives
  | or left right ihl ihr =>
    have hderives : Derives .primary (symbol .leftParen '(' :: (predicateTokens left ++
        word "OR" :: predicateTokens right ++ [symbol .rightParen ')'])) (.or left right) :=
      .parentheses ((ihl h.1).conjunction_single.disjunction_pair (ihr h.2).conjunction_single)
    rwa [List.append_assoc] at hderives

end Derives

theorem readsBefore_parsePredicate {p : Predicate} (h : p.Printable) :
    ReadsBefore Punctuated parsePredicate p (predicateTokens p) := by
  intro rest hrest
  have hread : ReadAs (predicateTokens p ++ rest).length (predicateTokens p) p .disjunction :=
    readAs_of_derives (derives_predicateTokens h).conjunction_single.disjunction_single (by simp)
  exact hread rest ⟨hrest.stops "AND", hrest.stops "OR"⟩

theorem readsBefore_parseWhere {where_ : Option Predicate} (h : WherePrintable where_) :
    ReadsBefore Punctuated parseWhere where_ (whereTokens where_) := by
  cases where_ with
  | none => exact ReadsBefore.keyword_else (reads_pure none).before fun _ h => h.notWord "WHERE"
  | some p =>
    exact ReadsBefore.keyword_then
      ((readsBefore_parsePredicate (h p rfl)).bind_nil (reads_pure (some p)).before)

/-! ### Statements -/

theorem isMatch_symbol (type : TokenType) (ch : Char) : IsMatch (symbol type ch) type [] :=
  ⟨rfl, .inl rfl⟩

theorem columnTypeFromString_toString {type : ColumnType}
    (h : type ∈ [ColumnType.int, .double, .string]) :
    columnTypeFromString type.toString = some type := by
  cases type with
  | unknown raw => simp at h
  | _ => decide

theorem readsBefore_parseNullable (nullable : Bool) :
    ReadsBefore Punctuated parseNullable nullable (if nullable then [word "NULL"] else []) := by
  cases nullable with
  | true =>
    exact ReadsBefore.keyword_skip (reads_keyword "NULL").before (by decide)
      (by decide)
  | false =>
    refine ReadsBefore.keyword_else ?_ fun _ h => h.notWord "NOT"
    exact (readsBefore_keyword "NULL").mono fun _ h => h.notWord "NULL"

theorem readsBefore_parseColumn {column : Column} (h : column.WellFormed) :
    ReadsBefore Punctuated parseColumn column (columnTokens column) := by
  refine (reads_identifier _ column.name).bind_before ?_
  refine (reads_identifier _ column.type.toString).bind_before ?_
  rw [columnTypeFromString_toString h.2]
  exact (readsBefore_parseNullable column.nullable).bind_nil (reads_pure column).before

theorem reads_open : Reads (expect .leftParen []) () [symbol .leftParen '('] :=
  reads_expect (isMatch_symbol .leftParen '(') (by decide)

theorem reads_close : Reads (expect .rightParen []) () [symbol .rightParen ')'] :=
  reads_expect (isMatch_symbol .rightParen ')') (by decide)

theorem closes_close (rest : List Token) : Closes (symbol .rightParen ')' :: rest) :=
  closes_symbol (by decide) (by decide) rest

theorem readsBefore_parseCreateTable {command : CreateTable} (hne : command.columns ≠ [])
    (hcolumns : ∀ column ∈ command.columns, column.WellFormed) :
    ReadsBefore Punctuated parseCreateTable command (nameToken command.name ::
      symbol .leftParen '(' :: (commaTokens (command.columns.map columnTokens) ++
        [symbol .rightParen ')'])) := by
  have hcols := readsBefore_commaSeparated hne fun column hmem =>
    readsBefore_parseColumn (hcolumns column hmem)
  refine (reads_identifier _ command.name).bind_before ?_
  refine reads_open.bind_before ?_
  refine hcols.bind ?_ fun rest _ => closes_close _
  refine reads_close.before.bind_nil ?_
  exact (reads_pure command).before

theorem reads_parseDropTable (command : DropTable) :
    Reads parseDropTable command [word "TABLE", nameToken command.name] := by
  refine (reads_expectKeyword "TABLE").bind ?_
  refine (reads_identifier _ command.name).bind_nil ?_
  exact reads_pure command

theorem reads_parseRenameTable (command : RenameTable) :
    Reads parseRenameTable command
      [word "TABLE", nameToken command.oldName, word "TO", nameToken command.newName] := by
  refine (reads_expectKeyword "TABLE").bind ?_
  refine (reads_identifier _ command.oldName).bind ?_
  refine (reads_expectKeyword "TO").bind ?_
  refine (reads_identifier _ command.newName).bind_nil ?_
  exact reads_pure command

theorem reads_parseCreateIndex (command : CreateIndex) :
    Reads parseCreateIndex command [nameToken command.name, word "ON", nameToken command.table,
      symbol .leftParen '(', nameToken command.column, symbol .rightParen ')'] := by
  refine (reads_identifier _ command.name).bind ?_
  refine (reads_expectKeyword "ON").bind ?_
  refine (reads_identifier _ command.table).bind ?_
  refine reads_open.bind ?_
  refine (reads_identifier _ command.column).bind ?_
  refine reads_close.bind_nil ?_
  exact reads_pure command

theorem readsBefore_parseTuple {row : Row} (hne : row ≠ []) (h : ∀ value ∈ row, value.Printable) :
    ReadsBefore Punctuated parseTuple row (tupleTokens row) := by
  have hvalues := readsBefore_commaSeparated hne fun value hmem =>
    (reads_parseValue (h value hmem)).before
  refine reads_open.bind_before ?_
  refine hvalues.bind ?_ fun rest _ => closes_close _
  refine reads_close.before.bind_nil ?_
  exact (reads_pure row).before

theorem readsBefore_parseInsert (table : Str) {row : Row} (hne : row ≠ [])
    (h : ∀ value ∈ row, value.Printable) :
    ReadsBefore Closes parseInsert ⟨table, [row]⟩
      (word "INTO" :: nameToken table :: word "VALUES" :: tupleTokens row) := by
  have htuple : ∀ r ∈ [row], ReadsBefore Punctuated parseTuple r (tupleTokens r) := fun r hr => by
    rw [List.mem_singleton.1 hr]
    exact readsBefore_parseTuple hne h
  have hrows := readsBefore_commaSeparated (by simp) htuple
  refine (reads_expectKeyword "INTO").bind_before ?_
  refine (reads_identifier _ table).bind_before ?_
  refine (reads_expectKeyword "VALUES").bind_before ?_
  refine hrows.bind_nil ?_
  exact (reads_pure _).before

theorem readsBefore_parseUpdate {command : Update} (hvalue : command.value.Printable)
    (hwhere : WherePrintable command.where_) :
    ReadsBefore Punctuated parseUpdate command (nameToken command.table :: word "SET" ::
      nameToken command.column :: symbol .equal '=' :: valueToken command.value ::
        whereTokens command.where_) := by
  refine (reads_identifier _ command.table).bind_before ?_
  refine (reads_expectKeyword "SET").bind_before ?_
  refine (reads_identifier _ command.column).bind_before ?_
  refine (reads_expect (isMatch_symbol .equal '=') (by decide)).bind_before ?_
  refine (reads_parseValue hvalue).bind_before ?_
  refine (readsBefore_parseWhere hwhere).bind_nil ?_
  exact (reads_pure command).before

theorem readsBefore_parseDelete {command : Delete} (hwhere : WherePrintable command.where_) :
    ReadsBefore Punctuated parseDelete command
      (word "FROM" :: nameToken command.table :: whereTokens command.where_) := by
  refine (reads_expectKeyword "FROM").bind_before ?_
  refine (reads_identifier _ command.table).bind_before ?_
  refine (readsBefore_parseWhere hwhere).bind_nil ?_
  exact (reads_pure command).before

theorem readsBefore_parseCommand {logged : Logged} (h : logged.Printable) :
    ReadsBefore Closes parseCommand logged.query logged.tokens := by
  cases logged with
  | createTable command =>
    refine ReadsBefore.keyword_then ?_
    refine ReadsBefore.keyword_skip ?_ (by decide) (by decide)
    refine ReadsBefore.keyword_then ?_
    refine ((readsBefore_parseCreateTable h.2.1 h.2.2).mono fun _ => Closes.punctuated).bind_nil ?_
    exact (reads_pure _).before
  | createIndex command =>
    refine ReadsBefore.keyword_then ?_
    refine ReadsBefore.keyword_skip ?_ (by decide) (by decide)
    refine ReadsBefore.keyword_skip ?_ (by decide) (by decide)
    refine ReadsBefore.keyword_then ?_
    refine (reads_parseCreateIndex command).before.bind_nil ?_
    exact (reads_pure _).before
  | dropTable command =>
    refine ReadsBefore.keyword_skip ?_ (by decide) (by decide)
    refine ReadsBefore.keyword_then ?_
    refine (reads_parseDropTable command).before.bind_nil ?_
    exact (reads_pure _).before
  | renameTable command =>
    iterate 2 refine ReadsBefore.keyword_skip ?_ (by decide) (by decide)
    refine ReadsBefore.keyword_then ?_
    refine (reads_parseRenameTable command).before.bind_nil ?_
    exact (reads_pure _).before
  | insert table row =>
    iterate 4 refine ReadsBefore.keyword_skip ?_ (by decide) (by decide)
    refine ReadsBefore.keyword_then ?_
    refine (readsBefore_parseInsert table h.2.1 h.2.2).bind_nil ?_
    exact (reads_pure _).before
  | update command =>
    iterate 6 refine ReadsBefore.keyword_skip ?_ (by decide) (by decide)
    refine ReadsBefore.keyword_then ?_
    refine ((readsBefore_parseUpdate h.2.2.1 h.2.2.2).mono fun _ => Closes.punctuated).bind_nil ?_
    exact (reads_pure _).before
  | delete command =>
    iterate 7 refine ReadsBefore.keyword_skip ?_ (by decide) (by decide)
    refine ReadsBefore.keyword_then ?_
    refine ((readsBefore_parseDelete h.2).mono fun _ => Closes.punctuated).bind_nil ?_
    exact (reads_pure _).before

/-- The tokens of a logged command, with those after them, are parsed as the command. -/
theorem parseTokens_logged {logged : Logged} (h : logged.Printable) :
    parseTokens (logged.tokens ++ [symbol .semicolon ';'] ++ [⟨.end, []⟩]) = .ok logged.query := by
  have hcommand := readsBefore_parseCommand h [symbol .semicolon ';', ⟨.end, []⟩]
    (closes_symbol (by decide) (by decide) _)
  rw [parseTokens, List.append_assoc, List.singleton_append, parseStatement,
    Failure.bind_apply_of_eq hcommand]
  rfl

/-- **The parser undoes the text of a logged command.** -/
theorem parse_sql (logged : Logged) (h : logged.Printable) :
    parse logged.sql = .ok logged.query := by
  rw [parse, (lexesAny_sql h).tokenize_eq, Failure.ok_bind]
  exact parseTokens_logged h

/-- A command with keywords for names, a nested predicate and a string that must be escaped. -/
def sampleLogged : Logged :=
  .update ⟨bytes "select", bytes "t.where", .string (bytes "a\"\\"),
    some (.or (.comparison (bytes "and") .less (.int (I64.ofBits (2 ^ 64 - 5))))
      (.and (.comparison (bytes "or") .equal .null)
        (.comparison (bytes "x") .greater (.string [200]))))⟩

theorem parse_sql_sampleLogged : parse sampleLogged.sql = .ok sampleLogged.query := by
  refine parse_sql sampleLogged ⟨by decide +kernel, by decide +kernel, trivial, ?_⟩
  rintro predicate ⟨⟩
  exact ⟨⟨by decide +kernel, trivial⟩, ⟨by decide +kernel, trivial⟩, by decide +kernel, trivial⟩

end Parser

end VertexDB
