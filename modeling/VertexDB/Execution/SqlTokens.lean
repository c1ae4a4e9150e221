import VertexDB.Execution.SqlText
import VertexDB.Lib.DecimalText
import VertexDB.Parser.WellFormed

/-!
# The tokens of SQL text

The texts that the executor writes, as lists of tokens: one token function per text function, and
the proof that the tokenizer finds those tokens.  Most doubles are left out: their text can be that
of an integer or of another double, or have an exponent.
-/

namespace VertexDB

open Ascii Tokenizer

/-- The token of a name. -/
def nameToken (name : Str) : Token := ⟨.identifier, name⟩

/-- The token of a keyword. -/
def word (keyword : String) : Token := nameToken (bytes keyword)

/-- The token of a symbol. -/
def symbol (type : TokenType) (ch : Char) : Token := ⟨type, [byte ch]⟩

/-- A value whose literal reads back: a double must be nearest to a short decimal. -/
def Value.Printable : Value → Prop
  | .double value => value.ShortDecimal
  | _ => True

/-- The token of a literal. -/
def valueToken : Value → Token
  | .null => word "NULL"
  | .int value => ⟨.number, Value.intToString value⟩
  | .double value => ⟨.number, value.printG⟩
  | .string value => ⟨.string, value⟩

theorem scanString_escape_append (value rest : Str) :
    scanString (escape value ++ byte '"' :: rest) = .ok (value, rest) := by
  induction value with
  | nil => exact scanString_quote rest
  | cons ch value ih =>
    rw [escape]
    split_ifs with h
    · rw [List.cons_append, List.cons_append, scanString_escape, ih]; rfl
    · obtain ⟨h1, h2⟩ := not_or.1 h
      rw [List.cons_append, scanString_other h1 h2, ih]; rfl

theorem isNumberPart_of_isDigit {ch : Byte} (h : isDigit ch = true) : isNumberPart ch = true := by
  simp [isNumberPart, h]

theorem lexes_decimal (n : ℕ) : Lexes (decimal n) [⟨.number, decimal n⟩] := by
  have hdigits : ∀ ch ∈ decimal n, isDigit ch = true := fun _ => isDigit_of_mem_decimal
  cases hd : decimal n with
  | nil => exact absurd hd (decimal_ne_nil n)
  | cons ch text =>
    rw [hd] at hdigits
    refine lexes_number ?_ fun c hc =>
      isNumberPart_of_isDigit (hdigits c (List.mem_cons_of_mem _ hc))
    rw [hdigits ch List.mem_cons_self, Bool.true_or]

theorem lexes_intToString (i : I64) :
    Lexes (Value.intToString i) [⟨.number, Value.intToString i⟩] := by
  unfold Value.intToString
  split_ifs
  · exact lexes_number (by decide) fun c hc => isNumberPart_of_isDigit (isDigit_of_mem_decimal hc)
  · exact lexes_decimal _

/-- A number with an optional sign. -/
theorem lexes_signed (negative : Bool) {ch : Byte} {text : Str} (hch : isDigit ch = true)
    (htext : ∀ c ∈ text, isNumberPart c = true) :
    Lexes (Binary64.signText negative ++ ch :: text)
      [⟨.number, Binary64.signText negative ++ ch :: text⟩] := by
  cases negative with
  | false => exact lexes_number (by rw [hch]; rfl) htext
  | true =>
    refine lexes_number (by decide) fun c hc => ?_
    rcases List.mem_cons.1 hc with rfl | hc
    · exact isNumberPart_of_isDigit hch
    · exact htext c hc

/-- A text with a point. -/
theorem lexes_pointText (negative : Bool) {text whole frac : Str}
    (h : Binary64.PointText text whole frac) :
    Lexes (Binary64.signText negative ++ text) [⟨.number, Binary64.signText negative ++ text⟩] := by
  obtain ⟨ch, rest, rfl⟩ := List.exists_cons_of_ne_nil h.ne_nil
  rw [h.text_eq]
  refine lexes_signed _ (h.whole_digits ch List.mem_cons_self) fun c hc => ?_
  rcases List.mem_append.1 hc with hc | hc
  · exact isNumberPart_of_isDigit (h.whole_digits c (List.mem_cons_of_mem _ hc))
  · rcases List.mem_cons.1 hc with rfl | hc
    · decide
    · exact isNumberPart_of_isDigit (Binary64.digits_stripZeros h.frac_digits c hc)

theorem lexes_printG {d : Binary64} (h : d.ShortDecimal) :
    Lexes d.printG [⟨.number, d.printG⟩] := by
  obtain ⟨text, whole, frac, hprint, htext, -⟩ := h.pointText
  rw [hprint]
  exact lexes_pointText _ htext

/-- A literal that reads back is one token. -/
theorem lexes_sqlLiteral {value : Value} (h : value.Printable) :
    Lexes (sqlLiteral value) [valueToken value] := by
  cases value with
  | null => exact lexes_identifier (by decide +kernel)
  | int i => exact lexes_intToString i
  | double d => exact lexes_printG h
  | string text => exact (lexesAny_string (scanString_escape_append text)).lexes

/-! ### Predicates -/

/-- The token of a comparison operator. -/
def operatorToken : ComparisonOperator → Token
  | .equal => symbol .equal '='
  | .greater => symbol .greater '>'
  | .less => symbol .less '<'

/-- A predicate over names, with values that read back. -/
def Predicate.Printable : Predicate → Prop
  | .comparison column _ value => IsIdentifier column ∧ value.Printable
  | .and left right => left.Printable ∧ right.Printable
  | .or left right => left.Printable ∧ right.Printable

/-- The tokens of a predicate. -/
def predicateTokens : Predicate → List Token
  | .and left right => symbol .leftParen '(' ::
      (predicateTokens left ++ word "AND" :: (predicateTokens right ++ [symbol .rightParen ')']))
  | .or left right => symbol .leftParen '(' ::
      (predicateTokens left ++ word "OR" :: (predicateTokens right ++ [symbol .rightParen ')']))
  | .comparison column op value => [nameToken column, operatorToken op, valueToken value]

theorem lexesAny_operator (op : ComparisonOperator) :
    LexesAny (bytes " " ++ operatorLiteral op ++ bytes " ") [operatorToken op] := by
  cases op with
  | equal => exact lexesAny_literal (by decide) (by decide)
  | greater => exact lexesAny_literal (by decide) (by decide)
  | less => exact lexesAny_literal (by decide) (by decide)

theorem stops_operator (op : ComparisonOperator) (rest : Str) :
    Stops (bytes " " ++ operatorLiteral op ++ bytes " " ++ rest) := by
  cases op with
  | equal => exact stops_append (by decide) rest
  | greater => exact stops_append (by decide) rest
  | less => exact stops_append (by decide) rest

/-- Two operands in parentheses. -/
theorem lexes_connective {left right connective : Str} {tl tr : List Token} {tc : Token}
    (hl : Lexes left tl) (hr : Lexes right tr) (hc : LexesAny connective [tc])
    (hs : ∀ rest, Stops (connective ++ rest)) :
    Lexes (bytes "(" ++ left ++ connective ++ right ++ bytes ")")
      (symbol .leftParen '(' :: (tl ++ tc :: (tr ++ [symbol .rightParen ')']))) := by
  have hopen : LexesAny (bytes "(") [symbol .leftParen '('] :=
    lexesAny_literal (by decide) (by decide)
  have hclose : LexesAny (bytes ")") [symbol .rightParen ')'] :=
    lexesAny_literal (by decide) (by decide)
  have := (((hopen.append_lexes hl).append_any hc hs).append_lexes hr).append_any hclose
    (stops_append (by decide))
  simpa using this.lexes

theorem lexes_predicateLiteral {predicate : Predicate} (h : predicate.Printable) :
    Lexes (predicateLiteral predicate) (predicateTokens predicate) := by
  induction predicate with
  | comparison column op value =>
    obtain ⟨hcolumn, hvalue⟩ := h
    have := ((lexes_identifier hcolumn).append_any (lexesAny_operator op)
      (stops_operator op)).append_lexes (lexes_sqlLiteral hvalue)
    simpa [predicateLiteral, predicateTokens, nameToken] using this
  | and left right ihl ihr =>
    exact lexes_connective (ihl h.1) (ihr h.2)
      (lexesAny_literal (by decide) (by decide)) (stops_append (by decide))
  | or left right ihl ihr =>
    exact lexes_connective (ihl h.1) (ihr h.2)
      (lexesAny_literal (by decide) (by decide)) (stops_append (by decide))

/-! ### Lists -/

/-- Lists of tokens separated by commas. -/
def commaTokens : List (List Token) → List Token
  | [] => []
  | [tokens] => tokens
  | tokens :: rest => tokens ++ symbol .comma ',' :: commaTokens rest

theorem lexes_commaSeparatedSql {α : Type} {text : α → Str} {tokens : α → List Token} {xs : List α}
    (h : ∀ x ∈ xs, Lexes (text x) (tokens x)) :
    Lexes (commaSeparatedSql (xs.map text)) (commaTokens (xs.map tokens)) := by
  have hcomma : LexesAny (bytes ", ") [symbol .comma ','] :=
    lexesAny_literal (by decide) (by decide)
  induction xs with
  | nil => exact lexes_nil
  | cons x xs ih =>
    have hx := h x List.mem_cons_self
    cases xs with
    | nil => exact hx
    | cons y xs =>
      have hrest := ih fun z hz => h z (List.mem_cons_of_mem _ hz)
      have := (hx.append_any hcomma (stops_append (by decide))).append_lexes hrest
      simpa [commaSeparatedSql, commaTokens] using this

/-! ### Commands -/

/-- The token of a column type. -/
def typeToken (type : ColumnType) : Token := nameToken type.toString

/-- The tokens of a column. -/
def columnTokens (column : Column) : List Token :=
  nameToken column.name :: typeToken column.type :: if column.nullable then [word "NULL"] else []

theorem lexes_columnType {type : ColumnType} (h : type ∈ [ColumnType.int, .double, .string]) :
    Lexes type.toString [typeToken type] := by
  refine lexes_identifier ?_
  cases type with
  | unknown raw => simp at h
  | _ => decide +kernel

theorem lexesAny_space_text : LexesAny (bytes " ") [] := lexesAny_space

theorem lexes_columnSql {column : Column} (h : column.WellFormed) :
    Lexes (columnSql column) (columnTokens column) := by
  have htype := ((lexes_identifier h.1).append_any lexesAny_space_text
    (stops_append (by decide))).append_lexes (lexes_columnType h.2)
  have hnull : Lexes (bytes " NULL") [word "NULL"] :=
    lexesAny_space_text.append_lexes (@lexes_identifier (bytes "NULL") (by decide +kernel))
  unfold columnSql columnTokens
  cases column.nullable with
  | false => simpa [nameToken] using htype
  | true =>
    have := htype.append hnull fun rest _ => stops_append (by decide) rest
    simpa [nameToken] using this

/-- The tokens of a row in parentheses. -/
def tupleTokens (row : Row) : List Token := symbol .leftParen '(' ::
  (commaTokens (row.map fun value => [valueToken value]) ++ [symbol .rightParen ')'])

/-- The tokens of an optional `WHERE` clause. -/
def whereTokens : Option Predicate → List Token
  | none => []
  | some predicate => word "WHERE" :: predicateTokens predicate

/-- The predicate of an optional `WHERE` clause can be printed. -/
def WherePrintable (where_ : Option Predicate) : Prop :=
  ∀ predicate, where_ = some predicate → predicate.Printable

theorem lexes_whereSql {where_ : Option Predicate} (h : WherePrintable where_) :
    Lexes (whereSql where_) (whereTokens where_) := by
  cases where_ with
  | none => exact lexes_nil
  | some predicate =>
    have hword : LexesAny (bytes " WHERE ") [word "WHERE"] :=
      lexesAny_literal (by decide) (by decide)
    exact hword.append_lexes (lexes_predicateLiteral (h predicate rfl))

theorem stops_whereSql (where_ : Option Predicate) {rest : Str} (h : Stops rest) :
    Stops (whereSql where_ ++ rest) := by
  cases where_ with
  | none => exact h
  | some predicate =>
    rw [whereSql, List.append_assoc]
    exact stops_append (by decide) _

/-- The commands of which the executor writes the text to the log; an INSERT writes one for each
row. -/
inductive Logged
  | createTable (command : CreateTable)
  | dropTable (command : DropTable)
  | renameTable (command : RenameTable)
  | insert (table : Str) (row : Row)
  | update (command : Update)
  | delete (command : Delete)
  | createIndex (command : CreateIndex)
  deriving DecidableEq

namespace Logged

/-- The text. -/
def sql : Logged → Str
  | createTable command => createTableSql command
  | dropTable command => dropTableSql command
  | renameTable command => renameTableSql command
  | insert table row => insertSql table row
  | update command => updateSql command
  | delete command => deleteSql command
  | createIndex command => createIndexSql command

/-- The command. -/
def query : Logged → Query
  | createTable command => .createTable command
  | dropTable command => .dropTable command
  | renameTable command => .renameTable command
  | insert table row => .insert ⟨table, [row]⟩
  | update command => .update command
  | delete command => .delete command
  | createIndex command => .createIndex command

/-- Every name is an identifier, the literal of every value reads back, and the lists that the
syntax wants to have an element have one. -/
def Printable : Logged → Prop
  | createTable command => IsIdentifier command.name ∧ command.columns ≠ [] ∧
      ∀ column ∈ command.columns, column.WellFormed
  | dropTable command => IsIdentifier command.name
  | renameTable command => IsIdentifier command.oldName ∧ IsIdentifier command.newName
  | insert table row => IsIdentifier table ∧ row ≠ [] ∧ ∀ value ∈ row, value.Printable
  | update command => IsIdentifier command.table ∧ IsIdentifier command.column ∧
      command.value.Printable ∧ WherePrintable command.where_
  | delete command => IsIdentifier command.table ∧ WherePrintable command.where_
  | createIndex command => IsIdentifier command.name ∧ IsIdentifier command.table ∧
      IsIdentifier command.column

/-- The tokens before the semicolon. -/
def tokens : Logged → List Token
  | createTable command => word "CREATE" :: word "TABLE" :: nameToken command.name ::
      symbol .leftParen '(' :: (commaTokens (command.columns.map columnTokens) ++
        [symbol .rightParen ')'])
  | dropTable command => [word "DROP", word "TABLE", nameToken command.name]
  | renameTable command => [word "RENAME", word "TABLE", nameToken command.oldName, word "TO",
      nameToken command.newName]
  | insert table row => word "INSERT" :: word "INTO" :: nameToken table :: word "VALUES" ::
      tupleTokens row
  | update command => word "UPDATE" :: nameToken command.table :: word "SET" ::
      nameToken command.column :: symbol .equal '=' :: valueToken command.value ::
        whereTokens command.where_
  | delete command => word "DELETE" :: word "FROM" :: nameToken command.table ::
      whereTokens command.where_
  | createIndex command => [word "CREATE", word "INDEX", nameToken command.name, word "ON",
      nameToken command.table, symbol .leftParen '(', nameToken command.column,
      symbol .rightParen ')']

end Logged

theorem lexesAny_semicolon : LexesAny (bytes ";") [symbol .semicolon ';'] :=
  lexesAny_literal (by decide) (by decide)

theorem lexesAny_close : LexesAny (bytes ");") [symbol .rightParen ')', symbol .semicolon ';'] :=
  lexesAny_literal (by decide) (by decide)

/-- **The tokenizer finds the tokens of a logged command.** -/
theorem lexesAny_sql {logged : Logged} (h : logged.Printable) :
    LexesAny logged.sql (logged.tokens ++ [symbol .semicolon ';']) := by
  cases logged with
  | createTable command =>
    obtain ⟨hname, -, hcolumns⟩ := h
    have hcreate : LexesAny (bytes "CREATE TABLE ") [word "CREATE", word "TABLE"] :=
      lexesAny_literal (by decide) (by decide)
    have hopen : LexesAny (bytes " (") [symbol .leftParen '('] :=
      lexesAny_literal (by decide) (by decide)
    have := (((hcreate.append_lexes (lexes_identifier hname)).append_any hopen
      (stops_append (by decide))).append_lexes (lexes_commaSeparatedSql fun column hmem =>
        lexes_columnSql (hcolumns column hmem))).append_any lexesAny_close
          (stops_append (by decide))
    simpa [Logged.sql, createTableSql, Logged.tokens, nameToken] using this
  | dropTable command =>
    have hdrop : LexesAny (bytes "DROP TABLE ") [word "DROP", word "TABLE"] :=
      lexesAny_literal (by decide) (by decide)
    have := (hdrop.append_lexes (lexes_identifier h)).append_any lexesAny_semicolon
      (stops_append (by decide))
    simpa [Logged.sql, dropTableSql, Logged.tokens, nameToken] using this
  | renameTable command =>
    have hrename : LexesAny (bytes "RENAME TABLE ") [word "RENAME", word "TABLE"] :=
      lexesAny_literal (by decide) (by decide)
    have hto : LexesAny (bytes " TO ") [word "TO"] :=
      lexesAny_literal (by decide) (by decide)
    have := (((hrename.append_lexes (lexes_identifier h.1)).append_any hto
      (stops_append (by decide))).append_lexes (lexes_identifier h.2)).append_any
        lexesAny_semicolon (stops_append (by decide))
    simpa [Logged.sql, renameTableSql, Logged.tokens, nameToken] using this
  | insert table row =>
    obtain ⟨htable, -, hrow⟩ := h
    have hinsert : LexesAny (bytes "INSERT INTO ") [word "INSERT", word "INTO"] :=
      lexesAny_literal (by decide) (by decide)
    have hvalues : LexesAny (bytes " VALUES (") [word "VALUES", symbol .leftParen '('] :=
      lexesAny_literal (by decide) (by decide)
    have := (((hinsert.append_lexes (lexes_identifier htable)).append_any hvalues
      (stops_append (by decide))).append_lexes (lexes_commaSeparatedSql fun value hmem =>
        lexes_sqlLiteral (hrow value hmem))).append_any lexesAny_close
          (stops_append (by decide))
    simpa [Logged.sql, insertSql, Logged.tokens, tupleTokens, nameToken] using this
  | update command =>
    obtain ⟨htable, hcolumn, hvalue, hwhere⟩ := h
    have hupdate : LexesAny (bytes "UPDATE ") [word "UPDATE"] :=
      lexesAny_literal (by decide) (by decide)
    have hset : LexesAny (bytes " SET ") [word "SET"] :=
      lexesAny_literal (by decide) (by decide)
    have hequal : LexesAny (bytes " = ") [symbol .equal '='] :=
      lexesAny_literal (by decide) (by decide)
    have := ((((((hupdate.append_lexes (lexes_identifier htable)).append_any hset
      (stops_append (by decide))).append_lexes (lexes_identifier hcolumn)).append_any hequal
      (stops_append (by decide))).append_lexes (lexes_sqlLiteral hvalue)).append
        (lexes_whereSql hwhere) fun _ => stops_whereSql command.where_).append_any
          lexesAny_semicolon (stops_append (by decide))
    simpa [Logged.sql, updateSql, Logged.tokens, nameToken] using this
  | delete command =>
    obtain ⟨htable, hwhere⟩ := h
    have hdelete : LexesAny (bytes "DELETE FROM ") [word "DELETE", word "FROM"] :=
      lexesAny_literal (by decide) (by decide)
    have := ((hdelete.append_lexes (lexes_identifier htable)).append (lexes_whereSql hwhere)
      fun _ => stops_whereSql command.where_).append_any lexesAny_semicolon
        (stops_append (by decide))
    simpa [Logged.sql, deleteSql, Logged.tokens, nameToken] using this
  | createIndex command =>
    obtain ⟨hname, htable, hcolumn⟩ := h
    have hcreate : LexesAny (bytes "CREATE INDEX ") [word "CREATE", word "INDEX"] :=
      lexesAny_literal (by decide) (by decide)
    have hon : LexesAny (bytes " ON ") [word "ON"] :=
      lexesAny_literal (by decide) (by decide)
    have hopen : LexesAny (bytes "(") [symbol .leftParen '('] :=
      lexesAny_literal (by decide) (by decide)
    have := (((((hcreate.append_lexes (lexes_identifier hname)).append_any hon
      (stops_append (by decide))).append_lexes (lexes_identifier htable)).append_any hopen
      (stops_append (by decide))).append_lexes (lexes_identifier hcolumn)).append_any
        lexesAny_close (stops_append (by decide))
    simpa [Logged.sql, createIndexSql, Logged.tokens, nameToken] using this

end VertexDB
