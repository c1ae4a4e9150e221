import VertexDB.Parser.Ast
import VertexDB.Parser.Tokenizer

/-!
# The recursive-descent parser

The state of a `Parser` is the list of tokens from `current_` on.  The loops of the source are
bounded by the number of tokens left when they start, and so is the nesting of parentheses: an
iteration or a level consumes at least one token.
-/

namespace VertexDB

open Ascii

/-- `equalsIgnoreCase`. -/
def equalsIgnoreCase (lhs rhs : Str) : Bool := lhs.map toUpper == rhs.map toUpper

/-- `parseInt`: `std::from_chars` on the whole text. -/
def parseInt (text : Str) : Except Exception I64 :=
  let negative := text.head? == some (byte '-')
  let digits := if negative then text.tail else text
  let value : ℤ := if negative then -(ofDecimal digits : ℤ) else ofDecimal digits
  if digits = [] ∨ ¬ digits.all isDigit then throw (.runtimeError "invalid integer literal")
  else if h : -2 ^ 63 ≤ value ∧ value < 2 ^ 63 then return ⟨value, h⟩
  else throw (.runtimeError "invalid integer literal")

/-- `std::stod`: the longest prefix that is a decimal number. -/
def stod (text : Str) : Except Exception Binary64 :=
  let (negative, magnitude, digits) := Binary64.scanDecimal text
  if digits = 0 then throw (.invalidArgument "stod")
  else match Binary64.nearest? negative magnitude with
    | some d => return d
    | none => throw (.outOfRange "stod")

/-- A parser reads tokens from the left. -/
abbrev Parser := StateT (List Token) (Except Exception)

namespace Parser

/-! ### Tokens -/

/-- `Parser::peek`. -/
def peek : Parser Token := do
  match ← get with
  | [] => throw (.runtimeError "parser read past end of token stream")
  | token :: _ => return token

/-- `Parser::advance`. -/
def advance : Parser Token := do
  let token ← peek
  if token.type ≠ .end then modify List.tail
  return token

/-- `Parser::match`; an empty lexeme matches any. -/
def matchToken (type : TokenType) (lexeme : Str) : Parser Bool := do
  let token ← peek
  if token.type ≠ type then return false
  if lexeme ≠ [] ∧ ¬ equalsIgnoreCase token.lexeme lexeme then return false
  let _ ← advance
  return true

/-- `Parser::match` on a keyword. -/
def keyword (word : String) : Parser Bool := matchToken .identifier (bytes word)

/-- `Parser::expect`. -/
def expect (type : TokenType) (lexeme : Str) : Parser Unit := do
  if !(← matchToken type lexeme) then throw (.runtimeError "unexpected token")

/-- `Parser::expect` on a keyword. -/
def expectKeyword (word : String) : Parser Unit := expect .identifier (bytes word)

/-- The next token, which must be an identifier. -/
def identifier (message : String) : Parser Str := do
  let token ← advance
  if token.type ≠ .identifier then throw (.runtimeError message)
  return token.lexeme

/-- `Parser::expectStatementEnd`. -/
def expectStatementEnd : Parser Unit := do
  let _ ← matchToken .semicolon []
  let token ← peek
  if token.type ≠ .end then throw (.runtimeError "unexpected trailing token")

/-- The loop `do item while (match(Comma))`. -/
def commaLoop {α : Type} (item : Parser α) : ℕ → Parser (List α)
  | 0 => throw .outOfFuel
  | fuel + 1 => do
    let x ← item
    if ← matchToken .comma [] then
      let xs ← commaLoop item fuel
      return x :: xs
    else return [x]

/-- Items separated by commas. -/
def commaSeparated {α : Type} (item : Parser α) : Parser (List α) := do
  let tokens ← get
  commaLoop item (tokens.length + 1)

/-! ### Literals and predicates -/

/-- `Parser::parseValue`. -/
def parseValue : Parser Value := do
  let token ← advance
  if token.type = .identifier ∧ equalsIgnoreCase token.lexeme (bytes "NULL") then return .null
  if token.type = .string then return .string token.lexeme
  if token.type = .number then
    if byte '.' ∈ token.lexeme then
      let d ← stod token.lexeme
      return .double d
    let i ← parseInt token.lexeme
    return .int i
  throw (.runtimeError "expected literal value")

/-- The comparison operator of a predicate. -/
def parseOperator : Parser ComparisonOperator := do
  if ← matchToken .equal [] then return .equal
  if ← matchToken .greater [] then return .greater
  if ← matchToken .less [] then return .less
  throw (.runtimeError "expected comparison operator")

/-- `Parser::parseComparisonPredicate`. -/
def parseComparisonPredicate : Parser Predicate := do
  let column ← identifier "expected predicate column"
  let op ← parseOperator
  let value ← parseValue
  return .comparison column op value

/-- `Parser::parsePrimaryPredicate`, given the parser of nested predicates. -/
def parsePrimaryPredicate (nested : Parser Predicate) : Parser Predicate := do
  if ← matchToken .leftParen [] then
    let predicate ← nested
    expect .rightParen []
    return predicate
  parseComparisonPredicate

/-- The loop that collects operands while a connective follows. -/
def connectiveLoop (word : String) (node : Predicate → Predicate → Predicate)
    (operand : Parser Predicate) : ℕ → Predicate → Parser Predicate
  | 0, _ => throw .outOfFuel
  | fuel + 1, predicate => do
    if ← keyword word then
      let right ← operand
      connectiveLoop word node operand fuel (node predicate right)
    else return predicate

/-- Operands joined by a connective, to the left. -/
def connective (word : String) (node : Predicate → Predicate → Predicate)
    (operand : Parser Predicate) : Parser Predicate := do
  let predicate ← operand
  let tokens ← get
  connectiveLoop word node operand (tokens.length + 1) predicate

/-- `Parser::parseAndPredicate`. -/
def parseAndPredicate (nested : Parser Predicate) : Parser Predicate :=
  connective "AND" .and (parsePrimaryPredicate nested)

/-- `Parser::parseOrPredicate`. -/
def parseOrPredicate (nested : Parser Predicate) : Parser Predicate :=
  connective "OR" .or (parseAndPredicate nested)

/-- `Parser::parsePredicate` with at most `depth` levels of parentheses. -/
def parsePredicateTo : ℕ → Parser Predicate
  | 0 => throw .outOfFuel
  | depth + 1 => parseOrPredicate (parsePredicateTo depth)

/-- `Parser::parsePredicate`. -/
def parsePredicate : Parser Predicate := do
  let tokens ← get
  parsePredicateTo (tokens.length + 1)

/-- An optional `WHERE` clause. -/
def parseWhere : Parser (Option Predicate) := do
  if ← keyword "WHERE" then
    let predicate ← parsePredicate
    return some predicate
  return none

/-! ### Statements -/

/-- `Parser::parseCreateDatabase`. -/
def parseCreateDatabase : Parser CreateDatabase := do
  let name ← identifier "expected database name"
  return ⟨name⟩

/-- `NOT NULL`, `NULL` or nothing after a column type. -/
def parseNullable : Parser Bool := do
  if ← keyword "NOT" then
    expectKeyword "NULL"
    return false
  keyword "NULL"

/-- One column of `CREATE TABLE`. -/
def parseColumn : Parser Column := do
  let columnName ← identifier "expected column name"
  let typeName ← identifier "expected column type"
  match columnTypeFromString typeName with
  | none => throw (.runtimeError "unsupported column type")
  | some type =>
    let nullable ← parseNullable
    return ⟨columnName, type, nullable⟩

/-- `Parser::parseCreateTable`. -/
def parseCreateTable : Parser CreateTable := do
  let table ← identifier "expected table name"
  expect .leftParen []
  let columns ← commaSeparated parseColumn
  expect .rightParen []
  return ⟨table, columns⟩

/-- `Parser::parseDropTable`. -/
def parseDropTable : Parser DropTable := do
  expectKeyword "TABLE"
  let table ← identifier "expected table name"
  return ⟨table⟩

/-- `Parser::parseRenameTable`. -/
def parseRenameTable : Parser RenameTable := do
  expectKeyword "TABLE"
  let oldName ← identifier "expected source table name"
  expectKeyword "TO"
  let newName ← identifier "expected destination table name"
  return ⟨oldName, newName⟩

/-- `Parser::parseCreateIndex`. -/
def parseCreateIndex : Parser CreateIndex := do
  let index ← identifier "expected index name"
  expectKeyword "ON"
  let table ← identifier "expected indexed table name"
  expect .leftParen []
  let column ← identifier "expected indexed column name"
  expect .rightParen []
  return ⟨index, table, column⟩

/-- Literals in parentheses. -/
def parseTuple : Parser (List Value) := do
  expect .leftParen []
  let values ← commaSeparated parseValue
  expect .rightParen []
  return values

/-- `Parser::parseInsert`. -/
def parseInsert : Parser Insert := do
  expectKeyword "INTO"
  let table ← identifier "expected table name"
  expectKeyword "VALUES"
  let rows ← commaSeparated parseTuple
  return ⟨table, rows⟩

/-- The selected columns. -/
def parseSelectColumns : Parser (List Str) := do
  if ← matchToken .star [] then return [bytes "*"]
  commaSeparated (identifier "expected selected column")

/-- An optional `JOIN` clause. -/
def parseJoin : Parser (Option JoinClause) := do
  if ← keyword "JOIN" then
    let joinedTable ← identifier "expected joined table name"
    expectKeyword "ON"
    let leftColumn ← identifier "expected left join column"
    expect .equal []
    let rightColumn ← identifier "expected right join column"
    return some ⟨joinedTable, leftColumn, rightColumn⟩
  return none

/-- `DESC`, `ASC` or nothing after the column of `ORDER BY`. -/
def parseAscending : Parser Bool := do
  if ← keyword "DESC" then return false
  let _ ← keyword "ASC"
  return true

/-- An optional `ORDER BY` clause. -/
def parseOrderBy : Parser (Option OrderBy) := do
  if ← keyword "ORDER" then
    expectKeyword "BY"
    let column ← identifier "expected ORDER BY column"
    let ascending ← parseAscending
    return some ⟨column, ascending⟩
  return none

/-- An optional `LIMIT` clause; the integer is cast to `std::size_t`. -/
def parseLimit : Parser (Option ℕ) := do
  if ← keyword "LIMIT" then
    let count ← advance
    if count.type ≠ .number then throw (.runtimeError "expected numeric limit")
    let i ← parseInt count.lexeme
    return some i.toBits
  return none

/-- `Parser::parseSelect`. -/
def parseSelect : Parser Select := do
  let columns ← parseSelectColumns
  expectKeyword "FROM"
  let table ← identifier "expected table name"
  let join ← parseJoin
  let where_ ← parseWhere
  let orderBy ← parseOrderBy
  let limit ← parseLimit
  return ⟨table, join, columns, where_, orderBy, limit⟩

/-- `Parser::parseUpdate`. -/
def parseUpdate : Parser Update := do
  let table ← identifier "expected table name"
  expectKeyword "SET"
  let column ← identifier "expected update column"
  expect .equal []
  let value ← parseValue
  let where_ ← parseWhere
  return ⟨table, column, value, where_⟩

/-- `Parser::parseDelete`. -/
def parseDelete : Parser Delete := do
  expectKeyword "FROM"
  let table ← identifier "expected table name"
  let where_ ← parseWhere
  return ⟨table, where_⟩

/-- `Parser::parsePrepare`. -/
def parsePrepare : Parser PrepareStatement := do
  let name ← identifier "expected prepared statement name"
  expectKeyword "AS"
  let sql ← advance
  if sql.type ≠ .string then throw (.runtimeError "expected prepared SQL string")
  return ⟨name, sql.lexeme⟩

/-- `Parser::parseExecutePrepared`. -/
def parseExecutePrepared : Parser ExecutePrepared := do
  let name ← identifier "expected prepared statement name"
  if ← keyword "VALUES" then
    let parameters ← parseTuple
    return ⟨name, parameters⟩
  return ⟨name, []⟩

/-- What follows `CREATE`. -/
def parseCreate : Parser Query := do
  if ← keyword "DATABASE" then return .createDatabase (← parseCreateDatabase)
  if ← keyword "TABLE" then return .createTable (← parseCreateTable)
  if ← keyword "INDEX" then return .createIndex (← parseCreateIndex)
  throw (.runtimeError "expected DATABASE, TABLE, or INDEX after CREATE")

/-- What follows `LOAD DATABASE`. -/
def parseLoadDatabase : Parser LoadDatabase := do
  let token ← peek
  if token.type = .identifier then
    let name ← advance
    return ⟨some name.lexeme⟩
  return ⟨none⟩

/-- The command of a statement, by its first keyword. -/
def parseCommand : Parser Query := do
  if ← keyword "CREATE" then return ← parseCreate
  if ← keyword "DROP" then return .dropTable (← parseDropTable)
  if ← keyword "RENAME" then return .renameTable (← parseRenameTable)
  if ← keyword "LIST" then
    expectKeyword "TABLES"
    return .listTables
  if ← keyword "INSERT" then return .insert (← parseInsert)
  if ← keyword "SELECT" then return .select (← parseSelect)
  if ← keyword "UPDATE" then return .update (← parseUpdate)
  if ← keyword "DELETE" then return .delete (← parseDelete)
  if ← keyword "SAVE" then
    expectKeyword "DATABASE"
    return .saveDatabase
  if ← keyword "LOAD" then
    expectKeyword "DATABASE"
    return .loadDatabase (← parseLoadDatabase)
  if ← keyword "BEGIN" then return .beginTransaction
  if ← keyword "COMMIT" then return .commitTransaction
  if ← keyword "ROLLBACK" then return .rollbackTransaction
  if ← keyword "PREPARE" then return .prepareStatement (← parsePrepare)
  if ← keyword "EXECUTE" then return .executePrepared (← parseExecutePrepared)
  if ← keyword "EXIT" then return .exit
  throw (.runtimeError "unsupported SQL command")

/-- A command up to the end of the statement. -/
def parseStatement : Parser Query := do
  let query ← parseCommand
  expectStatementEnd
  return query

/-- `Parser::parse` on tokens. -/
def parseTokens (tokens : List Token) : Except Exception Query := do
  let (query, _) ← parseStatement tokens
  return query

/-- `Parser::parse`. -/
def parse (sql : Str) : Except Exception Query := do
  let tokens ← Tokenizer.tokenize sql
  parseTokens tokens

end Parser

end VertexDB
