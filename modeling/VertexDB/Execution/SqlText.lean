import VertexDB.Parser.Ast

/-!
# SQL text

The functions that write a command as SQL, for the write-ahead log and for binding the
parameters of a prepared statement.
-/

namespace VertexDB

open Ascii

/-- Escape quotes and backslashes. -/
def escape : Str → Str
  | [] => []
  | character :: rest =>
    if character = byte '"' ∨ character = byte '\\' then byte '\\' :: character :: escape rest
    else character :: escape rest

/-- `sqlLiteral`. -/
def sqlLiteral : Value → Str
  | .null => bytes "NULL"
  | .int value => (Value.int value).toString
  | .double value => (Value.double value).toString
  | .string value => byte '"' :: (escape value ++ [byte '"'])

/-- The text of a comparison operator. -/
def operatorLiteral : ComparisonOperator → Str
  | .equal => bytes "="
  | .greater => bytes ">"
  | .less => bytes "<"

/-- `predicateLiteral`. -/
def predicateLiteral : Predicate → Str
  | .and left right =>
    bytes "(" ++ predicateLiteral left ++ bytes " AND " ++ predicateLiteral right ++ bytes ")"
  | .or left right =>
    bytes "(" ++ predicateLiteral left ++ bytes " OR " ++ predicateLiteral right ++ bytes ")"
  | .comparison column op value =>
    column ++ bytes " " ++ operatorLiteral op ++ bytes " " ++ sqlLiteral value

/-- Texts separated by a comma and a blank. -/
def commaSeparatedSql : List Str → Str
  | [] => []
  | [text] => text
  | text :: texts => text ++ bytes ", " ++ commaSeparatedSql texts

/-- A column of `CREATE TABLE`. -/
def columnSql (column : Column) : Str :=
  column.name ++ bytes " " ++ column.type.toString ++ if column.nullable then bytes " NULL" else []

/-- `createTableSql`. -/
def createTableSql (command : CreateTable) : Str :=
  bytes "CREATE TABLE " ++ command.name ++ bytes " (" ++
    commaSeparatedSql (command.columns.map columnSql) ++ bytes ");"

/-- The text of `DROP TABLE`. -/
def dropTableSql (command : DropTable) : Str :=
  bytes "DROP TABLE " ++ command.name ++ bytes ";"

/-- The text of `RENAME TABLE`. -/
def renameTableSql (command : RenameTable) : Str :=
  bytes "RENAME TABLE " ++ command.oldName ++ bytes " TO " ++ command.newName ++ bytes ";"

/-- `insertSql`. -/
def insertSql (table : Str) (row : Row) : Str :=
  bytes "INSERT INTO " ++ table ++ bytes " VALUES (" ++ commaSeparatedSql (row.map sqlLiteral) ++
    bytes ");"

/-- An optional `WHERE` clause. -/
def whereSql : Option Predicate → Str
  | none => []
  | some predicate => bytes " WHERE " ++ predicateLiteral predicate

/-- `updateSql`. -/
def updateSql (command : Update) : Str :=
  bytes "UPDATE " ++ command.table ++ bytes " SET " ++ command.column ++ bytes " = " ++
    sqlLiteral command.value ++ whereSql command.where_ ++ bytes ";"

/-- `deleteSql`. -/
def deleteSql (command : Delete) : Str :=
  bytes "DELETE FROM " ++ command.table ++ whereSql command.where_ ++ bytes ";"

/-- `createIndexSql`. -/
def createIndexSql (command : CreateIndex) : Str :=
  bytes "CREATE INDEX " ++ command.name ++ bytes " ON " ++ command.table ++ bytes "(" ++
    command.column ++ bytes ");"

end VertexDB
