import VertexDB.Common.Value

/-!
# The commands of the SQL subset

The structures of `parser/ast.hpp`.  A `Predicate` there is a node with a kind and two pointers;
the pointers are set exactly in the nodes of kind `And` and `Or`, so the tree is an inductive
type here.
-/

namespace VertexDB

/-- `Predicate`: a comparison of a column with a literal, or a conjunction or disjunction. -/
inductive Predicate
  | comparison (column : Str) (op : ComparisonOperator) (value : Value)
  | and (left right : Predicate)
  | or (left right : Predicate)
  deriving DecidableEq

structure CreateDatabase where
  name : Str
  deriving DecidableEq

structure CreateTable where
  name : Str
  columns : List Column
  deriving DecidableEq

structure DropTable where
  name : Str
  deriving DecidableEq

structure RenameTable where
  oldName : Str
  newName : Str
  deriving DecidableEq

structure Insert where
  table : Str
  rows : List Row
  deriving DecidableEq

structure OrderBy where
  column : Str
  ascending : Bool
  deriving DecidableEq

structure JoinClause where
  table : Str
  leftColumn : Str
  rightColumn : Str
  deriving DecidableEq

/-- `Select`; the limit is a `std::size_t`. -/
structure Select where
  table : Str
  join : Option JoinClause
  columns : List Str
  where_ : Option Predicate
  orderBy : Option OrderBy
  limit : Option ℕ
  deriving DecidableEq

structure Update where
  table : Str
  column : Str
  value : Value
  where_ : Option Predicate
  deriving DecidableEq

structure Delete where
  table : Str
  where_ : Option Predicate
  deriving DecidableEq

structure CreateIndex where
  name : Str
  table : Str
  column : Str
  deriving DecidableEq

structure LoadDatabase where
  name : Option Str
  deriving DecidableEq

structure PrepareStatement where
  name : Str
  sql : Str
  deriving DecidableEq

structure ExecutePrepared where
  name : Str
  parameters : List Value
  deriving DecidableEq

/-- `Query`: one command. -/
inductive Query
  | createDatabase (command : CreateDatabase)
  | createTable (command : CreateTable)
  | dropTable (command : DropTable)
  | renameTable (command : RenameTable)
  | listTables
  | insert (command : Insert)
  | select (command : Select)
  | update (command : Update)
  | delete (command : Delete)
  | createIndex (command : CreateIndex)
  | saveDatabase
  | loadDatabase (command : LoadDatabase)
  | beginTransaction
  | commitTransaction
  | rollbackTransaction
  | prepareStatement (command : PrepareStatement)
  | executePrepared (command : ExecutePrepared)
  | exit
  deriving DecidableEq

end VertexDB
