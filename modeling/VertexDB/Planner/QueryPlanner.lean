import VertexDB.Parser.Ast
import VertexDB.Storage.Table

/-!
# The query planner

`planSelect` chooses between a full scan, a hash lookup and an ordered range.  The estimates are
kept as natural numbers: the source's `double` cost is always a number of rows.
-/

namespace VertexDB

open Ascii

/-- `AccessPath`. -/
inductive AccessPath
  | fullScan
  | hashIndexLookup
  | orderedIndexRange
  deriving DecidableEq

/-- `QueryPlan`. -/
structure QueryPlan where
  accessPath : AccessPath
  predicate : Option Predicate
  estimatedRows : ℕ
  estimatedCost : ℕ
  explanation : Str
  deriving DecidableEq

/-- `simpleComparison`: the parts of a predicate that is one comparison. -/
def simpleComparison : Option Predicate → Option (Str × ComparisonOperator × Value)
  | some (.comparison column op value) => some (column, op, value)
  | _ => none

namespace QueryPlanner

/-- `QueryPlanner::planSelect`. -/
def planSelect (query : Select) (table : Table) : QueryPlan :=
  let plan : QueryPlan :=
    ⟨.fullScan, query.where_, table.rowCount, max table.rowCount 1, bytes "full table scan"⟩
  match simpleComparison query.where_ with
  | none => plan
  | some (column, op, _) =>
    if op = .equal ∧ table.hasIndex column then
      { plan with
        accessPath := .hashIndexLookup
        estimatedRows := min plan.estimatedRows 1
        estimatedCost := 1
        explanation := bytes "hash index equality lookup" }
    else if (op = .greater ∨ op = .less) ∧ table.hasOrderedIndex column then
      { plan with
        accessPath := .orderedIndexRange
        estimatedRows := max (plan.estimatedRows / 3) 1
        estimatedCost := max (plan.estimatedRows / 3) 1
        explanation := bytes "ordered index range lookup" }
    else plan

end QueryPlanner

end VertexDB
