import RecordSql.Sql.ExprText
import RecordSql.Sql.Statement

/-!
# Local steps

What the platform cannot do is done here, step by step, on the rows that it returned.
-/

namespace RecordSql

open Sql (Column OrderKey Predicate Scalar)

/-- An expression to group by and the column that shows it. -/
structure GroupKey where
  expr : Scalar
  output : String

/-- A summary of each group and the column that shows it; without an argument it counts rows. -/
structure AggregateColumn where
  function : String
  arg : Option Scalar
  distinct : Bool
  output : String

/-- A column by which rows are told apart. -/
structure DistinctColumn where
  name : String
  caseSensitive : Bool

inductive Step where
  | compute (expr : Scalar) (output : String)
  | filter (p : Predicate)
  | sort (keys : List OrderKey)
  | limit (skip : Nat) (take : Option Nat)
  /-- A filter on groups. -/
  | having (p : Predicate)
  /-- From here on the column is compared without regard to case. -/
  | foldCase (column : Column)
  | aggregate (groups : List GroupKey) (columns : List AggregateColumn)
  | distinct (columns : List DistinctColumn)

/-- One entry per column; the names in the second list keep their case. -/
def DistinctColumn.ofNames (names caseSensitive : List String) : List DistinctColumn :=
  names.map fun name => ⟨name, caseSensitive.contains name⟩

namespace Step

/-- The step can drop, add or move rows. -/
def changesRows : Step -> Bool
  | compute _ _ => false
  | foldCase _ => false
  | _ => true

/-- The column computed by the step, if case counts in it. -/
def caseSensitiveOutput? : Step -> Option String
  | compute expr output => if expr.isCaseSensitive then some output else none
  | _ => none

def keyText (key : OrderKey) : String :=
  key.expr.text ++ if key.descending then " DESC" else ""

def text : Step -> String
  | compute expr output => "ComputeColumn(" ++ expr.text ++ " AS " ++ output ++ ")"
  | filter p => "FilterRows(" ++ p.text ++ ")"
  | sort keys => "Sort(" ++ Text.joinWith ", " (keys.map keyText) ++ ")"
  | limit skip none => "ApplyLimit(" ++ Number.intText skip ++ ")"
  | limit skip (some take) =>
      "ApplyLimit(" ++ Number.intText skip ++ ", " ++ Number.intText take ++ ")"
  | having p => "Having(" ++ p.text ++ ")"
  | foldCase column => "NormalizeCollationKey(" ++ column.text ++ ")"
  | aggregate groups columns =>
      "Aggregate([" ++ Text.joinWith ", " (groups.map (·.output)) ++ "], [" ++
        Text.joinWith ", " (columns.map (·.output)) ++ "])"
  | distinct columns => "Distinct(" ++ Text.joinWith ", " (columns.map (·.name)) ++ ")"

end Step

end RecordSql
