import RecordSql.Number.Layout

/-!
# Literals

The constants that a query can write, and a truth value, which arises only from computing with
them.  A double that is not a number counts as the missing value.
-/

namespace RecordSql
namespace Sql

inductive Literal where
  | str (s : String)
  | int (i : Int)
  | float (x : Float)
  | bool (b : Bool)
  | null
deriving DecidableEq, Repr

namespace Literal

def ofFloat (x : Float) : Literal :=
  if x.isNaN then .null else .float x

/-- Doubles are the same when they are equal numbers, so the two zeros are. -/
def same : Literal -> Literal -> Bool
  | .str a, .str b => a == b
  | .int a, .int b => a == b
  | .float a, .float b => a == b
  | .bool a, .bool b => a == b
  | .null, .null => true
  | _, _ => false

/-- The text of a literal as a value in a condition of the platform; the missing value has none. -/
def platformText : Literal -> Option String
  | .str s => some s
  | .int i => some (Number.intText i)
  | .float x => some (Number.floatText x)
  | .bool b => some (if b then "1" else "0")
  | .null => none

/-- A text in quotation marks, those inside it doubled. -/
def quoted (s : String) : String :=
  let doubled := s.toList.flatMap fun c => if c == '\'' then ['\'', '\''] else [c]
  String.ofList ('\'' :: doubled ++ ['\''])

/-- The literal as it is written in a query. -/
def text : Literal -> String
  | .str s => quoted s
  | .int i => Number.intText i
  | .float x => Number.floatText x
  | .bool b => if b then "1" else "0"
  | .null => "NULL"

end Literal

end Sql
end RecordSql
