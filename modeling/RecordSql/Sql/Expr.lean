import RecordSql.Sql.Literal
import RecordSql.Sql.Operator
import RecordSql.Sql.Truth
import RecordSql.Text.Ascii
import RecordSql.Text.Case
import RecordSql.Text.Pieces

/-!
# Expressions and conditions

A scalar expression stands for a value of a row, a predicate for a condition on it.  Each may hold
the other: a condition compares scalars, and a `CASE` chooses by conditions.
-/

namespace RecordSql
namespace Sql

structure Column where
  /-- The table or alias in front of the name. -/
  collection : Option String
  name : String
  /-- The name was written in brackets or double quotation marks. -/
  quoted : Bool
deriving DecidableEq, Repr

namespace Column

def ofName (name : String) : Column :=
  ⟨none, name, false⟩

def inCollection (collection name : String) : Column :=
  ⟨some collection, name, false⟩

/-- The name under which a retrieved row holds the column. -/
def rowKey (c : Column) : String :=
  match c.collection with
  | some collection => collection ++ "." ++ c.name
  | none => c.name

def text (c : Column) : String :=
  match c.collection with
  | some collection => Text.lower collection ++ "." ++ Text.lower c.name
  | none => Text.lower c.name

end Column

mutual

inductive Scalar where
  | literal (l : Literal)
  | column (c : Column)
  | call (name : String) (distinct : Bool) (args : List Scalar)
  | binary (left : Scalar) (op : Arithmetic) (right : Scalar)
  | negate (e : Scalar)
  | searchedCase (whens : List (Predicate × Scalar)) (otherwise : Option Scalar)
  | simpleCase (input : Scalar) (whens : List (Scalar × Scalar)) (otherwise : Option Scalar)
  | collate (e : Scalar) (collation : String)
  | star
  | starOf (table : String)

inductive Predicate where
  | and (items : List Predicate)
  | or (items : List Predicate)
  | not (p : Predicate)
  | compare (left : Scalar) (op : Comparison) (right : Scalar)
  | isNull (e : Scalar) (negated : Bool)
  | inList (e : Scalar) (items : List Scalar) (negated : Bool)
  | like (e pattern : Scalar) (negated : Bool)
  | contains (column : Column) (wanted : Scalar)
  | const (t : Truth)

end

instance : Inhabited Scalar := ⟨.star⟩

instance : Inhabited Predicate := ⟨.const .unknown⟩

/-!
# Sameness

Two expressions are the same when they are written alike; equal doubles count as written alike.
-/

mutual

def Scalar.same : Scalar -> Scalar -> Bool
  | .literal a, .literal b => a.same b
  | .column a, .column b => a == b
  | .call f d as, .call g e bs => f == g && d == e && sameAll as bs
  | .binary a o b, .binary c p d => a.same c && o == p && b.same d
  | .negate a, .negate b => a.same b
  | .searchedCase ws o, .searchedCase vs p => sameBranches ws vs && sameOption o p
  | .simpleCase a ws o, .simpleCase b vs p => a.same b && samePairs ws vs && sameOption o p
  | .collate a c, .collate b d => a.same b && c == d
  | .star, .star => true
  | .starOf a, .starOf b => a == b
  | _, _ => false
termination_by structural x => x

def Predicate.same : Predicate -> Predicate -> Bool
  | .and as, .and bs => samePredicates as bs
  | .or as, .or bs => samePredicates as bs
  | .not a, .not b => a.same b
  | .compare a o b, .compare c p d => a.same c && o == p && b.same d
  | .isNull a m, .isNull b n => a.same b && m == n
  | .inList a as m, .inList b bs n => a.same b && sameAll as bs && m == n
  | .like a p m, .like b q n => a.same b && p.same q && m == n
  | .contains a v, .contains b w => a == b && v.same w
  | .const a, .const b => a == b
  | _, _ => false
termination_by structural x => x

def sameAll : List Scalar -> List Scalar -> Bool
  | [], [] => true
  | a :: as, b :: bs => a.same b && sameAll as bs
  | _, _ => false
termination_by structural x => x

def samePredicates : List Predicate -> List Predicate -> Bool
  | [], [] => true
  | a :: as, b :: bs => a.same b && samePredicates as bs
  | _, _ => false
termination_by structural x => x

def sameBranches : List (Predicate × Scalar) -> List (Predicate × Scalar) -> Bool
  | [], [] => true
  | (p, a) :: as, (q, b) :: bs => p.same q && a.same b && sameBranches as bs
  | _, _ => false
termination_by structural x => x

def samePairs : List (Scalar × Scalar) -> List (Scalar × Scalar) -> Bool
  | [], [] => true
  | (p, a) :: as, (q, b) :: bs => p.same q && a.same b && samePairs as bs
  | _, _ => false
termination_by structural x => x

def sameOption : Option Scalar -> Option Scalar -> Bool
  | none, none => true
  | some a, some b => a.same b
  | _, _ => false
termination_by structural x => x

end

/-!
# Parts

Every scalar inside an expression, the expression itself first, in the order in which they are
written.
-/

mutual

def Scalar.parts : Scalar -> List Scalar
  | .call f d args => .call f d args :: partsOfAll args
  | .binary l o r => .binary l o r :: (l.parts ++ r.parts)
  | .negate e => .negate e :: e.parts
  | .searchedCase ws o => .searchedCase ws o :: (partsOfBranches ws ++ partsOfOption o)
  | .simpleCase i ws o => .simpleCase i ws o :: (i.parts ++ partsOfPairs ws ++ partsOfOption o)
  | .collate e c => .collate e c :: e.parts
  | e => [e]

def Predicate.parts : Predicate -> List Scalar
  | .and items => partsOfPredicates items
  | .or items => partsOfPredicates items
  | .not p => p.parts
  | .compare l _ r => l.parts ++ r.parts
  | .isNull e _ => e.parts
  | .inList e items _ => e.parts ++ partsOfAll items
  | .like e p _ => e.parts ++ p.parts
  | .contains c w => .column c :: w.parts
  | .const _ => []

def partsOfAll : List Scalar -> List Scalar
  | [] => []
  | e :: rest => e.parts ++ partsOfAll rest

def partsOfPredicates : List Predicate -> List Scalar
  | [] => []
  | p :: rest => p.parts ++ partsOfPredicates rest

def partsOfBranches : List (Predicate × Scalar) -> List Scalar
  | [] => []
  | (p, e) :: rest => p.parts ++ e.parts ++ partsOfBranches rest

def partsOfPairs : List (Scalar × Scalar) -> List Scalar
  | [] => []
  | (w, e) :: rest => w.parts ++ e.parts ++ partsOfPairs rest

def partsOfOption : Option Scalar -> List Scalar
  | none => []
  | some e => e.parts

end

/-!
# Columns and aggregates
-/

/-- The names of the functions that summarise a group of rows. -/
def aggregateNames : List String :=
  ["count", "sum", "avg", "min", "max"]

namespace Scalar

def column? : Scalar -> Option Column
  | .column c => some c
  | _ => none

def literal? : Scalar -> Option Literal
  | .literal l => some l
  | _ => none

def isLiteral (e : Scalar) : Bool :=
  e.literal?.isSome

def isStar : Scalar -> Bool
  | .star => true
  | .starOf _ => true
  | _ => false

def isAggregate : Scalar -> Bool
  | .call name _ _ => aggregateNames.contains (Text.lowerAscii name)
  | _ => false

/-- A call that counts rows: `COUNT(*)`, and `COUNT(1)` likewise. -/
def isRowCount : Scalar -> Bool
  | .call name false [.star] => Text.sameName name "count"
  | .call name false [.literal (.int 1)] => Text.sameName name "count"
  | _ => false

def columns (e : Scalar) : List Column :=
  e.parts.filterMap column?

def containsAggregate (e : Scalar) : Bool :=
  e.parts.any isAggregate

/-- Whether a text contains another, character by character. -/
def mentions (wanted text : String) : Bool :=
  (Text.firstWhere (Text.startsWith (· == ·) wanted.toList) text.toList).isSome

/-- The expression asks for a collation in which case counts. -/
def isCaseSensitive : Scalar -> Bool
  | .collate _ collation =>
      let name := Text.upper collation
      mentions "_CS" name || mentions "_BIN" name
  | _ => false

end Scalar

namespace Predicate

def columns (p : Predicate) : List Column :=
  p.parts.filterMap Scalar.column?

def containsAggregate (p : Predicate) : Bool :=
  p.parts.any Scalar.isAggregate

mutual

/-- The conditions that an outermost `AND` joins, nested ones included. -/
def conjuncts : Predicate -> List Predicate
  | .and items => conjunctsOfAll items
  | p => [p]

def conjunctsOfAll : List Predicate -> List Predicate
  | [] => []
  | p :: rest => p.conjuncts ++ conjunctsOfAll rest

end

/-- The conjunction of the given conditions, if there are any. -/
def andAll : List Predicate -> Option Predicate
  | [] => none
  | [p] => some p
  | items => some (.and items)

end Predicate

end Sql
end RecordSql
