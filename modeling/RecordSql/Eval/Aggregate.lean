import RecordSql.Eval.Error
import RecordSql.Text.Ascii
import RecordSql.Value.Compare

/-!
# Aggregates

An aggregate summarises the values of a group of rows.  Missing values do not count, and of no
values at all there is no sum, mean or extreme.
-/

namespace RecordSql

inductive Aggregate where
  | count
  | sum
  | avg
  | min
  | max
deriving DecidableEq, Repr

namespace Aggregate

def name : Aggregate -> String
  | count => "count"
  | sum => "sum"
  | avg => "avg"
  | min => "min"
  | max => "max"

def ofName? (name : String) : Option Aggregate :=
  match Text.lowerAscii name with
  | "count" => some count
  | "sum" => some sum
  | "avg" => some avg
  | "min" => some min
  | "max" => some max
  | _ => none

/-- All aggregates, by their names. -/
def all : List Aggregate :=
  [avg, count, max, min, sum]

/-!
# Running totals

A sum keeps whole numbers apart from all others and is whole as long as it has seen nothing else.
-/

inductive Total where
  | count (n : Int)
  | sum (whole : Int) (other : Option Float) (seen : Bool)
  | avg (sum : Float) (n : Int)
  /-- The value that no later value has come before, in the given direction. -/
  | extreme (wanted : Ordering) (best : Option Value)

def start : Aggregate -> Total
  | count => .count 0
  | sum => .sum 0 none false
  | avg => .avg 0.0 0
  | min => .extreme .lt none
  | max => .extreme .gt none

namespace Total

def invalid (function : String) (v : Value) : EvalError :=
  .invalidValue function v.text

def addToSum (whole : Int) (other : Option Float) (seen : Bool) (v : Value) :
    Except EvalError Total :=
  match v with
  | .null => .ok (.sum whole other seen)
  | .int i => .ok (.sum (Number.wrap (whole + i)) other true)
  | .bool b => .ok (.sum (Number.wrap (whole + if b then 1 else 0)) other true)
  | v =>
      match v.asFloat with
      | some x => .ok (.sum whole (some (other.getD 0.0 + x)) true)
      | none => .error (invalid "SUM" v)

def addToMean (total : Float) (n : Int) (v : Value) : Except EvalError Total :=
  if v.isNull then .ok (.avg total n)
  else
    match v.asFloat with
    | some x => .ok (.avg (total + x) (n + 1))
    | none => .error (invalid "AVG" v)

/-- Whether a value takes the place of the best one so far. -/
def replaces (wanted : Ordering) (v : Value) : Option Value -> Bool
  | none => true
  | some best => v.compare false best == some wanted

def extremeName (wanted : Ordering) : String :=
  if wanted == .lt then "MIN" else "MAX"

/-- The total after one more row, whose arguments are given; only a count may have none. -/
def update (t : Total) (args : List Value) : Except EvalError Total :=
  match t, args with
  | .count n, [] => .ok (.count (n + 1))
  | .count n, [v] => .ok (.count (if v.isNull then n else n + 1))
  | .count _, _ => .error (.invalidArguments "COUNT" "COUNT(*|expr)")
  | .sum whole other seen, [v] => addToSum whole other seen v
  | .sum _ _ _, _ => .error (.invalidArguments "SUM" "SUM(expr)")
  | .avg total n, [v] => addToMean total n v
  | .avg _ _, _ => .error (.invalidArguments "AVG" "AVG(expr)")
  | .extreme wanted best, [v] =>
      if v.isNull then .ok t
      else .ok (.extreme wanted (if replaces wanted v best then some v else best))
  | .extreme wanted _, _ => .error (.invalidArguments (extremeName wanted) "MIN|MAX(expr)")

def result : Total -> Value
  | .count n => .int n
  | .sum whole other seen =>
      if seen then
        match other with
        | some x => .float (x + Float.ofInt whole)
        | none => .int whole
      else .null
  | .avg total n => if n = 0 then .null else .float (total / Float.ofInt n)
  | .extreme _ best => best.getD .null

end Total

end Aggregate

end RecordSql
