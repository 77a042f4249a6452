import RecordSql.Eval.Expr
import RecordSql.Fetch.Evaluate
import RecordSql.Proofs.Grouping
import RecordSql.Sql.Substitution

/-!
# Values on groups

On a group of rows, an aggregate stands for its total over the rows, and a group key for its value
on the first of them.  An expression is evaluated on a group without regard to the columns that hold
these values: each of its aggregates is summarised by itself.
-/

namespace RecordSql

open Fetch (Joined)
open Sql (Column Predicate Scalar Substitution Truth)

namespace Eval

/-!
# Expressions some parts of which have values of their own

The parts of a part that has a value of its own are not looked at.  No other column has a value.
-/

/-- A column outside of group keys and aggregates. -/
def ungrouped (c : Column) : EvalError :=
  .invalidValue "GROUP BY" c.text

mutual

def scalarWith (clock : Clock) (own : Scalar -> Option (Except EvalError Value)) :
    Scalar -> Except EvalError Value
  | .literal l => (own (.literal l)).getD (.ok (.ofLiteral l))
  | .column c => (own (.column c)).getD (.error (ungrouped c))
  | .call name distinct args => (own (.call name distinct args)).getD do
      let values <- scalarsWith clock own args
      Function.call clock name values
  | .binary l op r => (own (.binary l op r)).getD do
      let a <- scalarWith clock own l
      let b <- scalarWith clock own r
      arithmetic a op b
  | .negate e => (own (.negate e)).getD do
      let v <- scalarWith clock own e
      negate v
  | .searchedCase whens otherwise => (own (.searchedCase whens otherwise)).getD do
      match <- branchesWith clock own whens with
      | some v => .ok v
      | none => elseWith clock own otherwise
  | .simpleCase input whens otherwise => (own (.simpleCase input whens otherwise)).getD do
      let v <- scalarWith clock own input
      match <- matchingWith clock own v whens with
      | some v => .ok v
      | none => elseWith clock own otherwise
  | .collate e collation => (own (.collate e collation)).getD (scalarWith clock own e)
  | .star => (own .star).getD (.error (.invalidValue "SELECT" (Scalar.text .star)))
  | .starOf table =>
      (own (.starOf table)).getD (.error (.invalidValue "SELECT" (Scalar.text (.starOf table))))

def predicateWith (clock : Clock) (own : Scalar -> Option (Except EvalError Value)) :
    Predicate -> Except EvalError Truth
  | .and items => allWith clock own .isTrue items
  | .or items => anyWith clock own .isFalse items
  | .not p => do
      let t <- predicateWith clock own p
      .ok t.not
  | .compare l op r => do
      let a <- scalarWith clock own l
      let b <- scalarWith clock own r
      .ok (compareTruth (l.isCaseSensitive || r.isCaseSensitive) a op b)
  | .isNull e negated => do
      let v <- scalarWith clock own e
      .ok (Truth.negateIf negated (.ofBool v.isNull))
  | .inList e items negated => do
      let v <- scalarWith clock own e
      let t <- memberWith clock own v .isFalse items
      .ok (Truth.negateIf negated t)
  | .like e pattern negated => do
      let v <- scalarWith clock own e
      let p <- scalarWith clock own pattern
      let t <- likeTruth .standard v p
      .ok (Truth.negateIf negated t)
  | .contains c wanted => do
      let w <- scalarWith clock own wanted
      let stored <- (own (.column c)).getD (.error (ungrouped c))
      .ok (containsTruth stored w)
  | .const t => .ok t

def scalarsWith (clock : Clock) (own : Scalar -> Option (Except EvalError Value)) :
    List Scalar -> Except EvalError (List Value)
  | [] => .ok []
  | e :: rest => do
      let v <- scalarWith clock own e
      let vs <- scalarsWith clock own rest
      .ok (v :: vs)

def branchesWith (clock : Clock) (own : Scalar -> Option (Except EvalError Value)) :
    List (Predicate × Scalar) -> Except EvalError (Option Value)
  | [] => .ok none
  | (p, e) :: rest => do
      let t <- predicateWith clock own p
      if t.holds then
        let v <- scalarWith clock own e
        .ok (some v)
      else branchesWith clock own rest

def matchingWith (clock : Clock) (own : Scalar -> Option (Except EvalError Value)) (input : Value) :
    List (Scalar × Scalar) -> Except EvalError (Option Value)
  | [] => .ok none
  | (w, e) :: rest => do
      let candidate <- scalarWith clock own w
      if input.equals false candidate == some true then
        let v <- scalarWith clock own e
        .ok (some v)
      else matchingWith clock own input rest

def elseWith (clock : Clock) (own : Scalar -> Option (Except EvalError Value)) :
    Option Scalar -> Except EvalError Value
  | none => .ok .null
  | some e => scalarWith clock own e

def allWith (clock : Clock) (own : Scalar -> Option (Except EvalError Value)) (sofar : Truth) :
    List Predicate -> Except EvalError Truth
  | [] => .ok sofar
  | p :: rest => do
      let t <- predicateWith clock own p
      let now := sofar.and t
      if now == .isFalse then .ok now else allWith clock own now rest

def anyWith (clock : Clock) (own : Scalar -> Option (Except EvalError Value)) (sofar : Truth) :
    List Predicate -> Except EvalError Truth
  | [] => .ok sofar
  | p :: rest => do
      let t <- predicateWith clock own p
      let now := sofar.or t
      if now == .isTrue then .ok now else anyWith clock own now rest

def memberWith (clock : Clock) (own : Scalar -> Option (Except EvalError Value)) (v : Value)
    (sofar : Truth) : List Scalar -> Except EvalError Truth
  | [] => .ok sofar
  | e :: rest => do
      let candidate <- scalarWith clock own e
      let now := sofar.or (compareTruth false v .eq candidate)
      if now == .isTrue then .ok now else memberWith clock own v now rest

end

end Eval

/-!
# Groups
-/

/-- What a call summarises of a row; a call that counts rows takes no argument of them. -/
def callSummary (clock : Clock) (name : String) (distinct : Bool) (args : List Scalar) :
    Summary Joined where
  function := Text.lowerAscii name
  args := fun row =>
    if (Scalar.call name distinct args).isRowCount then .ok []
    else Eval.scalars clock row.get args
  distinct := if distinct then some (Value.keyIf (args.any Scalar.isCaseSensitive)) else none

/-- The total of an aggregate over the rows of a group. -/
def aggregateOn (clock : Clock) (group : List Joined) : Scalar -> Option (Except EvalError Value)
  | .call name distinct args =>
      if (Scalar.call name distinct args).isAggregate then
        some do
          let tally <- Grouping.tally (callSummary clock name distinct args) group
          return tally.total.result
      else none
  | _ => none

/-- The value of a group key on the first row of a group. -/
def keyOn (clock : Clock) (keys : List Scalar) (group : List Joined) (e : Scalar) :
    Option (Except EvalError Value) :=
  if keys.any (·.text == e.text) then group.head?.map fun row => Eval.scalar clock row.get e
  else none

/-- What an expression stands for on a group, if it is an aggregate or a group key. -/
def ownValue (clock : Clock) (keys : List Scalar) (group : List Joined) (e : Scalar) :
    Option (Except EvalError Value) :=
  (aggregateOn clock group e).or (keyOn clock keys group e)

/-- The value of an expression on a group of rows with the given keys. -/
def groupValueOf (clock : Clock) (keys : List Scalar) (group : List Joined) (e : Scalar) :
    Except EvalError Value :=
  Eval.scalarWith clock (ownValue clock keys group) e

theorem aggregateOn_of_not_isAggregate {clock : Clock} {group : List Joined} {e : Scalar}
    (h : e.isAggregate = false) : aggregateOn clock group e = none := by
  cases e with
  | call name distinct args =>
      rw [aggregateOn, h, if_neg Bool.false_ne_true]
  | _ =>
      rfl

/-- On a row by itself an aggregate cannot be called. -/
theorem Function.call_aggregate {name : String} (clock : Clock)
    (h : Sql.aggregateNames.contains (Text.lowerAscii name) = true) (args : List Value) :
    Function.call clock name args = .error (Function.wrongArguments name) := by
  have hnames : Text.lowerAscii name = "count" ∨ Text.lowerAscii name = "sum" ∨
      Text.lowerAscii name = "avg" ∨ Text.lowerAscii name = "min" ∨
      Text.lowerAscii name = "max" := by
    simpa [Sql.aggregateNames] using h
  unfold Function.call
  rcases hnames with hname | hname | hname | hname | hname <;>
    · rw [hname]
      rfl

theorem Eval.scalar_aggregate {clock : Clock} {read : String -> Value} {e : Scalar} {v : Value}
    (h : e.isAggregate = true) : Eval.scalar clock read e ≠ .ok v := by
  cases e with
  | call name distinct args =>
      intro hv
      rw [Eval.scalar, Outcome.bind_eq_ok] at hv
      rcases hv with ⟨values, _, hcall⟩
      rw [Function.call_aggregate clock h] at hcall
      cases hcall
  | _ =>
      cases h

end RecordSql
