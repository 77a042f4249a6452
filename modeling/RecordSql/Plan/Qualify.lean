import RecordSql.Plan.Context
import RecordSql.Sql.ExprText

/-!
# Qualifying expressions

To be evaluated on retrieved rows, an expression must read its columns under the names that those
rows use.  A quoted name that is really a text becomes one.
-/

namespace RecordSql
namespace Plan

open Sql (Column Predicate Scalar)

namespace Context

mutual

def qualify (ctx : Context) : Scalar -> Except PlanError Scalar
  | .column c => do
      match <- ctx.resolve c with
      | some b => return .column (ctx.scopes.qualified b)
      | none => return .literal (.str c.name)
  | .call name distinct args => do
      if (Scalar.call name distinct args).isRowCount then return .call name distinct args
      else
        let args' <- qualifyList ctx args
        return .call name distinct args'
  | .binary l op r => do
      let l' <- qualify ctx l
      let r' <- qualify ctx r
      return .binary l' op r'
  | .negate e => do
      let e' <- qualify ctx e
      return .negate e'
  | .collate e collation => do
      let e' <- qualify ctx e
      return .collate e' collation
  | .searchedCase whens otherwise => do
      let whens' <- qualifyBranches ctx whens
      let otherwise' <- qualifyOption ctx otherwise
      return .searchedCase whens' otherwise'
  | .simpleCase input whens otherwise => do
      let input' <- qualify ctx input
      let whens' <- qualifyPairs ctx whens
      let otherwise' <- qualifyOption ctx otherwise
      return .simpleCase input' whens' otherwise'
  | .literal l => .ok (.literal l)
  | .star => .error (.notSupported (Scalar.star.text ++ " inside an expression"))
  | .starOf table =>
      .error (.notSupported ((Scalar.starOf table).text ++ " inside an expression"))

def qualifyPredicate (ctx : Context) : Predicate -> Except PlanError Predicate
  | .and items => do
      let items' <- qualifyPredicates ctx items
      return .and items'
  | .or items => do
      let items' <- qualifyPredicates ctx items
      return .or items'
  | .not p => do
      let p' <- qualifyPredicate ctx p
      return .not p'
  | .compare l op r => do
      let l' <- qualify ctx l
      let r' <- qualify ctx r
      return .compare l' op r'
  | .isNull e negated => do
      let e' <- qualify ctx e
      return .isNull e' negated
  | .inList e items negated => do
      let items' <- qualifyList ctx items
      let e' <- qualify ctx e
      return .inList e' items' negated
  | .like e pattern negated => do
      let e' <- qualify ctx e
      let pattern' <- qualify ctx pattern
      return .like e' pattern' negated
  | .contains c wanted => do
      match <- ctx.resolve c with
      | none => .error (.invalidColumn c.text)
      | some b =>
          let wanted' <- qualify ctx wanted
          return .contains (ctx.scopes.qualified b) wanted'
  | .const t => .ok (.const t)

def qualifyList (ctx : Context) : List Scalar -> Except PlanError (List Scalar)
  | [] => .ok []
  | e :: rest => do
      let e' <- qualify ctx e
      let rest' <- qualifyList ctx rest
      return e' :: rest'

def qualifyPredicates (ctx : Context) : List Predicate -> Except PlanError (List Predicate)
  | [] => .ok []
  | p :: rest => do
      let p' <- qualifyPredicate ctx p
      let rest' <- qualifyPredicates ctx rest
      return p' :: rest'

def qualifyBranches (ctx : Context) :
    List (Predicate × Scalar) -> Except PlanError (List (Predicate × Scalar))
  | [] => .ok []
  | (p, e) :: rest => do
      let p' <- qualifyPredicate ctx p
      let e' <- qualify ctx e
      let rest' <- qualifyBranches ctx rest
      return (p', e') :: rest'

def qualifyPairs (ctx : Context) :
    List (Scalar × Scalar) -> Except PlanError (List (Scalar × Scalar))
  | [] => .ok []
  | (w, e) :: rest => do
      let w' <- qualify ctx w
      let e' <- qualify ctx e
      let rest' <- qualifyPairs ctx rest
      return (w', e') :: rest'

def qualifyOption (ctx : Context) : Option Scalar -> Except PlanError (Option Scalar)
  | none => .ok none
  | some e => do
      let e' <- qualify ctx e
      return some e'

end

end Context

/-!
# Columns read

The columns of an expression in the order in which they are bound; of a membership test, those of
the list come first.
-/

mutual

def reads : Scalar -> List Column
  | .column c => [c]
  | .call _ _ args => readsOfList args
  | .binary l _ r => reads l ++ reads r
  | .negate e => reads e
  | .collate e _ => reads e
  | .searchedCase whens otherwise => readsOfBranches whens ++ readsOfOption otherwise
  | .simpleCase input whens otherwise =>
      reads input ++ readsOfPairs whens ++ readsOfOption otherwise
  | .literal _ => []
  | .star => []
  | .starOf _ => []

def readsOfPredicate : Predicate -> List Column
  | .and items => readsOfPredicates items
  | .or items => readsOfPredicates items
  | .not p => readsOfPredicate p
  | .compare l _ r => reads l ++ reads r
  | .isNull e _ => reads e
  | .inList e items _ => readsOfList items ++ reads e
  | .like e pattern _ => reads e ++ reads pattern
  | .contains c wanted => c :: reads wanted
  | .const _ => []

def readsOfList : List Scalar -> List Column
  | [] => []
  | e :: rest => reads e ++ readsOfList rest

def readsOfPredicates : List Predicate -> List Column
  | [] => []
  | p :: rest => readsOfPredicate p ++ readsOfPredicates rest

def readsOfBranches : List (Predicate × Scalar) -> List Column
  | [] => []
  | (p, e) :: rest => readsOfPredicate p ++ reads e ++ readsOfBranches rest

def readsOfPairs : List (Scalar × Scalar) -> List Column
  | [] => []
  | (w, e) :: rest => reads w ++ reads e ++ readsOfPairs rest

def readsOfOption : Option Scalar -> List Column
  | none => []
  | some e => reads e

end

namespace Context

def bound? (ctx : Context) (c : Column) : Option Bound :=
  match ctx.resolve c with
  | .ok b => b
  | .error _ => none

/-- The bound columns of a list of columns after those already used, each of them once. -/
def use (ctx : Context) (used : List Bound) (columns : List Column) : List Bound :=
  (columns.filterMap ctx.bound?).foldl addBound used

/-- The bound columns that an expression reads. -/
def used (ctx : Context) (e : Scalar) : List Bound :=
  ctx.use [] (reads e)

/-- The attribute that an expression names if it is a column and nothing else. -/
def plainColumn? (ctx : Context) (e : Scalar) : Option Bound :=
  match e with
  | .column c => ctx.bound? c
  | _ => none

end Context

end Plan
end RecordSql
