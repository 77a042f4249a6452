import RecordSql.Eval.Expr

/-!
# Folding constants

An operation on literals is replaced by its value.  What cannot be evaluated stays as it is, since
a name that is no function here may still be one of the platform's own conditions.
-/

namespace RecordSql
namespace Eval

open Sql (Scalar Predicate)

/-- The value of an expression without columns as a literal, or the expression itself. -/
def literalOr (clock : Clock) (e : Scalar) : Scalar :=
  match constant clock e with
  | .ok v => .literal v.toLiteral
  | .error _ => e

mutual

def fold (clock : Clock) : Scalar -> Scalar
  | .call name distinct args =>
      if (Scalar.call name distinct args).isAggregate then .call name distinct args
      else
        let folded := foldAll clock args
        if folded.all Scalar.isLiteral then literalOr clock (.call name distinct folded)
        else .call name distinct folded
  | .binary l op r =>
      let l' := fold clock l
      let r' := fold clock r
      if l'.isLiteral && r'.isLiteral then literalOr clock (.binary l' op r')
      else .binary l' op r'
  | .negate e =>
      let e' := fold clock e
      if e'.isLiteral then literalOr clock (.negate e') else .negate e'
  | e => e

def foldAll (clock : Clock) : List Scalar -> List Scalar
  | [] => []
  | e :: rest => fold clock e :: foldAll clock rest

end

mutual

def foldPredicate (clock : Clock) : Predicate -> Predicate
  | .and items => .and (foldPredicates clock items)
  | .or items => .or (foldPredicates clock items)
  | .not p => .not (foldPredicate clock p)
  | .compare l op r => .compare (fold clock l) op (fold clock r)
  | .isNull e negated => .isNull (fold clock e) negated
  | .inList e items negated => .inList (fold clock e) (foldAll clock items) negated
  | .like e pattern negated => .like (fold clock e) (fold clock pattern) negated
  | .contains c w => .contains c (fold clock w)
  | .const t => .const t

def foldPredicates (clock : Clock) : List Predicate -> List Predicate
  | [] => []
  | p :: rest => foldPredicate clock p :: foldPredicates clock rest

end

end Eval
end RecordSql
