import RecordSql.Sql.Expr

/-!
# Pushing negation inwards

A negation is moved to the simple conditions, by the laws of three-valued logic.  Only a full-text
search keeps it, since it has no negated form.
-/

namespace RecordSql
namespace Sql
namespace Predicate

mutual

def pushNot : Predicate -> Predicate
  | .not p => p.negation
  | .and items => .and (pushNotAll items)
  | .or items => .or (pushNotAll items)
  | p => p

def negation : Predicate -> Predicate
  | .and items => .or (negateAll items)
  | .or items => .and (negateAll items)
  | .not p => p.pushNot
  | .compare l op r => .compare l op.negated r
  | .isNull e negated => .isNull e !negated
  | .inList e items negated => .inList e items !negated
  | .like e pattern negated => .like e pattern !negated
  | .const t => .const t.not
  | .contains c w => .not (.contains c w)

def pushNotAll : List Predicate -> List Predicate
  | [] => []
  | p :: rest => p.pushNot :: pushNotAll rest

def negateAll : List Predicate -> List Predicate
  | [] => []
  | p :: rest => p.negation :: negateAll rest

end

end Predicate
end Sql
end RecordSql
