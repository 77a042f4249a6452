import RecordSql.Eval.Fold
import RecordSql.Plan.Qualify
import RecordSql.Sql.Negation

/-!
# Conditions as native filters

A condition becomes a native filter when it is about one scope and the platform accepts its
operator and its values for the type of the attribute.  All other conditions stay with the local
steps.
-/

namespace RecordSql
namespace Plan

open Sql (Column Comparison Literal Predicate Scalar)

abbrev FilterItem := Fetch.Condition ⊕ Fetch.Filter

/-- A native condition or filter, and the scope that it filters. -/
structure Native where
  scope : Nat
  item : FilterItem

/-- The platform would accept the literal as a value of the type. -/
def acceptsLiteral (type : AttributeType) : Literal -> Bool
  | .str s =>
      if type.isNumeric || type.isOption then (Number.readFloat (Text.trim s).toList).isSome
      else if type == .dateTime then (Calendar.DateTime.read s).isSome
      else if type.isIdentifier then (Guid.read s).isSome
      else if type == .boolean then ["0", "1", "true", "false"].contains s
      else true
  | .null => true
  | _ => !(type.isString || type.isIdentifier || type == .dateTime)

namespace Context

def typeOf? (ctx : Context) (b : Bound) : Option AttributeType :=
  (ctx.scopes.attributeOf b).map (·.type)

def compatible (ctx : Context) (b : Bound) (l : Literal) : Bool :=
  (ctx.typeOf? b).any (acceptsLiteral · l)

/-- A condition on a column, if its type supports the operator. -/
def condition (ctx : Context) (b : Bound) (c : Fetch.Condition) : Option Native :=
  if (ctx.typeOf? b).any (·.supports c.operator) then some ⟨b.scope, .inl c⟩ else none

/-- A comparison with a literal; nothing compares with the missing value. -/
def literalCondition (ctx : Context) (b : Bound) (op : Comparison) (l : Literal) :
    Option Native := do
  let value <- l.platformText
  if ctx.compatible b l then
    ctx.condition b (.single b.name (.compare op) (some value))
  else none

/-- The texts of literals, if all operands are literals that are there. -/
def literalTexts (ctx : Context) (accept : Literal -> Bool) :
    List Scalar -> Except PlanError (Option (List String))
  | [] => .ok (some [])
  | e :: rest => do
      match <- ctx.operand e with
      | .literal l =>
          match if accept l then l.platformText else none with
          | some text => do
              let texts <- literalTexts ctx accept rest
              return texts.map (text :: ·)
          | none => return none
      | _ => return none

/-- The condition that a call of an operator's function stands for. -/
def functionCondition (ctx : Context) (b : Bound) (name : String) (args : List Scalar) :
    Except PlanError (Option Native) := do
  match Fetch.Operator.ofFunction? name with
  | none => return none
  | some op =>
      match <- ctx.literalTexts (fun _ => true) args with
      | none => return none
      | some values =>
          match op.arity, values with
          | .none, [] => return ctx.condition b (.single b.name op none)
          | .one, [value] => return ctx.condition b (.single b.name op (some value))
          | .many, value :: more => return ctx.condition b (.multiple b.name op (value :: more))
          | _, _ => return none

def compareCondition (ctx : Context) (left : Scalar) (op : Comparison) (right : Scalar) :
    Except PlanError (Option Native) := do
  let l <- ctx.operand left
  let r <- ctx.operand right
  match l, r with
  | .column b, .literal x => return ctx.literalCondition b op x
  | .literal x, .column b => return ctx.literalCondition b op.swapped x
  | .column a, .column b =>
      if ctx.options.columnComparison && a.scope == b.scope then
        return ctx.condition a (.between a.name (.compare op) b.name)
      else return none
  | .column b, .other =>
      match op, right with
      | .eq, .call name _ args => ctx.functionCondition b name args
      | _, _ => return none
  | _, _ => return none

def searchCondition (ctx : Context) (c : Column) (wanted : Scalar) (negated : Bool) :
    Except PlanError (Option Native) := do
  match <- ctx.resolve c with
  | none => return none
  | some b =>
      match <- ctx.operand wanted with
      | .literal (.str text) =>
          return ctx.condition b (.multiple b.name (.containValues negated) (Text.members text))
      | _ => return none

mutual

/-- The native form of a condition, if the platform can decide it. -/
def native (ctx : Context) : Predicate -> Except PlanError (Option Native)
  | .and items => do
      let found <- nativeItems ctx none items
      return found.map fun (scope, items) => ⟨scope, .inr ⟨.all, items⟩⟩
  | .or items => do
      let found <- nativeItems ctx none items
      return found.map fun (scope, items) => ⟨scope, .inr ⟨.any, items⟩⟩
  | .compare l op r => ctx.compareCondition l op r
  | .isNull e negated => do
      match <- ctx.operand e with
      | .column b => return ctx.condition b (.single b.name (.isNull negated) none)
      | _ => return none
  | .inList e items negated => do
      match <- ctx.operand e with
      | .column b =>
          match <- ctx.literalTexts (ctx.compatible b) items with
          | some values => return ctx.condition b (.multiple b.name (.oneOf negated) values)
          | none => return none
      | _ => return none
  | .like e pattern negated => do
      let l <- ctx.operand e
      let r <- ctx.operand pattern
      match l, r with
      | .column b, .literal (.str text) =>
          return ctx.condition b (.single b.name (.like negated) (some text))
      | _, _ => return none
  | .contains c wanted => ctx.searchCondition c wanted false
  | .not (.contains c wanted) => ctx.searchCondition c wanted true
  | .not _ => .ok none
  | .const _ => .ok none

/-- The native forms of conditions that are all about one scope, the given one if there is one. -/
def nativeItems (ctx : Context) (scope : Option Nat) :
    List Predicate -> Except PlanError (Option (Nat × List FilterItem))
  | [] => .ok (scope.map (·, []))
  | p :: rest => do
      match <- native ctx p with
      | none => return none
      | some found =>
          if scope.all (· == found.scope) then
            let more <- nativeItems ctx (some found.scope) rest
            return more.map fun (s, items) => (s, found.item :: items)
          else return none

end

end Context

/-- One filter for all items; a filter that is the only item stands for itself. -/
def groupItems : List FilterItem -> Fetch.Filter
  | [.inr f] => f
  | items => ⟨.all, items⟩

/-!
# Splitting a condition

Conditions joined by `AND` are split.  A native one is attached to its scope, unless the scope is
linked by an outer join: a filter there would not remove the rows without a match.
-/

/-- A condition split into its native and its local part. -/
structure Split where
  native : List Native
  /-- Local conditions, with their columns as they are in the statement. -/
  residual : List Predicate
  /-- The same conditions, with their columns as retrieved rows hold them. -/
  qualified : List Predicate

/-- What is left of a condition for the local steps. -/
structure Residual where
  predicate : Option Predicate
  /-- The columns that it reads. -/
  used : List Bound

namespace Context

def splitAll (ctx : Context) : List Predicate -> Except PlanError Split
  | [] => .ok ⟨[], [], []⟩
  | p :: rest =>
      match p with
      | .const .isTrue => splitAll ctx rest
      | p => do
          let found <- ctx.native p
          match found.filter fun n => !ctx.scopes.isOuter n.scope with
          | some n =>
              let split <- splitAll ctx rest
              return { split with native := n :: split.native }
          | none =>
              let p' <- ctx.qualifyPredicate p
              let split <- splitAll ctx rest
              return ⟨split.native, p :: split.residual, p' :: split.qualified⟩

/-- Attaches the native conditions of one scope. -/
def attach (ctx : Context) (found : List Native) (scope : Nat) : Context :=
  let items := (found.filter (·.scope == scope)).map (·.item)
  ctx.update scope (·.addFilter (groupItems items))

def attachAll (ctx : Context) (found : List Native) : Context :=
  ((List.range ctx.scopes.length).filter fun i => found.any (·.scope == i)).foldl
    (fun ctx scope => ctx.attach found scope) ctx

/-- Attaches the native part of a condition and returns the rest of it. -/
def applyWhere (ctx : Context) (clock : Clock) (criteria : Option Predicate) :
    Except PlanError (Context × Residual) :=
  match criteria with
  | none => .ok (ctx, ⟨none, []⟩)
  | some p => do
      let split <- ctx.splitAll (Eval.foldPredicate clock p).pushNot.conjuncts
      let used := split.residual.foldl (fun used p => ctx.use used (readsOfPredicate p)) []
      return (ctx.attachAll split.native, ⟨Predicate.andAll split.qualified, used⟩)

end Context

end Plan
end RecordSql
