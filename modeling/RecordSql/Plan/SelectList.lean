import RecordSql.Plan.Basic
import RecordSql.Plan.Qualify
import RecordSql.Sql.Statement

/-!
# Select lists

Columns are retrieved; every other expression is computed locally from the columns that it reads.
-/

namespace RecordSql
namespace Plan

open Sql (Scalar SelectItem)

/-- A select list planned so far. -/
structure Projection where
  ctx : Context
  columns : List String
  steps : List Step
  /-- How many columns have been given a name of their own. -/
  unnamed : Nat

namespace Projection

def generatedName (n : Nat) : String :=
  "Expr" ++ Number.intText n

def compute (p : Projection) (item : SelectItem) : Except PlanError Projection := do
  let expr <- p.ctx.qualify item.expr
  let ctx := p.ctx.ensureAll (p.ctx.used item.expr)
  let unnamed := if item.aliasName.isSome then p.unnamed else p.unnamed + 1
  let output := item.aliasName.getD (generatedName unnamed)
  return ⟨ctx, p.columns ++ [output], p.steps ++ [.compute expr output], unnamed⟩

/-- Retrieves all attributes of a scope. -/
def wholeScope (p : Projection) (scope : Nat) : Projection :=
  match p.ctx.scopes[scope]? with
  | none => p
  | some table =>
      let columns := table.table.sortedNames.map fun name => p.ctx.scopes.rowKey ⟨scope, name⟩
      { p with
        ctx := p.ctx.update scope fun s => { s with allAttributes := true }
        columns := p.columns ++ columns }

def retrieve (p : Projection) (b : Bound) (aliasName : Option String) : Projection :=
  match aliasName with
  | none =>
      { p with ctx := p.ctx.ensure b, columns := p.columns ++ [p.ctx.scopes.rowKey b] }
  | some aliasName =>
      { p with
        ctx := p.ctx.update b.scope (·.addAttribute (.aliased b.name aliasName))
        columns := p.columns ++ [aliasName] }

def item (p : Projection) (i : SelectItem) : Except PlanError Projection := do
  match i.expr with
  | .star => return (List.range p.ctx.scopes.length).foldl wholeScope p
  | .starOf aliasName =>
      match p.ctx.scopes.findAlias aliasName with
      | some scope => return p.wholeScope scope
      | none => .error (.unresolved (.unknownAlias aliasName))
  | .column c =>
      match <- p.ctx.resolve c with
      | some b => return p.retrieve b i.aliasName
      | none => p.compute i
  | _ => p.compute i

/-- Plans a whole select list, after the given steps. -/
def ofItems (ctx : Context) (steps : List Step) (items : List SelectItem) :
    Except PlanError Projection :=
  items.foldlM item ⟨ctx, [], steps, 0⟩

end Projection

end Plan
end RecordSql
