import RecordSql.Plan.Basic
import RecordSql.Plan.Qualify
import RecordSql.Sql.Statement

/-!
# Sort orders

The platform sorts by the orders of its scopes, those of the root first.  Keys that follow this
order are native; from the first key that does not, one local step sorts by all keys.
-/

namespace RecordSql
namespace Plan

open Sql (Column OrderKey Scalar SelectItem)

/-- Where a key can be sorted by. -/
inductive SortTarget where
  | native (b : Bound)
  /-- An expression on retrieved rows, and the columns that it reads. -/
  | computed (e : Scalar) (used : List Bound)

/-- A select item as a sort key: its attribute if it is one, and else its output. -/
def itemTarget (ctx : Context) (item : SelectItem) (output : String) :
    Except PlanError SortTarget := do
  let column <-
    match item.expr with
    | .column c => ctx.resolve c
    | _ => pure none
  match column with
  | some b => return .native b
  | none => return .computed (.column (.ofName output)) []

def invalidOrdinal (ordinal : Int) : PlanError :=
  .invalidColumn ("ORDER BY " ++ Number.intText ordinal)

/-- The item at a position that is counted from one. -/
def atOrdinal? {α : Type} (items : List α) (ordinal : Int) : Option α :=
  if 1 ≤ ordinal then items[(ordinal - 1).toNat]? else none

def aliasedItem? (items : List SelectItem) (name : String) : Option (SelectItem × String) :=
  items.findSome? fun item =>
    (item.aliasName.filter (Text.sameName · name)).map fun aliasName => (item, aliasName)

def exprTarget (ctx : Context) (e : Scalar) : Except PlanError SortTarget := do
  let qualified <- ctx.qualify e
  match ctx.plainColumn? e with
  | some b => return .native b
  | none => return .computed qualified (ctx.used e)

/-- A key names a select item by its alias or its position, or else is an expression. -/
def sortTarget (ctx : Context) (items : List SelectItem) (columns : List String) (e : Scalar) :
    Except PlanError SortTarget :=
  match e with
  | .column ⟨none, name, quoted⟩ =>
      match aliasedItem? items name with
      | some (item, aliasName) => itemTarget ctx item aliasName
      | none => exprTarget ctx (.column ⟨none, name, quoted⟩)
  | .literal (.int ordinal) =>
      if items.any (·.expr.isStar) then .error (invalidOrdinal ordinal)
      else
        match atOrdinal? (items.zip columns) ordinal with
        | some (item, output) => itemTarget ctx item output
        | none => .error (invalidOrdinal ordinal)
  | e => exprTarget ctx e

/-- The keys, from the front, that are native and follow the order of the scopes. -/
def nativeKeys (scopes : Scopes) : Option (List Nat) -> List (SortTarget × Bool) ->
    List (Bound × Bool)
  | last, (.native b, descending) :: rest =>
      let path := scopes.pathOf b.scope
      if last.any (path < ·) then []
      else (b, descending) :: nativeKeys scopes (some path) rest
  | _, _ => []

def addOrder (ctx : Context) (key : Bound × Bool) : Context :=
  let (b, descending) := key
  let path := ctx.scopes.pathOf b.scope
  ctx.update b.scope fun s =>
    (if path.isEmpty then s.ensure b.name else s).addOrder (.byColumn b.name descending)

def SortTarget.used : SortTarget -> List Bound
  | native b => [b]
  | computed _ used => used

def SortTarget.expr (scopes : Scopes) : SortTarget -> Scalar
  | native b => .column (scopes.qualified b)
  | computed e _ => e

def applyOrderBy (ctx : Context) (keys : List OrderKey) (items : List SelectItem)
    (columns : List String) (steps : List Step) : Except PlanError (Context × List Step) := do
  let targets <- keys.mapM fun key => do
    let target <- sortTarget ctx items columns key.expr
    return (target, key.descending)
  let native := nativeKeys ctx.scopes none targets
  let ordered := native.foldl addOrder ctx
  if native.length == targets.length then return (ordered, steps)
  else
    let ensured := ordered.ensureAll (targets.flatMap (·.1.used))
    let sortKeys := targets.map fun (target, descending) => ⟨target.expr ctx.scopes, descending⟩
    return (ensured, steps ++ [.sort sortKeys])

end Plan
end RecordSql
