import RecordSql.Plan.Filter
import RecordSql.Sql.Statement

/-!
# Tables and joins

Every joined table is linked to an earlier one by an equality of two columns.  Further conditions
of a join must be about the joined table alone and become native filters of its scope.
-/

namespace RecordSql
namespace Plan

open Sql (Join JoinKind Predicate Source TableRef)

def scopeOf (ref : TableRef) (table : TableDef) (path : List Nat) (outer : Bool) : TableScope :=
  ⟨ref.aliasName.getD table.name, table, path, outer⟩

/-!
# Join conditions
-/

/-- The two columns that link a new table to an earlier one. -/
structure LinkColumns where
  new : Bound
  previous : Bound

/-- The link that a condition makes if it equates a column of the new scope with an earlier one. -/
def linkColumns? (scopes : Scopes) (index : Nat) :
    Predicate -> Except PlanError (Option LinkColumns)
  | .compare (.column left) .eq (.column right) => do
      let l <- scopes.resolve left
      let r <- scopes.resolve right
      match l.scope == index, r.scope == index with
      | true, false => return some ⟨l, r⟩
      | false, true => return some ⟨r, l⟩
      | _, _ => return none
  | _ => .ok none

/-- A join condition: the first link in it, and the conditions on the new table. -/
structure OnClause where
  link : Option LinkColumns
  confined : List Predicate

def asWhere (p : Predicate) : PlanError :=
  .invalidJoin (p.text ++ " - rewrite as WHERE clause")

/-- The condition is about the new scope and no other. -/
def isConfined (scopes : Scopes) (index : Nat) (p : Predicate) : Except PlanError Bool := do
  let found <- p.columns.mapM scopes.resolve
  return found.all (·.scope == index)

def readOn (scopes : Scopes) (index : Nat) :
    OnClause -> List Predicate -> Except PlanError OnClause
  | on, [] => .ok on
  | on, p :: rest => do
      let found <- if on.link.isNone then linkColumns? scopes index p else pure none
      match found with
      | some link => readOn scopes index { on with link := some link } rest
      | none =>
          if <- isConfined scopes index p then
            readOn scopes index { on with confined := on.confined ++ [p] } rest
          else .error (asWhere p)

/-- The native forms of the conditions on the new table. -/
def confinedItems (ctx : Context) : List Predicate -> Except PlanError (List FilterItem)
  | [] => .ok []
  | p :: rest => do
      match <- ctx.native p.pushNot with
      | none => .error (asWhere p.pushNot)
      | some found =>
          let items <- confinedItems ctx rest
          return found.item :: items

/-!
# Building the tree of scopes
-/

/-- Links a new scope below an earlier one. -/
def addLink (ctx : Context) (link : LinkColumns) (scope : TableScope) :
    Except PlanError Context := do
  let parentPath := ctx.scopes.pathOf link.previous.scope
  let position := ((ctx.fetch.root.at? parentPath).map (·.links.length)).getD 0
  let scopes <- ctx.scopes.add { scope with path := parentPath ++ [position] }
  let linked := ctx.update link.previous.scope fun parent =>
    parent.addLink ⟨link.new.name, link.previous.name, scope.aliasName, scope.outer⟩
      (.ofTable scope.table.name)
  return { linked with scopes }

def addJoin (ctx : Context) (join : Join) (outer : Bool) (table : TableDef) :
    Except PlanError Context := do
  let scope := scopeOf join.table table [] outer
  let index := ctx.scopes.length
  let scopes <- ctx.scopes.add scope
  let on <- readOn scopes index ⟨none, []⟩ join.on.conjuncts
  match on.link with
  | none =>
      .error (.invalidJoin (join.on.text ++ " - no equality between " ++ scope.aliasName ++
        " and a previous table"))
  | some link =>
      let linked <- addLink ctx link scope
      if on.confined.isEmpty then return linked
      else
        let items <- confinedItems linked on.confined
        return linked.update index (·.addFilter (groupItems items))

/-- Whether a join keeps rows without a match. -/
def isOuterJoin : JoinKind -> Except PlanError Bool
  | .inner => .ok false
  | .leftOuter => .ok true
  | .rightOuter => .error (.notSupported "RIGHT OUTER JOIN")
  | .fullOuter => .error (.notSupported "FULL OUTER JOIN")

/-- A right join in the first place is the left join of its tables in the other order. -/
def normalizeRightJoin (source : Source) : Except PlanError Source :=
  if (source.joins.drop 1).any (·.kind == .rightOuter) then
    .error (.notSupported "RIGHT OUTER JOIN after another join")
  else
    match source.joins with
    | ⟨.rightOuter, table, on⟩ :: rest => .ok ⟨table, ⟨.leftOuter, source.table, on⟩ :: rest⟩
    | _ => .ok source

def rootContext (options : Options) (source : Source) (table : TableDef) : Context where
  options := options
  scopes := [scopeOf source.table table [] false]
  fetch := { Fetch.Query.ofTable table.name with
    noLock := source.table.noLock || source.joins.any (·.table.noLock) }

/-!
# Looking up tables
-/

section

variable {σ : Type}

def definition (lookup : Lookup σ) (name : String) : EStateM PlanError σ TableDef :=
  (lookup name).adaptExcept .unresolved

def joinAll (lookup : Lookup σ) : Context -> List Join -> EStateM PlanError σ Context
  | ctx, [] => pure ctx
  | ctx, join :: rest => do
      let outer <- liftExcept (isOuterJoin join.kind)
      let table <- definition lookup join.table.name
      let joined <- liftExcept (addJoin ctx join outer table)
      joinAll lookup joined rest

/-- The scopes and the native query of a `FROM` clause. -/
def contextOf (lookup : Lookup σ) (options : Options) (source : Source) :
    EStateM PlanError σ Context := do
  let normal <- liftExcept (normalizeRightJoin source)
  let table <- definition lookup normal.table.name
  joinAll lookup (rootContext options normal table) normal.joins

end

end Plan
end RecordSql
