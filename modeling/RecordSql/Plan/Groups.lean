import RecordSql.Plan.Filter
import RecordSql.Plan.Limit
import RecordSql.Plan.Ordering
import RecordSql.Plan.SelectList
import RecordSql.Sql.Substitution

/-!
# Aggregate queries

Groups and aggregates are computed first, by the platform or locally, into columns of their own.
Everything else that the statement shows, filters or sorts by is then an expression on those
columns.
-/

namespace RecordSql
namespace Plan

open Sql (Column OrderKey Predicate Scalar Select SelectItem Substitution)

def isAggregateQuery (select : Select) : Bool :=
  !select.groupBy.isEmpty || select.having.isSome ||
    select.items.any (·.expr.containsAggregate) || select.orderBy.any (·.expr.containsAggregate)

/-!
# Names of outputs

Outputs have names that differ even without regard to case.
-/

/-- Names in use, in lower case. -/
structure OutputNames where
  taken : List String

namespace OutputNames

def reserve (names : OutputNames) (name : String) : OutputNames :=
  ⟨Text.lowerAscii name :: names.taken⟩

def isFree (names : OutputNames) (name : String) : Bool :=
  !names.taken.contains (Text.lowerAscii name)

/-- A name, followed by a number if there is more than one output of this name. -/
def numbered (base : String) (n : Nat) : String :=
  if n ≤ 1 then base else base ++ "_" ++ Number.intText n

/-- The first of the numbered names that is free; there are more of them than names in use. -/
def allocate (names : OutputNames) (base : String) : String × OutputNames :=
  let candidates := (List.range (names.taken.length + 1)).map fun i => numbered base (i + 1)
  let name := (candidates.find? names.isFree).getD base
  (name, names.reserve name)

end OutputNames

/-!
# Groups
-/

/-- A key to group by. -/
structure GroupSpec where
  /-- The qualified expression. -/
  expr : Scalar
  /-- The attribute that it is, if it is nothing else. -/
  column : Option Bound
  used : List Bound
  output : String

/-- The alias of a select item that is the given expression. -/
def projectedAlias (ctx : Context) (qualified : Scalar) :
    List SelectItem -> Except PlanError (Option String)
  | [] => .ok none
  | item :: rest =>
      match item.aliasName with
      | none => projectedAlias ctx qualified rest
      | some aliasName => do
          let e <- ctx.qualify item.expr
          if e.same qualified then return some aliasName else projectedAlias ctx qualified rest

def baseName (column : Option Bound) : String :=
  (column.map (·.name)).getD "expr"

def groupSpecs (ctx : Context) (items : List SelectItem) :
    OutputNames -> List GroupSpec -> List Scalar -> Except PlanError (List GroupSpec × OutputNames)
  | names, found, [] => .ok (found, names)
  | names, found, e :: rest => do
      let qualified <- ctx.qualify e
      if found.any (·.expr.same qualified) then groupSpecs ctx items names found rest
      else
        let column := ctx.plainColumn? e
        let (output, names) <-
          match <- projectedAlias ctx qualified items with
          | some aliasName => pure (aliasName, names)
          | none => pure (names.allocate (baseName column))
        groupSpecs ctx items names (found ++ [⟨qualified, column, ctx.used e, output⟩]) rest

/-!
# Aggregates
-/

/-- One of the aggregates that a statement mentions. -/
structure AggregateSpec where
  function : String
  /-- Without an argument, rows are counted. -/
  arg : Option Scalar
  /-- The attribute that is summarised, if the argument is nothing else. -/
  column : Option Bound
  used : List Bound
  distinct : Bool
  output : String
  /-- The qualified call. -/
  key : Scalar

def AggregateSpec.aggregation (a : AggregateSpec) : Fetch.Aggregation :=
  match a.function, a.arg with
  | "count", none => .count
  | "count", some _ => .countColumn
  | "sum", _ => .sum
  | "avg", _ => .avg
  | "min", _ => .min
  | _, _ => .max

/-- The aggregate calls of a statement, in the order in which it mentions them. -/
def aggregateCalls (select : Select) (orderBy : List OrderKey) : List Scalar :=
  let parts := select.items.flatMap (·.expr.parts) ++
    (select.having.map Predicate.parts).getD [] ++ orderBy.flatMap (·.expr.parts)
  parts.filter Scalar.isAggregate

/-- What a call summarises. -/
structure Argument where
  arg : Option Scalar
  column : Option Bound
  /-- What its output is called unless the statement names it. -/
  base : String

def primaryId (ctx : Context) : Bound :=
  ⟨0, (ctx.scopes.head?.map (·.table.primaryId)).getD ""⟩

def argumentOf (ctx : Context) (call : Scalar) (function : String) (args : List Scalar) :
    Except PlanError Argument :=
  if call.isRowCount then
    let id := primaryId ctx
    .ok ⟨none, some id, id.name ++ "_count"⟩
  else
    match args with
    | [arg] =>
        if arg.containsAggregate then .error (.notSupported "Nested aggregates")
        else do
          let qualified <- ctx.qualify arg
          let column := ctx.plainColumn? arg
          return ⟨some qualified, column, baseName column ++ "_" ++ function⟩
    | args =>
        .error (.notSupported (Text.upper function ++ " with " ++ Number.intText args.length ++
          " arguments"))

def aliasOf? (items : List SelectItem) (call : Scalar) : Option String :=
  items.findSome? fun item => if item.expr.same call then item.aliasName else none

def aggregateSpecs (ctx : Context) (items : List SelectItem) :
    OutputNames -> List AggregateSpec -> List Scalar -> Except PlanError (List AggregateSpec)
  | names, found, .call name distinct args :: rest => do
      let call := Scalar.call name distinct args
      let key <- ctx.qualify call
      if found.any (·.key.text == key.text) then aggregateSpecs ctx items names found rest
      else
        let function := Text.lowerAscii name
        let argument <- argumentOf ctx call function args
        let (output, names) :=
          match aliasOf? items call with
          | some aliasName => (aliasName, names)
          | none => names.allocate argument.base
        let spec := ⟨function, argument.arg, argument.column, ctx.used call, distinct, output, key⟩
        aggregateSpecs ctx items names (found ++ [spec]) rest
  | _, found, _ => .ok found

/-!
# After grouping
-/

/-- A key that names a select item by its alias or its position stands for its expression. -/
def orderExpr (items : List SelectItem) (e : Scalar) : Except PlanError Scalar :=
  match e with
  | .column ⟨none, name, quoted⟩ =>
      match aliasedItem? items name with
      | some (item, _) => .ok item.expr
      | none => .ok (.column ⟨none, name, quoted⟩)
  | .literal (.int ordinal) =>
      match atOrdinal? items ordinal with
      | some item => .ok item.expr
      | none => .error (invalidOrdinal ordinal)
  | e => .ok e

/-- The parts of a statement that are evaluated on groups. -/
structure Grouped where
  items : List SelectItem
  having : Option Predicate
  orderBy : List OrderKey

/-- The parts with every group key and aggregate replaced by its output. -/
def groupedParts (ctx : Context) (select : Select) (orderBy : List OrderKey)
    (outputs : Substitution) : Except PlanError Grouped := do
  let items <- select.items.mapM fun item => do
    let e <- ctx.qualify item.expr
    return outputs.item ⟨e, item.aliasName⟩
  let having <- select.having.mapM ctx.qualifyPredicate
  let keys <- orderBy.mapM fun key => do
    let e <- ctx.qualify key.expr
    return outputs.orderKey ⟨e, key.descending⟩
  return ⟨items, having.map outputs.predicate, keys⟩

def Grouped.columns (g : Grouped) : List Column :=
  g.items.flatMap (·.expr.columns) ++ (g.having.map Predicate.columns).getD [] ++
    g.orderBy.flatMap (·.expr.columns)

/-- On groups, only outputs can be read. -/
def checkGrouped (g : Grouped) (outputs : List String) : Except PlanError Unit :=
  let isOutput (c : Column) : Bool :=
    c.collection.isNone && outputs.any (Text.sameName · c.name)
  match g.columns.find? fun c => !isOutput c with
  | some c =>
      .error (.invalidColumn (c.text ++
        " - it is not contained in either an aggregate function or the GROUP BY clause"))
  | none => .ok ()

/-- The columns of a statement on its groups, and the steps that compute them. -/
def groupColumns : Nat -> List SelectItem -> List String × List Step
  | _, [] => ([], [])
  | unnamed, item :: rest =>
      let computed (unnamed : Nat) (output : String) : List String × List Step :=
        let (columns, steps) := groupColumns unnamed rest
        (output :: columns, .compute item.expr output :: steps)
      match item.expr, item.aliasName with
      | .column c, none =>
          let (columns, steps) := groupColumns unnamed rest
          (c.name :: columns, steps)
      | .column c, some aliasName =>
          if Text.sameName aliasName c.name then
            let (columns, steps) := groupColumns unnamed rest
            (c.name :: columns, steps)
          else computed unnamed aliasName
      | _, some aliasName => computed unnamed aliasName
      | _, none => computed (unnamed + 1) (Projection.generatedName (unnamed + 1))

/-- Outputs in which case counts: those of such group keys, and what is computed from them. -/
def caseSensitiveOutputs (groups : List GroupSpec) (steps : List Step) : List String :=
  let keys := (groups.filter (·.expr.isCaseSensitive)).map (·.output)
  steps.foldl (fun outputs step =>
    match step with
    | .compute expr output =>
        let fromGroup := expr.column?.any fun c => outputs.any (Text.sameName · c.name)
        if expr.isCaseSensitive || fromGroup then outputs ++ [output] else outputs
    | _ => outputs) keys

def distinctStep (select : Select) (columns caseSensitive : List String) : List Step :=
  if select.distinct then [.distinct (DistinctColumn.ofNames columns caseSensitive)] else []

/-!
# The two plans
-/

/-- What both plans of an aggregate query are made from. -/
structure GroupPlan where
  ctx : Context
  select : Select
  groups : List GroupSpec
  aggregates : List AggregateSpec
  grouped : Grouped
  columns : List String
  /-- The steps after grouping. -/
  steps : List Step

namespace GroupPlan

def sortStep (p : GroupPlan) : Step :=
  .sort p.grouped.orderBy

/-- The columns that have to be retrieved to group rows locally. -/
def needed (p : GroupPlan) (whereUsed : List Bound) : List Bound :=
  let counted := (p.aggregates.filter (·.arg.isNone)).filterMap (·.column)
  (p.groups.flatMap (·.used) ++ p.aggregates.flatMap (·.used) ++ counted).foldl addBound whereUsed

/-- The plan that retrieves rows and groups them locally. -/
def localPlan (p : GroupPlan) (residual : Residual) : Except PlanError Plan := do
  let ensured := p.ctx.ensureAll (p.needed residual.used)
  let groupColumns := p.groups.filterMap (·.column)
  let ordered := groupColumns.foldl
    (fun ctx b => ctx.update b.scope (·.addOrder (.byColumn b.name false))) ensured
  let filters := (residual.predicate.map Step.filter).toList
  let foldCase := (groupColumns.filter fun b => (p.ctx.typeOf? b).any (·.isString)).map fun b =>
    Step.foldCase (p.ctx.scopes.qualified b)
  let aggregate := Step.aggregate (p.groups.map fun g => ⟨g.expr, g.output⟩)
    (p.aggregates.map fun a => ⟨a.function, a.arg, a.distinct, a.output⟩)
  let sorts := if p.grouped.orderBy.isEmpty then [] else [p.sortStep]
  let distinct := distinctStep p.select p.columns (caseSensitiveOutputs p.groups p.steps)
  let (fetch, steps) <- applyLimits ordered.fetch
    (filters ++ foldCase ++ [aggregate] ++ p.steps ++ sorts ++ distinct) p.select.top
    p.select.offset
  return ⟨fetch, steps, p.columns⟩

def isNative (p : GroupPlan) : Bool :=
  p.groups.all (·.column.isSome) && p.aggregates.all (·.column.isSome)

/-- The attribute behind an output. -/
def outputColumn? (p : GroupPlan) (name : String) : Option Bound :=
  ((p.groups.find? (Text.sameName ·.output name)).bind (·.column)).or
    ((p.aggregates.find? (Text.sameName ·.output name)).bind (·.column))

/-- The native orders of all keys, if all keys are outputs in the order of the scopes. -/
def nativeOrders (p : GroupPlan) : Option (List Nat) -> List OrderKey ->
    Option (List (Nat × Fetch.Order))
  | _, [] => some []
  | last, key :: rest => do
      let c <- key.expr.column?
      let b <- p.outputColumn? c.name
      let path := p.ctx.scopes.pathOf b.scope
      if last.any (path < ·) then none
      else
        let orders <- nativeOrders p (some path) rest
        some ((b.scope, .byAlias c.name key.descending) :: orders)

/-- The attributes of the native aggregate, with their scopes. -/
def nativeAttributes (p : GroupPlan) : List (Nat × Fetch.Attribute) :=
  let groups := p.groups.filterMap fun g => g.column.map fun b =>
    (b.scope, { Fetch.Attribute.aliased b.name g.output with groupBy := true })
  let aggregates := p.aggregates.filterMap fun a => a.column.map fun b =>
    (b.scope, { Fetch.Attribute.aliased b.name a.output with
      aggregation := some a.aggregation, distinct := a.distinct })
  groups ++ aggregates

/-- The plan that lets the platform group the rows. -/
def nativePlan (p : GroupPlan) : Except PlanError Plan := do
  let ctx := p.nativeAttributes.foldl
    (fun (ctx : Context) (scope, a) => ctx.update scope (·.addAttribute a)) p.ctx
  let (ordered, sorts) :=
    match p.nativeOrders none p.grouped.orderBy with
    | some orders =>
        (orders.foldl (fun (ctx : Context) (scope, o) => ctx.update scope (·.addOrder o)) ctx, [])
    | none => (ctx, [p.sortStep])
  let sorted := p.steps ++ sorts
  let distinct := distinctStep p.select p.columns (caseSensitiveOutputs p.groups sorted)
  let (fetch, steps) <- applyLimits { ordered.fetch with aggregate := true, distinct := false }
    (sorted ++ distinct) p.select.top p.select.offset
  return ⟨fetch, steps, p.columns⟩

end GroupPlan

def groupPlan (ctx : Context) (select : Select) : Except PlanError GroupPlan := do
  if select.items.any (·.expr.isStar) then
    .error (.notSupported "SELECT * in an aggregate query")
  else
    let orderBy <- select.orderBy.mapM fun key => do
      let e <- orderExpr select.items key.expr
      return (⟨e, key.descending⟩ : OrderKey)
    let aliases := select.items.filterMap (·.aliasName)
    let names := aliases.foldl OutputNames.reserve ⟨[]⟩
    let (groups, names) <- groupSpecs ctx select.items names [] select.groupBy
    let aggregates <- aggregateSpecs ctx select.items names [] (aggregateCalls select orderBy)
    let outputs := aggregates.foldl (fun s a => s.add a.key a.output)
      (groups.foldl (fun s g => s.add g.expr g.output) Substitution.empty)
    let grouped <- groupedParts ctx select orderBy outputs
    checkGrouped grouped (groups.map (·.output) ++ aggregates.map (·.output))
    let (columns, computed) := groupColumns 0 grouped.items
    let having := (grouped.having.map Step.having).toList
    return ⟨ctx, select, groups, aggregates, grouped, columns, having ++ computed⟩

/-- The native plan with the local one as its alternative, or the local one alone. -/
def aggregateTask (ctx : Context) (select : Select) (residual : Residual) :
    Except PlanError Task := do
  let p <- groupPlan ctx select
  let groupedLocally <- p.localPlan residual
  if residual.predicate.isNone && p.isNative then
    let native <- p.nativePlan
    return .select native (some groupedLocally)
  else return .select groupedLocally none

end Plan
end RecordSql
