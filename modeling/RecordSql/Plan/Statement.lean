import RecordSql.Plan.From
import RecordSql.Plan.Groups

/-!
# Planning statements

A statement is planned clause by clause: its tables, its condition, its groups or select list, its
order, and last its limits.
-/

namespace RecordSql
namespace Plan

open Sql (Delete Predicate Select Source Statement TableRef Update)

/-!
# Selecting
-/

/-- Rows that differ in case are the same to the platform, which compares retrieved columns only. -/
def applyDistinct (select : Select) (p : Projection) : Projection :=
  if select.distinct then
    let caseSensitive := p.steps.filterMap Step.caseSensitiveOutput?
    let steps :=
      if p.steps.isEmpty then []
      else p.steps ++ [.distinct (DistinctColumn.ofNames p.columns caseSensitive)]
    let fetch := { p.ctx.fetch with distinct := caseSensitive.isEmpty }
    { p with ctx := { p.ctx with fetch }, steps }
  else p

def selectPlan (ctx : Context) (select : Select) (residual : Residual) : Except PlanError Plan := do
  let filters := (residual.predicate.map Step.filter).toList
  let listed <- Projection.ofItems (ctx.ensureAll residual.used) filters select.items
  let projection := applyDistinct select listed
  let (ordered, steps) <- applyOrderBy projection.ctx select.orderBy select.items
    projection.columns projection.steps
  let (fetch, steps) <- applyLimits ordered.fetch steps select.top select.offset
  return ⟨fetch, steps, projection.columns⟩

def selectTask (ctx : Context) (clock : Clock) (select : Select) : Except PlanError Task := do
  let (ctx, residual) <- ctx.applyWhere clock select.criteria
  if isAggregateQuery select then aggregateTask ctx select residual
  else
    let plan <- selectPlan ctx select residual
    return .select plan none

/-!
# Virtual tables

A query of virtual tables reads no data table, and table definitions and option sets are not read
together.  It has no local steps.
-/

def dataTableJoin : PlanError :=
  .metadataQuery "a join to a data table"

/-- The virtual tables that a clause reads, or none if it reads data. -/
def virtualTables (source : Source) : Except PlanError (Option (Bool × List VirtualTable)) :=
  let refs := source.table :: source.joins.map (·.table)
  let tables := refs.map fun t => VirtualTable.ofName? t.name
  let add (root : VirtualTable) (found : List VirtualTable) (table : Option VirtualTable) :
      Except PlanError (List VirtualTable) :=
    match table with
    | none => .error dataTableJoin
    | some t =>
        if t.isOptionSet != root.isOptionSet then
          .error (.metadataQuery "a join between entity and option set tables")
        else .ok (if found.contains t then found else found ++ [t])
  match tables with
  | some root :: _ => do
      let found <- tables.foldlM (add root) []
      return some (root.isOptionSet, found)
  | _ => if tables.any Option.isSome then .error dataTableJoin else .ok none

/-- What a step does, in the words of a failure. -/
def constructName : Step -> String
  | .filter _ => "a filter that can't be evaluated natively"
  | .compute _ _ => "calculated columns"
  | .sort _ => "this ORDER BY"
  | .limit _ _ => "this TOP or OFFSET"
  | .distinct _ => "DISTINCT"
  | .having _ | .aggregate _ _ | .foldCase _ => "aggregates"

def schemaTask (ofOptionSets : Bool) (tables : List VirtualTable) (plan : Plan) :
    Except PlanError Task :=
  match plan.steps with
  | step :: _ => .error (.metadataQuery (constructName step))
  | [] => .ok (.schema ⟨ofOptionSets, tables, plan.fetch, plan.columns⟩)

/-!
# Changing

A change selects the identifiers of the records that it is about, each of them once.
-/

/-- The scope of the table that a statement changes: by its alias, or by a name that is unique. -/
def targetScope? (scopes : Scopes) (target : TableRef) : Option Nat :=
  match scopes.findAlias target.exposed with
  | some scope => some scope
  | none =>
      match scopes.zipIdx.filter fun (s, _) => Text.sameName s.table.name target.name with
      | [(_, scope)] => some scope
      | _ => none

/-- The selection of the records that a statement changes. -/
structure Selection where
  ctx : Context
  target : Nat
  scope : TableScope
  residual : Residual

def selection (ctx : Context) (clock : Clock) (target : TableRef) (criteria : Option Predicate) :
    Except PlanError Selection := do
  let scope? := targetScope? ctx.scopes target
  match scope?, scope?.bind (ctx.scopes[·]?) with
  | some index, some scope =>
      let (ctx, residual) <- ctx.applyWhere clock criteria
      return ⟨ctx, index, scope, residual⟩
  | _, _ => .error (.unresolved (.unknownAlias target.exposed))

/-- The plan that returns the columns in use and the identifier, and the name of the latter. -/
def Selection.plan (s : Selection) (used : List Bound) : Plan × String :=
  let id : Bound := ⟨s.target, s.scope.table.primaryId⟩
  let ctx := s.ctx.ensureAll (addBound used id)
  let idColumn := ctx.scopes.rowKey id
  let steps := (s.residual.predicate.map Step.filter).toList
  (⟨{ ctx.fetch with distinct := true }, steps, [idColumn]⟩, idColumn)

def changeOf (s : Selection) (a : Sql.Assignment) : Except PlanError Change := do
  let elsewhere := a.column.collection.any fun collection =>
    s.ctx.scopes.findAlias collection != some s.target
  if elsewhere then
    .error (.invalidColumn (a.column.text ++ " - only " ++ s.scope.aliasName ++ " can be updated"))
  else
    match s.scope.table.attribute? a.column.name with
    | none => .error (.unresolved (.unknownAttribute s.scope.table.name a.column.name))
    | some found =>
        let value <- s.ctx.qualify a.value
        return ⟨found.name, value⟩

def updateTask (ctx : Context) (clock : Clock) (u : Update) : Except PlanError Task := do
  let s <- selection ctx clock u.target u.criteria
  let changes <- u.assignments.mapM (changeOf s)
  let used := u.assignments.foldl (fun used a => s.ctx.use used (reads a.value)) s.residual.used
  let (source, idColumn) := s.plan used
  return .update ⟨source, s.scope.table.name, idColumn, changes, u.criteria.isSome⟩

def deleteTask (ctx : Context) (clock : Clock) (d : Delete) : Except PlanError Task := do
  let s <- selection ctx clock d.target d.criteria
  let (source, idColumn) := s.plan s.residual.used
  return .delete ⟨source, s.scope.table.name, idColumn, d.criteria.isSome, s.target == 0⟩

/-!
# Statements
-/

section

variable {σ : Type}

/-- Plans a query whose only source is given. -/
def planSelect (lookup : Lookup σ) (options : Options) (clock : Clock) (select : Select)
    (source : Source) : EStateM PlanError σ Task := do
  let virtual <- liftExcept (virtualTables source)
  match virtual with
  | none =>
      let ctx <- contextOf lookup options source
      liftExcept (selectTask ctx clock select)
  | some (ofOptionSets, tables) =>
      if isAggregateQuery select then throw (.metadataQuery "aggregates")
      else
        let ctx <- contextOf lookup options source
        match <- liftExcept (selectTask ctx clock select) with
        | .select plan _ => liftExcept (schemaTask ofOptionSets tables plan)
        | task => return task

def planStatement (lookup : Lookup σ) (options : Options) (clock : Clock) :
    Statement -> EStateM PlanError σ Task
  | .select select =>
      match select.sources with
      | [source] => planSelect lookup options clock select source
      | [] => throw (.notSupported "SELECT without FROM")
      | _ => throw (.notSupported "Comma-separated tables, use JOIN")
  | .update u => do
      let ctx <- contextOf lookup options (u.source.getD ⟨u.target, []⟩)
      liftExcept (updateTask ctx clock u)
  | .delete d => do
      let ctx <- contextOf lookup options (d.source.getD ⟨d.target, []⟩)
      liftExcept (deleteTask ctx clock d)

end

end Plan
end RecordSql
