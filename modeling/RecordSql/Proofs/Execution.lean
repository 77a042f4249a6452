import RecordSql.Plan.Statement
import RecordSql.Proofs.Paging
import RecordSql.Run.Query

/-!
# Queries that are planned and executed

A query of data tables is planned in the context of its only source.  A query that was executed
without an error holds the rows that its steps made of the records that were retrieved for it.
-/

namespace RecordSql

open Run (Outcome)

variable {σ : Type} {host : Host σ}

namespace Run

theorem adaptExcept_eq_ok {ε ε' α : Type} {f : ε -> ε'} {x : EStateM ε σ α} {w w' : σ} {a : α} :
    x.adaptExcept f w = .ok a w' <-> x w = .ok a w' := by
  rw [EStateM.adaptExcept]
  cases x w with
  | ok a' w₁ =>
      constructor <;> intro h <;> cases h <;> rfl
  | error e w₁ =>
      constructor <;> intro h <;> cases h

theorem runPlan_eq_ok {plan : Plan} {w w' : σ} {rows : List Record}
    (h : runPlan host plan w = .ok rows w') :
    exists found, retrieveAll host plan.fetch w = .ok found w' ∧
      Step.run host.clock plan.steps found = .ok rows := by
  rcases RecordSql.Outcome.run_bind_eq_ok.mp h with ⟨found, w₁, hfound, hsteps⟩
  change runSteps host plan.steps found w₁ = _ at hsteps
  unfold runSteps at hsteps
  cases hrun : Step.run host.clock plan.steps found with
  | ok rows' =>
      rw [hrun] at hsteps
      cases hsteps
      exact ⟨found, adaptExcept_eq_ok.mp hfound, hrun⟩
  | error e =>
      rw [hrun] at hsteps
      cases hsteps

theorem runTask_select_eq_ok {plan : Plan} {alternative : Option Plan} {w w' : σ}
    {outcome : Outcome} (h : runTask host (.select plan alternative) w = .ok outcome w') :
    exists rows, runSelect host plan alternative w = .ok rows w' ∧
      outcome = .rows ⟨rows, false, none⟩ := by
  rcases RecordSql.Outcome.run_bind_eq_ok.mp h with ⟨rows, w₁, hrows, houtcome⟩
  cases houtcome
  exact ⟨rows, hrows, rfl⟩

end Run

namespace Plan

open Sql (Select)

variable {lookup : Lookup σ} {options : Options} {clock : Clock} {select : Select} {plan : Plan}
  {alternative : Option Plan} {w w' : σ}

/-- A query of virtual tables has no plan of its own. -/
theorem schemaTask_ne_select {ofOptionSets : Bool} {tables : List VirtualTable} {other : Plan} :
    schemaTask ofOptionSets tables other ≠ .ok (.select plan alternative) := by
  unfold schemaTask
  intro h
  split at h <;> cases h

/-- Once its condition is split, a query is planned for its rows or for groups of them. -/
theorem selectTask_eq_ok {ctx : Context} {task : Task} :
    selectTask ctx clock select = .ok task <->
      exists ctx' residual, ctx.applyWhere clock select.criteria = .ok (ctx', residual) ∧
        ((isAggregateQuery select = false ∧
            exists plan, selectPlan ctx' select residual = .ok plan ∧ .select plan none = task) ∨
          isAggregateQuery select = true ∧ aggregateTask ctx' select residual = .ok task) := by
  simp only [selectTask, RecordSql.Outcome.bind_eq_ok, Prod.exists]
  refine exists_congr fun ctx' => exists_congr fun residual => and_congr_right fun _ => ?_
  cases isAggregateQuery select with
  | true =>
      simp
  | false =>
      simp [RecordSql.Outcome.bind_eq_ok]

theorem selectTask_of_rows {ctx : Context} {task : Task}
    (haggregates : isAggregateQuery select = false)
    (h : selectTask ctx clock select = .ok task) :
    exists ctx' residual plan, ctx.applyWhere clock select.criteria = .ok (ctx', residual) ∧
      selectPlan ctx' select residual = .ok plan ∧ task = .select plan none := by
  rcases selectTask_eq_ok.mp h with ⟨ctx', residual, hwhere, ⟨_, plan, hplan, rfl⟩ | ⟨hgroups, _⟩⟩
  · exact ⟨ctx', residual, plan, hwhere, hplan, rfl⟩
  · cases haggregates.symm.trans hgroups

theorem selectTask_of_groups {ctx : Context} {task : Task}
    (haggregates : isAggregateQuery select = true) (h : selectTask ctx clock select = .ok task) :
    exists filtered residual, ctx.applyWhere clock select.criteria = .ok (filtered, residual) ∧
      aggregateTask filtered select residual = .ok task := by
  rcases selectTask_eq_ok.mp h with ⟨filtered, residual, hwhere, ⟨hrows, _⟩ | ⟨_, htask⟩⟩
  · cases hrows.symm.trans haggregates
  · exact ⟨filtered, residual, hwhere, htask⟩

/-- An aggregate query is planned locally, and natively before that where this is possible. -/
theorem aggregateTask_eq_ok {ctx : Context} {residual : Residual} {task : Task}
    (h : aggregateTask ctx select residual = .ok task) :
    exists p grouped, groupPlan ctx select = .ok p ∧ p.localPlan residual = .ok grouped ∧
      (task = .select grouped none ∨ exists native, task = .select native (some grouped) ∧
        p.nativePlan = .ok native ∧ residual.predicate = none ∧ p.isNative = true) := by
  simp only [aggregateTask, RecordSql.Outcome.bind_eq_ok] at h
  rcases h with ⟨p, hp, grouped, hlocal, h⟩
  split at h
  · rename_i hnative
    rw [Bool.and_eq_true, Option.isNone_iff_eq_none] at hnative
    rcases RecordSql.Outcome.bind_eq_ok.mp h with ⟨native, hplan, h⟩
    cases h
    exact ⟨p, grouped, hp, hlocal, Or.inr ⟨native, rfl, hplan, hnative.1, hnative.2⟩⟩
  · cases h
    exact ⟨p, grouped, hp, hlocal, Or.inl rfl⟩

/-- A selection is planned as one of data, or as one of virtual tables without aggregates. -/
theorem planStatement_select_cases {task : Task}
    (h : (planStatement lookup options clock (.select select)).run w = .ok task w') :
    exists source ctx, select.sources = [source] ∧
      (contextOf lookup options source).run w = .ok ctx w' ∧
      (virtualTables source = .ok none ∧ selectTask ctx clock select = .ok task ∨
        isAggregateQuery select = false ∧ exists ctx' residual plan ofOptionSets tables,
          ctx.applyWhere clock select.criteria = .ok (ctx', residual) ∧
          selectPlan ctx' select residual = .ok plan ∧
          schemaTask ofOptionSets tables plan = .ok task) := by
  rw [planStatement] at h
  split at h
  · rename_i source hsource
    simp only [planSelect, RecordSql.Outcome.run_bind_eq_ok,
      RecordSql.Outcome.run_liftExcept_eq_ok] at h
    rcases h with ⟨virtual, w₁, ⟨hvirtual, rfl⟩, h⟩
    cases virtual with
    | none =>
        simp only [RecordSql.Outcome.run_bind_eq_ok, RecordSql.Outcome.run_liftExcept_eq_ok] at h
        rcases h with ⟨ctx, w₂, hctx, htask, rfl⟩
        exact ⟨source, ctx, hsource, hctx, Or.inl ⟨hvirtual, htask⟩⟩
    | some found =>
        rcases found with ⟨ofOptionSets, tables⟩
        simp only at h
        split at h
        · cases h
        · rename_i haggregates
          replace haggregates := Bool.not_eq_true _ ▸ haggregates
          simp only [RecordSql.Outcome.run_bind_eq_ok, RecordSql.Outcome.run_liftExcept_eq_ok] at h
          rcases h with ⟨ctx, w₂, hctx, task', w₃, ⟨htask, rfl⟩, h⟩
          rcases selectTask_of_rows haggregates htask with
            ⟨ctx', residual, plan, hwhere, hplan, rfl⟩
          rcases RecordSql.Outcome.run_liftExcept_eq_ok.mp h with ⟨hschema, rfl⟩
          exact ⟨source, ctx, hsource, hctx, Or.inr ⟨haggregates, ctx', residual, plan,
            ofOptionSets, tables, hwhere, hplan, hschema⟩⟩
  · cases h
  · cases h

theorem planStatement_select_iff :
    (planStatement lookup options clock (.select select)).run w = .ok (.select plan alternative) w' <->
      exists source ctx, select.sources = [source] ∧ virtualTables source = .ok none ∧
        (contextOf lookup options source).run w = .ok ctx w' ∧
        selectTask ctx clock select = .ok (.select plan alternative) := by
  constructor
  · intro h
    rcases planStatement_select_cases h with ⟨source, ctx, hsource, hctx, hdata | hvirtual⟩
    · exact ⟨source, ctx, hsource, hdata.1, hctx, hdata.2⟩
    · rcases hvirtual with ⟨_, _, _, _, _, _, _, _, hschema⟩
      exact absurd hschema schemaTask_ne_select
  · rintro ⟨source, ctx, hsource, hvirtual, hctx, htask⟩
    rw [planStatement, hsource]
    simp only [planSelect, RecordSql.Outcome.run_bind_eq_ok,
      RecordSql.Outcome.run_liftExcept_eq_ok]
    refine ⟨none, w, ⟨hvirtual, rfl⟩, ?_⟩
    simp only [RecordSql.Outcome.run_bind_eq_ok, RecordSql.Outcome.run_liftExcept_eq_ok]
    exact ⟨ctx, w', hctx, htask, rfl⟩

end Plan

namespace Query

variable {sql : String} {w w' : σ} {q : Query}

theorem execute_eq_ok {task : Plan.Task}
    (h : (Query.ofTask sql task).execute host w = ((q, none), w')) :
    exists outcome, Run.runTask host task w = .ok outcome w' ∧
      q = ⟨sql, task, .completed outcome⟩ := by
  rw [execute, ofTask] at h
  simp only at h
  split at h
  · rename_i outcome w₁ hrun
    cases h
    exact ⟨outcome, hrun, rfl⟩
  · cases h

/-- The rows of a query are those that the run of its plans ends with. -/
theorem resultSet_of_execute {plan : Plan} {alternative : Option Plan}
    (h : (Query.ofTask sql (.select plan alternative)).execute host w = ((q, none), w')) :
    exists rows, Run.runSelect host plan alternative w = .ok rows w' ∧
      q.resultSet? = some ⟨plan.columns, rows⟩ := by
  rcases execute_eq_ok h with ⟨outcome, hrun, rfl⟩
  rcases Run.runTask_select_eq_ok hrun with ⟨rows, hrows, rfl⟩
  exact ⟨rows, hrows, rfl⟩

theorem execute_of_runSelect {plan : Plan} {alternative : Option Plan} {rows : List Record}
    (h : Run.runSelect host plan alternative w = .ok rows w') (sql : String) :
    (Query.ofTask sql (.select plan alternative)).execute host w =
      ((⟨sql, .select plan alternative, .completed (.rows ⟨rows, false, none⟩)⟩, none), w') := by
  have htask : Run.runTask host (.select plan alternative) w =
      .ok (.rows ⟨rows, false, none⟩) w' := by
    rw [Run.runTask]
    exact RecordSql.Outcome.bind_apply_of_ok h
  rw [execute, ofTask]
  simp only [htask]

end Query

end RecordSql
