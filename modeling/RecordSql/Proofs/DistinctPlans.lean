import RecordSql.Plan.Statement
import RecordSql.Proofs.Retrieved
import RecordSql.Proofs.SelectItems

/-!
# Plans with and without duplicates

A query of distinct rows is planned like the same query of all rows.  Its native query may ask the
platform to drop duplicates, and a step that drops them comes after the steps of the condition and of
the select list, if there are any, and before a local sort.
-/

namespace RecordSql

/-!
# Native queries of all rows
-/

namespace Fetch

/-- A change after which a scope does not return all attributes unless it did before. -/
def Scope.Named (f : Scope -> Scope) : Prop :=
  forall row front s, wholeScopes row front (f s) = wholeScopes row front s

theorem wholeLinked_updateLink {f : Scope -> Scope} (hf : Scope.Named f) (row : Joined)
    (links : List (Link × Scope)) (i : Nat) :
    wholeLinked row (Scope.updateLink f links i) = wholeLinked row links := by
  induction links generalizing i with
  | nil =>
      rfl
  | cons entry rest ih =>
      rcases entry with ⟨link, child⟩
      cases i with
      | zero =>
          rw [Scope.updateLink, wholeLinked, wholeLinked, hf]
      | succ i =>
          rw [Scope.updateLink, wholeLinked, wholeLinked, ih]

theorem Scope.Named.update {f : Scope -> Scope} (hf : Named f) (path : List Nat) :
    Named (Scope.update f path) := by
  induction path with
  | nil =>
      exact hf
  | cons i path ih =>
      rintro row front ⟨_, _, _, _, links, _⟩
      rw [Scope.update, wholeScopes, wholeScopes, wholeLinked_updateLink ih]

theorem wholeLinked_append (row : Joined) (front back : List (Link × Scope)) :
    wholeLinked row (front ++ back) = wholeLinked row front ++ wholeLinked row back := by
  induction front with
  | nil =>
      rw [wholeLinked]
      rfl
  | cons entry rest ih =>
      rw [List.cons_append, wholeLinked, wholeLinked, ih, List.append_assoc]

namespace Scope

theorem named_addAttribute (a : Attribute) : Named (·.addAttribute a) := by
  rintro row front ⟨⟩
  rfl

theorem named_addFilter (filter : Filter) : Named (·.addFilter filter) := by
  rintro row front ⟨⟩
  rfl

theorem named_addOrder (o : Order) : Named (·.addOrder o) := by
  rintro row front ⟨⟩
  rfl

theorem named_addLink (link : Link) (table : String) : Named (·.addLink link (.ofTable table)) := by
  rintro row front ⟨_, _, _, _, links, _⟩
  simp only [addLink, wholeScopes, wholeLinked_append]
  exact congrArg _ (List.append_nil _)

theorem named_ensure (name : String) : Named (·.ensure name) := by
  intro row front s
  simp only [ensure]
  split
  · rfl
  · exact named_addAttribute (.ofName name) row front s

end Scope

/-- The query asks for all joined rows, and for attributes by their names. -/
structure Query.Plain (q : Query) : Prop where
  top : q.top = none
  page : q.page = none
  count : q.count = none
  distinct : q.distinct = false
  aggregate : q.aggregate = false
  named : forall row, wholeScopes row "" q.root = []

theorem Query.Plain.update {q : Query} (h : q.Plain) {f : Scope -> Scope} (hf : Scope.Named f)
    (path : List Nat) : (q.update f path).Plain :=
  { h with named := fun row => (hf.update path row "" q.root).trans (h.named row) }

end Fetch

namespace Plan

open Fetch (Scope)
open Sql (Join Predicate Scalar Select SelectItem Source)

variable {ctx ctx' : Context}

theorem plain_foldl {β : Type} {g : Context -> β -> Context}
    (hg : forall ctx b, ctx.fetch.Plain -> (g ctx b).fetch.Plain) (h : ctx.fetch.Plain)
    (l : List β) : (l.foldl g ctx).fetch.Plain := by
  induction l generalizing ctx with
  | nil =>
      exact h
  | cons b rest ih =>
      exact ih (hg ctx b h)

theorem plain_ensureAll (h : ctx.fetch.Plain) (columns : List Bound) :
    (ctx.ensureAll columns).fetch.Plain :=
  plain_foldl (fun _ b h => h.update (Scope.named_ensure b.name) _) h columns

theorem plain_addTo (h : ctx.fetch.Plain) (part : Part) : (part.addTo ctx).fetch.Plain := by
  cases part with
  | retrieved b aliasName =>
      cases aliasName with
      | none =>
          exact h.update (Scope.named_ensure b.name) _
      | some aliasName =>
          exact h.update (Scope.named_addAttribute _) _
  | computed expr _ _ =>
      exact plain_ensureAll h _

theorem plain_addOrder (h : ctx.fetch.Plain) (key : Bound × Bool) :
    (addOrder ctx key).fetch.Plain := by
  refine h.update (fun row front s => ?_) _
  rw [Scope.named_addOrder]
  split
  · exact Scope.named_ensure key.1.name row front s
  · rfl

theorem plain_addJoin (h : ctx.fetch.Plain) {join : Join} {outer : Bool} {table : TableDef}
    (hjoined : addJoin ctx join outer table = .ok ctx') : ctx'.fetch.Plain := by
  rcases addJoin_cases hjoined with ⟨link, linked, _, hlinked, hjoined⟩
  rcases addLink_scopes hlinked with ⟨_, _, _, hfetch⟩
  have hplain : linked.fetch.Plain := by
    rw [hfetch]
    exact h.update (Scope.named_addLink _ _) _
  rcases hjoined with rfl | ⟨filter, rfl⟩
  · exact hplain
  · exact hplain.update (Scope.named_addFilter filter) _

theorem plain_contextOf {σ : Type} {lookup : Lookup σ} {options : Options} {source : Source}
    {w w' : σ} (h : (contextOf lookup options source).run w = .ok ctx w') : ctx.fetch.Plain :=
  @contextOf_induction _ _ _ _ _ _ (fun ctx => ctx.fetch.Plain)
    (fun _ _ => ⟨rfl, rfl, rfl, rfl, rfl, fun _ => rfl⟩) _ h
    fun _ _ _ _ _ _ _ _ _ hctx _ hnext => plain_addJoin hctx hnext

theorem plain_applyWhere (h : ctx.fetch.Plain) {clock : Clock} {criteria : Option Predicate}
    {residual : Residual} (hwhere : ctx.applyWhere clock criteria = .ok (ctx', residual)) :
    ctx'.fetch.Plain := by
  cases criteria with
  | none =>
      cases hwhere
      exact h
  | some p =>
      rcases Context.applyWhere_some hwhere with ⟨split, _, rfl, _⟩
      exact plain_foldl (fun _ _ h => h.update (Scope.named_addFilter _) _) h _

/-!
# Orders

What a query is sorted by depends on the names of its context alone.
-/

theorem Context.SameNames.sortTarget (h : Context.SameNames ctx ctx') (items : List SelectItem)
    (columns : List String) (e : Scalar) :
    Plan.sortTarget ctx' items columns e = Plan.sortTarget ctx items columns e := by
  have hitem : itemTarget ctx' = itemTarget ctx := by
    funext item output
    simp only [itemTarget, h.resolve]
  have hexpr : exprTarget ctx' = exprTarget ctx := by
    funext e
    simp only [exprTarget, h.qualify, Context.plainColumn?, h.bound?, Context.used, h.use]
  unfold Plan.sortTarget
  rw [hitem, hexpr]

/-- The context that asks for the columns and the native orders of a sort. -/
def orderedBy (ctx : Context) (targets : List (SortTarget × Bool)) : Context :=
  let native := nativeKeys ctx.scopes none targets
  let ordered := native.foldl addOrder ctx
  if native.length == targets.length then ordered
  else ordered.ensureAll (targets.flatMap (·.1.used))

/-- The steps that sort rows which the platform cannot sort. -/
def sortSteps (scopes : Scopes) (targets : List (SortTarget × Bool)) : List Step :=
  if (nativeKeys scopes none targets).length == targets.length then []
  else [.sort (targets.map fun (target, descending) => ⟨target.expr scopes, descending⟩)]

theorem applyOrderBy_eq (ctx : Context) (keys : List Sql.OrderKey) (items : List SelectItem)
    (columns : List String) (steps : List Step) :
    applyOrderBy ctx keys items columns steps =
      (keys.mapM fun key => sortTarget ctx items columns key.expr >>= fun target =>
        .ok (target, key.descending)) >>= fun targets =>
          .ok (orderedBy ctx targets, steps ++ sortSteps ctx.scopes targets) := by
  rw [applyOrderBy]
  refine bind_congr fun targets => ?_
  simp only [orderedBy, sortSteps]
  split
  · rw [List.append_nil]
    rfl
  · rfl

theorem plain_orderedBy (h : ctx.fetch.Plain) (targets : List (SortTarget × Bool)) :
    (orderedBy ctx targets).fetch.Plain := by
  have hordered : ((nativeKeys ctx.scopes none targets).foldl addOrder ctx).fetch.Plain :=
    plain_foldl (fun _ key h => plain_addOrder h key) h _
  rw [orderedBy]
  split
  · exact hordered
  · exact plain_ensureAll hordered _

/-!
# Duplicates
-/

/-- The context whose native query drops duplicates, or does not. -/
def Context.withDistinct (ctx : Context) (distinct : Bool) : Context :=
  { ctx with fetch := { ctx.fetch with distinct } }

theorem Context.foldl_withDistinct {β : Type} {g : Context -> β -> Context} {distinct : Bool}
    (hg : forall ctx b, g (ctx.withDistinct distinct) b = (g ctx b).withDistinct distinct)
    (ctx : Context) (l : List β) :
    l.foldl g (ctx.withDistinct distinct) = (l.foldl g ctx).withDistinct distinct := by
  induction l generalizing ctx with
  | nil =>
      rfl
  | cons b rest ih =>
      rw [List.foldl_cons, hg, ih]
      rfl

theorem orderedBy_withDistinct (ctx : Context) (distinct : Bool)
    (targets : List (SortTarget × Bool)) :
    orderedBy (ctx.withDistinct distinct) targets =
      (orderedBy ctx targets).withDistinct distinct := by
  have hscopes : (ctx.withDistinct distinct).scopes = ctx.scopes := rfl
  simp only [orderedBy, Context.ensureAll, hscopes]
  rw [@Context.foldl_withDistinct _ addOrder distinct fun _ _ => rfl]
  split
  · rfl
  · exact @Context.foldl_withDistinct _ Context.ensure distinct (fun _ _ => rfl) _ _

/-- The columns that a select list shows with regard to case. -/
def Projection.caseSensitive (p : Projection) : List String :=
  p.steps.filterMap Step.caseSensitiveOutput?

/-- The steps that drop duplicates; if there are no others, the platform has dropped them. -/
def Projection.distinctSteps (p : Projection) : List Step :=
  if p.steps.isEmpty then [] else [.distinct (DistinctColumn.ofNames p.columns p.caseSensitive)]

theorem applyDistinct_eq {select : Select} (h : select.distinct = true) (p : Projection) :
    applyDistinct select p =
      { p with
        ctx := p.ctx.withDistinct p.caseSensitive.isEmpty
        steps := p.steps ++ p.distinctSteps } := by
  rw [applyDistinct, h, if_pos rfl]
  simp only [Projection.distinctSteps, Projection.caseSensitive, Context.withDistinct]
  split
  · rename_i hsteps
    rw [List.isEmpty_iff.mp hsteps]
    rfl
  · rfl

/-- The plan of all rows and the plan of distinct rows of one query. -/
structure DistinctPlan (listed : Projection) (targets : List (SortTarget × Bool))
    (plain distinct : Plan) : Prop where
  all : plain = ⟨(orderedBy listed.ctx targets).fetch,
    listed.steps ++ sortSteps listed.ctx.scopes targets, listed.columns⟩
  once : distinct = ⟨{ plain.fetch with distinct := listed.caseSensitive.isEmpty },
    listed.steps ++ listed.distinctSteps ++ sortSteps listed.ctx.scopes targets, listed.columns⟩

theorem selectPlan_distinct {select : Select} {residual : Residual} {distinct : Plan}
    (hdistinct : select.distinct = true) (htop : select.top = none) (hoffset : select.offset = none)
    (h : selectPlan ctx select residual = .ok distinct) :
    exists listed targets plain, Projection.ofItems (ctx.ensureAll residual.used)
        (residual.predicate.map Step.filter).toList select.items = .ok listed ∧
      selectPlan ctx { select with distinct := false } residual = .ok plain ∧
      DistinctPlan listed targets plain distinct := by
  simp only [selectPlan, Outcome.bind_eq_ok, htop, hoffset, applyOrderBy_eq] at h
  rcases h with ⟨listed, hlisted, ⟨ordered, steps⟩, ⟨targets, htargets, horder⟩, ⟨fetch, steps'⟩,
    hlimits, h⟩
  cases hlimits
  cases horder
  cases h
  rw [applyDistinct_eq hdistinct] at htargets
  have hnames : Context.SameNames listed.ctx (listed.ctx.withDistinct listed.caseSensitive.isEmpty) :=
    ⟨rfl, rfl⟩
  simp only [hnames.sortTarget] at htargets
  refine ⟨listed, targets, _, hlisted, ?_, ⟨rfl, ?_⟩⟩
  · simp only [selectPlan, Outcome.bind_eq_ok, htop, hoffset, applyOrderBy_eq]
    exact ⟨listed, hlisted, _, ⟨targets, htargets, rfl⟩, _, rfl, rfl⟩
  · rw [applyDistinct_eq hdistinct]
    simp only [orderedBy_withDistinct]
    rfl

end Plan
end RecordSql
