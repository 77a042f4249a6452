import RecordSql.Plan.Basic
import RecordSql.Proofs.Retrieved
import RecordSql.Proofs.SelectItems

/-!
# What local steps read

A local step looks up the columns of a row by name, and a name that the row does not have reads as
the missing value.  The names of a step are safe if the native query returns them or an earlier step
computes them.  Planning only adds to what the native query returns, so a name that is safe once
stays so.
-/

namespace RecordSql

open Sql (Column Scalar)

/-- The names that a step looks up in rows. -/
def Step.reads : Step -> List String
  | compute expr _ => (Plan.reads expr).map Column.rowKey
  | filter p => (Plan.readsOfPredicate p).map Column.rowKey
  | having p => (Plan.readsOfPredicate p).map Column.rowKey
  | sort keys => keys.flatMap fun key => (Plan.reads key.expr).map Column.rowKey
  | limit _ _ => []
  | foldCase column => [column.rowKey]
  | aggregate groups columns =>
      (groups.map (·.expr) ++ columns.filterMap (·.arg)).flatMap fun e =>
        (Plan.reads e).map Column.rowKey
  | distinct columns => columns.map (·.name)

namespace Plan

/-- The steps of the plan by which a task finds its rows. -/
def Task.steps : Task -> List Step
  | select plan _ => plan.steps
  | update task => task.source.steps
  | delete task => task.source.steps
  | schema _ => []

/-- The names that a change looks up in the rows that are left after all steps. -/
def Task.reads : Task -> List String
  | select _ _ => []
  | update task => task.idColumn :: task.changes.flatMap fun change =>
      (Plan.reads change.value).map Column.rowKey
  | delete task => [task.idColumn]
  | schema _ => []

/-!
# Steps whose names are there
-/

/-- Rows hold every name that a step reads from the start, or an earlier step computes it. -/
def Sourced (held : String -> Prop) (steps : List Step) : Prop :=
  forall (k : Nat) (step : Step), steps[k]? = some step -> forall key, key ∈ step.reads ->
    held key ∨ exists (j : Nat) (e : Scalar), j < k ∧ steps[j]? = some (.compute e key)

section

variable {held held' : String -> Prop} {steps : List Step}

theorem Sourced.nil : Sourced held [] := by
  intro k step hstep
  cases hstep

theorem Sourced.mono (h : Sourced held steps) (hheld : forall key, held key -> held' key) :
    Sourced held' steps := by
  intro k step hstep key hkey
  exact (h k step hstep key hkey).imp_left (hheld key)

theorem Sourced.snoc (h : Sourced held steps) {last : Step}
    (hlast : forall key, key ∈ last.reads -> held key ∨ exists e, .compute e key ∈ steps) :
    Sourced held (steps ++ [last]) := by
  intro k step hstep key hkey
  by_cases hk : k < steps.length
  · rw [List.getElem?_append_left hk] at hstep
    cases h k step hstep key hkey with
    | inl hheld =>
        exact Or.inl hheld
    | inr hcomputed =>
        rcases hcomputed with ⟨j, e, hj, hcompute⟩
        exact Or.inr ⟨j, e, hj, (List.getElem?_append_left (Nat.lt_trans hj hk)).trans hcompute⟩
  · have hlength := (List.getElem?_eq_some_iff.mp hstep).1
    rw [List.length_append, List.length_singleton] at hlength
    have hend : k = steps.length := by
      omega
    rw [hend, List.getElem?_concat_length] at hstep
    cases hstep
    cases hlast key hkey with
    | inl hheld =>
        exact Or.inl hheld
    | inr hcomputed =>
        rcases hcomputed with ⟨e, hmem⟩
        rcases List.getElem?_of_mem hmem with ⟨j, hj⟩
        have hlt := (List.getElem?_eq_some_iff.mp hj).1
        exact Or.inr ⟨j, e, hend ▸ hlt, (List.getElem?_append_left hlt).trans hj⟩

end

/-- The rows of a native query have the name. -/
inductive Fetched (scopes : Scopes) (root : Fetch.Scope) (key : String) : Prop where
  /-- It is the name of an attribute of the query, or the alias of one. -/
  | column {p : Fetch.Placed} (h : p ∈ Fetch.placedAttributes "" root) (hkey : p.output = key)
  /-- It is the name of an attribute of a table of which the query returns all. -/
  | whole {i : Nat} {s : TableScope} {a : AttributeDef} {found : Fetch.Scope}
      (hscope : scopes[i]? = some s) (ha : a ∈ s.table.attributes)
      (hfound : root.at? s.path = some found) (hall : found.allAttributes = true)
      (hkey : scopes.rowKey ⟨i, a.name⟩ = key)

end Plan

/-!
# Changes that add attributes
-/

namespace Fetch
namespace Scope

/-- The second scope returns all that the first one does. -/
structure Within (s t : Scope) : Prop where
  attributes : s.attributes ⊆ t.attributes
  all : s.allAttributes = true -> t.allAttributes = true

theorem Within.trans {s t u : Scope} (h : Within s t) (h' : Within t u) : Within s u where
  attributes := List.Subset.trans h.attributes h'.attributes
  all := fun hall => h'.all (h.all hall)

/-- The change keeps the links of a scope and all that it returns. -/
structure Grows (f : Scope -> Scope) : Prop where
  links : forall s, (f s).links = s.links
  within : forall s, Within s (f s)

theorem Grows.comp {f g : Scope -> Scope} (hg : Grows g) (hf : Grows f) :
    Grows fun s => g (f s) where
  links := fun s => (hg.links (f s)).trans (hf.links s)
  within := fun s => (hf.within s).trans (hg.within (f s))

theorem grows_addAttribute (a : Attribute) : Grows (·.addAttribute a) where
  links := fun _ => rfl
  within := fun _ => ⟨List.subset_append_left _ _, id⟩

theorem grows_addOrder (o : Order) : Grows (·.addOrder o) where
  links := fun _ => rfl
  within := fun _ => ⟨List.Subset.refl _, id⟩

theorem grows_allAttributes : Grows fun s => { s with allAttributes := true } where
  links := fun _ => rfl
  within := fun _ => ⟨List.Subset.refl _, fun _ => rfl⟩

/-- A scope returns an attribute that it is asked for, by itself or among all others. -/
theorem ensure_cases (s : Scope) (name : String) :
    (s.ensure name = s ∧ s.allAttributes = true) ∨
      (s.ensure name = s ∧ exists a, a ∈ s.attributes ∧ a.name = name ∧ a.aliasName = none) ∨
      s.ensure name = s.addAttribute (.ofName name) := by
  rw [ensure]
  split
  · rename_i h
    cases hall : s.allAttributes with
    | true =>
        exact Or.inl ⟨rfl, rfl⟩
    | false =>
        rw [hall, Bool.false_or, List.any_eq_true] at h
        rcases h with ⟨a, ha, hname⟩
        rw [Bool.and_eq_true, beq_iff_eq, Attribute.isPlain, Bool.and_eq_true,
          Option.isNone_iff_eq_none] at hname
        exact Or.inr (Or.inl ⟨rfl, a, ha, hname.1, hname.2.1⟩)
  · exact Or.inr (Or.inr rfl)

theorem grows_ensure (name : String) : Grows (·.ensure name) := by
  constructor
  · intro s
    rcases ensure_cases s name with ⟨h, _⟩ | ⟨h, _⟩ | h <;> rw [h]
    rfl
  · intro s
    rcases ensure_cases s name with ⟨h, _⟩ | ⟨h, _⟩ | h <;> rw [h]
    · exact ⟨List.Subset.refl _, id⟩
    · exact ⟨List.Subset.refl _, id⟩
    · exact (grows_addAttribute _).within s

end Scope
end Fetch

namespace Plan

open Fetch (Attribute Placed Scope)

/-!
# Contexts that return more
-/

/-- The second context has the names of the first and returns all that the first one does. -/
structure Context.Grown (ctx ctx' : Context) : Prop where
  names : Context.SameNames ctx ctx'
  places : forall {path : List Nat} {front : String} {found : Scope},
    ctx.fetch.root.place "" path = some (front, found) -> exists found',
      ctx'.fetch.root.place "" path = some (front, found') ∧ Scope.Within found found'

namespace Context

variable {ctx ctx' ctx'' : Context}

theorem Grown.of_root (hnames : SameNames ctx ctx') (hroot : ctx'.fetch.root = ctx.fetch.root) :
    Grown ctx ctx' where
  names := hnames
  places := by
    intro path front found h
    exact ⟨found, by rw [hroot]; exact h, List.Subset.refl _, id⟩

theorem Grown.refl (ctx : Context) : Grown ctx ctx :=
  .of_root ⟨rfl, rfl⟩ rfl

theorem Grown.trans (h : Grown ctx ctx') (h' : Grown ctx' ctx'') : Grown ctx ctx'' where
  names := h.names.trans h'.names
  places := by
    intro path front found hplace
    rcases h.places hplace with ⟨found', hplace', hwithin⟩
    rcases h'.places hplace' with ⟨found'', hplace'', hwithin'⟩
    exact ⟨found'', hplace'', hwithin.trans hwithin'⟩

theorem grown_update {f : Scope -> Scope} (hf : Scope.Grows f) (ctx : Context) (i : Nat) :
    Grown ctx (ctx.update i f) where
  names := ctx.sameNames_update i f
  places := by
    intro path front found h
    refine Scope.place_update_of (fun s => ⟨[], ?_⟩) hf.within (fun s links => ?_) h _
    · rw [hf.links s, List.append_nil]
    · exact ⟨List.Subset.refl _, id⟩

theorem grown_foldl {β : Type} {g : Context -> β -> Context}
    (hg : forall ctx b, Grown ctx (g ctx b)) (ctx : Context) (l : List β) :
    Grown ctx (l.foldl g ctx) := by
  induction l generalizing ctx with
  | nil =>
      exact .refl ctx
  | cons b rest ih =>
      exact (hg ctx b).trans (ih (g ctx b))

theorem grown_ensure (ctx : Context) (b : Bound) : Grown ctx (ctx.ensure b) :=
  grown_update (Scope.grows_ensure b.name) ctx b.scope

theorem grown_ensureAll (ctx : Context) (columns : List Bound) :
    Grown ctx (ctx.ensureAll columns) :=
  grown_foldl grown_ensure ctx columns

end Context

/-!
# Names that rows hold
-/

/-- Every scope has a place in the native query. -/
def Anchored (ctx : Context) : Prop :=
  forall i s, ctx.scopes[i]? = some s -> exists found,
    ctx.fetch.root.place "" s.path = some (ctx.scopes.front i, found)

theorem Rooted.anchored {ctx : Context} (h : Rooted ctx) : Anchored ctx := by
  intro i s hs
  rcases h i s hs with ⟨found, hplace, _⟩
  exact ⟨found, hplace⟩

/-- The rows of the native query under construction have the name. -/
inductive Held (ctx : Context) (key : String) : Prop where
  | column {path : List Nat} {front : String} {found : Scope} {a : Attribute}
      (hplace : ctx.fetch.root.place "" path = some (front, found)) (ha : a ∈ found.attributes)
      (hkey : Placed.output ⟨front, a⟩ = key)
  | whole {i : Nat} {s : TableScope} {a : AttributeDef} {front : String} {found : Scope}
      (hscope : ctx.scopes[i]? = some s) (ha : a ∈ s.table.attributes)
      (hplace : ctx.fetch.root.place "" s.path = some (front, found))
      (hall : found.allAttributes = true) (hkey : ctx.scopes.rowKey ⟨i, a.name⟩ = key)

/-- The column is bound to an attribute of the table of its scope, by the name that it has there. -/
def Known (scopes : Scopes) (b : Bound) : Prop :=
  exists s a, scopes[b.scope]? = some s ∧ a ∈ s.table.attributes ∧ a.name = b.name

section

variable {ctx ctx' : Context} {key : String}

theorem Anchored.grown (h : Anchored ctx) (hgrown : Context.Grown ctx ctx') : Anchored ctx' := by
  intro i s hs
  rw [hgrown.names.scopes] at hs ⊢
  rcases h i s hs with ⟨found, hplace⟩
  rcases hgrown.places hplace with ⟨found', hplace', _⟩
  exact ⟨found', hplace'⟩

theorem Held.grown (h : Held ctx key) (hgrown : Context.Grown ctx ctx') : Held ctx' key := by
  cases h with
  | column hplace ha hkey =>
      rcases hgrown.places hplace with ⟨found', hplace', hwithin⟩
      exact .column hplace' (hwithin.attributes ha) hkey
  | whole hscope ha hplace hall hkey =>
      rcases hgrown.places hplace with ⟨found', hplace', hwithin⟩
      rw [<- hgrown.names.scopes] at hscope hkey
      exact .whole hscope ha hplace' (hwithin.all hall) hkey

theorem Held.fetched (h : Held ctx key) : Fetched ctx.scopes ctx.fetch.root key := by
  cases h with
  | column hplace ha hkey =>
      refine .column ?_ hkey
      rw [Fetch.placedAttributes_eq]
      exact Scope.gather_subset_of_place hplace (Scope.mem_gather_self ha)
  | whole hscope ha hplace hall hkey =>
      exact .whole hscope ha (Scope.at?_of_place hplace) hall hkey

/-- A column that is bound is known. -/
theorem known_of_resolve {c : Column} {b : Bound} (h : ctx.resolve c = .ok (some b)) :
    Known ctx.scopes b := by
  rcases Scopes.attributeOf_resolve (Context.resolve_eq h) with ⟨a, ha, hname, _⟩
  rcases Option.bind_eq_some_iff.mp ha with ⟨s, hs, hfound⟩
  exact ⟨s, a, hs, List.mem_of_find?_eq_some hfound, hname⟩

theorem known_of_use {columns : List Column} {b : Bound} (h : b ∈ ctx.use [] columns) :
    Known ctx.scopes b := by
  cases mem_use.mp h with
  | inl hnone =>
      cases hnone
  | inr hsome =>
      rcases hsome with ⟨c, _, hc⟩
      exact known_of_resolve hc

/-- The place of a scope after a change of it. -/
theorem Anchored.place_update_self (h : Anchored ctx) {i : Nat} {s : TableScope}
    (hs : ctx.scopes[i]? = some s) (f : Scope -> Scope) :
    exists found, (ctx.update i f).fetch.root.place "" s.path =
      some (ctx.scopes.front i, f found) := by
  rcases h i s hs with ⟨found, hplace⟩
  have hpath : ctx.scopes.pathOf i = s.path := by
    rw [Scopes.pathOf, hs]
    rfl
  rw [<- hpath] at hplace ⊢
  exact ⟨found, Scope.place_update_self f hplace⟩

theorem held_ensure (h : Anchored ctx) {b : Bound} (hb : Known ctx.scopes b) :
    Held (ctx.ensure b) (ctx.scopes.rowKey b) := by
  rcases hb with ⟨s, a, hs, ha, hname⟩
  rcases h.place_update_self hs (·.ensure b.name) with ⟨found, hplace⟩
  have hkey : forall a : Attribute, a.name = b.name -> a.aliasName = none ->
      Placed.output ⟨ctx.scopes.front b.scope, a⟩ = ctx.scopes.rowKey b := by
    intro a hname hunnamed
    rw [Placed.output, hunnamed, Option.getD_none, Placed.key, hname, Scopes.rowKey_eq]
  rcases Scope.ensure_cases found b.name with ⟨hsame, hall⟩ | ⟨hsame, hown⟩ | hnew
  · rw [hsame] at hplace
    refine .whole hs ha hplace hall ?_
    rw [hname]
    rfl
  · rcases hown with ⟨a', ha', hname', hunnamed⟩
    rw [hsame] at hplace
    exact .column hplace ha' (hkey a' hname' hunnamed)
  · rw [hnew] at hplace
    exact .column hplace (List.mem_append_right _ (List.mem_singleton_self _)) (hkey _ rfl rfl)

theorem held_ensureAll (h : Anchored ctx) {columns : List Bound}
    (hcolumns : forall b, b ∈ columns -> Known ctx.scopes b) {b : Bound} (hb : b ∈ columns) :
    Held (ctx.ensureAll columns) (ctx.scopes.rowKey b) := by
  induction columns generalizing ctx with
  | nil =>
      cases hb
  | cons first rest ih =>
      have hgrown := ctx.grown_ensure first
      cases List.mem_cons.mp hb with
      | inl heq =>
          rw [heq]
          have hfirst := held_ensure h (hcolumns first List.mem_cons_self)
          exact hfirst.grown (Context.grown_ensureAll (ctx.ensure first) rest)
      | inr hrest =>
          exact @ih (ctx.ensure first) (h.grown hgrown)
            (fun b hb => hcolumns b (List.mem_cons_of_mem _ hb)) hrest

theorem held_addAttribute (h : Anchored ctx) {b : Bound} (hb : Known ctx.scopes b)
    (aliasName : String) :
    Held (ctx.update b.scope (·.addAttribute (.aliased b.name aliasName))) aliasName := by
  rcases hb with ⟨s, _, hs, _⟩
  rcases h.place_update_self hs (·.addAttribute (.aliased b.name aliasName)) with ⟨found, hplace⟩
  exact .column hplace (List.mem_append_right _ (List.mem_singleton_self _)) rfl

end

end Plan
end RecordSql
