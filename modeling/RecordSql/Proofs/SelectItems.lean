import RecordSql.Plan.SelectList
import RecordSql.Proofs.Outcome
import RecordSql.Proofs.Reading
import RecordSql.Step.Apply

/-!
# What a select list becomes

Every item of a select list without wildcards becomes a retrieved attribute or a computed column.
Planning an item leaves the names of its context as they are, so all items are bound in the context
that the list was planned from.
-/

namespace RecordSql

/-!
# Computed columns

Steps that compute columns write into the rows that they read.  Only if no step writes a column that
a later one reads or writes is every computed column the value of its expression on the row that the
steps began with.
-/

namespace Step

open Plan (reads)
open Sql (Column Scalar)

/-- The steps that compute expressions, each into a column. -/
def computing (entries : List (Scalar × String)) : List Step :=
  entries.map fun entry => .compute entry.1 entry.2

/-- No column is written that is read or written later on. -/
def Separate (entries : List (Scalar × String)) : Prop :=
  entries.Pairwise fun x y => x.2 ≠ y.2 ∧ x.2 ∉ (reads y.1).map Column.rowKey

/-- The second row is the first one with all computed columns. -/
structure Computed (clock : Clock) (entries : List (Scalar × String)) (row row' : Row) : Prop where
  kept : forall name, name ∉ entries.map (·.2) -> row'.get name = row.get name
  values : forall entry, entry ∈ entries ->
    Eval.scalar clock row.get entry.1 = .ok (row'.get entry.2)

variable {clock : Clock} {entries : List (Scalar × String)}

/-- One computed column in front of the others. -/
theorem Computed.cons {e : Scalar} {name : String} {row row' : Row} {v : Value}
    (hv : Eval.scalar clock row.get e = .ok v) (h : Computed clock entries (row.insert name v) row')
    (hseparate : Separate ((e, name) :: entries)) :
    Computed clock ((e, name) :: entries) row row' where
  kept := by
    intro other hother
    rw [List.map_cons, List.mem_cons, not_or] at hother
    rw [h.kept other hother.2, Row.get_insert, if_neg hother.1]
  values := by
    intro entry hentry
    rcases List.pairwise_cons.mp hseparate with ⟨hfirst, _⟩
    rcases List.mem_cons.mp hentry with rfl | hlater
    · have hlast : name ∉ entries.map (·.2) := by
        intro hmem
        rcases List.mem_map.mp hmem with ⟨entry, hentry, heq⟩
        exact (hfirst entry hentry).1 heq.symm
      rw [h.kept name hlast, Row.get_insert, if_pos rfl]
      exact hv
    · have hsame : Eval.SameOn row.get (row.insert name v).get (reads entry.1) := by
        intro c hc
        have hne : c.rowKey ≠ name := by
          rintro rfl
          exact (hfirst entry hlater).2 (List.mem_map_of_mem hc)
        rw [Row.get_insert, if_neg hne]
      rw [Eval.scalar_congr entry.1 hsame]
      exact h.values entry hlater

/-- Rows in front of a step that computes a column, and behind the rest of the steps. -/
theorem forall₂_computed_cons {e : Scalar} {name : String} {rows rows₁ rows' : List Row}
    (hstep : computeRows clock e name rows = .ok rows₁)
    (hrest : List.Forall₂ (Computed clock entries) rows₁ rows')
    (hseparate : Separate ((e, name) :: entries)) :
    List.Forall₂ (Computed clock ((e, name) :: entries)) rows rows' := by
  have hrows := Outcome.mapM_eq_ok.mp hstep
  induction hrows generalizing rows' with
  | nil =>
      cases hrest
      exact .nil
  | cons hfirst hmore ih =>
      cases hrest with
      | cons hcomputed hrest =>
          rcases Outcome.bind_eq_ok.mp hfirst with ⟨v, hv, hinsert⟩
          cases hinsert
          exact .cons (hcomputed.cons hv hseparate) (ih (Outcome.mapM_eq_ok.mpr hmore) hrest)

theorem forall₂_computed {rows rows' : List Row} (hseparate : Separate entries)
    (h : (computing entries).foldlM (fun rows step => step.apply clock rows) rows = .ok rows') :
    List.Forall₂ (Computed clock entries) rows rows' := by
  induction entries generalizing rows with
  | nil =>
      cases h
      refine List.forall₂_same.mpr ?_
      intro row _
      exact ⟨fun _ _ => rfl, fun entry hentry => by cases hentry⟩
  | cons entry rest ih =>
      rw [computing, List.map_cons, List.foldlM_cons, Outcome.bind_eq_ok] at h
      rcases h with ⟨rows₁, hstep, h⟩
      have hrest := ih (List.pairwise_cons.mp hseparate).2 h
      exact forall₂_computed_cons hstep hrest hseparate

end Step

/-!
# Items
-/

namespace Plan

open Sql (Column Scalar SelectItem)

/-- What a select item becomes. -/
inductive Part where
  | retrieved (b : Bound) (aliasName : Option String)
  /-- An expression, as it is in the statement and as it is computed. -/
  | computed (expr qualified : Scalar) (output : String)

namespace Part

def output (scopes : Scopes) : Part -> String
  | retrieved b aliasName => aliasName.getD (scopes.rowKey b)
  | computed _ _ output => output

def entry? : Part -> Option (Scalar × String)
  | retrieved _ _ => none
  | computed _ qualified output => some (qualified, output)

theorem output_of_entry (part : Part) (scopes : Scopes) {entry : Scalar × String}
    (h : part.entry? = some entry) : part.output scopes = entry.2 := by
  cases part with
  | retrieved _ _ =>
      cases h
  | computed _ _ _ =>
      cases h
      rfl

/-- Retrieves what the part shows or reads. -/
def addTo (ctx : Context) : Part -> Context
  | retrieved b none => ctx.ensure b
  | retrieved b (some aliasName) => ctx.update b.scope (·.addAttribute (.aliased b.name aliasName))
  | computed expr _ _ => ctx.ensureAll (ctx.used expr)

end Part

/-- The item becomes the part. -/
inductive Becomes (ctx : Context) : SelectItem -> Part -> Prop where
  | retrieved {c : Column} {b : Bound} {aliasName : Option String}
      (h : ctx.resolve c = .ok (some b)) :
      Becomes ctx ⟨.column c, aliasName⟩ (.retrieved b aliasName)
  | computed {item : SelectItem} {qualified : Scalar} {output : String}
      (h : ctx.qualify item.expr = .ok qualified) :
      Becomes ctx item (.computed item.expr qualified output)

variable {ctx ctx' : Context}

theorem Becomes.congr (hnames : Context.SameNames ctx ctx') {item : SelectItem} {part : Part}
    (h : Becomes ctx' item part) : Becomes ctx item part := by
  cases h with
  | retrieved h =>
      rw [hnames.resolve] at h
      exact .retrieved h
  | computed h =>
      rw [hnames.qualify] at h
      exact .computed h

/-- The expression of an item can be qualified. -/
theorem Becomes.qualify {item : SelectItem} {part : Part} (h : Becomes ctx item part) :
    exists q, ctx.qualify item.expr = .ok q := by
  cases h with
  | retrieved h =>
      exact ⟨_, Context.qualify_eq_ok.mpr (.column h)⟩
  | computed h =>
      exact ⟨_, h⟩

theorem exists_qualified {items : List SelectItem} {parts : List Part}
    (h : List.Forall₂ (Becomes ctx) items parts) :
    exists qs, List.Forall₂ (fun item q => ctx.qualify item.expr = .ok q) items qs := by
  induction h with
  | nil =>
      exact ⟨[], .nil⟩
  | cons hfirst _ ih =>
      rcases hfirst.qualify with ⟨q, hq⟩
      rcases ih with ⟨qs, hqs⟩
      exact ⟨q :: qs, .cons hq hqs⟩

/-!
# Contexts
-/

theorem Context.SameNames.trans {ctx'' : Context} (h : SameNames ctx ctx')
    (h' : SameNames ctx' ctx'') : SameNames ctx ctx'' :=
  ⟨h'.options.trans h.options, h'.scopes.trans h.scopes⟩

theorem Context.SameNames.symm (h : SameNames ctx ctx') : SameNames ctx' ctx :=
  ⟨h.options.symm, h.scopes.symm⟩

theorem Context.sameNames_update (ctx : Context) (scope : Nat) (f : Fetch.Scope -> Fetch.Scope) :
    SameNames ctx (ctx.update scope f) :=
  ⟨rfl, rfl⟩

theorem Context.sameNames_ensureAll (ctx : Context) (columns : List Bound) :
    SameNames ctx (ctx.ensureAll columns) := by
  induction columns generalizing ctx with
  | nil =>
      exact ⟨rfl, rfl⟩
  | cons b rest ih =>
      exact (sameNames_update ctx b.scope _).trans (ih (ctx.ensure b))

theorem Part.sameNames_addTo (ctx : Context) (part : Part) :
    Context.SameNames ctx (part.addTo ctx) := by
  unfold Part.addTo
  split
  · exact ctx.sameNames_update _ _
  · exact ctx.sameNames_update _ _
  · exact ctx.sameNames_ensureAll _

/-!
# Planning
-/

/-- The state after planning the parts, one after the other. -/
structure Parted (p : Projection) (parts : List Part) (p' : Projection) : Prop where
  ctx : p'.ctx = parts.foldl Part.addTo p.ctx
  columns : p'.columns = p.columns ++ parts.map (Part.output p.ctx.scopes)
  steps : p'.steps = p.steps ++ Step.computing (parts.filterMap Part.entry?)

theorem compute_becomes {p p' : Projection} {item : SelectItem} (h : p.compute item = .ok p') :
    exists part, Becomes p.ctx item part ∧ Parted p [part] p' := by
  rw [Projection.compute, Outcome.bind_eq_ok] at h
  rcases h with ⟨q, hq, h⟩
  cases h
  exact ⟨.computed item.expr q _, .computed hq, rfl, rfl, rfl⟩

/-- A select item is a wildcard, a column that is retrieved or an expression that is computed. -/
theorem item_cases {p p' : Projection} {item : SelectItem} (h : p.item item = .ok p') :
    (item.expr.isStar = true ∧ exists scopes : List Nat,
      p' = scopes.foldl Projection.wholeScope p) ∨
    (exists c b, item.expr = .column c ∧ p.ctx.resolve c = .ok (some b) ∧
      p' = p.retrieve b item.aliasName) ∨ p.compute item = .ok p' := by
  rcases item with ⟨e, aliasName⟩
  cases e with
  | star =>
      cases h
      exact Or.inl ⟨rfl, _, rfl⟩
  | starOf table =>
      simp only [Projection.item] at h
      split at h
      · cases h
        exact Or.inl ⟨rfl, [_], rfl⟩
      · cases h
  | column c =>
      simp only [Projection.item, Outcome.bind_eq_ok] at h
      rcases h with ⟨found, hfound, h⟩
      cases found with
      | none =>
          exact Or.inr (Or.inr h)
      | some b =>
          cases h
          exact Or.inr (Or.inl ⟨c, b, rfl, hfound, rfl⟩)
  | _ =>
      exact Or.inr (Or.inr h)

theorem item_becomes {p p' : Projection} {item : SelectItem} (hstar : item.expr.isStar = false)
    (h : p.item item = .ok p') : exists part, Becomes p.ctx item part ∧ Parted p [part] p' := by
  rcases item_cases h with ⟨hwhole, _⟩ | ⟨c, b, hcolumn, hb, rfl⟩ | hcompute
  · rw [hstar] at hwhole
    cases hwhole
  · rcases item with ⟨e, aliasName⟩
    cases hcolumn
    refine ⟨.retrieved b aliasName, .retrieved hb, ?_⟩
    cases aliasName <;> exact ⟨rfl, rfl, (List.append_nil _).symm⟩
  · exact compute_becomes hcompute

theorem Parted.cons {p p₁ p' : Projection} {part : Part} {parts : List Part}
    (hfirst : Parted p [part] p₁) (hrest : Parted p₁ parts p') : Parted p (part :: parts) p' where
  ctx := by
    rw [hrest.ctx, hfirst.ctx]
    rfl
  columns := by
    have hscopes : p₁.ctx.scopes = p.ctx.scopes := by
      rw [hfirst.ctx]
      exact (part.sameNames_addTo p.ctx).scopes
    rw [hrest.columns, hfirst.columns, hscopes, List.append_assoc]
    rfl
  steps := by
    rw [hrest.steps, hfirst.steps, List.append_assoc, Step.computing, Step.computing,
      <- List.map_append, <- List.filterMap_append]
    rfl

/-- The items of a select list become parts, in order. -/
theorem foldlM_item_parted {items : List SelectItem} {p p' : Projection}
    (hstar : forall item, item ∈ items -> item.expr.isStar = false)
    (h : items.foldlM Projection.item p = .ok p') :
    exists parts, List.Forall₂ (Becomes p.ctx) items parts ∧ Parted p parts p' := by
  induction items generalizing p with
  | nil =>
      cases h
      exact ⟨[], .nil, rfl, (List.append_nil _).symm, (List.append_nil _).symm⟩
  | cons item rest ih =>
      rw [List.foldlM_cons, Outcome.bind_eq_ok] at h
      rcases h with ⟨p₁, hitem, h⟩
      rcases item_becomes (hstar item List.mem_cons_self) hitem with ⟨part, hpart, hfirst⟩
      rcases ih (fun i hi => hstar i (List.mem_cons_of_mem _ hi)) h with ⟨parts, hparts, hrest⟩
      have hnames : Context.SameNames p.ctx p₁.ctx := by
        rw [hfirst.ctx]
        exact part.sameNames_addTo p.ctx
      refine ⟨part :: parts, .cons hpart (hparts.imp ?_), hfirst.cons hrest⟩
      intro i part' hbecomes
      exact hbecomes.congr hnames

end Plan
end RecordSql
