import RecordSql.Proofs.GroupSpecs
import RecordSql.Proofs.StoredValues
import RecordSql.Proofs.SubstitutedValues
import RecordSql.Proofs.Substitution

/-!
# Columns of an aggregate query

The row of a group holds its keys and its aggregates under their outputs, and the columns that are
computed from them under the names of select items.  If no name stands for two things, every column
shows the value of its select item on the group.
-/

namespace RecordSql
namespace Sql

/-!
# Replaced expressions
-/

namespace Substitution

variable {s : Substitution} {e : Scalar}

/-- An expression that becomes a column has been replaced, if all its columns are. -/
theorem scalar_eq_column {good : Scalar -> Prop} {c : Column} (hcovers : s.Covers good e)
    (h : s.scalar e = .column c) : exists name, c = .ofName name := by
  have hnode : forall otherwise : Scalar, s.columnOr e otherwise = .column c ->
      (s.column? e = none -> otherwise ≠ .column c) -> exists name, c = .ofName name := by
    intro otherwise hnode hotherwise
    unfold columnOr at hnode
    split at hnode
    · rename_i name _
      cases hnode
      exact ⟨name, rfl⟩
    · rename_i hnone
      exact absurd hnode (hotherwise hnone)
  cases e with
  | column c' =>
      refine hnode _ h fun hnone _ => ?_
      exact absurd hcovers.2 (by rw [hnone]; exact Bool.false_ne_true)
  | _ =>
      exact hnode _ h fun _ heq => by cases heq

end Substitution
end Sql

namespace Plan

open Fetch (Joined)
open Sql (Column Predicate Scalar Select SelectItem Substitution)

/-!
# Keys and outputs
-/

/-- The keys are the qualified expressions of a list, of those that are the same only one. -/
structure QualifiesOnce (ctx : Context) (exprs keys : List Scalar) : Prop where
  each : forall key, key ∈ keys -> exists e, e ∈ exprs ∧ ctx.qualify e = .ok key
  every : forall e, e ∈ exprs -> exists q, ctx.qualify e = .ok q ∧
    exists key, key ∈ keys ∧ (key = q ∨ key.same q = true)

theorem groupSpecs_each {ctx : Context} {items : List SelectItem} {names : OutputNames}
    {found : List GroupSpec} {all exprs : List Scalar} {result : List GroupSpec × OutputNames}
    (hexprs : exprs ⊆ all) (hfound : forall g, g ∈ found -> g.IsOf ctx all)
    (h : groupSpecs ctx items names found exprs = .ok result) :
    forall g, g ∈ result.1 -> g.IsOf ctx all := by
  induction exprs generalizing names found with
  | nil =>
      cases h
      exact hfound
  | cons e rest ih =>
      have hrest : rest ⊆ all := fun a ha => hexprs (List.mem_cons_of_mem _ ha)
      rcases groupSpecs_cons h with h | ⟨qualified, output, _, hqualified, _, _, h⟩
      · exact ih hrest hfound h
      · refine ih hrest ?_ h
        intro g hg
        rcases List.mem_append.mp hg with hg | hg
        · exact hfound g hg
        · rw [List.mem_singleton.mp hg]
          exact ⟨e, hexprs List.mem_cons_self, hqualified, rfl, rfl⟩

theorem groupSpecs_every {ctx : Context} {items : List SelectItem} {names : OutputNames}
    {found : List GroupSpec} {exprs : List Scalar} {result : List GroupSpec × OutputNames}
    (h : groupSpecs ctx items names found exprs = .ok result) :
    forall e, e ∈ exprs -> exists q, ctx.qualify e = .ok q ∧
      exists g, g ∈ result.1 ∧ (g.expr = q ∨ g.expr.same q = true) := by
  induction exprs generalizing names found with
  | nil =>
      intro e he
      cases he
  | cons first rest ih =>
      rw [groupSpecs, Outcome.bind_eq_ok] at h
      rcases h with ⟨qualified, hqualified, h⟩
      intro e he
      split at h
      · rename_i hany
        rcases List.mem_cons.mp he with rfl | he
        · rcases List.any_eq_true.mp hany with ⟨g, hg, hsame⟩
          exact ⟨qualified, hqualified, g, groupSpecs_subset h hg, Or.inr hsame⟩
        · exact ih h e he
      · rw [Outcome.bind_eq_ok] at h
        rcases h with ⟨aliasName, _, h⟩
        have hnext : exists output names', groupSpecs ctx items names' (found ++
            [⟨qualified, ctx.plainColumn? first, ctx.used first, output⟩]) rest = .ok result := by
          cases aliasName with
          | some output =>
              exact ⟨output, names, h⟩
          | none =>
              exact ⟨_, _, h⟩
        rcases hnext with ⟨output, names', h⟩
        rcases List.mem_cons.mp he with rfl | he
        · exact ⟨qualified, hqualified, _, groupSpecs_subset h (List.mem_append_right _
            (List.mem_singleton_self _)), Or.inl rfl⟩
        · exact ih h e he

theorem aggregateSpecs_each {ctx : Context} {items : List SelectItem} {names : OutputNames}
    {found result : List AggregateSpec} {calls : List Scalar}
    (hcalls : forall call, call ∈ calls -> call.isAggregate = true)
    (hfound : forall a, a ∈ found -> exists name distinct args, a.IsOf ctx name distinct args)
    (h : aggregateSpecs ctx items names found calls = .ok result) :
    forall a, a ∈ result -> exists name distinct args, a.IsOf ctx name distinct args := by
  induction calls generalizing names found with
  | nil =>
      cases h
      exact hfound
  | cons call rest ih =>
      have hrest := fun c hc => hcalls c (List.mem_cons_of_mem _ hc)
      rcases aggregateSpecs_cons (hcalls call List.mem_cons_self) h with
        h | ⟨a, _, _, ⟨name, distinct, args, _, ha⟩, _, h⟩
      · exact ih hrest hfound h
      · refine ih hrest ?_ h
        intro a' ha'
        rcases List.mem_append.mp ha' with ha' | ha'
        · exact hfound a' ha'
        · rw [List.mem_singleton.mp ha']
          exact ⟨name, distinct, args, ha⟩

namespace GroupPlan

/-- The expressions to group by. -/
def keys (p : GroupPlan) : List Scalar :=
  p.groups.map (·.expr)

/-- The outputs in the places of group keys and aggregates. -/
def outputs (p : GroupPlan) : Substitution :=
  p.aggregates.foldl (fun s a => s.add a.key a.output)
    (p.groups.foldl (fun s g => s.add g.expr g.output) Substitution.empty)

/-- What is computed of a group, in order. -/
def computed (p : GroupPlan) : List (Scalar × String) :=
  p.steps.filterMap Step.entry?

/-- What the plan of an aggregate query is made of. -/
structure IsOf (p : GroupPlan) (ctx : Context) (select : Select) : Prop where
  context : p.ctx = ctx
  statement : p.select = select
  groups : forall g, g ∈ p.groups -> g.IsOf ctx select.groupBy
  keys : QualifiesOnce ctx select.groupBy p.keys
  aggregates : forall a, a ∈ p.aggregates -> exists name distinct args,
    a.IsOf ctx name distinct args
  items : List.Forall₂ (fun item shown => exists q, ctx.qualify item.expr = .ok q ∧
    shown = p.outputs.item ⟨q, item.aliasName⟩) select.items p.grouped.items
  columns : p.columns = (groupColumns 0 p.grouped.items).1
  steps : p.steps = (p.grouped.having.map Step.having).toList ++
    (groupColumns 0 p.grouped.items).2

theorem isOf_groupPlan {ctx : Context} {select : Select} {p : GroupPlan}
    (h : groupPlan ctx select = .ok p) : p.IsOf ctx select := by
  rw [groupPlan] at h
  split at h
  · cases h
  · simp only [Outcome.bind_eq_ok] at h
    rcases h with ⟨orderBy, _, ⟨groups, names⟩, hgroups, aggregates, haggregates, grouped, hgrouped,
      _, _, h⟩
    cases h
    have hnone : forall g : GroupSpec, g ∈ [] -> g.IsOf ctx select.groupBy := fun g hg => by cases hg
    have heach := groupSpecs_each (List.Subset.refl _) hnone hgroups
    refine ⟨rfl, rfl, heach, ⟨?_, ?_⟩, ?_, ?_, rfl, rfl⟩
    · intro key hkey
      rcases List.mem_map.mp hkey with ⟨g, hg, rfl⟩
      rcases heach g hg with ⟨e, he, hqualified, _⟩
      exact ⟨e, he, hqualified⟩
    · intro e he
      rcases groupSpecs_every hgroups e he with ⟨q, hq, g, hg, hsame⟩
      exact ⟨q, hq, g.expr, List.mem_map_of_mem hg, hsame⟩
    · exact aggregateSpecs_each (fun call hcall => (List.mem_filter.mp hcall).2)
        (fun a ha => by cases ha) haggregates
    · simp only [groupedParts, Outcome.bind_eq_ok] at hgrouped
      rcases hgrouped with ⟨items, hitems, _, _, _, _, h⟩
      cases h
      refine (Outcome.mapM_eq_ok.mp hitems).imp fun item shown hitem => ?_
      rw [Outcome.bind_eq_ok] at hitem
      rcases hitem with ⟨q, hq, hshown⟩
      exact ⟨q, hq, (Except.ok.inj hshown).symm⟩

/-- A column stands for a key or an aggregate with the text of the expression. -/
theorem column?_outputs {p : GroupPlan} {e : Scalar} {name : String}
    (h : p.outputs.column? e = some name) :
    (exists a, a ∈ p.aggregates ∧ a.key.text = e.text ∧ a.output = name) ∨
      exists g, g ∈ p.groups ∧ g.expr.text = e.text ∧ g.output = name := by
  rcases Substitution.column?_foldl_add h with hfound | h
  · exact Or.inl hfound
  · rcases Substitution.column?_foldl_add h with hfound | h
    · exact Or.inr hfound
    · cases h

theorem column?_outputs_none {p : GroupPlan} {e : Scalar} (h : p.outputs.column? e = none) :
    forall g, g ∈ p.groups -> g.expr.text ≠ e.text :=
  (Substitution.column?_foldl_add_none (Substitution.column?_foldl_add_none h).1).2

/-!
# Values of groups
-/

/-- The row of a group holds the values of its keys and its totals. -/
structure Holds (p : GroupPlan) (clock : Clock) (group : List Joined) (row : Row) : Prop where
  keys : forall g, g ∈ p.groups -> exists first rest, group = first :: rest ∧
    Eval.scalar clock first.get g.expr = .ok (row.get g.output)
  totals : forall a, a ∈ p.aggregates ->
    aggregateOn clock group a.key = some (.ok (row.get a.output))

/-- A key or an aggregate that has the text of an expression stands for the same on every group. -/
def Agrees (p : GroupPlan) (clock : Clock) (e : Scalar) : Prop :=
  forall k, k ∈ p.keys ++ p.aggregates.map (·.key) -> k.text = e.text ->
    forall group, ownValue clock p.keys group e = ownValue clock p.keys group k

/-- The plan has one name for each thing that it holds, and one text for each that it looks up. -/
structure KeepsApart (p : GroupPlan) (clock : Clock) : Prop where
  outputs : (p.groups.map (·.output) ++ p.aggregates.map (·.output)).Nodup
  separate : Step.Separate p.computed
  /-- No other column is shown under the name of a computed one. -/
  shown : forall entry, entry ∈ p.computed -> p.columns.count entry.2 = 1
  covered : forall item, item ∈ p.select.items -> forall q, p.ctx.qualify item.expr = .ok q ->
    p.outputs.Covers (p.Agrees clock) q

variable {p : GroupPlan} {clock : Clock} {group : List Joined} {row : Row}

theorem Holds.supplies (h : p.Holds clock group row) :
    Supplies p.outputs (p.Agrees clock) (ownValue clock p.keys group) row.get where
  replaced := by
    intro e name hagrees hname
    rcases column?_outputs hname with ⟨a, ha, htext, rfl⟩ | ⟨g, hg, htext, rfl⟩
    · rw [hagrees a.key (List.mem_append_right _ (List.mem_map_of_mem ha)) htext, ownValue,
        h.totals a ha]
      rfl
    · have hkey : g.expr ∈ p.keys := List.mem_map_of_mem hg
      rw [hagrees g.expr (List.mem_append_left _ hkey) htext, ownValue]
      rcases h.keys g hg with ⟨first, rest, rfl, hvalue⟩
      have hplain : g.expr.isAggregate = false := by
        cases haggregate : g.expr.isAggregate with
        | true =>
            exact absurd hvalue (Eval.scalar_aggregate haggregate)
        | false =>
            rfl
      have hany : p.keys.any (·.text == g.expr.text) = true :=
        List.any_eq_true.mpr ⟨g.expr, hkey, beq_self_eq_true _⟩
      rw [aggregateOn_of_not_isAggregate hplain, Option.none_or, keyOn, if_pos hany,
        List.head?_cons, Option.map_some, hvalue]
  kept := by
    intro e hnone hplain
    have hany : p.keys.any (·.text == e.text) = false := by
      rw [List.any_eq_false]
      intro key hkey
      rcases List.mem_map.mp hkey with ⟨g, hg, rfl⟩
      rw [beq_iff_eq]
      exact column?_outputs_none hnone g hg
    rw [ownValue, aggregateOn_of_not_isAggregate hplain, Option.none_or, keyOn, hany,
      if_neg Bool.false_ne_true]

/-!
# Shown columns
-/

/-- An item is computed into its column, or is a column that nothing is computed into. -/
def ShownAs (entries : List (Scalar × String)) (columns : List String) (item : SelectItem)
    (column : String) : Prop :=
  (item.expr, column) ∈ entries ∨ exists c, item.expr = .column c ∧ c.name = column ∧
    (entries.map (·.2)).count column < columns.count column

theorem ShownAs.cons_column {entries : List (Scalar × String)} {columns : List String}
    {item : SelectItem} {column : String} (h : ShownAs entries columns item column)
    (first : String) : ShownAs entries (first :: columns) item column := by
  rcases h with h | ⟨c, hc, hname, hcount⟩
  · exact Or.inl h
  · exact Or.inr ⟨c, hc, hname, Nat.lt_of_lt_of_le hcount List.count_le_count_cons⟩

theorem ShownAs.cons_entry {entries : List (Scalar × String)} {columns : List String}
    {item : SelectItem} {column : String} (h : ShownAs entries columns item column)
    (entry : Scalar × String) : ShownAs (entry :: entries) (entry.2 :: columns) item column := by
  rcases h with h | ⟨c, hc, hname, hcount⟩
  · exact Or.inl (List.mem_cons_of_mem _ h)
  · refine Or.inr ⟨c, hc, hname, ?_⟩
    rw [List.map_cons, List.count_cons, List.count_cons]
    exact Nat.add_lt_add_right hcount _

theorem groupColumns_shownAs (unnamed : Nat) (items : List SelectItem) :
    exists entries, (groupColumns unnamed items).2 = Step.computing entries ∧
      (entries.map (·.2)).Sublist (groupColumns unnamed items).1 ∧
      List.Forall₂ (ShownAs entries (groupColumns unnamed items).1) items
        (groupColumns unnamed items).1 := by
  induction items generalizing unnamed with
  | nil =>
      exact ⟨[], rfl, List.Sublist.refl _, .nil⟩
  | cons item rest ih =>
      have hcolumn : forall c : Column, item.expr = .column c -> exists entries,
          (groupColumns unnamed rest).2 = Step.computing entries ∧
          (entries.map (·.2)).Sublist (c.name :: (groupColumns unnamed rest).1) ∧
          List.Forall₂ (ShownAs entries (c.name :: (groupColumns unnamed rest).1)) (item :: rest)
            (c.name :: (groupColumns unnamed rest).1) := by
        intro c hc
        rcases ih unnamed with ⟨entries, hsteps, hsublist, hrest⟩
        refine ⟨entries, hsteps, hsublist.cons _, .cons (Or.inr ⟨c, hc, rfl, ?_⟩) ?_⟩
        · rw [List.count_cons_self]
          exact Nat.lt_succ_of_le (hsublist.count_le _)
        · exact hrest.imp fun _ _ h => h.cons_column c.name
      have hcomputed : forall (unnamed : Nat) (output : String), exists entries,
          Step.compute item.expr output :: (groupColumns unnamed rest).2 = Step.computing entries ∧
          (entries.map (·.2)).Sublist (output :: (groupColumns unnamed rest).1) ∧
          List.Forall₂ (ShownAs entries (output :: (groupColumns unnamed rest).1)) (item :: rest)
            (output :: (groupColumns unnamed rest).1) := by
        intro unnamed output
        rcases ih unnamed with ⟨entries, hsteps, hsublist, hrest⟩
        refine ⟨(item.expr, output) :: entries, by rw [hsteps]; rfl, hsublist.cons_cons _,
          .cons (Or.inl List.mem_cons_self) ?_⟩
        exact hrest.imp fun _ _ h => h.cons_entry (item.expr, output)
      rw [groupColumns]
      split
      · rename_i c hc _
        exact hcolumn c hc
      · rename_i c aliasName hc _
        split
        · exact hcolumn c hc
        · exact hcomputed _ _
      · exact hcomputed _ _
      · exact hcomputed _ _

/-- The columns of a plan show its items, some of them computed in its last steps. -/
theorem IsOf.shownAs {ctx : Context} {select : Select} (h : p.IsOf ctx select) :
    p.steps = (p.grouped.having.map Step.having).toList ++ Step.computing p.computed ∧
      List.Forall₂ (ShownAs p.computed p.columns) p.grouped.items p.columns := by
  rcases groupColumns_shownAs 0 p.grouped.items with ⟨entries, hentries, _, hshown⟩
  rw [<- h.columns] at hshown
  have hcomputed : p.computed = entries := by
    rw [computed, h.steps, hentries, List.filterMap_append, entries_computing]
    cases p.grouped.having <;> rfl
  rw [hcomputed, <- hentries]
  exact ⟨h.steps, hshown⟩

theorem IsOf.exists_qualified {ctx : Context} {select : Select} (h : p.IsOf ctx select) :
    exists qs, (select.items.mapM fun item => ctx.qualify item.expr) = .ok qs ∧
      List.Forall₂ (fun shown q => shown.expr = p.outputs.scalar q) p.grouped.items qs := by
  have hall : forall {items shown : List SelectItem}, List.Forall₂ (fun item shown => exists q,
      ctx.qualify item.expr = .ok q ∧ shown = p.outputs.item ⟨q, item.aliasName⟩) items shown ->
      exists qs, List.Forall₂ (fun item q => ctx.qualify item.expr = .ok q) items qs ∧
        List.Forall₂ (fun shown q => shown.expr = p.outputs.scalar q) shown qs := by
    intro items shown hitems
    induction hitems with
    | nil =>
        exact ⟨[], .nil, .nil⟩
    | cons hitem _ ih =>
        rcases hitem with ⟨q, hq, rfl⟩
        rcases ih with ⟨qs, hqs, hshown⟩
        exact ⟨q :: qs, .cons hq hqs, .cons rfl hshown⟩
  rcases hall h.items with ⟨qs, hqs, hshown⟩
  exact ⟨qs, Outcome.mapM_eq_ok.mpr hqs, hshown⟩

/-- A column shows what its item is worth on the row before anything was computed. -/
theorem KeepsApart.scalar_of_shownAs (h : p.KeepsApart clock) {row' : Row}
    (hcomputed : Step.Computed clock p.computed row row') {shown : SelectItem} {column : String}
    (hshown : ShownAs p.computed p.columns shown column)
    (hplain : forall c, shown.expr = .column c -> exists name, c = .ofName name) :
    Eval.scalar clock row.get shown.expr = .ok (row'.get column) := by
  rcases hshown with hentry | ⟨c, hc, rfl, hcount⟩
  · exact hcomputed.values _ hentry
  · rcases hplain c hc with ⟨name, rfl⟩
    have hkept : name ∉ p.computed.map (·.2) := by
      intro hmem
      rcases List.mem_map.mp hmem with ⟨entry, hentry, rfl⟩
      have honce := h.shown entry hentry
      have hsome := List.count_pos_iff.mpr hmem
      change (p.computed.map (·.2)).count entry.2 < p.columns.count entry.2 at hcount
      omega
    rw [hc]
    exact congrArg Except.ok (hcomputed.kept name hkept).symm

/-- The columns of a group show the values of the select items on it. -/
theorem KeepsApart.values (h : p.KeepsApart clock) {ctx : Context} {select : Select}
    (hp : p.IsOf ctx select) {qs : List Scalar}
    (hqs : (select.items.mapM fun item => ctx.qualify item.expr) = .ok qs)
    (hholds : p.Holds clock group row) {row' : Row}
    (hcomputed : Step.Computed clock p.computed row row') :
    qs.mapM (groupValueOf clock p.keys group) = .ok (p.columns.map row'.get) := by
  rcases hp.exists_qualified with ⟨qs', hqs', hshown⟩
  cases hqs.symm.trans hqs'
  rw [Outcome.mapM_eq_ok, List.forall₂_map_right_iff]
  refine forall₂_of_common hp.shownAs.2 (Outcome.forall₂_and_mem hshown)
    fun shown column q _ hcolumn hq => ?_
  rcases hq with ⟨hexpr, hq⟩
  rcases Outcome.exists_of_forall₂ (Outcome.mapM_eq_ok.mp hqs) hq with ⟨item, hitem, hqualified⟩
  have hcovers : p.outputs.Covers (p.Agrees clock) q := by
    refine h.covered item ?_ q ?_
    · rw [hp.statement]
      exact hitem
    · rw [hp.context]
      exact hqualified
  refine hholds.supplies.scalarWith_eq q hcovers _ ?_
  rw [<- hexpr]
  refine h.scalar_of_shownAs hcomputed hcolumn fun c hc => ?_
  rw [hexpr] at hc
  exact Substitution.scalar_eq_column hcovers hc

end GroupPlan

end Plan
end RecordSql
