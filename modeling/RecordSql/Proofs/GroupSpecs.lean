import Mathlib.Data.List.Nodup
import Mathlib.Data.List.Pairwise
import Mathlib.Data.List.Perm.Subperm
import RecordSql.Plan.Groups
import RecordSql.Proofs.Binding
import RecordSql.Proofs.DocumentText
import RecordSql.Proofs.Qualification

/-!
# Outputs of an aggregate query

Every group key and every aggregate has an output of its own: the alias of a select item, or else a
name that is not in use.  As long as the aliases of a statement differ, so do the outputs.
-/

namespace RecordSql

/-!
# Free names
-/

theorem Text.lowerAscii_append (a b : String) :
    lowerAscii (a ++ b) = lowerAscii a ++ lowerAscii b := by
  simp [lowerAscii]

theorem Text.toLower_of_isDigit {c : Char} (h : c.isDigit = true) : c.toLower = c := by
  simp only [Char.isDigit, Bool.and_eq_true, decide_eq_true_eq] at h
  unfold Char.toLower
  rw [dif_neg]
  intro hupper
  have hle := UInt32.le_trans hupper.1 h.2
  exact absurd hle (by decide)

theorem Text.lowerAscii_intText (i : Int) : lowerAscii (Number.intText i) = Number.intText i := by
  have hall : forall c, c ∈ (Number.intText i).toList -> c.toLower = c := by
    intro c hc
    rcases Number.mem_intText hc with rfl | hdigit
    · rfl
    · exact toLower_of_isDigit hdigit
  rw [lowerAscii, List.map_congr_left hall, List.map_id', String.ofList_toList]

namespace Plan

namespace OutputNames

theorem numbered_inj {base : String} {i j : Nat} (hi : 1 ≤ i) (hj : 1 ≤ j)
    (h : Text.lowerAscii (numbered base i) = Text.lowerAscii (numbered base j)) : i = j := by
  have hlonger : forall n : Nat, Text.lowerAscii base ≠
      Text.lowerAscii (base ++ "_" ++ Number.intText n) := by
    intro n heq
    have hlength := congrArg String.length heq
    simp only [Text.lowerAscii_append, String.length_append] at hlength
    have hmark : (Text.lowerAscii "_").length = 1 := by decide
    omega
  unfold numbered at h
  by_cases hi' : i ≤ 1
  · by_cases hj' : j ≤ 1
    · omega
    · rw [if_pos hi', if_neg hj'] at h
      exact absurd h (hlonger j)
  · by_cases hj' : j ≤ 1
    · rw [if_neg hi', if_pos hj'] at h
      exact absurd h.symm (hlonger i)
    · rw [if_neg hi', if_neg hj'] at h
      simp only [Text.lowerAscii_append, Text.lowerAscii_intText, String.append_right_inj] at h
      exact Int.ofNat_inj.mp (Number.intText_inj h)

/-- One of the numbered names is free, since there are more of them than names in use. -/
theorem isFree_allocate (names : OutputNames) (base : String) :
    names.isFree (names.allocate base).1 = true := by
  unfold allocate
  simp only
  cases hfind : ((List.range (names.taken.length + 1)).map fun i =>
      numbered base (i + 1)).find? names.isFree with
  | some name =>
      exact List.find?_some hfind
  | none =>
      have hnone := List.find?_eq_none.mp hfind
      have hnodup : ((List.range (names.taken.length + 1)).map fun i =>
          Text.lowerAscii (numbered base (i + 1))).Nodup := by
        refine List.Nodup.map_on ?_ List.nodup_range
        intro i _ j _ h
        have hij := numbered_inj (Nat.le_add_left 1 i) (Nat.le_add_left 1 j) h
        omega
      have hsubset : ((List.range (names.taken.length + 1)).map fun i =>
          Text.lowerAscii (numbered base (i + 1))) ⊆ names.taken := by
        intro name hname
        rcases List.mem_map.mp hname with ⟨i, hi, rfl⟩
        have htaken := hnone _ (List.mem_map_of_mem hi)
        simpa [isFree] using htaken
      have hlength := (List.subperm_of_subset hnodup hsubset).length_le
      rw [List.length_map, List.length_range] at hlength
      omega

theorem isFree_iff {names : OutputNames} {name : String} :
    names.isFree name = true <-> Text.lowerAscii name ∉ names.taken := by
  simp [isFree]

end OutputNames

open Sql (Column OrderKey Predicate Scalar Select SelectItem)

/-!
# Where outputs come from
-/

/-- The names that a statement gives its select items. -/
def aliasesOf (items : List SelectItem) : List String :=
  items.filterMap (·.aliasName)

/-- Aliases differ, without regard to case. -/
def DistinctAliases (items : List SelectItem) : Prop :=
  (aliasesOf items).Pairwise fun a b => Text.sameName a b = false

theorem DistinctAliases.item_eq {items : List SelectItem} (h : DistinctAliases items)
    {item other : SelectItem} (hitem : item ∈ items) (hother : other ∈ items) {name : String}
    (hname : item.aliasName = some name) (hname' : other.aliasName = some name) : item = other := by
  unfold DistinctAliases aliasesOf at h
  rw [List.pairwise_filterMap] at h
  by_contra hne
  have hsymm : Std.Symm fun a b : SelectItem => forall x, a.aliasName = some x ->
      forall y, b.aliasName = some y -> Text.sameName x y = false := by
    constructor
    intro a b hab x hx y hy
    rw [Text.sameName_comm]
    exact hab y hy x hx
  have hdiffer := h.forall hitem hother hne name hname name hname'
  rw [Text.sameName_refl] at hdiffer
  cases hdiffer

/-- An output is the alias of a matching select item, or a name that is no alias. -/
inductive Origin (items : List SelectItem) (meant : SelectItem -> Prop) (output : String) :
    Prop where
  | named {item : SelectItem} (hitem : item ∈ items) (hname : item.aliasName = some output)
      (hmeant : meant item) : Origin items meant output
  | fresh (h : forall name, name ∈ aliasesOf items ->
      Text.lowerAscii name ≠ Text.lowerAscii output) : Origin items meant output

/-- Outputs are the same only if one select item is meant by both. -/
theorem Origin.meant_of_eq {items : List SelectItem} (hdistinct : DistinctAliases items)
    {meant meant' : SelectItem -> Prop} {output : String} (h : Origin items meant output)
    {item : SelectItem} (hitem : item ∈ items) (hname : item.aliasName = some output)
    (hmeant : meant' item) : meant item ∧ meant' item := by
  cases h with
  | named hother hname' hmeant' =>
      rw [hdistinct.item_eq hitem hother hname hname']
      rw [hdistinct.item_eq hitem hother hname hname'] at hmeant
      exact ⟨hmeant', hmeant⟩
  | fresh h =>
      exact absurd rfl (h output (List.mem_filterMap.mpr ⟨item, hitem, hname⟩))

/-- The names in use while outputs are chosen. -/
structure InUse (items : List SelectItem) (names : OutputNames) (outputs : List String) :
    Prop where
  aliases : forall name, name ∈ aliasesOf items -> Text.lowerAscii name ∈ names.taken
  outputs : forall name, name ∈ outputs -> Text.lowerAscii name ∈ names.taken

theorem InUse.alias {items : List SelectItem} {names : OutputNames} {outputs : List String}
    (h : InUse items names outputs) {item : SelectItem} (hitem : item ∈ items) {output : String}
    (hname : item.aliasName = some output) : InUse items names (outputs ++ [output]) := by
  refine ⟨h.aliases, ?_⟩
  intro name hmem
  rcases List.mem_append.mp hmem with hmem | hmem
  · exact h.outputs name hmem
  · rw [List.mem_singleton.mp hmem]
    exact h.aliases _ (List.mem_filterMap.mpr ⟨item, hitem, hname⟩)

theorem InUse.allocate {items : List SelectItem} {names : OutputNames} {outputs : List String}
    (h : InUse items names outputs) (base : String) :
    InUse items (names.allocate base).2 (outputs ++ [(names.allocate base).1]) ∧
      (names.allocate base).1 ∉ outputs ∧
      forall meant, Origin items meant (names.allocate base).1 := by
  have hfree := OutputNames.isFree_iff.mp (names.isFree_allocate base)
  have htaken : (names.allocate base).2.taken =
      Text.lowerAscii (names.allocate base).1 :: names.taken := rfl
  refine ⟨⟨?_, ?_⟩, ?_, ?_⟩
  · intro name hname
    rw [htaken]
    exact List.mem_cons_of_mem _ (h.aliases name hname)
  · intro name hname
    rw [htaken]
    rcases List.mem_append.mp hname with hname | hname
    · exact List.mem_cons_of_mem _ (h.outputs name hname)
    · rw [List.mem_singleton.mp hname]
      exact List.mem_cons_self
  · intro hmem
    exact hfree (h.outputs _ hmem)
  · intro meant
    refine .fresh ?_
    intro name hname heq
    rw [<- heq] at hfree
    exact hfree (h.aliases name hname)

/-!
# Group keys
-/

/-- The select item is written like a group key. -/
def Projects (ctx : Context) (qualified : Scalar) (item : SelectItem) : Prop :=
  exists e, ctx.qualify item.expr = .ok e ∧ e.same qualified = true

theorem projectedAlias_eq {ctx : Context} {qualified : Scalar} {items : List SelectItem}
    {output : String} (h : projectedAlias ctx qualified items = .ok (some output)) :
    exists item, item ∈ items ∧ item.aliasName = some output ∧ Projects ctx qualified item := by
  induction items with
  | nil =>
      cases h
  | cons item rest ih =>
      rw [projectedAlias] at h
      cases hname : item.aliasName with
      | none =>
          rw [hname] at h
          rcases ih h with ⟨found, hfound, hmeant⟩
          exact ⟨found, List.mem_cons_of_mem _ hfound, hmeant⟩
      | some aliasName =>
          rw [hname] at h
          simp only [Outcome.bind_eq_ok] at h
          rcases h with ⟨e, he, h⟩
          split at h
          · rename_i hsame
            cases h
            exact ⟨item, List.mem_cons_self, hname, e, he, hsame⟩
          · rcases ih h with ⟨found, hfound, hmeant⟩
            exact ⟨found, List.mem_cons_of_mem _ hfound, hmeant⟩

/-- A group key is left out if it is one of those before it, or else has an output of its own. -/
theorem groupSpecs_cons {ctx : Context} {items : List SelectItem} {names : OutputNames}
    {found : List GroupSpec} {e : Scalar} {rest : List Scalar}
    {result : List GroupSpec × OutputNames}
    (h : groupSpecs ctx items names found (e :: rest) = .ok result) :
    groupSpecs ctx items names found rest = .ok result ∨
    exists qualified output names', ctx.qualify e = .ok qualified ∧
      found.any (·.expr.same qualified) = false ∧
      ((exists item, item ∈ items ∧ item.aliasName = some output ∧ Projects ctx qualified item ∧
          names' = names) ∨
        (output, names') = names.allocate (baseName (ctx.plainColumn? e))) ∧
      groupSpecs ctx items names'
        (found ++ [⟨qualified, ctx.plainColumn? e, ctx.used e, output⟩]) rest = .ok result := by
  rw [groupSpecs] at h
  rcases Outcome.bind_eq_ok.mp h with ⟨qualified, hqualified, h⟩
  split at h
  · exact Or.inl h
  · rename_i hnew
    refine Or.inr ?_
    rcases Outcome.bind_eq_ok.mp h with ⟨aliasName, halias, h⟩
    cases aliasName with
    | some output =>
        rcases projectedAlias_eq halias with ⟨item, hitem, hname, hmeant⟩
        exact ⟨qualified, output, names, hqualified, by simpa using hnew,
          Or.inl ⟨item, hitem, hname, hmeant, rfl⟩, h⟩
    | none =>
        exact ⟨qualified, _, _, hqualified, by simpa using hnew, Or.inr rfl, h⟩

theorem groupSpecs_subset {ctx : Context} {items : List SelectItem} {names : OutputNames}
    {found : List GroupSpec} {exprs : List Scalar} {result : List GroupSpec × OutputNames}
    (h : groupSpecs ctx items names found exprs = .ok result) : found ⊆ result.1 := by
  induction exprs generalizing names found with
  | nil =>
      cases h
      exact List.Subset.refl _
  | cons e rest ih =>
      rcases groupSpecs_cons h with h | ⟨_, _, _, _, _, _, h⟩
      · exact ih h
      · exact List.Subset.trans (List.subset_append_left _ _) (ih h)

theorem same_column_iff {e : Scalar} {c : Column} :
    e.same (.column c) = true <-> e = .column c := by
  cases e <;> simp [Scalar.same]

/-- What a plain column is bound to, and how it is read from a row. -/
theorem plainColumn?_eq_some {ctx : Context} {e : Scalar} {b : Bound}
    (h : ctx.plainColumn? e = some b) :
    exists c, e = .column c ∧ ctx.resolve c = .ok (some b) := by
  cases e with
  | column c =>
      refine ⟨c, rfl, ?_⟩
      rw [Context.plainColumn?, Context.bound?] at h
      cases hresolve : ctx.resolve c with
      | error e =>
          rw [hresolve] at h
          cases h
      | ok found =>
          rw [hresolve] at h
          cases h
          rfl
  | _ =>
      cases h

theorem qualify_plainColumn {ctx : Context} {e : Scalar} {b : Bound}
    (h : ctx.plainColumn? e = some b) : ctx.qualify e = .ok (.column (ctx.scopes.qualified b)) := by
  rcases plainColumn?_eq_some h with ⟨c, rfl, hresolve⟩
  exact Context.qualify_eq_ok.mpr (.column hresolve)

theorem used_plainColumn {ctx : Context} {e : Scalar} {b : Bound}
    (h : ctx.plainColumn? e = some b) : ctx.used e = [b] := by
  rcases plainColumn?_eq_some h with ⟨c, rfl, hresolve⟩
  have hbound : ctx.bound? c = some b := h
  simp [Context.used, Context.use, reads, hbound, addBound]

theorem scope_lt_of_plainColumn {ctx : Context} {e : Scalar} {b : Bound}
    (h : ctx.plainColumn? e = some b) : b.scope < ctx.scopes.length := by
  rcases plainColumn?_eq_some h with ⟨c, _, hresolve⟩
  exact Scopes.resolve_lt (Context.resolve_eq hresolve)

/-- A group key as it stands in the statement. -/
def GroupSpec.IsOf (g : GroupSpec) (ctx : Context) (exprs : List Scalar) : Prop :=
  exists e, e ∈ exprs ∧ ctx.qualify e = .ok g.expr ∧ g.column = ctx.plainColumn? e ∧
    g.used = ctx.used e

theorem GroupSpec.IsOf.expr_eq {g : GroupSpec} {ctx : Context} {exprs : List Scalar}
    (h : g.IsOf ctx exprs) {b : Bound} (hb : g.column = some b) :
    g.expr = .column (ctx.scopes.qualified b) := by
  rcases h with ⟨e, _, hqualified, hcolumn, _⟩
  rw [hcolumn] at hb
  rw [qualify_plainColumn hb] at hqualified
  exact (Except.ok.inj hqualified).symm

/-- The group keys that have been found, with different outputs. -/
structure GroupsFound (ctx : Context) (items : List SelectItem) (exprs : List Scalar)
    (names : OutputNames) (found : List GroupSpec) : Prop where
  inUse : InUse items names (found.map (·.output))
  distinct : (found.map (·.output)).Nodup
  each : forall g, g ∈ found -> g.IsOf ctx exprs
  origin : forall g, g ∈ found -> Origin items (Projects ctx g.expr) g.output

theorem GroupsFound.snoc {ctx : Context} {items : List SelectItem} {exprs : List Scalar}
    {names names' : OutputNames} {found : List GroupSpec} (h : GroupsFound ctx items exprs names found)
    {g : GroupSpec} (hnew : g.output ∉ found.map (·.output)) (hg : g.IsOf ctx exprs)
    (horigin : Origin items (Projects ctx g.expr) g.output)
    (hinUse : InUse items names' (found.map (·.output) ++ [g.output])) :
    GroupsFound ctx items exprs names' (found ++ [g]) := by
  refine ⟨?_, ?_, ?_, ?_⟩
  · rw [List.map_append]
    exact hinUse
  · rw [List.map_append, List.nodup_append]
    refine ⟨h.distinct, List.nodup_singleton _, ?_⟩
    intro a ha b hb
    rw [List.mem_singleton.mp hb]
    rintro rfl
    exact hnew ha
  · intro g' hg'
    rcases List.mem_append.mp hg' with hg' | hg'
    · exact h.each g' hg'
    · rw [List.mem_singleton.mp hg']
      exact hg
  · intro g' hg'
    rcases List.mem_append.mp hg' with hg' | hg'
    · exact h.origin g' hg'
    · rw [List.mem_singleton.mp hg']
      exact horigin

/-- An alias is no output yet if none of the group keys is the column that it stands for. -/
theorem GroupsFound.not_mem_of_alias {ctx : Context} {items : List SelectItem}
    {exprs : List Scalar} {names : OutputNames} {found : List GroupSpec}
    (h : GroupsFound ctx items exprs names found) (hdistinct : DistinctAliases items)
    (hnative : forall g, g ∈ found -> g.column.isSome = true) {c : Column}
    (hnone : found.any (·.expr.same (.column c)) = false) {item : SelectItem}
    (hitem : item ∈ items) {output : String} (hname : item.aliasName = some output)
    (hmeant : Projects ctx (.column c) item) : output ∉ found.map (·.output) := by
  intro hmem
  rcases List.mem_map.mp hmem with ⟨g, hg, rfl⟩
  rcases Option.isSome_iff_exists.mp (hnative g hg) with ⟨b, hb⟩
  have hexpr := (h.each g hg).expr_eq hb
  rcases (h.origin g hg).meant_of_eq hdistinct hitem hname hmeant with
    ⟨⟨e, he, hsame⟩, e', he', hsame'⟩
  rw [he] at he'
  cases he'
  rw [hexpr, same_column_iff] at hsame
  rw [same_column_iff, hsame] at hsame'
  have hany : found.any (·.expr.same (.column c)) = true := by
    refine List.any_eq_true.mpr ⟨g, hg, ?_⟩
    rw [hexpr]
    exact same_column_iff.mpr hsame'
  rw [hnone] at hany
  cases hany

theorem groupSpecs_found {ctx : Context} {items : List SelectItem} (hdistinct : DistinctAliases items)
    {all exprs : List Scalar} (hexprs : exprs ⊆ all) {names : OutputNames} {found : List GroupSpec}
    {result : List GroupSpec × OutputNames}
    (h : groupSpecs ctx items names found exprs = .ok result)
    (hnative : forall g, g ∈ result.1 -> g.column.isSome = true)
    (hfound : GroupsFound ctx items all names found) :
    GroupsFound ctx items all result.2 result.1 := by
  induction exprs generalizing names found with
  | nil =>
      cases h
      exact hfound
  | cons e rest ih =>
      have hrest : rest ⊆ all := fun a ha => hexprs (List.mem_cons_of_mem _ ha)
      rcases groupSpecs_cons h with hnext |
        ⟨qualified, output, names', hqualified, hnone, hchosen, hnext⟩
      · exact ih hrest hnext hfound
      · refine ih hrest hnext ?_
        have hspec : (⟨qualified, ctx.plainColumn? e, ctx.used e, output⟩ : GroupSpec).IsOf ctx all :=
          ⟨e, hexprs List.mem_cons_self, hqualified, rfl, rfl⟩
        rcases hchosen with ⟨item, hitem, hname, hmeant, rfl⟩ | hallocate
        · refine hfound.snoc ?_ hspec (.named hitem hname hmeant) (hfound.inUse.alias hitem hname)
          have hsubset := groupSpecs_subset hnext
          rcases Option.isSome_iff_exists.mp (hnative _ (hsubset (List.mem_append_right _
            (List.mem_singleton_self _)))) with ⟨b, hb⟩
          have hexpr : qualified = .column (ctx.scopes.qualified b) := hspec.expr_eq hb
          rw [hexpr] at hnone hmeant
          exact hfound.not_mem_of_alias hdistinct
            (fun g hg => hnative g (hsubset (List.mem_append_left _ hg))) hnone hitem hname hmeant
        · have hboth := hfound.inUse.allocate (baseName (ctx.plainColumn? e))
          rw [<- hallocate] at hboth
          rcases hboth with ⟨hinUse, hnew, horigin⟩
          exact hfound.snoc hnew hspec (horigin _) hinUse

/-!
# Aggregates
-/

/-- The aggregate is the one that a call stands for. -/
structure AggregateSpec.IsOf (a : AggregateSpec) (ctx : Context) (name : String) (distinct : Bool)
    (args : List Scalar) : Prop where
  key : ctx.qualify (.call name distinct args) = .ok a.key
  function : a.function = Text.lowerAscii name
  known : Sql.aggregateNames.contains a.function = true
  argument : exists base,
    argumentOf ctx (.call name distinct args) a.function args = .ok ⟨a.arg, a.column, base⟩
  used : a.used = ctx.used (.call name distinct args)
  distinct : a.distinct = distinct

/-- An aggregate with a column counts rows, or summarises an attribute. -/
theorem AggregateSpec.IsOf.cases {a : AggregateSpec} {ctx : Context} {name : String}
    {distinct : Bool} {args : List Scalar} (h : a.IsOf ctx name distinct args) {b : Bound}
    (hb : a.column = some b) :
    ((Scalar.call name distinct args).isRowCount = true ∧ a.arg = none ∧ b = primaryId ctx) ∨
    exists arg, args = [arg] ∧ ctx.plainColumn? arg = some b ∧
      a.arg = some (.column (ctx.scopes.qualified b)) := by
  rcases h.argument with ⟨base, hargument⟩
  unfold argumentOf at hargument
  split at hargument
  · rename_i hrows
    simp only [Except.ok.injEq, Argument.mk.injEq] at hargument
    rcases hargument with ⟨harg, hcolumn, _⟩
    rw [hb] at hcolumn
    exact Or.inl ⟨hrows, harg.symm, (Option.some.inj hcolumn).symm⟩
  · split at hargument
    · split at hargument
      · cases hargument
      · rcases Outcome.bind_eq_ok.mp hargument with ⟨qualified, hqualified, hargument⟩
        simp only [Outcome.pure_eq, Except.ok.injEq, Argument.mk.injEq] at hargument
        rcases hargument with ⟨harg, hcolumn, _⟩
        rw [hb] at hcolumn
        rw [qualify_plainColumn hcolumn] at hqualified
        cases hqualified
        exact Or.inr ⟨_, rfl, hcolumn, harg.symm⟩
    · cases hargument

theorem same_star_iff {e : Scalar} : e.same .star = true <-> e = .star := by
  cases e <;> simp [Scalar.same]

theorem same_int_iff {e : Scalar} {i : Int} :
    e.same (.literal (.int i)) = true <-> e = .literal (.int i) := by
  cases e with
  | literal l =>
      cases l <;> simp [Scalar.same, Sql.Literal.same]
  | _ =>
      simp [Scalar.same]

/-- A call of one argument is written like no other, if its argument is. -/
theorem same_call_one {e arg : Scalar} {name : String} {distinct : Bool}
    (harg : forall e, e.same arg = true -> e = arg)
    (h : e.same (.call name distinct [arg]) = true) : e = .call name distinct [arg] := by
  cases e with
  | call f d args =>
      match args with
      | [] =>
          simp [Scalar.same, Sql.sameAll] at h
      | [first] =>
          simp only [Scalar.same, Sql.sameAll, Bool.and_true, Bool.and_eq_true, beq_iff_eq] at h
          rw [h.1.1, h.1.2, harg first h.2]
      | _ :: _ :: _ =>
          simp [Scalar.same, Sql.sameAll] at h
  | _ =>
      simp [Scalar.same] at h

/-- The call of an aggregate with a column is written like no other. -/
theorem AggregateSpec.IsOf.eq_of_same {a : AggregateSpec} {ctx : Context} {name : String}
    {distinct : Bool} {args : List Scalar} (h : a.IsOf ctx name distinct args)
    (hcolumn : a.column.isSome = true) {e : Scalar}
    (hsame : e.same (.call name distinct args) = true) : e = .call name distinct args := by
  rcases Option.isSome_iff_exists.mp hcolumn with ⟨b, hb⟩
  rcases h.cases hb with ⟨hrows, _⟩ | ⟨arg, rfl, hplain, _⟩
  · unfold Scalar.isRowCount at hrows
    split at hrows
    · rename_i heq
      cases heq
      exact same_call_one (fun _ => same_star_iff.mp) hsame
    · rename_i heq
      cases heq
      exact same_call_one (fun _ => same_int_iff.mp) hsame
    · cases hrows
  · rcases plainColumn?_eq_some hplain with ⟨c, rfl, _⟩
    exact same_call_one (fun _ => same_column_iff.mp) hsame

theorem qualify_call {ctx : Context} {name : String} {distinct : Bool} {args : List Scalar}
    {e : Scalar} (h : ctx.qualify (.call name distinct args) = .ok e) :
    exists args', e = .call name distinct args' := by
  cases Context.qualify_eq_ok.mp h <;> exact ⟨_, rfl⟩

/-- The select item is the call of an aggregate. -/
def Calls (ctx : Context) (a : AggregateSpec) (item : SelectItem) : Prop :=
  exists name distinct args, a.IsOf ctx name distinct args ∧
    item.expr.same (.call name distinct args) = true

theorem Calls.key_eq {ctx : Context} {a : AggregateSpec} {item : SelectItem}
    (h : Calls ctx a item) (hcolumn : a.column.isSome = true) :
    (exists name distinct args, item.expr = .call name distinct args) ∧
      ctx.qualify item.expr = .ok a.key := by
  rcases h with ⟨name, distinct, args, hof, hsame⟩
  rw [hof.eq_of_same hcolumn hsame]
  exact ⟨⟨name, distinct, args, rfl⟩, hof.key⟩

/-- A select item is not both a group column and an aggregate. -/
theorem Projects.not_calls {ctx : Context} {c : Column} {item : SelectItem}
    (h : Projects ctx (.column c) item) {a : AggregateSpec} (hcolumn : a.column.isSome = true) :
    Not (Calls ctx a item) := by
  intro hcalls
  rcases hcalls.key_eq hcolumn with ⟨⟨name, distinct, args, hexpr⟩, _⟩
  rcases h with ⟨e, he, hsame⟩
  rw [hexpr] at he
  rcases qualify_call he with ⟨args', rfl⟩
  rw [same_column_iff] at hsame
  cases hsame

/-- The aggregates that have been found, with outputs that differ from each other's and groups'. -/
structure AggregatesFound (ctx : Context) (items : List SelectItem) (groups : List GroupSpec)
    (names : OutputNames) (found : List AggregateSpec) : Prop where
  inUse : InUse items names (groups.map (·.output) ++ found.map (·.output))
  distinct : (groups.map (·.output) ++ found.map (·.output)).Nodup
  each : forall a, a ∈ found -> exists name distinct args, a.IsOf ctx name distinct args
  origin : forall a, a ∈ found -> Origin items (Calls ctx a) a.output

theorem AggregatesFound.snoc {ctx : Context} {items : List SelectItem} {groups : List GroupSpec}
    {names names' : OutputNames} {found : List AggregateSpec}
    (h : AggregatesFound ctx items groups names found) {a : AggregateSpec}
    (hnew : a.output ∉ groups.map (·.output) ++ found.map (·.output))
    (ha : exists name distinct args, a.IsOf ctx name distinct args)
    (horigin : Origin items (Calls ctx a) a.output)
    (hinUse : InUse items names'
      (groups.map (·.output) ++ found.map (·.output) ++ [a.output])) :
    AggregatesFound ctx items groups names' (found ++ [a]) := by
  have houtputs : groups.map (·.output) ++ (found ++ [a]).map (·.output) =
      groups.map (·.output) ++ found.map (·.output) ++ [a.output] := by
    rw [List.map_append, List.append_assoc]
    rfl
  refine ⟨?_, ?_, ?_, ?_⟩
  · rw [houtputs]
    exact hinUse
  · rw [houtputs, List.nodup_append]
    refine ⟨h.distinct, List.nodup_singleton _, ?_⟩
    intro name hname other hother
    rw [List.mem_singleton.mp hother]
    rintro rfl
    exact hnew hname
  · intro a' ha'
    rcases List.mem_append.mp ha' with ha' | ha'
    · exact h.each a' ha'
    · rw [List.mem_singleton.mp ha']
      exact ha
  · intro a' ha'
    rcases List.mem_append.mp ha' with ha' | ha'
    · exact h.origin a' ha'
    · rw [List.mem_singleton.mp ha']
      exact horigin

theorem aliasOf?_eq {items : List SelectItem} {call : Scalar} {output : String}
    (h : aliasOf? items call = some output) :
    exists item, item ∈ items ∧ item.aliasName = some output ∧ item.expr.same call = true := by
  rcases List.exists_of_findSome?_eq_some h with ⟨item, hitem, hname⟩
  split at hname
  · rename_i hsame
    exact ⟨item, hitem, hname, hsame⟩
  · cases hname

/-- An aggregate is left out if its call is written like one before, or has an output of its own. -/
theorem aggregateSpecs_cons {ctx : Context} {items : List SelectItem} {names : OutputNames}
    {found result : List AggregateSpec} {call : Scalar} {rest : List Scalar}
    (hcall : call.isAggregate = true)
    (h : aggregateSpecs ctx items names found (call :: rest) = .ok result) :
    aggregateSpecs ctx items names found rest = .ok result ∨
    exists a names', found.any (·.key.text == a.key.text) = false ∧
      (exists name distinct args, call = .call name distinct args ∧
        a.IsOf ctx name distinct args) ∧
      ((exists item, item ∈ items ∧ item.aliasName = some a.output ∧ item.expr.same call = true ∧
          names' = names) ∨ exists base, (a.output, names') = names.allocate base) ∧
      aggregateSpecs ctx items names' (found ++ [a]) rest = .ok result := by
  cases call with
  | call name distinct args =>
      rw [aggregateSpecs] at h
      rcases Outcome.bind_eq_ok.mp h with ⟨key, hkey, h⟩
      split at h
      · exact Or.inl h
      · rename_i hnew
        rcases Outcome.bind_eq_ok.mp h with ⟨argument, hargument, h⟩
        refine Or.inr ?_
        have hof : forall output, AggregateSpec.IsOf ⟨Text.lowerAscii name, argument.arg,
            argument.column, ctx.used (.call name distinct args), distinct, output, key⟩ ctx name
            distinct args :=
          fun output => ⟨hkey, rfl, hcall, ⟨argument.base, hargument⟩, rfl, rfl⟩
        cases halias : aliasOf? items (.call name distinct args) with
        | some output =>
            rw [halias] at h
            rcases aliasOf?_eq halias with ⟨item, hitem, hname, hsame⟩
            exact ⟨_, names, by simpa using hnew, ⟨name, distinct, args, rfl, hof output⟩,
              Or.inl ⟨item, hitem, hname, hsame, rfl⟩, h⟩
        | none =>
            rw [halias] at h
            exact ⟨_, _, by simpa using hnew, ⟨name, distinct, args, rfl, hof _⟩,
              Or.inr ⟨argument.base, rfl⟩, h⟩
  | _ =>
      cases hcall

theorem aggregateSpecs_subset {ctx : Context} {items : List SelectItem} {names : OutputNames}
    {found result : List AggregateSpec} {calls : List Scalar}
    (hcalls : forall call, call ∈ calls -> call.isAggregate = true)
    (h : aggregateSpecs ctx items names found calls = .ok result) : found ⊆ result := by
  induction calls generalizing names found with
  | nil =>
      cases h
      exact List.Subset.refl _
  | cons call rest ih =>
      have hrest := fun c hc => hcalls c (List.mem_cons_of_mem _ hc)
      rcases aggregateSpecs_cons (hcalls call List.mem_cons_self) h with
        hnext | ⟨_, _, _, _, _, hnext⟩
      · exact ih hrest hnext
      · exact List.Subset.trans (List.subset_append_left _ _) (ih hrest hnext)

/-- An alias is no output yet if none of the aggregates is the one that it stands for. -/
theorem AggregatesFound.not_mem_of_alias {ctx : Context} {items : List SelectItem}
    {groups : List GroupSpec} {exprs : List Scalar} {names names' : OutputNames}
    {found : List AggregateSpec} (h : AggregatesFound ctx items groups names found)
    (hgroups : GroupsFound ctx items exprs names' groups) (hdistinct : DistinctAliases items)
    (hnativeGroups : forall g, g ∈ groups -> g.column.isSome = true)
    (hnative : forall a, a ∈ found -> a.column.isSome = true) {a : AggregateSpec}
    (hcolumn : a.column.isSome = true) (hnone : found.any (·.key.text == a.key.text) = false)
    {item : SelectItem} (hitem : item ∈ items) (hname : item.aliasName = some a.output)
    (hmeant : Calls ctx a item) : a.output ∉ groups.map (·.output) ++ found.map (·.output) := by
  intro hmem
  rcases List.mem_append.mp hmem with hmem | hmem
  · rcases List.mem_map.mp hmem with ⟨g, hg, houtput⟩
    rcases Option.isSome_iff_exists.mp (hnativeGroups g hg) with ⟨b, hb⟩
    rw [<- houtput] at hname
    have hboth := (hgroups.origin g hg).meant_of_eq hdistinct hitem hname hmeant
    rw [(hgroups.each g hg).expr_eq hb] at hboth
    exact hboth.1.not_calls hcolumn hboth.2
  · rcases List.mem_map.mp hmem with ⟨other, hother, houtput⟩
    rw [<- houtput] at hname
    rcases (h.origin other hother).meant_of_eq hdistinct hitem hname hmeant with ⟨hcalls, _⟩
    have hkey := (hcalls.key_eq (hnative other hother)).2
    rw [(hmeant.key_eq hcolumn).2] at hkey
    have hany : found.any (·.key.text == a.key.text) = true := by
      refine List.any_eq_true.mpr ⟨other, hother, ?_⟩
      rw [Except.ok.inj hkey]
      exact beq_self_eq_true _
    rw [hnone] at hany
    cases hany

theorem aggregateSpecs_found {ctx : Context} {items : List SelectItem}
    (hdistinct : DistinctAliases items) {groups : List GroupSpec} {exprs : List Scalar}
    {names names' : OutputNames} (hgroups : GroupsFound ctx items exprs names' groups)
    (hnativeGroups : forall g, g ∈ groups -> g.column.isSome = true)
    {found result : List AggregateSpec} {calls : List Scalar}
    (hcalls : forall call, call ∈ calls -> call.isAggregate = true)
    (h : aggregateSpecs ctx items names found calls = .ok result)
    (hnative : forall a, a ∈ result -> a.column.isSome = true)
    (hfound : AggregatesFound ctx items groups names found) :
    exists names, AggregatesFound ctx items groups names result := by
  induction calls generalizing names found with
  | nil =>
      cases h
      exact ⟨names, hfound⟩
  | cons call rest ih =>
      have hrest := fun c hc => hcalls c (List.mem_cons_of_mem _ hc)
      rcases aggregateSpecs_cons (hcalls call List.mem_cons_self) h with hnext |
        ⟨a, names', hnone, ⟨name, distinct, args, rfl, hof⟩, hchosen, hnext⟩
      · exact ih hrest hnext hfound
      · refine ih hrest hnext ?_
        have hsubset := aggregateSpecs_subset hrest hnext
        have hcolumn := hnative a (hsubset (List.mem_append_right _ (List.mem_singleton_self a)))
        rcases hchosen with ⟨item, hitem, hname, hsame, rfl⟩ | ⟨base, hallocate⟩
        · have hmeant : Calls ctx a item := ⟨name, distinct, args, hof, hsame⟩
          refine hfound.snoc ?_ ⟨name, distinct, args, hof⟩ (.named hitem hname hmeant)
            (hfound.inUse.alias hitem hname)
          exact hfound.not_mem_of_alias hgroups hdistinct hnativeGroups
            (fun b hb => hnative b (hsubset (List.mem_append_left _ hb))) hcolumn hnone hitem hname
            hmeant
        · have hboth := hfound.inUse.allocate base
          rw [<- hallocate] at hboth
          rcases hboth with ⟨hinUse, hnew, horigin⟩
          exact hfound.snoc hnew ⟨name, distinct, args, hof⟩ (horigin _) hinUse

/-!
# The plan of the groups
-/

/-- What is known of the groups and aggregates of a plan that can be native. -/
structure GroupPlan.Specified (p : GroupPlan) (ctx : Context) (select : Select) : Prop where
  context : p.ctx = ctx
  statement : p.select = select
  groups : forall g, g ∈ p.groups -> exists b, g.column = some b ∧
    g.expr = .column (ctx.scopes.qualified b) ∧ g.used = [b] ∧
    exists e, e ∈ select.groupBy ∧ ctx.plainColumn? e = some b
  aggregates : forall a, a ∈ p.aggregates -> exists b name distinct args,
    a.IsOf ctx name distinct args ∧ a.column = some b
  distinct : (p.groups.map (·.output) ++ p.aggregates.map (·.output)).Nodup

theorem mem_foldl_reserve {names : OutputNames} {reserved : List String} {name : String} :
    name ∈ (reserved.foldl OutputNames.reserve names).taken <->
      name ∈ names.taken ∨ name ∈ reserved.map Text.lowerAscii := by
  induction reserved generalizing names with
  | nil =>
      simp
  | cons first rest ih =>
      rw [List.foldl_cons, ih, OutputNames.reserve, List.map_cons, List.mem_cons, List.mem_cons,
        or_assoc, or_left_comm]

theorem groupPlan_specified {ctx : Context} {select : Select} {p : GroupPlan}
    (hdistinct : DistinctAliases select.items) (h : groupPlan ctx select = .ok p)
    (hnative : p.isNative = true) : p.Specified ctx select := by
  rw [groupPlan] at h
  split at h
  · cases h
  · rcases Outcome.bind_eq_ok.mp h with ⟨orderBy, _, h⟩
    rcases Outcome.bind_eq_ok.mp h with ⟨⟨groups, names⟩, hgroups, h⟩
    rcases Outcome.bind_eq_ok.mp h with ⟨aggregates, haggregates, h⟩
    rcases Outcome.bind_eq_ok.mp h with ⟨grouped, _, h⟩
    rcases Outcome.bind_eq_ok.mp h with ⟨_, _, h⟩
    cases h
    rw [GroupPlan.isNative, Bool.and_eq_true, List.all_eq_true, List.all_eq_true] at hnative
    rcases hnative with ⟨hnativeGroups, hnativeAggregates⟩
    have hstart : GroupsFound ctx select.items select.groupBy
        ((select.items.filterMap (·.aliasName)).foldl OutputNames.reserve ⟨[]⟩) [] := by
      refine ⟨⟨?_, ?_⟩, List.nodup_nil, ?_, ?_⟩
      · intro name hname
        exact mem_foldl_reserve.mpr (Or.inr (List.mem_map_of_mem hname))
      · intro name hname
        cases hname
      · intro g hg
        cases hg
      · intro g hg
        cases hg
    have hfound := groupSpecs_found hdistinct (List.Subset.refl _) hgroups hnativeGroups hstart
    have hbegin : AggregatesFound ctx select.items groups names [] := by
      refine ⟨?_, ?_, ?_, ?_⟩
      · simpa using hfound.inUse
      · simpa using hfound.distinct
      · intro a ha
        cases ha
      · intro a ha
        cases ha
    have hcalls : forall call, call ∈ aggregateCalls select orderBy -> call.isAggregate = true :=
      fun call hcall => (List.mem_filter.mp hcall).2
    rcases aggregateSpecs_found hdistinct hfound hnativeGroups hcalls haggregates
      hnativeAggregates hbegin with ⟨names', hall⟩
    refine ⟨rfl, rfl, ?_, ?_, hall.distinct⟩
    · intro g hg
      rcases Option.isSome_iff_exists.mp (hnativeGroups g hg) with ⟨b, hb⟩
      have hof := hfound.each g hg
      refine ⟨b, hb, hof.expr_eq hb, ?_⟩
      rcases hof with ⟨e, he, _, hcolumn, hused⟩
      rw [hb] at hcolumn
      exact ⟨hused.trans (used_plainColumn hcolumn.symm), e, he, hcolumn.symm⟩
    · intro a ha
      rcases Option.isSome_iff_exists.mp (hnativeAggregates a ha) with ⟨b, hb⟩
      rcases hall.each a ha with ⟨name, distinct, args, hof⟩
      exact ⟨b, name, distinct, args, hof, hb⟩

end Plan
end RecordSql
