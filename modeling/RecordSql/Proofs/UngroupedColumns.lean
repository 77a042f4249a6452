import RecordSql.Proofs.GroupColumns
import RecordSql.Proofs.GroupPlans

/-!
# Columns that are not grouped by

What a statement shows, filters or sorts by after grouping may read a column only inside of an
aggregate or of a group key.  Whether it does is decided by names: what is left after the
replacement of keys and aggregates must be named like an output.  That is right as long as no output
is named like a column that is no key, and no text of a key or an aggregate is that of something
else.
-/

namespace RecordSql
namespace Plan

open Sql (Column OrderKey Predicate Scalar Select SelectItem Substitution)

/-!
# Columns outside of groups
-/

/-- The qualified expressions that a statement groups by. -/
def groupKeys (ctx : Context) (select : Select) : List Scalar :=
  select.groupBy.filterMap fun e => (ctx.qualify e).toOption

/-- The expression is an aggregate, or the same as a key once it is qualified. -/
def isGrouped (ctx : Context) (keys : List Scalar) (e : Scalar) : Bool :=
  e.isAggregate || (ctx.qualify e).toOption.any fun q => keys.any (·.same q)

section

variable (grouped : Scalar -> Bool)

mutual

/-- The columns of an expression that are not inside of a part that is grouped. -/
def loose : Scalar -> List Column
  | .column c => if grouped (.column c) then [] else [c]
  | .call name distinct args =>
      if grouped (.call name distinct args) then [] else looseOfAll args
  | .binary l op r => if grouped (.binary l op r) then [] else loose l ++ loose r
  | .negate e => if grouped (.negate e) then [] else loose e
  | .collate e collation => if grouped (.collate e collation) then [] else loose e
  | .searchedCase whens otherwise =>
      if grouped (.searchedCase whens otherwise) then []
      else looseOfBranches whens ++ looseOfOption otherwise
  | .simpleCase input whens otherwise =>
      if grouped (.simpleCase input whens otherwise) then []
      else loose input ++ looseOfPairs whens ++ looseOfOption otherwise
  | .literal _ => []
  | .star => []
  | .starOf _ => []

def looseOfPredicate : Predicate -> List Column
  | .and items => looseOfPredicates items
  | .or items => looseOfPredicates items
  | .not p => looseOfPredicate p
  | .compare l _ r => loose l ++ loose r
  | .isNull e _ => loose e
  | .inList e items _ => loose e ++ looseOfAll items
  | .like e pattern _ => loose e ++ loose pattern
  | .contains c wanted => (if grouped (.column c) then [] else [c]) ++ loose wanted
  | .const _ => []

def looseOfAll : List Scalar -> List Column
  | [] => []
  | e :: rest => loose e ++ looseOfAll rest

def looseOfPredicates : List Predicate -> List Column
  | [] => []
  | p :: rest => looseOfPredicate p ++ looseOfPredicates rest

def looseOfBranches : List (Predicate × Scalar) -> List Column
  | [] => []
  | (p, e) :: rest => looseOfPredicate p ++ loose e ++ looseOfBranches rest

def looseOfPairs : List (Scalar × Scalar) -> List Column
  | [] => []
  | (w, e) :: rest => loose w ++ loose e ++ looseOfPairs rest

def looseOfOption : Option Scalar -> List Column
  | none => []
  | some e => loose e

end

end

/-!
# What is left after the replacement
-/

/--
The columns of a list are parts of an expression that are not grouped, and those of them that are
bound are still parts of what the expression becomes.
-/
def Left (ctx : Context) (grouped : Scalar -> Bool) (columns : List Column)
    (before after : List Scalar) : Prop :=
  forall c, c ∈ columns -> Scalar.column c ∈ before ∧ grouped (.column c) = false ∧
    forall b, ctx.resolve c = .ok (some b) -> Scalar.column (ctx.scopes.qualified b) ∈ after

/-- Aggregates are grouped, and only what is grouped is replaced. -/
structure ReplacesGrouped (ctx : Context) (grouped : Scalar -> Bool) (s : Substitution)
    (parts : List Scalar) : Prop where
  aggregates : forall e : Scalar, e.isAggregate = true -> grouped e = true
  replaced : forall e, e ∈ parts -> forall q, ctx.qualify e = .ok q -> s.column? q ≠ none ->
    grouped e = true

variable {ctx : Context} {grouped : Scalar -> Bool} {s : Substitution}

theorem left_nil (before after : List Scalar) : Left ctx grouped [] before after := by
  intro c hc
  cases hc

theorem Left.mono {columns : List Column} {before after before' after' : List Scalar}
    (h : Left ctx grouped columns before after) (hbefore : before ⊆ before')
    (hafter : after ⊆ after') : Left ctx grouped columns before' after' :=
  fun c hc => ⟨hbefore (h c hc).1, (h c hc).2.1, fun b hb => hafter ((h c hc).2.2 b hb)⟩

theorem Left.cons {columns : List Column} {before after : List Scalar}
    (h : Left ctx grouped columns before after) (e q : Scalar) :
    Left ctx grouped columns (e :: before) (q :: after) :=
  h.mono (List.subset_cons_self _ _) (List.subset_cons_self _ _)

theorem Left.append {front back : List Column} {before after before' after' : List Scalar}
    (hfront : Left ctx grouped front before after) (hback : Left ctx grouped back before' after') :
    Left ctx grouped (front ++ back) (before ++ before') (after ++ after') := by
  intro c hc
  rcases List.mem_append.mp hc with hc | hc
  · exact hfront.mono (List.subset_append_left _ _) (List.subset_append_left _ _) c hc
  · exact hback.mono (List.subset_append_right _ _) (List.subset_append_right _ _) c hc

theorem ReplacesGrouped.mono {parts parts' : List Scalar}
    (h : ReplacesGrouped ctx grouped s parts) (hsubset : parts' ⊆ parts) :
    ReplacesGrouped ctx grouped s parts' :=
  ⟨h.aggregates, fun e he => h.replaced e (hsubset he)⟩

theorem ReplacesGrouped.front {parts parts' : List Scalar}
    (h : ReplacesGrouped ctx grouped s (parts ++ parts')) : ReplacesGrouped ctx grouped s parts :=
  h.mono (List.subset_append_left _ _)

theorem ReplacesGrouped.back {parts parts' : List Scalar}
    (h : ReplacesGrouped ctx grouped s (parts ++ parts')) : ReplacesGrouped ctx grouped s parts' :=
  h.mono (List.subset_append_right _ _)

theorem ReplacesGrouped.tail {e : Scalar} {parts : List Scalar}
    (h : ReplacesGrouped ctx grouped s (e :: parts)) : ReplacesGrouped ctx grouped s parts :=
  h.mono (List.subset_cons_self _ _)

/-- An expression that is not grouped is not replaced, and leaves what its parts leave. -/
theorem left_node {e q otherwise : Scalar} {parts : List Scalar} {inner : List Column}
    (h : ReplacesGrouped ctx grouped s (e :: parts)) (hq : ctx.qualify e = .ok q)
    (hinner : grouped e = false -> Left ctx grouped inner (e :: parts) otherwise.parts) :
    Left ctx grouped (if grouped e then [] else inner) (e :: parts)
      (s.columnOr q otherwise).parts := by
  by_cases hgrouped : grouped e = true
  · rw [if_pos hgrouped]
    exact left_nil _ _
  · rw [if_neg hgrouped]
    have hnone : s.column? q = none := by
      by_contra hsome
      exact hgrouped (h.replaced e List.mem_cons_self q hq hsome)
    rw [Substitution.columnOr, hnone]
    exact hinner (Bool.not_eq_true _ ▸ hgrouped)

mutual

theorem left_scalar : forall (e : Scalar) {q : Scalar}, ctx.qualify e = .ok q ->
    ReplacesGrouped ctx grouped s e.parts ->
      Left ctx grouped (loose grouped e) e.parts (s.scalar q).parts
  | .column c, q, hq, h => by
      rw [loose]
      cases Context.qualify_eq_ok.mp hq with
      | text hfound =>
          split
          · exact left_nil _ _
          · rename_i hplain
            intro c' hc'
            cases List.mem_singleton.mp hc'
            refine ⟨List.mem_singleton_self _, Bool.not_eq_true _ ▸ hplain, fun b hb => ?_⟩
            cases hfound.symm.trans hb
      | column hfound =>
          rw [Substitution.scalar]
          refine left_node h hq fun hplain c' hc' => ?_
          cases List.mem_singleton.mp hc'
          refine ⟨List.mem_singleton_self _, hplain, fun b' hb' => ?_⟩
          cases hfound.symm.trans hb'
          exact List.mem_singleton_self _
  | .call name distinct args, q, hq, h => by
      rw [loose]
      cases Context.qualify_eq_ok.mp hq with
      | count hcount =>
          have haggregate : (Scalar.call name distinct args).isAggregate = true := by
            rw [Scalar.isAggregate, Text.lowerAscii, eq_of_beq (GroupPlan.rowCount_cases hcount).2]
            decide
          rw [if_pos (h.aggregates _ haggregate)]
          exact left_nil _ _
      | call _ hargs =>
          rw [Substitution.scalar]
          exact left_node h hq fun _ => (left_all args hargs h.tail).cons _ _
  | .binary l op r, q, hq, h => by
      cases Context.qualify_eq_ok.mp hq with
      | binary hl hr =>
          rw [loose, Substitution.scalar]
          refine left_node h hq fun _ => Left.cons ?_ _ _
          exact (left_scalar l hl h.tail.front).append (left_scalar r hr h.tail.back)
  | .negate e, q, hq, h => by
      cases Context.qualify_eq_ok.mp hq with
      | negate he =>
          rw [loose, Substitution.scalar]
          exact left_node h hq fun _ => (left_scalar e he h.tail).cons _ _
  | .collate e collation, q, hq, h => by
      cases Context.qualify_eq_ok.mp hq with
      | collate he =>
          rw [loose, Substitution.scalar]
          exact left_node h hq fun _ => (left_scalar e he h.tail).cons _ _
  | .searchedCase whens otherwise, q, hq, h => by
      cases Context.qualify_eq_ok.mp hq with
      | searchedCase hwhens hotherwise =>
          rw [loose, Substitution.scalar]
          refine left_node h hq fun _ => Left.cons ?_ _ _
          exact (left_branches whens hwhens h.tail.front).append
            (left_option otherwise hotherwise h.tail.back)
  | .simpleCase input whens otherwise, q, hq, h => by
      cases Context.qualify_eq_ok.mp hq with
      | simpleCase hinput hwhens hotherwise =>
          rw [loose, Substitution.scalar]
          refine left_node h hq fun _ => Left.cons ?_ _ _
          exact ((left_scalar input hinput h.tail.front.front).append
            (left_pairs whens hwhens h.tail.front.back)).append
              (left_option otherwise hotherwise h.tail.back)
  | .literal _, _, _, _ => left_nil _ _
  | .star, _, _, _ => left_nil _ _
  | .starOf _, _, _, _ => left_nil _ _
termination_by structural x => x

theorem left_predicate : forall (p : Predicate) {q : Predicate}, ctx.qualifyPredicate p = .ok q ->
    ReplacesGrouped ctx grouped s p.parts ->
      Left ctx grouped (looseOfPredicate grouped p) p.parts (s.predicate q).parts
  | .and items, q, hq, h => by
      cases Context.qualifyPredicate_eq_ok.mp hq with
      | and hitems =>
          exact left_predicates items hitems h
  | .or items, q, hq, h => by
      cases Context.qualifyPredicate_eq_ok.mp hq with
      | or hitems =>
          exact left_predicates items hitems h
  | .not p, q, hq, h => by
      cases Context.qualifyPredicate_eq_ok.mp hq with
      | not hp =>
          have hinner := left_predicate p hp h
          exact hinner
  | .compare l op r, q, hq, h => by
      cases Context.qualifyPredicate_eq_ok.mp hq with
      | compare hl hr =>
          exact (left_scalar l hl h.front).append (left_scalar r hr h.back)
  | .isNull e negated, q, hq, h => by
      cases Context.qualifyPredicate_eq_ok.mp hq with
      | isNull he =>
          exact left_scalar e he h
  | .inList e items negated, q, hq, h => by
      cases Context.qualifyPredicate_eq_ok.mp hq with
      | inList he hitems =>
          exact (left_scalar e he h.front).append (left_all items hitems h.back)
  | .like e pattern negated, q, hq, h => by
      cases Context.qualifyPredicate_eq_ok.mp hq with
      | like he hpattern =>
          exact (left_scalar e he h.front).append (left_scalar pattern hpattern h.back)
  | .contains c wanted, q, hq, h => by
      cases Context.qualifyPredicate_eq_ok.mp hq with
      | @contains _ b _ _ hfound hwanted =>
          -- The column itself is never replaced.
          have hcolumn : Left ctx grouped (if grouped (.column c) then [] else [c]) [.column c]
              [.column (ctx.scopes.qualified b)] := by
            split
            · exact left_nil _ _
            · rename_i hplain
              intro c' hc'
              cases List.mem_singleton.mp hc'
              refine ⟨List.mem_singleton_self _, Bool.not_eq_true _ ▸ hplain, fun b' hb' => ?_⟩
              cases hfound.symm.trans hb'
              exact List.mem_singleton_self _
          exact hcolumn.append (left_scalar wanted hwanted h.tail)
  | .const _, _, _, _ => left_nil _ _
termination_by structural x => x

theorem left_all : forall (items : List Scalar) {qs : List Scalar}, ctx.qualifyList items = .ok qs ->
    ReplacesGrouped ctx grouped s (Sql.partsOfAll items) ->
      Left ctx grouped (looseOfAll grouped items) (Sql.partsOfAll items)
          (Sql.partsOfAll (s.scalars qs))
  | [], _, _, _ => left_nil _ _
  | e :: rest, _, hq, h => by
      cases Context.qualifyList_eq_ok.mp hq with
      | cons he hrest =>
          exact (left_scalar e he h.front).append
            (left_all rest (Context.qualifyList_eq_ok.mpr hrest) h.back)
termination_by structural x => x

theorem left_predicates : forall (items : List Predicate) {qs : List Predicate},
    ctx.qualifyPredicates items = .ok qs ->
      ReplacesGrouped ctx grouped s (Sql.partsOfPredicates items) ->
        Left ctx grouped (looseOfPredicates grouped items) (Sql.partsOfPredicates items)
          (Sql.partsOfPredicates (s.predicates qs))
  | [], _, _, _ => left_nil _ _
  | p :: rest, _, hq, h => by
      cases Context.qualifyPredicates_eq_ok.mp hq with
      | cons hp hrest =>
          exact (left_predicate p hp h.front).append
            (left_predicates rest (Context.qualifyPredicates_eq_ok.mpr hrest) h.back)
termination_by structural x => x

theorem left_branches : forall (whens : List (Predicate × Scalar)) {qs : List (Predicate × Scalar)},
    ctx.qualifyBranches whens = .ok qs ->
      ReplacesGrouped ctx grouped s (Sql.partsOfBranches whens) ->
        Left ctx grouped (looseOfBranches grouped whens) (Sql.partsOfBranches whens)
          (Sql.partsOfBranches (s.branches qs))
  | [], _, _, _ => left_nil _ _
  | (p, e) :: rest, _, hq, h => by
      rcases Context.qualifyBranches_cons hq with ⟨p', e', qs, hp, he, hrest, rfl⟩
      exact ((left_predicate p hp h.front.front).append (left_scalar e he h.front.back)).append
        (left_branches rest hrest h.back)
termination_by structural x => x

theorem left_pairs : forall (whens : List (Scalar × Scalar)) {qs : List (Scalar × Scalar)},
    ctx.qualifyPairs whens = .ok qs ->
      ReplacesGrouped ctx grouped s (Sql.partsOfPairs whens) ->
        Left ctx grouped (looseOfPairs grouped whens) (Sql.partsOfPairs whens)
          (Sql.partsOfPairs (s.pairs qs))
  | [], _, _, _ => left_nil _ _
  | (w, e) :: rest, _, hq, h => by
      rcases Context.qualifyPairs_cons hq with ⟨w', e', qs, hw, he, hrest, rfl⟩
      exact ((left_scalar w hw h.front.front).append (left_scalar e he h.front.back)).append
        (left_pairs rest hrest h.back)
termination_by structural x => x

theorem left_option : forall (e : Option Scalar) {q : Option Scalar}, ctx.qualifyOption e = .ok q ->
    ReplacesGrouped ctx grouped s (Sql.partsOfOption e) ->
      Left ctx grouped (looseOfOption grouped e) (Sql.partsOfOption e)
          (Sql.partsOfOption (s.otherwise q))
  | none, _, _, _ => left_nil _ _
  | some e, _, hq, h => by
      rcases Context.qualifyOption_some hq with ⟨q, he, rfl⟩
      exact left_scalar e he h
termination_by structural x => x

end

/-!
# Aggregate queries
-/

namespace GroupPlan

/-- The names of the columns that hold the keys and the aggregates. -/
def outputNames (p : GroupPlan) : List String :=
  p.groups.map (·.output) ++ p.aggregates.map (·.output)

/-- The expression is a column named like an output. -/
def isNamedAsOutput (p : GroupPlan) (e : Scalar) : Bool :=
  e.column?.any fun c => c.collection.isNone && p.outputNames.any (Text.sameName · c.name)

/-- The expression has the text of a key or of an aggregate. -/
def isWrittenAsKey (p : GroupPlan) (e : Scalar) : Bool :=
  (p.keys ++ p.aggregates.map (·.key)).any (·.text == e.text)

/-- The plan takes the expression for a key, an aggregate or an output, but it is none of them. -/
def mistakes (p : GroupPlan) (grouped : Scalar -> Bool) (e : Scalar) : Bool :=
  !grouped e && (p.ctx.qualify e).toOption.any fun q => p.isNamedAsOutput q || p.isWrittenAsKey q

end GroupPlan

/-- What both plans are made from was checked to read outputs only. -/
theorem groupPlan_checked {select : Select} {p : GroupPlan} (h : groupPlan ctx select = .ok p) :
    exists orderBy : List OrderKey,
      (select.orderBy.mapM fun key => do
        let e <- orderExpr select.items key.expr
        return (⟨e, key.descending⟩ : OrderKey)) = .ok orderBy ∧
      groupedParts ctx select orderBy p.outputs = .ok p.grouped ∧
      checkGrouped p.grouped p.outputNames = .ok () := by
  rw [groupPlan] at h
  split at h
  · cases h
  · simp only [Outcome.bind_eq_ok] at h
    rcases h with ⟨orderBy, horderBy, _, _, _, _, grouped, hgrouped, _, hchecked, h⟩
    cases h
    exact ⟨orderBy, horderBy, hgrouped, hchecked⟩

theorem checkGrouped_ok {g : Grouped} {outputs : List String} (h : checkGrouped g outputs = .ok ())
    {c : Column} (hc : c ∈ g.columns) :
    (c.collection.isNone && outputs.any (Text.sameName · c.name)) = true := by
  unfold checkGrouped at h
  simp only at h
  split at h
  · cases h
  · rename_i hnone
    have houtput := List.find?_eq_none.mp hnone c hc
    rw [Bool.not_eq_true, Bool.not_eq_false'] at houtput
    exact houtput

/-- The columns that are left are outputs, so they are grouped unless they are mistaken. -/
theorem Left.unbound {p : GroupPlan} {columns : List Column} {before after : List Scalar}
    (h : Left p.ctx grouped columns before after)
    (hchecked : checkGrouped p.grouped p.outputNames = .ok ())
    (hafter : after.filterMap Scalar.column? ⊆ p.grouped.columns)
    (hright : forall e, e ∈ before -> p.mistakes grouped e = false) :
    forall c, c ∈ columns -> p.ctx.bound? c = none := by
  intro c hc
  rcases h c hc with ⟨hpart, hplain, hleft⟩
  cases hbound : p.ctx.bound? c with
  | none =>
      rfl
  | some b =>
      have hresolved := bound?_eq_some_iff.mp hbound
      have houtput := checkGrouped_ok hchecked (hafter
        (List.mem_filterMap.mpr ⟨_, hleft b hresolved, rfl⟩))
      have hmistaken := hright _ hpart
      have hqualified := Context.qualify_eq_ok.mpr (.column hresolved)
      rw [GroupPlan.mistakes, hplain, hqualified] at hmistaken
      have hnamed : p.isNamedAsOutput (.column (p.ctx.scopes.qualified b)) = true := houtput
      simp only [Except.toOption, Option.any_some, hnamed, Bool.true_or, Bool.and_true,
        Bool.not_false] at hmistaken
      cases hmistaken

/-- What the plan replaces has the text of a key or an aggregate. -/
theorem replacesGrouped_outputs {p : GroupPlan} {parts : List Scalar}
    (haggregates : forall e : Scalar, e.isAggregate = true -> grouped e = true)
    (hright : forall e, e ∈ parts -> p.mistakes grouped e = false) :
    ReplacesGrouped p.ctx grouped p.outputs parts where
  aggregates := haggregates
  replaced := by
    intro e he q hq hreplaced
    have hmistaken := hright e he
    rcases Option.ne_none_iff_exists'.mp hreplaced with ⟨name, hname⟩
    have hwritten : p.isWrittenAsKey q = true := by
      rw [GroupPlan.isWrittenAsKey, List.any_eq_true]
      rcases GroupPlan.column?_outputs hname with ⟨a, ha, htext, _⟩ | ⟨g, hg, htext, _⟩
      · exact ⟨a.key, List.mem_append_right _ (List.mem_map_of_mem ha), beq_iff_eq.mpr htext⟩
      · exact ⟨g.expr, List.mem_append_left _ (List.mem_map_of_mem hg), beq_iff_eq.mpr htext⟩
    rw [GroupPlan.mistakes, hq] at hmistaken
    simpa [Except.toOption, hwritten] using hmistaken

theorem isGrouped_of_isAggregate (keys : List Scalar) {e : Scalar} (h : e.isAggregate = true) :
    isGrouped ctx keys e = true := by
  rw [isGrouped, h, Bool.true_or]

/-- Each member of a list has its place in the list of the results. -/
theorem exists_of_mapM_ok {α β ε : Type} {f : α -> Except ε β} {l : List α} {m : List β}
    (h : l.mapM f = .ok m) {a : α} (ha : a ∈ l) : exists b, b ∈ m ∧ f a = .ok b :=
  Outcome.exists_of_forall₂ (@List.Forall₂.flip _ _ (fun b a => f a = .ok b) m l
    (Outcome.mapM_eq_ok.mp h)) ha

section

variable {select : Select} {p : GroupPlan} (h : groupPlan ctx select = .ok p)
  (haggregates : forall e : Scalar, e.isAggregate = true -> grouped e = true)
include h haggregates

theorem unbound_of_loose {e q : Scalar} (hq : ctx.qualify e = .ok q)
    (hshown : (p.outputs.scalar q).columns ⊆ p.grouped.columns)
    (hright : forall x, x ∈ e.parts -> p.mistakes grouped x = false) :
    forall c, c ∈ loose grouped e -> ctx.bound? c = none := by
  rcases groupPlan_checked h with ⟨_, _, _, hchecked⟩
  have hcontext := (GroupPlan.isOf_groupPlan h).context
  subst hcontext
  exact (left_scalar e hq (replacesGrouped_outputs haggregates hright)).unbound hchecked hshown
    hright

theorem unbound_of_loose_having {condition : Predicate} (hhaving : select.having = some condition)
    (hright : forall x, x ∈ condition.parts -> p.mistakes grouped x = false) :
    forall c, c ∈ looseOfPredicate grouped condition -> ctx.bound? c = none := by
  rcases groupPlan_checked h with ⟨orderBy, _, hparts, hchecked⟩
  have hcontext := (GroupPlan.isOf_groupPlan h).context
  subst hcontext
  simp only [groupedParts, hhaving, Outcome.bind_eq_ok] at hparts
  rcases hparts with ⟨items, _, having, hbecomes, keys, _, hgrouped⟩
  rw [Option.mapM_some] at hbecomes
  rcases Outcome.bind_eq_ok.mp hbecomes with ⟨q, hq, hsome⟩
  cases hsome
  refine (left_predicate condition hq (replacesGrouped_outputs haggregates hright)).unbound
    hchecked ?_ hright
  rw [<- Except.ok.inj hgrouped]
  exact List.subset_append_of_subset_left _ (List.subset_append_right _ _)

theorem unbound_of_loose_item {item : SelectItem} (hitem : item ∈ select.items)
    (hright : forall x, x ∈ item.expr.parts -> p.mistakes grouped x = false) :
    forall c, c ∈ loose grouped item.expr -> ctx.bound? c = none := by
  rcases groupPlan_checked h with ⟨orderBy, _, hparts, hchecked⟩
  simp only [groupedParts, Outcome.bind_eq_ok] at hparts
  rcases hparts with ⟨items, hitems, _, _, _, _, hgrouped⟩
  rcases exists_of_mapM_ok hitems hitem with ⟨shown, hshown, hbecomes⟩
  rcases Outcome.bind_eq_ok.mp hbecomes with ⟨q, hq, hexpr⟩
  cases hexpr
  refine unbound_of_loose h haggregates hq ?_ hright
  rw [<- Except.ok.inj hgrouped]
  intro c hc
  exact List.mem_append_left _ (List.mem_append_left _ (List.mem_flatMap.mpr ⟨_, hshown, hc⟩))

theorem unbound_of_loose_key {key : OrderKey} (hkey : key ∈ select.orderBy) {e : Scalar}
    (he : orderExpr select.items key.expr = .ok e)
    (hright : forall x, x ∈ e.parts -> p.mistakes grouped x = false) :
    forall c, c ∈ loose grouped e -> ctx.bound? c = none := by
  rcases groupPlan_checked h with ⟨orderBy, horderBy, hparts, hchecked⟩
  simp only [groupedParts, Outcome.bind_eq_ok] at hparts
  rcases hparts with ⟨_, _, _, _, keys, hkeys, hgrouped⟩
  rcases exists_of_mapM_ok horderBy hkey with ⟨meant, hmeant, hexpr⟩
  rw [he] at hexpr
  cases hexpr
  rcases exists_of_mapM_ok hkeys hmeant with ⟨shown, hshown, hbecomes⟩
  rcases Outcome.bind_eq_ok.mp hbecomes with ⟨q, hq, hexpr⟩
  cases hexpr
  refine unbound_of_loose h haggregates hq ?_ hright
  rw [<- Except.ok.inj hgrouped]
  intro c hc
  exact List.mem_append_right _ (List.mem_flatMap.mpr ⟨_, hshown, hc⟩)

end

/--
Whatever an aggregate query shows, filters or sorts by reads a column only inside of an aggregate or
of a part that is the same as a group key, or else the query has no plan: as long as nothing is
taken for a key, an aggregate or an output that is none.  What is not bound is no column but a text
in quotes.
-/
theorem ungrouped_columns_rejected {select : Select} {residual : Residual} {task : Task}
    (h : aggregateTask ctx select residual = .ok task) :
    exists p, groupPlan ctx select = .ok p ∧
      (forall item, item ∈ select.items ->
        (forall x, x ∈ item.expr.parts ->
          p.mistakes (isGrouped ctx (groupKeys ctx select)) x = false) ->
        forall c, c ∈ loose (isGrouped ctx (groupKeys ctx select)) item.expr ->
          ctx.bound? c = none) ∧
      (forall condition, select.having = some condition ->
        (forall x, x ∈ condition.parts ->
          p.mistakes (isGrouped ctx (groupKeys ctx select)) x = false) ->
        forall c, c ∈ looseOfPredicate (isGrouped ctx (groupKeys ctx select)) condition ->
          ctx.bound? c = none) ∧
      forall key, key ∈ select.orderBy -> exists e, orderExpr select.items key.expr = .ok e ∧
        ((forall x, x ∈ e.parts -> p.mistakes (isGrouped ctx (groupKeys ctx select)) x = false) ->
          forall c, c ∈ loose (isGrouped ctx (groupKeys ctx select)) e -> ctx.bound? c = none) := by
  rcases Outcome.bind_eq_ok.mp h with ⟨p, hp, _⟩
  have haggregates : forall e : Scalar, e.isAggregate = true ->
      isGrouped ctx (groupKeys ctx select) e = true := fun e => isGrouped_of_isAggregate _
  refine ⟨p, hp, ?_, ?_, ?_⟩
  · intro item hitem
    exact unbound_of_loose_item hp haggregates hitem
  · intro condition hhaving
    exact unbound_of_loose_having hp haggregates hhaving
  · intro key hkey
    rcases groupPlan_checked hp with ⟨orderBy, horderBy, _⟩
    rcases exists_of_mapM_ok horderBy hkey with ⟨_, _, hexpr⟩
    rcases Outcome.bind_eq_ok.mp hexpr with ⟨e, he, _⟩
    exact ⟨e, he, unbound_of_loose_key hp haggregates hkey he⟩

/-- `SELECT region + '!' AS loud FROM sale GROUP BY region HAVING COUNT(*) > 1 ORDER BY loud` -/
def loudSelect : Select where
  distinct := false
  top := none
  items := [⟨.binary (.column (.ofName "region")) .add (.literal (.str "!")), some "loud"⟩]
  sources := [⟨⟨"sale", none, false⟩, []⟩]
  criteria := none
  groupBy := [.column (.ofName "region")]
  having := some (.compare (.call "COUNT" false [.star]) .gt (.literal (.int 1)))
  orderBy := [⟨.column (.ofName "loud"), false⟩]
  offset := none

theorem loud_columns_grouped :
    exists p task, aggregateTask saleContext loudSelect ⟨none, []⟩ = .ok task ∧
      groupPlan saleContext loudSelect = .ok p ∧
      (forall item, item ∈ loudSelect.items -> forall c,
        c ∈ loose (isGrouped saleContext (groupKeys saleContext loudSelect)) item.expr ->
          saleContext.bound? c = none) ∧
      forall condition, loudSelect.having = some condition -> forall c,
        c ∈ looseOfPredicate (isGrouped saleContext (groupKeys saleContext loudSelect)) condition ->
          saleContext.bound? c = none := by
  have htask : exists task p, aggregateTask saleContext loudSelect ⟨none, []⟩ = .ok task ∧
      groupPlan saleContext loudSelect = .ok p ∧
      (loudSelect.items.all fun item => item.expr.parts.all fun x =>
        !p.mistakes (isGrouped saleContext (groupKeys saleContext loudSelect)) x) = true ∧
      (loudSelect.having.all fun condition => condition.parts.all fun x =>
        !p.mistakes (isGrouped saleContext (groupKeys saleContext loudSelect)) x) = true :=
    ⟨_, _, rfl, rfl, by decide +kernel, by decide +kernel⟩
  rcases htask with ⟨task, p, htask, hp, hitems, hhaving⟩
  rcases ungrouped_columns_rejected htask with ⟨p', hp', hitem, hcondition, _⟩
  cases hp.symm.trans hp'
  refine ⟨p, task, htask, hp, fun item hmem => hitem item hmem fun x hx => ?_,
    fun condition hsome => hcondition condition hsome fun x hx => ?_⟩
  · rw [<- Bool.not_eq_true']
    exact List.all_eq_true.mp (List.all_eq_true.mp hitems item hmem) x hx
  · rw [hsome] at hhaving
    rw [<- Bool.not_eq_true']
    exact List.all_eq_true.mp hhaving x hx

end Plan
end RecordSql
