import RecordSql.Eval.Expr
import RecordSql.Plan.Qualify
import RecordSql.Proofs.Binding
import RecordSql.Proofs.Qualification

/-!
# What expressions read

How the columns of an expression are bound depends on the scopes and the options of its context
alone.  The columns of a qualified expression are bound columns of the expression, and its value on
a row depends on them alone.
-/

namespace RecordSql

open Sql (Column Predicate Scalar)

namespace Plan
namespace Context

/-- The contexts bind columns in the same way. -/
structure SameNames (ctx ctx' : Context) : Prop where
  options : ctx'.options = ctx.options
  scopes : ctx'.scopes = ctx.scopes

variable {ctx ctx' : Context}

theorem SameNames.resolve (h : SameNames ctx ctx') (c : Column) :
    ctx'.resolve c = ctx.resolve c := by
  unfold Context.resolve
  rw [h.options, h.scopes]

theorem SameNames.bound? (h : SameNames ctx ctx') : ctx'.bound? = ctx.bound? := by
  funext c
  unfold Context.bound?
  rw [h.resolve]

theorem SameNames.use (h : SameNames ctx ctx') (used : List Bound) (columns : List Column) :
    ctx'.use used columns = ctx.use used columns := by
  rw [Context.use, Context.use, h.bound?]

mutual

theorem SameNames.qualify (h : SameNames ctx ctx') :
    forall e : Scalar, ctx'.qualify e = ctx.qualify e
  | .column c => by
      rw [Context.qualify, Context.qualify, h.resolve, h.scopes]
  | .call name distinct args => by
      rw [Context.qualify, Context.qualify, h.qualifyList args]
  | .binary l op r => by
      rw [Context.qualify, Context.qualify, h.qualify l, h.qualify r]
  | .negate e => by
      rw [Context.qualify, Context.qualify, h.qualify e]
  | .collate e collation => by
      rw [Context.qualify, Context.qualify, h.qualify e]
  | .searchedCase whens otherwise => by
      rw [Context.qualify, Context.qualify, h.qualifyBranches whens,
        h.qualifyOption otherwise]
  | .simpleCase input whens otherwise => by
      rw [Context.qualify, Context.qualify, h.qualify input,
        h.qualifyPairs whens, h.qualifyOption otherwise]
  | .literal _ => by
      rw [Context.qualify, Context.qualify]
  | .star => by
      rw [Context.qualify, Context.qualify]
  | .starOf _ => by
      rw [Context.qualify, Context.qualify]

theorem SameNames.qualifyPredicate (h : SameNames ctx ctx') :
    forall p : Predicate, ctx'.qualifyPredicate p = ctx.qualifyPredicate p
  | .and items => by
      rw [Context.qualifyPredicate, Context.qualifyPredicate, h.qualifyPredicates items]
  | .or items => by
      rw [Context.qualifyPredicate, Context.qualifyPredicate, h.qualifyPredicates items]
  | .not p => by
      rw [Context.qualifyPredicate, Context.qualifyPredicate, h.qualifyPredicate p]
  | .compare l op r => by
      rw [Context.qualifyPredicate, Context.qualifyPredicate, h.qualify l,
        h.qualify r]
  | .isNull e negated => by
      rw [Context.qualifyPredicate, Context.qualifyPredicate, h.qualify e]
  | .inList e items negated => by
      rw [Context.qualifyPredicate, Context.qualifyPredicate, h.qualify e,
        h.qualifyList items]
  | .like e pattern negated => by
      rw [Context.qualifyPredicate, Context.qualifyPredicate, h.qualify e,
        h.qualify pattern]
  | .contains c wanted => by
      rw [Context.qualifyPredicate, Context.qualifyPredicate, h.qualify wanted, h.resolve,
        h.scopes]
  | .const _ => by
      rw [Context.qualifyPredicate, Context.qualifyPredicate]

theorem SameNames.qualifyList (h : SameNames ctx ctx') :
    forall items : List Scalar, ctx'.qualifyList items = ctx.qualifyList items
  | [] => by
      rw [Context.qualifyList, Context.qualifyList]
  | e :: rest => by
      rw [Context.qualifyList, Context.qualifyList, h.qualify e,
        h.qualifyList rest]

theorem SameNames.qualifyPredicates (h : SameNames ctx ctx') :
    forall items : List Predicate, ctx'.qualifyPredicates items = ctx.qualifyPredicates items
  | [] => by
      rw [Context.qualifyPredicates, Context.qualifyPredicates]
  | p :: rest => by
      rw [Context.qualifyPredicates, Context.qualifyPredicates, h.qualifyPredicate p,
        h.qualifyPredicates rest]

theorem SameNames.qualifyBranches (h : SameNames ctx ctx') :
    forall whens : List (Predicate × Scalar),
    ctx'.qualifyBranches whens = ctx.qualifyBranches whens
  | [] => by
      rw [Context.qualifyBranches, Context.qualifyBranches]
  | (p, e) :: rest => by
      rw [Context.qualifyBranches, Context.qualifyBranches, h.qualifyPredicate p,
        h.qualify e, h.qualifyBranches rest]

theorem SameNames.qualifyPairs (h : SameNames ctx ctx') :
    forall whens : List (Scalar × Scalar),
    ctx'.qualifyPairs whens = ctx.qualifyPairs whens
  | [] => by
      rw [Context.qualifyPairs, Context.qualifyPairs]
  | (w, e) :: rest => by
      rw [Context.qualifyPairs, Context.qualifyPairs, h.qualify w, h.qualify e,
        h.qualifyPairs rest]

theorem SameNames.qualifyOption (h : SameNames ctx ctx') :
    forall e : Option Scalar,
    ctx'.qualifyOption e = ctx.qualifyOption e
  | none => by
      rw [Context.qualifyOption, Context.qualifyOption]
  | some e => by
      rw [Context.qualifyOption, Context.qualifyOption, h.qualify e]

end

/-!
# Columns of qualified expressions
-/

/-- The column stands for one of the given columns, once it is bound. -/
def Stands (ctx : Context) (columns : List Column) (c : Column) : Prop :=
  exists c', c' ∈ columns ∧ exists b, ctx.resolve c' = .ok (some b) ∧ c = ctx.scopes.qualified b

theorem Stands.mono {columns columns' : List Column} {c : Column} (h : Stands ctx columns c)
    (hsubset : columns ⊆ columns') : Stands ctx columns' c := by
  rcases h with ⟨c', hc', hbound⟩
  exact ⟨c', hsubset hc', hbound⟩

/-- What is read by two parts stands for what is read by either. -/
theorem stands_append {front back front' back' : List Column}
    (hfront : forall c, c ∈ front' -> Stands ctx front c)
    (hback : forall c, c ∈ back' -> Stands ctx back c) :
    forall c, c ∈ front' ++ back' -> Stands ctx (front ++ back) c := by
  intro c hc
  rcases List.mem_append.mp hc with hc | hc
  · exact (hfront c hc).mono (List.subset_append_left _ _)
  · exact (hback c hc).mono (List.subset_append_right _ _)

/-- A call that counts rows reads no columns. -/
theorem reads_of_isRowCount {name : String} {distinct : Bool} {args : List Scalar}
    (h : (Scalar.call name distinct args).isRowCount = true) : readsOfList args = [] := by
  unfold Scalar.isRowCount at h
  split at h
  · rename_i heq
    cases heq
    rfl
  · rename_i heq
    cases heq
    rfl
  · cases h

mutual

theorem reads_qualify : forall (e : Scalar) {q : Scalar}, ctx.qualify e = .ok q ->
    forall c, c ∈ reads q -> Stands ctx (reads e) c
  | .column c => by
      intro h c' hc'
      cases qualify_eq_ok.mp h with
      | text _ =>
          cases hc'
      | column hfound =>
          cases List.mem_singleton.mp hc'
          exact ⟨c, List.mem_singleton_self c, _, hfound, rfl⟩
  | .call name distinct args => by
      intro h c hc
      cases qualify_eq_ok.mp h with
      | count hcount =>
          rw [reads, reads_of_isRowCount hcount] at hc
          cases hc
      | call _ hargs =>
          exact readsOfList_qualify args hargs c hc
  | .binary l op r => by
      intro h
      cases qualify_eq_ok.mp h with
      | binary hl hr =>
          exact stands_append (reads_qualify l hl) (reads_qualify r hr)
  | .negate e => by
      intro h c hc
      cases qualify_eq_ok.mp h with
      | negate he =>
          exact reads_qualify e he c hc
  | .collate e collation => by
      intro h c hc
      cases qualify_eq_ok.mp h with
      | collate he =>
          exact reads_qualify e he c hc
  | .searchedCase whens otherwise => by
      intro h
      cases qualify_eq_ok.mp h with
      | searchedCase hwhens hotherwise =>
          exact stands_append (readsOfBranches_qualify whens hwhens)
            (readsOfOption_qualify otherwise hotherwise)
  | .simpleCase input whens otherwise => by
      intro h
      cases qualify_eq_ok.mp h with
      | simpleCase hinput hwhens hotherwise =>
          exact stands_append (stands_append (reads_qualify input hinput)
            (readsOfPairs_qualify whens hwhens)) (readsOfOption_qualify otherwise hotherwise)
  | .literal l => by
      intro h c hc
      cases h
      cases hc
  | .star => by
      intro h
      cases h
  | .starOf _ => by
      intro h
      cases h
termination_by structural x => x

theorem readsOfPredicate_qualify : forall (p : Predicate) {q : Predicate},
    ctx.qualifyPredicate p = .ok q ->
      forall c, c ∈ readsOfPredicate q -> Stands ctx (readsOfPredicate p) c
  | .and items => by
      intro h
      cases qualifyPredicate_eq_ok.mp h with
      | and hitems =>
          exact readsOfPredicates_qualify items hitems
  | .or items => by
      intro h
      cases qualifyPredicate_eq_ok.mp h with
      | or hitems =>
          exact readsOfPredicates_qualify items hitems
  | .not p => by
      intro h c hc
      cases qualifyPredicate_eq_ok.mp h with
      | not hp =>
          exact readsOfPredicate_qualify p hp c hc
  | .compare l op r => by
      intro h
      cases qualifyPredicate_eq_ok.mp h with
      | compare hl hr =>
          exact stands_append (reads_qualify l hl) (reads_qualify r hr)
  | .isNull e negated => by
      intro h
      cases qualifyPredicate_eq_ok.mp h with
      | isNull he =>
          exact reads_qualify e he
  | .inList e items negated => by
      intro h
      cases qualifyPredicate_eq_ok.mp h with
      | inList he hitems =>
          exact stands_append (readsOfList_qualify items hitems) (reads_qualify e he)
  | .like e pattern negated => by
      intro h
      cases qualifyPredicate_eq_ok.mp h with
      | like he hpattern =>
          exact stands_append (reads_qualify e he) (reads_qualify pattern hpattern)
  | .contains c wanted => by
      intro h
      cases qualifyPredicate_eq_ok.mp h with
      | contains hfound hwanted =>
          intro c' hc'
          rcases List.mem_cons.mp hc' with rfl | hc'
          · exact ⟨c, List.mem_cons_self, _, hfound, rfl⟩
          · exact (reads_qualify wanted hwanted c' hc').mono (List.subset_cons_self _ _)
  | .const t => by
      intro h c hc
      cases h
      cases hc
termination_by structural x => x

theorem readsOfList_qualify : forall (items : List Scalar) {qs : List Scalar},
    ctx.qualifyList items = .ok qs ->
      forall c, c ∈ readsOfList qs -> Stands ctx (readsOfList items) c
  | [] => by
      intro h c hc
      cases h
      cases hc
  | e :: rest => by
      intro h
      cases qualifyList_eq_ok.mp h with
      | cons hq hrest =>
          exact stands_append (reads_qualify e hq)
            (readsOfList_qualify rest (qualifyList_eq_ok.mpr hrest))
termination_by structural x => x

theorem readsOfPredicates_qualify : forall (items : List Predicate) {qs : List Predicate},
    ctx.qualifyPredicates items = .ok qs ->
      forall c, c ∈ readsOfPredicates qs -> Stands ctx (readsOfPredicates items) c
  | [] => by
      intro h c hc
      cases h
      cases hc
  | p :: rest => by
      intro h
      cases qualifyPredicates_eq_ok.mp h with
      | cons hq hrest =>
          exact stands_append (readsOfPredicate_qualify p hq)
            (readsOfPredicates_qualify rest (qualifyPredicates_eq_ok.mpr hrest))
termination_by structural x => x

theorem readsOfBranches_qualify : forall (whens : List (Predicate × Scalar))
    {whens' : List (Predicate × Scalar)}, ctx.qualifyBranches whens = .ok whens' ->
      forall c, c ∈ readsOfBranches whens' -> Stands ctx (readsOfBranches whens) c
  | [] => by
      intro h c hc
      cases h
      cases hc
  | (p, e) :: rest => by
      intro h
      rcases qualifyBranches_cons h with ⟨p', e', rest', hp, he, hrest, rfl⟩
      exact stands_append (stands_append (readsOfPredicate_qualify p hp) (reads_qualify e he))
        (readsOfBranches_qualify rest hrest)
termination_by structural x => x

theorem readsOfPairs_qualify : forall (whens : List (Scalar × Scalar))
    {whens' : List (Scalar × Scalar)}, ctx.qualifyPairs whens = .ok whens' ->
      forall c, c ∈ readsOfPairs whens' -> Stands ctx (readsOfPairs whens) c
  | [] => by
      intro h c hc
      cases h
      cases hc
  | (w, e) :: rest => by
      intro h
      rcases qualifyPairs_cons h with ⟨w', e', rest', hw, he, hrest, rfl⟩
      exact stands_append (stands_append (reads_qualify w hw) (reads_qualify e he))
        (readsOfPairs_qualify rest hrest)
termination_by structural x => x

theorem readsOfOption_qualify : forall (otherwise : Option Scalar) {otherwise' : Option Scalar},
    ctx.qualifyOption otherwise = .ok otherwise' ->
      forall c, c ∈ readsOfOption otherwise' -> Stands ctx (readsOfOption otherwise) c
  | none => by
      intro h c hc
      cases h
      cases hc
  | some e => by
      intro h
      rcases qualifyOption_some h with ⟨e', he, rfl⟩
      exact reads_qualify e he
termination_by structural x => x

end

end Context
end Plan

/-!
# Values
-/

namespace Eval

open Plan (reads readsOfBranches readsOfList readsOfOption readsOfPairs readsOfPredicate
  readsOfPredicates)

/-- Two rows have the same values in the given columns. -/
def SameOn (read read' : String -> Value) (columns : List Column) : Prop :=
  forall c, c ∈ columns -> read c.rowKey = read' c.rowKey

variable {clock : Clock} {read read' : String -> Value}

theorem sameOn_append {front back : List Column} :
    SameOn read read' (front ++ back) <-> SameOn read read' front ∧ SameOn read read' back :=
  List.forall_mem_append

mutual

theorem scalar_congr : forall e : Scalar, SameOn read read' (reads e) ->
    scalar clock read e = scalar clock read' e
  | .column c => by
      intro h
      rw [scalar, scalar, h c (List.mem_singleton_self c)]
  | .call name distinct args => by
      intro h
      rw [scalar, scalar, scalars_congr args h]
  | .binary l op r => by
      intro h
      rcases sameOn_append.mp h with ⟨hleft, hright⟩
      rw [scalar, scalar, scalar_congr l hleft, scalar_congr r hright]
  | .negate e => by
      intro h
      rw [scalar, scalar, scalar_congr e h]
  | .collate e collation => by
      intro h
      rw [scalar, scalar, scalar_congr e h]
  | .searchedCase whens otherwise => by
      intro h
      rcases sameOn_append.mp h with ⟨hfirst, hlast⟩
      rw [scalar, scalar, branches_congr whens hfirst, elseValue_congr otherwise hlast]
  | .simpleCase input whens otherwise => by
      intro h
      rcases sameOn_append.mp h with ⟨hfront, hlast⟩
      rcases sameOn_append.mp hfront with ⟨hfirst, hmiddle⟩
      rw [scalar, scalar, scalar_congr input hfirst]
      simp only [matching_congr whens hmiddle, elseValue_congr otherwise hlast]
  | .literal _ => by
      intro _
      rw [scalar, scalar]
  | .star => by
      intro _
      rw [scalar, scalar]
  | .starOf _ => by
      intro _
      rw [scalar, scalar]

theorem predicate_congr : forall p : Predicate, SameOn read read' (readsOfPredicate p) ->
    predicate clock read p = predicate clock read' p
  | .and items => by
      intro h
      rw [predicate, predicate, allOf_congr items h]
  | .or items => by
      intro h
      rw [predicate, predicate, anyOf_congr items h]
  | .not p => by
      intro h
      rw [predicate, predicate, predicate_congr p h]
  | .compare l op r => by
      intro h
      rcases sameOn_append.mp h with ⟨hleft, hright⟩
      rw [predicate, predicate, scalar_congr l hleft, scalar_congr r hright]
  | .isNull e negated => by
      intro h
      rw [predicate, predicate, scalar_congr e h]
  | .inList e items negated => by
      intro h
      rcases sameOn_append.mp h with ⟨hlist, htested⟩
      rw [predicate, predicate, scalar_congr e htested]
      simp only [memberOf_congr items hlist]
  | .like e pattern negated => by
      intro h
      rcases sameOn_append.mp h with ⟨htested, hlast⟩
      rw [predicate, predicate, scalar_congr e htested, scalar_congr pattern hlast]
  | .contains c wanted => by
      intro h
      rcases List.forall_mem_cons.mp h with ⟨hcolumn, hrest⟩
      rw [predicate, predicate, scalar_congr wanted hrest, hcolumn]
  | .const _ => by
      intro _
      rw [predicate, predicate]

theorem scalars_congr : forall items : List Scalar, SameOn read read' (readsOfList items) ->
    scalars clock read items = scalars clock read' items
  | [] => by
      intro _
      rw [scalars, scalars]
  | e :: rest => by
      intro h
      rcases sameOn_append.mp h with ⟨hfirst, hlast⟩
      rw [scalars, scalars, scalar_congr e hfirst, scalars_congr rest hlast]

theorem allOf_congr : forall (items : List Predicate) {sofar : Sql.Truth},
    SameOn read read' (readsOfPredicates items) ->
      allOf clock read sofar items = allOf clock read' sofar items
  | [] => by
      intro _
      rw [allOf, allOf]
  | p :: rest => by
      intro h
      rcases sameOn_append.mp h with ⟨hfirst, hlast⟩
      rw [allOf, allOf, predicate_congr p hfirst]
      simp only [allOf_congr rest hlast]

theorem anyOf_congr : forall (items : List Predicate) {sofar : Sql.Truth},
    SameOn read read' (readsOfPredicates items) ->
      anyOf clock read sofar items = anyOf clock read' sofar items
  | [] => by
      intro _
      rw [anyOf, anyOf]
  | p :: rest => by
      intro h
      rcases sameOn_append.mp h with ⟨hfirst, hlast⟩
      rw [anyOf, anyOf, predicate_congr p hfirst]
      simp only [anyOf_congr rest hlast]

theorem memberOf_congr : forall (items : List Scalar) {v : Value} {sofar : Sql.Truth},
    SameOn read read' (readsOfList items) ->
      memberOf clock read v sofar items = memberOf clock read' v sofar items
  | [] => by
      intro _
      rw [memberOf, memberOf]
  | e :: rest => by
      intro h
      rcases sameOn_append.mp h with ⟨hfirst, hlast⟩
      rw [memberOf, memberOf, scalar_congr e hfirst]
      simp only [memberOf_congr rest hlast]

theorem branches_congr : forall whens : List (Predicate × Scalar),
    SameOn read read' (readsOfBranches whens) ->
      branches clock read whens = branches clock read' whens
  | [] => by
      intro _
      rw [branches, branches]
  | (p, e) :: rest => by
      intro h
      rcases sameOn_append.mp h with ⟨hfront, hlast⟩
      rcases sameOn_append.mp hfront with ⟨hfirst, hmiddle⟩
      rw [branches, branches, predicate_congr p hfirst]
      simp only [scalar_congr e hmiddle, branches_congr rest hlast]

theorem matching_congr : forall (whens : List (Scalar × Scalar)) {v : Value},
    SameOn read read' (readsOfPairs whens) ->
      matching clock read v whens = matching clock read' v whens
  | [] => by
      intro _
      rw [matching, matching]
  | (w, e) :: rest => by
      intro h
      rcases sameOn_append.mp h with ⟨hfront, hlast⟩
      rcases sameOn_append.mp hfront with ⟨hfirst, hmiddle⟩
      rw [matching, matching, scalar_congr w hfirst]
      simp only [scalar_congr e hmiddle, matching_congr rest hlast]

theorem elseValue_congr : forall otherwise : Option Scalar,
    SameOn read read' (readsOfOption otherwise) ->
      elseValue clock read otherwise = elseValue clock read' otherwise
  | none => by
      intro _
      rw [elseValue, elseValue]
  | some e => by
      intro h
      rw [elseValue, elseValue, scalar_congr e h]

end

end Eval

end RecordSql
