import Mathlib.Data.List.Forall2
import RecordSql.Proofs.Binding
import RecordSql.Proofs.Qualification
import RecordSql.Proofs.TextQuery.Meaning

/-!
# Evaluating expressions on texts

In a query of one table every column is bound to an attribute of that table, and rows hold it under
the name of the attribute.  On such rows, expressions and conditions of the class are evaluated
without failure, to what they mean for the record that the row comes from.
-/

namespace RecordSql
namespace TextQuery

open Plan (Bound Context mem_use reads readsOfList readsOfPredicate readsOfPredicates)
open Sql (Column Comparison Literal Predicate Scalar Truth)

/-!
# One scope
-/

/-- The context of a statement about one table. -/
structure OneScope (t : TableDef) (ctx : Context) : Prop where
  scopes : exists aliasName, ctx.scopes = [⟨aliasName, t, [], false⟩]

/-- The context of a statement about one table, with the options that a session begins with. -/
structure Single (t : TableDef) (ctx : Context) : Prop extends OneScope t ctx where
  options : ctx.options = .standard

variable {t : TableDef} {ctx : Context}

theorem OneScope.bound (hctx : OneScope t ctx) {c : Column} {b : Bound}
    (h : ctx.resolve c = .ok (some b)) :
    b = ⟨0, attributeName t c⟩ ∧ exists a, t.attribute? c.name = some a := by
  rcases hctx.scopes with ⟨aliasName, hscopes⟩
  have hb := Context.resolve_eq h
  have hlt := Plan.Scopes.resolve_lt hb
  rcases Plan.Scopes.attributeOf_resolve hb with ⟨a, _, hname, ha⟩
  rw [hscopes] at hlt ha
  have hzero : b.scope = 0 := by
    simpa using hlt
  rw [hzero] at ha
  have hfound : t.attribute? c.name = some a := ha
  refine ⟨?_, a, hfound⟩
  rw [attributeName, hfound, Option.map_some, Option.getD_some, hname, <- hzero]

theorem resolve_single (hctx : Single t ctx) {c : Column} {found : Option Bound}
    (h : ctx.resolve c = .ok found) :
    found = some ⟨0, attributeName t c⟩ ∧ exists a, t.attribute? c.name = some a := by
  cases found with
  | none =>
      unfold Context.resolve at h
      split at h
      · cases h
      · rw [hctx.options] at h
        cases h
      · cases h
  | some b =>
      rcases hctx.bound h with ⟨rfl, ha⟩
      exact ⟨rfl, ha⟩

theorem OneScope.qualified (hctx : OneScope t ctx) (name : String) :
    ctx.scopes.qualified ⟨0, name⟩ = .ofName name := by
  rcases hctx.scopes with ⟨aliasName, hscopes⟩
  rw [hscopes]
  rfl

theorem OneScope.rowKey (hctx : OneScope t ctx) (name : String) :
    ctx.scopes.rowKey ⟨0, name⟩ = name := by
  rw [Plan.Scopes.rowKey, hctx.qualified]
  rfl

/-- The expression with its columns under the names that rows use. -/
def bare (t : TableDef) : Scalar -> Scalar
  | .column c => .column (.ofName (attributeName t c))
  | .binary left op right => .binary (bare t left) op (bare t right)
  | e => e

/-- Every column of the list can be bound. -/
def Binds (ctx : Context) (columns : List Column) : Prop :=
  forall c, c ∈ columns -> exists b, ctx.resolve c = .ok b

theorem binds_append {front back : List Column} :
    Binds ctx (front ++ back) <-> Binds ctx front ∧ Binds ctx back := by
  unfold Binds
  constructor
  · intro h
    constructor
    · intro c hc
      exact h c (List.mem_append_left _ hc)
    · intro c hc
      exact h c (List.mem_append_right _ hc)
  · rintro ⟨hfront, hback⟩ c hc
    rcases List.mem_append.mp hc with hc | hc
    · exact hfront c hc
    · exact hback c hc

theorem qualify_single (hctx : Single t ctx) {known : Column -> Prop} {e q : Scalar}
    (he : TextScalar known e) (h : ctx.qualify e = .ok q) :
    q = bare t e ∧ Binds ctx (reads e) := by
  induction he generalizing q with
  | text s =>
      cases h
      exact ⟨rfl, fun c hc => by cases hc⟩
  | missing =>
      cases h
      exact ⟨rfl, fun c hc => by cases hc⟩
  | @column c _ =>
      cases Context.qualify_eq_ok.mp h with
      | column hfound =>
          rcases resolve_single hctx hfound with ⟨hb, _⟩
          cases hb
          rw [hctx.qualified]
          refine ⟨rfl, ?_⟩
          intro d hd
          rcases List.mem_singleton.mp hd with rfl
          exact ⟨_, hfound⟩
      | text hfound =>
          rcases resolve_single hctx hfound with ⟨hb, _⟩
          cases hb
  | join _ _ ihLeft ihRight =>
      cases Context.qualify_eq_ok.mp h with
      | binary hleft hright =>
          rcases ihLeft hleft with ⟨rfl, hleftBinds⟩
          rcases ihRight hright with ⟨rfl, hrightBinds⟩
          exact ⟨rfl, binds_append.mpr ⟨hleftBinds, hrightBinds⟩⟩

/-!
# Columns in use
-/

/-- The bound column is an attribute of the table, under its own name. -/
def Listed (t : TableDef) (b : Bound) : Prop :=
  b.scope = 0 ∧ exists a, t.attribute? b.name = some a ∧ a.name = b.name

theorem OneScope.listed (hctx : OneScope t ctx) {c : Column} {b : Bound}
    (h : ctx.resolve c = .ok (some b)) : Listed t b := by
  rcases hctx.bound h with ⟨rfl, a, ha⟩
  have hname : attributeName t c = a.name := by
    rw [attributeName, ha]
    rfl
  refine ⟨rfl, a, ?_, hname.symm⟩
  rw [hname]
  exact TableDef.attribute?_self ha

/-- Every column that can be bound is among those in use. -/
theorem mem_use_of_binds (hctx : Single t ctx) {used : List Bound} {columns : List Column}
    (hbinds : Binds ctx columns) {c : Column} (hc : c ∈ columns) :
    (⟨0, attributeName t c⟩ : Bound) ∈ ctx.use used columns := by
  rcases hbinds c hc with ⟨found, hfound⟩
  rcases resolve_single hctx hfound with ⟨rfl, _⟩
  exact mem_use.mpr (Or.inr ⟨c, hc, hfound⟩)

theorem OneScope.listed_of_mem_use (hctx : OneScope t ctx) {used : List Bound} {columns : List Column}
    (hused : forall b, b ∈ used -> Listed t b) {b : Bound} (h : b ∈ ctx.use used columns) :
    Listed t b := by
  rcases mem_use.mp h with h | ⟨c, _, hc⟩
  · exact hused b h
  · exact hctx.listed hc

theorem OneScope.listed_of_mem_used (hctx : OneScope t ctx) {e : Scalar} {b : Bound}
    (h : b ∈ ctx.used e) : Listed t b :=
  hctx.listed_of_mem_use (fun _ hb => by cases hb) h

/-!
# Expressions

A row shows a record if it holds the attributes that are read under their own names.
-/

/-- The row has the values of the record for the given columns. -/
def Sees (t : TableDef) (read : String -> Value) (r : Record) (columns : List Column) : Prop :=
  forall c, c ∈ columns -> read (attributeName t c) = r.get (attributeName t c)

theorem sees_append {read : String -> Value} {r : Record} {front back : List Column} :
    Sees t read r (front ++ back) <-> Sees t read r front ∧ Sees t read r back := by
  unfold Sees
  simp only [List.mem_append]
  constructor
  · intro h
    exact ⟨fun c hc => h c (Or.inl hc), fun c hc => h c (Or.inr hc)⟩
  · rintro ⟨hfront, hback⟩ c (hc | hc)
    · exact hfront c hc
    · exact hback c hc

theorem arithmetic_text {v w : Value} (hv : Value.OfKind .text v) (hw : Value.OfKind .text w) :
    Eval.arithmetic v .add w = .ok (join v w) := by
  rcases ofKind_text_cases hv with rfl | ⟨s, rfl⟩
  · rcases ofKind_text_cases hw with rfl | ⟨u, rfl⟩ <;> rfl
  · rcases ofKind_text_cases hw with rfl | ⟨u, rfl⟩ <;> rfl

section

variable {records : List Record} {r : Record} {clock : Clock} {read : String -> Value}

theorem scalar_bare (hctx : Single t ctx) (hr : r ∈ records) {e : Scalar}
    (he : TextScalar (TextColumn t records) e) (hbinds : Binds ctx (reads e))
    (hsees : Sees t read r (reads e)) :
    Eval.scalar clock read (bare t e) = .ok (value t r e) := by
  induction he with
  | text s =>
      rfl
  | missing =>
      rfl
  | @column c _ =>
      have hmem : c ∈ reads (.column c) := List.mem_singleton_self c
      rcases hbinds c hmem with ⟨found, hfound⟩
      rcases resolve_single hctx hfound with ⟨_, a, ha⟩
      have hname : attributeName t c = a.name := by
        rw [attributeName, ha]
        rfl
      have hget := hsees c hmem
      rw [value, ha, bare, Eval.scalar]
      rw [hname] at hget ⊢
      exact congrArg Except.ok hget
  | join hleft hright ihLeft ihRight =>
      rcases binds_append.mp hbinds with ⟨hbindsLeft, hbindsRight⟩
      rcases sees_append.mp hsees with ⟨hseesLeft, hseesRight⟩
      rw [bare, Eval.scalar, ihLeft hbindsLeft hseesLeft, Outcome.ok_bind,
        ihRight hbindsRight hseesRight, Outcome.ok_bind, value]
      exact arithmetic_text (ofKind_text_value hr hleft) (ofKind_text_value hr hright)

theorem scalar_qualify (hctx : Single t ctx) (hr : r ∈ records) {e q : Scalar}
    (he : TextScalar (TextColumn t records) e) (h : ctx.qualify e = .ok q)
    (hsees : Sees t read r (reads e)) : Eval.scalar clock read q = .ok (value t r e) := by
  rcases qualify_single hctx he h with ⟨rfl, hbinds⟩
  exact scalar_bare hctx hr he hbinds hsees

theorem isCaseSensitive_text {known : Column -> Prop} {e q : Scalar} (he : TextScalar known e)
    (h : ctx.qualify e = .ok q) : q.isCaseSensitive = false := by
  rw [Context.isCaseSensitive_qualify h]
  cases he <;> rfl

/-!
# Conditions
-/

theorem compareTruth_text {v w : Value} (hv : Value.OfKind .text v) (hw : Value.OfKind .text w)
    (op : Comparison) : Eval.compareTruth false v op w = comparison op.accepts v w := by
  rcases ofKind_text_cases hv with rfl | ⟨s, rfl⟩
  · rfl
  · rcases ofKind_text_cases hw with rfl | ⟨u, rfl⟩ <;> rfl

theorem likeTruth_text {v : Value} (hv : Value.OfKind .text v) {pattern : String}
    (hpattern : (Like.compile .standard pattern).isSome = true) :
    Eval.likeTruth .standard v (.str pattern) = .ok (likeness v (.str pattern)) := by
  rcases Option.isSome_iff_exists.mp hpattern with ⟨accepts, haccepts⟩
  rcases ofKind_text_cases hv with rfl | ⟨s, rfl⟩
  · rfl
  · simp [Eval.likeTruth, likeness, Value.isNull, Value.text, haccepts]

/-- Membership goes on from what earlier members settled. -/
theorem memberOf_qualify (hctx : Single t ctx) (hr : r ∈ records) {items qs : List Scalar}
    (hitems : forall item, item ∈ items -> TextScalar (TextColumn t records) item)
    (h : ctx.qualifyList items = .ok qs) (hsees : Sees t read r (readsOfList items)) {v : Value}
    (hv : Value.OfKind .text v) (sofar : Truth) (hsofar : sofar ≠ .isTrue) :
    Eval.memberOf clock read v sofar qs =
      .ok (sofar.or (membership v (items.map (value t r)))) := by
  have hforall := Context.qualifyList_eq_ok.mp h
  clear h
  induction hforall generalizing sofar with
  | nil =>
      cases sofar <;> rfl
  | @cons item q rest qs hq _ ih =>
      rcases sees_append.mp hsees with ⟨hseesItem, hseesRest⟩
      have hitem := hitems item List.mem_cons_self
      have hw := ofKind_text_value hr hitem
      rw [Eval.memberOf, scalar_qualify hctx hr hitem hq hseesItem, Outcome.ok_bind,
        compareTruth_text hv hw, List.map_cons, membership]
      rw [<- Truth.or_assoc]
      simp only
      split
      · rename_i htrue
        rw [eq_of_beq htrue]
        rfl
      · rename_i htrue
        refine ih (fun i hi => hitems i (List.mem_cons_of_mem _ hi)) hseesRest _ ?_
        intro heq
        exact htrue (by rw [heq]; rfl)

theorem allOf_qualify {items qs : List Predicate}
    (hitems : List.Forall₂ (fun p q => Eval.predicate clock read q = .ok (truth t r p)) items qs)
    (sofar : Truth) (hsofar : sofar ≠ .isFalse) :
    Eval.allOf clock read sofar qs = .ok (sofar.and (truthOfAll t r items)) := by
  induction hitems generalizing sofar with
  | nil =>
      cases sofar <;> rfl
  | @cons p q items qs hitem _ ih =>
      rw [Eval.allOf, hitem, Outcome.ok_bind, truthOfAll, <- Truth.and_assoc]
      simp only
      split
      · rename_i hfalse
        rw [eq_of_beq hfalse]
        rfl
      · rename_i hfalse
        refine ih _ ?_
        intro heq
        exact hfalse (by rw [heq]; rfl)

theorem anyOf_qualify {items qs : List Predicate}
    (hitems : List.Forall₂ (fun p q => Eval.predicate clock read q = .ok (truth t r p)) items qs)
    (sofar : Truth) (hsofar : sofar ≠ .isTrue) :
    Eval.anyOf clock read sofar qs = .ok (sofar.or (truthOfAny t r items)) := by
  induction hitems generalizing sofar with
  | nil =>
      cases sofar <;> rfl
  | @cons p q items qs hitem _ ih =>
      rw [Eval.anyOf, hitem, Outcome.ok_bind, truthOfAny, <- Truth.or_assoc]
      simp only
      split
      · rename_i htrue
        rw [eq_of_beq htrue]
        rfl
      · rename_i htrue
        refine ih _ ?_
        intro heq
        exact htrue (by rw [heq]; rfl)

theorem qualifyPredicates_forall₂ {items qs : List Predicate}
    {P : Predicate -> Predicate -> Prop}
    (hitems : forall p, p ∈ items -> forall q, ctx.qualifyPredicate p = .ok q ->
      Sees t read r (readsOfPredicate p) -> P p q)
    (h : ctx.qualifyPredicates items = .ok qs) (hsees : Sees t read r (readsOfPredicates items)) :
    List.Forall₂ P items qs := by
  have hforall := Context.qualifyPredicates_eq_ok.mp h
  clear h
  induction hforall with
  | nil =>
      exact .nil
  | cons hq _ ih =>
      rcases sees_append.mp hsees with ⟨hseesFirst, hseesRest⟩
      constructor
      · exact hitems _ List.mem_cons_self _ hq hseesFirst
      · exact ih (fun p hp => hitems p (List.mem_cons_of_mem _ hp)) hseesRest

theorem predicate_qualify (hctx : Single t ctx) (hr : r ∈ records) {p q : Predicate}
    (hp : TextPredicate (TextColumn t records) p) (h : ctx.qualifyPredicate p = .ok q)
    (hsees : Sees t read r (readsOfPredicate p)) :
    Eval.predicate clock read q = .ok (truth t r p) := by
  induction hp generalizing q with
  | and _ ih =>
      cases Context.qualifyPredicate_eq_ok.mp h with
      | and hqs =>
          have hitems := qualifyPredicates_forall₂ (fun p hp q => ih p hp) hqs hsees
          rw [Eval.predicate, allOf_qualify hitems .isTrue (by decide), truth]
          cases truthOfAll t r _ <;> rfl
  | or _ ih =>
      cases Context.qualifyPredicate_eq_ok.mp h with
      | or hqs =>
          have hitems := qualifyPredicates_forall₂ (fun p hp q => ih p hp) hqs hsees
          rw [Eval.predicate, anyOf_qualify hitems .isFalse (by decide), truth]
          cases truthOfAny t r _ <;> rfl
  | not _ ih =>
      cases Context.qualifyPredicate_eq_ok.mp h with
      | not hq' =>
          rw [Eval.predicate, ih hq' hsees]
          rfl
  | compare hleft hright =>
      cases Context.qualifyPredicate_eq_ok.mp h with
      | compare hl hrr =>
          rcases sees_append.mp hsees with ⟨hseesLeft, hseesRight⟩
          rw [Eval.predicate, scalar_qualify hctx hr hleft hl hseesLeft, Outcome.ok_bind,
            scalar_qualify hctx hr hright hrr hseesRight, Outcome.ok_bind,
            isCaseSensitive_text hleft hl, isCaseSensitive_text hright hrr]
          exact congrArg Except.ok
            (compareTruth_text (ofKind_text_value hr hleft) (ofKind_text_value hr hright) _)
  | isNull he =>
      cases Context.qualifyPredicate_eq_ok.mp h with
      | isNull he' =>
          rw [Eval.predicate, scalar_qualify hctx hr he he' hsees]
          rfl
  | inList he hitems _ =>
      cases Context.qualifyPredicate_eq_ok.mp h with
      | inList he' hitems' =>
          rcases sees_append.mp hsees with ⟨hseesItems, hseesFirst⟩
          rw [Eval.predicate, scalar_qualify hctx hr he he' hseesFirst, Outcome.ok_bind,
            memberOf_qualify hctx hr hitems hitems' hseesItems (ofKind_text_value hr he) .isFalse
              (by decide), truth]
          cases membership _ _ <;> rfl
  | like he hpattern =>
      cases Context.qualifyPredicate_eq_ok.mp h with
      | like he' hpattern' =>
          cases hpattern'
          rcases sees_append.mp hsees with ⟨hseesFirst, _⟩
          rw [Eval.predicate, scalar_qualify hctx hr he he' hseesFirst, Outcome.ok_bind, Eval.scalar,
            Outcome.ok_bind, Value.ofLiteral, likeTruth_text (ofKind_text_value hr he) hpattern]
          rfl

end

end TextQuery
end RecordSql
