import RecordSql.Proofs.Conjuncts
import RecordSql.Proofs.Reading
import RecordSql.Proofs.TextQuery.Condition

/-!
# Conditions on the records of one table

A condition on text columns is evaluated without failure on every record.  Whatever the options that
it is planned with, the filter of the platform and the local one keep together the records on which
it is true.
-/

namespace RecordSql
namespace TextQuery

open Plan (Bound Context DecidedAlike Divided HasTruth HasValue Residual Split andAll_isTrueOn
  andAll_total decidedAlike_of_readable holdsNatively isTrueOn isTrueOn_of_ok mem_foldl_use
  mem_reads_andAll mem_use readsOfPredicate)
open Sql (Column Predicate Scalar Truth)

variable {known : Column -> Prop} {t : TableDef} {ctx : Context} {records : List Record}
  {r : Record} {clock : Clock}

/-!
# Evaluation
-/

theorem ofKind_text_str (s : String) : Value.OfKind .text (.str s) := by
  intro kind hkind
  cases hkind
  rfl

theorem ofKind_text_null : Value.OfKind .text .null := by
  intro kind hkind
  cases hkind

theorem OneScope.scalar_text (hctx : OneScope t ctx) (hr : r ∈ records) {e q : Scalar}
    (he : TextScalar (TextColumn t records) e) (h : ctx.qualify e = .ok q) :
    exists v, Eval.scalar clock r.get q = .ok v ∧ Value.OfKind .text v := by
  induction he generalizing q with
  | text s =>
      cases h
      exact ⟨.str s, rfl, ofKind_text_str s⟩
  | missing =>
      cases h
      exact ⟨.null, rfl, ofKind_text_null⟩
  | @column c hc =>
      cases Context.qualify_eq_ok.mp h with
      | text _ =>
          exact ⟨.str c.name, rfl, ofKind_text_str c.name⟩
      | @column _ b hfound =>
          rcases hctx.textBound hc hfound with ⟨hscope, _, _, _, hvalues⟩
          have hb : b = ⟨0, b.name⟩ := by rw [<- hscope]
          rw [hb, hctx.qualified]
          exact ⟨r.get b.name, rfl, hvalues r hr⟩
  | join _ _ ihLeft ihRight =>
      cases Context.qualify_eq_ok.mp h with
      | binary hleft hright =>
          rcases ihLeft hleft with ⟨v, hv, hvText⟩
          rcases ihRight hright with ⟨w, hw, hwText⟩
          refine ⟨join v w, ?_, ofKind_text_join v w⟩
          rw [Eval.scalar, hv, Outcome.ok_bind, hw, Outcome.ok_bind, arithmetic_text hvText hwText]

theorem OneScope.hasValue (hctx : OneScope t ctx) (hr : r ∈ records) {e : Scalar}
    (he : TextScalar (TextColumn t records) e) : HasValue ctx clock r.get e := by
  intro q h
  rcases @OneScope.scalar_text t ctx records r clock hctx hr _ _ he h with ⟨v, hv, _⟩
  exact ⟨v, hv⟩

theorem OneScope.hasTruth (hctx : OneScope t ctx) (hr : r ∈ records) {p : Predicate}
    (hp : TextPredicate (TextColumn t records) p) : HasTruth ctx clock r.get p := by
  induction hp with
  | and _ ih =>
      exact .and ih
  | or _ ih =>
      exact .or ih
  | not _ ih =>
      exact .not ih
  | compare hleft hright =>
      exact .compare (hctx.hasValue hr hleft) (hctx.hasValue hr hright)
  | isNull he =>
      exact .isNull (hctx.hasValue hr he)
  | inList he hitems _ =>
      exact .inList (hctx.hasValue hr he) fun item hitem => hctx.hasValue hr (hitems item hitem)
  | like he hpattern =>
      refine .like (hctx.hasValue hr he) fun q hq => ?_
      cases hq
      exact ⟨_, rfl, hpattern⟩

/-- A condition on text columns has a truth value on every record. -/
theorem OneScope.predicate_text (hctx : OneScope t ctx) (hr : r ∈ records) {p q : Predicate}
    (hp : TextPredicate (TextColumn t records) p) (h : ctx.qualifyPredicate p = .ok q) :
    exists u, Eval.predicate clock r.get q = .ok u :=
  (hctx.hasTruth hr hp).total h

/-!
# Folding

What is folded can be qualified only if the whole can, and has the same value on every row.
-/

theorem qualify_of_isLiteral {e : Scalar} (h : e.isLiteral = true) : ctx.qualify e = .ok e := by
  cases e with
  | literal l =>
      rfl
  | _ =>
      cases h

/-- The join of two literals, once it is folded. -/
theorem scalar_literalOr_join {left right q : Scalar} (hleft : TextScalar known left)
    (hright : TextScalar known right) (hliteral : (left.isLiteral && right.isLiteral) = true)
    (h : ctx.qualify (Eval.literalOr clock (.binary left .add right)) = .ok q)
    (read : String -> Value) :
    Eval.scalar clock read q = Eval.scalar clock read (.binary left .add right) := by
  rcases Bool.and_eq_true_iff.mp hliteral with ⟨hl, hr⟩
  rcases literal_cases hleft hl with ⟨s, rfl⟩ | rfl
  · rcases literal_cases hright hr with ⟨u, rfl⟩ | rfl
    · cases h
      rfl
    · cases h
      rfl
  · rcases literal_cases hright hr with ⟨u, rfl⟩ | rfl
    · cases h
      rfl
    · cases h
      rfl

theorem fold_qualify {e q' : Scalar} (he : TextScalar known e)
    (h : ctx.qualify (Eval.fold clock e) = .ok q') :
    exists q, ctx.qualify e = .ok q ∧
      forall read, Eval.scalar clock read q' = Eval.scalar clock read q := by
  induction he generalizing q' with
  | text s =>
      exact ⟨q', h, fun _ => rfl⟩
  | missing =>
      exact ⟨q', h, fun _ => rfl⟩
  | column _ =>
      exact ⟨q', h, fun _ => rfl⟩
  | @join left right hleft hright ihLeft ihRight =>
      have hparts : forall {l' r' : Scalar}, ctx.qualify (Eval.fold clock left) = .ok l' ->
          ctx.qualify (Eval.fold clock right) = .ok r' ->
          exists q, ctx.qualify (.binary left .add right) = .ok q ∧
            forall read, Eval.scalar clock read (.binary l' .add r') = Eval.scalar clock read q := by
        intro l' r' hl' hr'
        rcases ihLeft hl' with ⟨l, hl, hlv⟩
        rcases ihRight hr' with ⟨r, hr, hrv⟩
        refine ⟨.binary l .add r, Context.qualify_eq_ok.mpr (.binary hl hr), fun read => ?_⟩
        rw [Eval.scalar, Eval.scalar, hlv, hrv]
      rw [Eval.fold] at h
      split at h
      · rename_i hliteral
        rcases Bool.and_eq_true_iff.mp hliteral with ⟨hl, hr⟩
        rcases hparts (qualify_of_isLiteral hl) (qualify_of_isLiteral hr) with ⟨q, hq, hvalue⟩
        refine ⟨q, hq, fun read => ?_⟩
        rw [scalar_literalOr_join (fold_text hleft) (fold_text hright) hliteral h read, hvalue]
      · cases Context.qualify_eq_ok.mp h with
        | binary hl' hr' =>
            exact hparts hl' hr'

/-- Conditions of which one is true whenever the other is. -/
def SameTruth (clock : Clock) (q' q : Predicate) : Prop :=
  forall read, Eval.predicate clock read q' = Eval.predicate clock read q

def SameValue (clock : Clock) (q' q : Scalar) : Prop :=
  forall read, Eval.scalar clock read q' = Eval.scalar clock read q

theorem foldAll_qualify {items qs' : List Scalar}
    (hitems : forall item, item ∈ items -> TextScalar known item)
    (h : ctx.qualifyList (Eval.foldAll clock items) = .ok qs') :
    exists qs, ctx.qualifyList items = .ok qs ∧ List.Forall₂ (SameValue clock) qs' qs := by
  induction items generalizing qs' with
  | nil =>
      rw [Eval.foldAll] at h
      cases h
      exact ⟨[], rfl, .nil⟩
  | cons item rest ih =>
      rw [Eval.foldAll] at h
      cases Context.qualifyList_eq_ok.mp h with
      | cons hq' hrest' =>
          rcases fold_qualify (hitems item List.mem_cons_self) hq' with ⟨q, hq, hvalue⟩
          rcases ih (fun i hi => hitems i (List.mem_cons_of_mem _ hi))
            (Context.qualifyList_eq_ok.mpr hrest') with ⟨qs, hqs, hsame⟩
          refine ⟨q :: qs, ?_, .cons hvalue hsame⟩
          exact Context.qualifyList_eq_ok.mpr (.cons hq (Context.qualifyList_eq_ok.mp hqs))

theorem memberOf_same {qs' qs : List Scalar} (h : List.Forall₂ (SameValue clock) qs' qs)
    (read : String -> Value) (v : Value) (sofar : Truth) :
    Eval.memberOf clock read v sofar qs' = Eval.memberOf clock read v sofar qs := by
  induction h generalizing sofar with
  | nil =>
      rfl
  | cons hfirst _ ih =>
      rw [Eval.memberOf, Eval.memberOf, hfirst read]
      simp only [ih]

theorem allOf_same {qs' qs : List Predicate} (h : List.Forall₂ (SameTruth clock) qs' qs)
    (read : String -> Value) (sofar : Truth) :
    Eval.allOf clock read sofar qs' = Eval.allOf clock read sofar qs := by
  induction h generalizing sofar with
  | nil =>
      rfl
  | cons hfirst _ ih =>
      rw [Eval.allOf, Eval.allOf, hfirst read]
      simp only [ih]

theorem anyOf_same {qs' qs : List Predicate} (h : List.Forall₂ (SameTruth clock) qs' qs)
    (read : String -> Value) (sofar : Truth) :
    Eval.anyOf clock read sofar qs' = Eval.anyOf clock read sofar qs := by
  induction h generalizing sofar with
  | nil =>
      rfl
  | cons hfirst _ ih =>
      rw [Eval.anyOf, Eval.anyOf, hfirst read]
      simp only [ih]

theorem foldPredicates_qualify {items qs' : List Predicate}
    (hitems : forall p, p ∈ items -> forall q', ctx.qualifyPredicate (Eval.foldPredicate clock p) =
      .ok q' -> exists q, ctx.qualifyPredicate p = .ok q ∧ SameTruth clock q' q)
    (h : ctx.qualifyPredicates (Eval.foldPredicates clock items) = .ok qs') :
    exists qs, ctx.qualifyPredicates items = .ok qs ∧ List.Forall₂ (SameTruth clock) qs' qs := by
  induction items generalizing qs' with
  | nil =>
      rw [Eval.foldPredicates] at h
      cases h
      exact ⟨[], rfl, .nil⟩
  | cons p rest ih =>
      rw [Eval.foldPredicates] at h
      cases Context.qualifyPredicates_eq_ok.mp h with
      | cons hq' hrest' =>
          rcases hitems p List.mem_cons_self _ hq' with ⟨q, hq, htruth⟩
          rcases ih (fun i hi => hitems i (List.mem_cons_of_mem _ hi))
            (Context.qualifyPredicates_eq_ok.mpr hrest') with ⟨qs, hqs, hsame⟩
          refine ⟨q :: qs, ?_, .cons htruth hsame⟩
          exact Context.qualifyPredicates_eq_ok.mpr (.cons hq (Context.qualifyPredicates_eq_ok.mp hqs))

theorem foldPredicate_qualify {p q' : Predicate} (hp : TextPredicate known p)
    (h : ctx.qualifyPredicate (Eval.foldPredicate clock p) = .ok q') :
    exists q, ctx.qualifyPredicate p = .ok q ∧ SameTruth clock q' q := by
  induction hp generalizing q' with
  | and _ ih =>
      rw [Eval.foldPredicate] at h
      cases Context.qualifyPredicate_eq_ok.mp h with
      | and hqs' =>
          rcases foldPredicates_qualify (fun p hp q' => ih p hp) hqs' with ⟨qs, hqs, hsame⟩
          refine ⟨.and qs, Context.qualifyPredicate_eq_ok.mpr (.and hqs), fun read => ?_⟩
          rw [Eval.predicate, Eval.predicate, allOf_same hsame]
  | or _ ih =>
      rw [Eval.foldPredicate] at h
      cases Context.qualifyPredicate_eq_ok.mp h with
      | or hqs' =>
          rcases foldPredicates_qualify (fun p hp q' => ih p hp) hqs' with ⟨qs, hqs, hsame⟩
          refine ⟨.or qs, Context.qualifyPredicate_eq_ok.mpr (.or hqs), fun read => ?_⟩
          rw [Eval.predicate, Eval.predicate, anyOf_same hsame]
  | not _ ih =>
      rw [Eval.foldPredicate] at h
      cases Context.qualifyPredicate_eq_ok.mp h with
      | not hq' =>
          rcases ih hq' with ⟨q, hq, hsame⟩
          refine ⟨.not q, Context.qualifyPredicate_eq_ok.mpr (.not hq), fun read => ?_⟩
          rw [Eval.predicate, Eval.predicate, hsame]
  | compare hleft hright =>
      rw [Eval.foldPredicate] at h
      cases Context.qualifyPredicate_eq_ok.mp h with
      | compare hl' hr' =>
          rcases fold_qualify hleft hl' with ⟨l, hl, hlv⟩
          rcases fold_qualify hright hr' with ⟨r, hr, hrv⟩
          refine ⟨.compare l _ r, Context.qualifyPredicate_eq_ok.mpr (.compare hl hr),
            fun read => ?_⟩
          rw [Eval.predicate, Eval.predicate, hlv, hrv, isCaseSensitive_text hleft hl,
            isCaseSensitive_text hright hr, isCaseSensitive_text (fold_text hleft) hl',
            isCaseSensitive_text (fold_text hright) hr']
  | isNull he =>
      rw [Eval.foldPredicate] at h
      cases Context.qualifyPredicate_eq_ok.mp h with
      | isNull he' =>
          rcases fold_qualify he he' with ⟨e, hq, hv⟩
          refine ⟨.isNull e _, Context.qualifyPredicate_eq_ok.mpr (.isNull hq), fun read => ?_⟩
          rw [Eval.predicate, Eval.predicate, hv]
  | inList he hitems _ =>
      rw [Eval.foldPredicate] at h
      cases Context.qualifyPredicate_eq_ok.mp h with
      | inList he' hitems' =>
          rcases fold_qualify he he' with ⟨e, hq, hv⟩
          rcases foldAll_qualify hitems hitems' with ⟨qs, hqs, hsame⟩
          refine ⟨.inList e qs _, Context.qualifyPredicate_eq_ok.mpr (.inList hq hqs),
            fun read => ?_⟩
          rw [Eval.predicate, Eval.predicate, hv]
          simp only [memberOf_same hsame]
  | @like _ pattern negated he _ =>
      rw [Eval.foldPredicate] at h
      cases Context.qualifyPredicate_eq_ok.mp h with
      | like he' hpattern' =>
          rcases fold_qualify he he' with ⟨e, hq, hv⟩
          rw [Eval.fold] at hpattern'
          · cases hpattern'
            refine ⟨.like e (.literal (.str pattern)) negated,
              Context.qualifyPredicate_eq_ok.mpr (.like hq rfl), fun read => ?_⟩
            rw [Eval.predicate, Eval.predicate, hv]
          all_goals exact fun _ => by simp

/-!
# Splitting
-/

section

variable {now : Calendar.DateTime}

/-- The row is a record of the table. -/
def IsRecord (records : List Record) (row : Fetch.Joined) : Prop :=
  exists r, r ∈ records ∧ row = .ofRecord "" r

theorem get_joined (r : Record) : (Fetch.Joined.ofRecord "" r).get = r.get :=
  funext fun name => get_ofRecord r name

/-- The platform decides a native condition on a record as its evaluation does. -/
theorem OneScope.decidedAlike (hctx : OneScope t ctx) {p : Predicate}
    (hp : TextPredicate (TextColumn t records) p) :
    DecidedAlike now clock ctx (IsRecord records) p := by
  have hempty : Context.Readable ctx (TextBound t [.ofTable ""]) (.ofRecord "" (.ofTable "")) :=
    hctx.readable List.mem_cons_self
  have htext : forall b, TextBound t records b -> TextBound t [.ofTable ""] b := by
    rintro b ⟨hscope, a, ha, htype, _⟩
    refine ⟨hscope, a, ha, htype, fun r hr => ?_⟩
    cases List.mem_singleton.mp hr
    exact ofKind_text_null
  refine decidedAlike_of_readable (hctx.simple hp) (fun c b hb hb' => hempty c b hb (htext b hb'))
    ?_ ?_
  · rintro row ⟨r, hr, rfl⟩
    exact hctx.readable hr
  · rintro q hq row ⟨r, hr, rfl⟩
    rw [get_joined]
    exact hctx.predicate_text hr hp hq

/-- What the local filter reads is among the columns in use. -/
theorem OneScope.mem_used (hctx : OneScope t ctx) {residual qualified : List Predicate}
    (h : List.Forall₂ (fun p q => ctx.qualifyPredicate p = .ok q) residual qualified)
    {q : Predicate} (hq : Predicate.andAll qualified = some q) {c : Column}
    (hc : c ∈ readsOfPredicate q) :
    exists b, b ∈ residual.foldl (fun used p => ctx.use used (readsOfPredicate p)) [] ∧
      c.rowKey = b.name := by
  rcases mem_reads_andAll hq hc with ⟨q', hq', hc⟩
  rcases Outcome.exists_of_forall₂ h hq' with ⟨p, hp, hpq⟩
  rcases Context.readsOfPredicate_qualify p hpq c hc with ⟨c', hc', b, hb, rfl⟩
  refine ⟨b, mem_foldl_use.mpr (Or.inr ⟨p, hp, mem_use.mpr (Or.inr ⟨c', hc', hb⟩)⟩), ?_⟩
  rcases hctx.bound hb with ⟨rfl, _⟩
  exact hctx.rowKey _

/-- A condition that is split: every record is decided by both parts, as by the whole. -/
structure SplitOn (records : List Record) (now : Calendar.DateTime) (clock : Clock) (ctx : Context)
    (q : Predicate) (split : Split) : Prop where
  scope : forall n, n ∈ split.native -> n.scope = 0
  native : forall r, r ∈ records -> forall n, n ∈ split.native ->
    exists b, Fetch.itemHolds now (ctx.scopes.front n.scope) (.ofRecord "" r) n.item = .ok b
  qualified : forall r, r ∈ records -> forall q', q' ∈ split.qualified ->
    exists u, Eval.predicate clock r.get q' = .ok u
  whole : forall r, r ∈ records -> isTrueOn clock r.get q =
    (split.native.all (holdsNatively now ctx (.ofRecord "" r)) &&
      split.qualified.all (isTrueOn clock r.get))

theorem OneScope.splitOn (hctx : OneScope t ctx) {p : Predicate}
    (hp : TextPredicate (TextColumn t records) p) {split : Split}
    (hsplit : ctx.splitAll (Eval.foldPredicate clock p).pushNot.conjuncts = .ok split) :
    exists q, ctx.qualifyPredicate p = .ok q ∧ SplitOn records now clock ctx q split := by
  have hconjuncts := @normal_text _ clock _ hp
  have hconst : forall q, q ∈ (Eval.foldPredicate clock p).pushNot.conjuncts ->
      q ≠ .const .isTrue := by
    rintro q hq rfl
    cases hconjuncts _ hq
  have hdivided := Plan.splitAll_divided hconst hsplit
  have halike := fun q hq => @OneScope.decidedAlike t ctx records clock now hctx q (hconjuncts q hq)
  rcases hdivided.isTrueOn_eq halike with ⟨q', hq', hwhole⟩
  rcases foldPredicate_qualify hp hq' with ⟨q, hq, hsame⟩
  refine ⟨q, hq, ?_, ?_, ?_, ?_⟩
  · intro n hn
    rcases hdivided.mem_native hn with ⟨p', hp', hnative, _⟩
    exact hctx.scope_native (hconjuncts p' hp') hnative
  · intro r hr n hn
    rcases hdivided.mem_native hn with ⟨p', hp', hnative, _⟩
    rcases halike p' hp' n hnative with ⟨_, _, hitem⟩
    exact ⟨_, hitem _ ⟨r, hr, rfl⟩⟩
  · intro r hr q' hq'
    rcases hdivided.mem_qualified hq' with ⟨p', hp', hpq⟩
    exact hctx.predicate_text hr (hconjuncts p' hp') hpq
  · intro r hr
    have hrow := hwhole (.ofRecord "" r) ⟨r, hr, rfl⟩
    rw [get_joined] at hrow
    rw [<- hrow, isTrueOn, isTrueOn, hsame]

/-- The two parts of a condition keep the records on which it is true. -/
theorem OneScope.applyWhere_keeps (hctx : OneScope t ctx) (hroot : ctx.fetch.root.filters = [])
    {criteria : Option Predicate}
    (hcriteria : forall p, criteria = some p -> TextPredicate (TextColumn t records) p)
    {ctx' : Context} {residual : Residual}
    (h : ctx.applyWhere clock criteria = .ok (ctx', residual)) :
    exists filters native condition, ctx' = withFilters ctx filters ∧
      criteria.mapM ctx.qualifyPredicate = .ok condition ∧
      Keeps t records now clock (fun r => condition.all (isTrueOn clock r.get)) filters residual
        native := by
  cases criteria with
  | none =>
      cases h
      refine ⟨[], fun _ => true, none, (withFilters_self hroot).symm, rfl, fun _ _ => rfl,
        fun _ _ _ => rfl, ?_, ?_⟩
      · intro q hq
        cases hq
      · intro b hb
        cases hb
  | some p =>
      rcases Context.applyWhere_some h with ⟨split, hsplit, rfl, rfl⟩
      rcases @OneScope.splitOn t ctx records clock now hctx p (hcriteria p rfl) split hsplit with
        ⟨q, hq, hon⟩
      rcases @OneScope.attachAll t ctx now hctx hroot _ hon.scope with ⟨filters, hattach, hholds⟩
      refine ⟨filters, fun r => split.native.all (holdsNatively now ctx (.ofRecord "" r)), some q,
        hattach, by rw [Option.mapM_some, hq]; rfl, ?_, ?_, ?_, ?_⟩
      · intro r hr
        have hall := Plan.allHold_eq_all hon.scope (hon.native r hr)
        rw [hctx.front 0] at hall
        rw [hholds, hall]
      · intro (hnone : Predicate.andAll split.qualified = none) r hr
        have hlocal := @andAll_isTrueOn clock r.get split.qualified
        rw [hnone, Option.all_none] at hlocal
        rw [Option.all_some, hon.whole r hr, <- hlocal, Bool.and_true]
      · intro q' (hq' : Predicate.andAll split.qualified = some q') r hr read hread
        have hcongr : Eval.predicate clock read q' = Eval.predicate clock r.get q' := by
          refine Eval.predicate_congr q' fun c hc => ?_
          rcases hctx.mem_used (Plan.splitAll_qualified hsplit) hq' hc with ⟨b, hb, hkey⟩
          rw [hkey]
          exact hread b hb
        rcases andAll_total (hon.qualified r hr) hq' with ⟨u, hu⟩
        have hlocal := @andAll_isTrueOn clock r.get split.qualified
        rw [hq', Option.all_some, isTrueOn_of_ok hu] at hlocal
        refine ⟨u, hcongr.trans hu, ?_⟩
        rw [hlocal, Option.all_some, hon.whole r hr]
      · intro b hb
        rcases mem_foldl_use.mp hb with hb | ⟨p', _, hb⟩
        · cases hb
        · exact hctx.listed_of_mem_use (fun _ h => by cases h) hb

theorem Keeps.congr {kept kept' native : Record -> Bool} {filters : List Fetch.Filter}
    {residual : Residual} (h : Keeps t records now clock kept filters residual native)
    (hkept : forall r, r ∈ records -> kept r = kept' r) :
    Keeps t records now clock kept' filters residual native where
  filters := h.filters
  whole hnone r hr := (h.whole hnone r hr).trans (hkept r hr)
  rest q hq r hr read hread := by
    rcases h.rest q hq r hr read hread with ⟨u, hu, hboth⟩
    exact ⟨u, hu, hboth.trans (hkept r hr)⟩
  used := h.used

theorem sees_self (columns : List Column) : Sees t r.get r columns :=
  fun _ _ => rfl

/-- With the options of a new session, these are the records of which the condition holds. -/
theorem applyWhere_keeps (hctx : Single t ctx) (hroot : ctx.fetch.root.filters = [])
    {criteria : Option Predicate}
    (hcriteria : forall p, criteria = some p -> TextPredicate (TextColumn t records) p)
    {ctx' : Context} {residual : Residual}
    (h : ctx.applyWhere clock criteria = .ok (ctx', residual)) :
    exists filters native, ctx' = withFilters ctx filters ∧
      Keeps t records now clock (fun r => criteria.all fun p => (truth t r p).holds) filters
        residual native := by
  rcases @OneScope.applyWhere_keeps t ctx records clock now hctx.toOneScope hroot _ hcriteria _ _ h
    with ⟨filters, native, condition, hctx', hcondition, hkeeps⟩
  refine ⟨filters, native, hctx', hkeeps.congr fun r hr => ?_⟩
  cases criteria with
  | none =>
      cases hcondition
      rfl
  | some p =>
      rcases Outcome.bind_eq_ok.mp hcondition with ⟨q, hq, hsome⟩
      cases hsome
      rw [Option.all_some, Option.all_some,
        isTrueOn_of_ok (predicate_qualify hctx hr (hcriteria p rfl) hq (sees_self _))]

end

end TextQuery
end RecordSql
