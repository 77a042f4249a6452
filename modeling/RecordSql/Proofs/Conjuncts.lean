import RecordSql.Proofs.FilterAgreement
import RecordSql.Proofs.Negation
import RecordSql.Proofs.Qualification

/-!
# Conditions as conjunctions

A condition is split into its conjuncts, each of which is decided by the platform or by the local
steps.  If the platform decides a conjunct as its evaluation would, a row on which all conjuncts can
be evaluated is kept exactly when the whole condition is true on it.
-/

namespace RecordSql
namespace Plan

open Fetch (Joined itemHolds)
open Sql (Comparison Predicate Scalar Truth)

/-!
# Conditions that can be evaluated
-/

section

variable {ctx : Context} {clock : Clock} {read : String -> Value}

theorem allOf_total {qs : List Predicate}
    (h : forall q, q ∈ qs -> exists t, Eval.predicate clock read q = .ok t) (sofar : Truth) :
    exists t, Eval.allOf clock read sofar qs = .ok t := by
  induction qs generalizing sofar with
  | nil =>
      exact ⟨sofar, rfl⟩
  | cons q rest ih =>
      rcases h q List.mem_cons_self with ⟨t, ht⟩
      rw [Eval.allOf, ht, Outcome.ok_bind]
      dsimp only
      split
      · exact ⟨_, rfl⟩
      · exact ih (fun q hq => h q (List.mem_cons_of_mem _ hq)) _

theorem anyOf_total {qs : List Predicate}
    (h : forall q, q ∈ qs -> exists t, Eval.predicate clock read q = .ok t) (sofar : Truth) :
    exists t, Eval.anyOf clock read sofar qs = .ok t := by
  induction qs generalizing sofar with
  | nil =>
      exact ⟨sofar, rfl⟩
  | cons q rest ih =>
      rcases h q List.mem_cons_self with ⟨t, ht⟩
      rw [Eval.anyOf, ht, Outcome.ok_bind]
      dsimp only
      split
      · exact ⟨_, rfl⟩
      · exact ih (fun q hq => h q (List.mem_cons_of_mem _ hq)) _

theorem memberOf_total {qs : List Scalar}
    (h : forall q, q ∈ qs -> exists w, Eval.scalar clock read q = .ok w) (v : Value)
    (sofar : Truth) : exists t, Eval.memberOf clock read v sofar qs = .ok t := by
  induction qs generalizing sofar with
  | nil =>
      exact ⟨sofar, rfl⟩
  | cons q rest ih =>
      rcases h q List.mem_cons_self with ⟨w, hw⟩
      rw [Eval.memberOf, hw, Outcome.ok_bind]
      dsimp only
      split
      · exact ⟨_, rfl⟩
      · exact ih (fun q hq => h q (List.mem_cons_of_mem _ hq)) _

/-- Once it is qualified, the expression has a value on the row. -/
def HasValue (ctx : Context) (clock : Clock) (read : String -> Value) (e : Scalar) : Prop :=
  forall q, ctx.qualify e = .ok q -> exists v, Eval.scalar clock read q = .ok v

/-- Conditions of which all operands have values; a pattern has to be a well-formed text. -/
inductive HasTruth (ctx : Context) (clock : Clock) (read : String -> Value) :
    Predicate -> Prop where
  | and {items : List Predicate} (h : forall p, p ∈ items -> HasTruth ctx clock read p) :
      HasTruth ctx clock read (.and items)
  | or {items : List Predicate} (h : forall p, p ∈ items -> HasTruth ctx clock read p) :
      HasTruth ctx clock read (.or items)
  | not {p : Predicate} (h : HasTruth ctx clock read p) : HasTruth ctx clock read (.not p)
  | compare {left right : Scalar} {op : Comparison} (hleft : HasValue ctx clock read left)
      (hright : HasValue ctx clock read right) : HasTruth ctx clock read (.compare left op right)
  | isNull {e : Scalar} {negated : Bool} (he : HasValue ctx clock read e) :
      HasTruth ctx clock read (.isNull e negated)
  | inList {e : Scalar} {items : List Scalar} {negated : Bool} (he : HasValue ctx clock read e)
      (hitems : forall item, item ∈ items -> HasValue ctx clock read item) :
      HasTruth ctx clock read (.inList e items negated)
  | like {e pattern : Scalar} {negated : Bool} (he : HasValue ctx clock read e)
      (hpattern : forall q, ctx.qualify pattern = .ok q ->
        exists text, q = .literal (.str text) ∧ (Like.compile .standard text).isSome = true) :
      HasTruth ctx clock read (.like e pattern negated)

theorem HasTruth.total {p q : Predicate} (hp : HasTruth ctx clock read p)
    (h : ctx.qualifyPredicate p = .ok q) : exists t, Eval.predicate clock read q = .ok t := by
  induction hp generalizing q with
  | and _ ih =>
      cases Context.qualifyPredicate_eq_ok.mp h with
      | and hqs =>
          have hitems := Context.qualifyPredicates_eq_ok.mp hqs
          rw [Eval.predicate]
          refine allOf_total (fun q hq => ?_) .isTrue
          rcases Outcome.exists_of_forall₂ hitems hq with ⟨p, hp, hpq⟩
          exact ih p hp hpq
  | or _ ih =>
      cases Context.qualifyPredicate_eq_ok.mp h with
      | or hqs =>
          have hitems := Context.qualifyPredicates_eq_ok.mp hqs
          rw [Eval.predicate]
          refine anyOf_total (fun q hq => ?_) .isFalse
          rcases Outcome.exists_of_forall₂ hitems hq with ⟨p, hp, hpq⟩
          exact ih p hp hpq
  | not _ ih =>
      cases Context.qualifyPredicate_eq_ok.mp h with
      | not hq' =>
          rcases ih hq' with ⟨t, ht⟩
          rw [Eval.predicate, ht]
          exact ⟨_, rfl⟩
  | compare hleft hright =>
      cases Context.qualifyPredicate_eq_ok.mp h with
      | compare hl hr =>
          rcases hleft _ hl with ⟨v, hv⟩
          rcases hright _ hr with ⟨w, hw⟩
          rw [Eval.predicate, hv, hw]
          exact ⟨_, rfl⟩
  | isNull he =>
      cases Context.qualifyPredicate_eq_ok.mp h with
      | isNull he' =>
          rcases he _ he' with ⟨v, hv⟩
          rw [Eval.predicate, hv]
          exact ⟨_, rfl⟩
  | inList he hitems =>
      cases Context.qualifyPredicate_eq_ok.mp h with
      | @inList _ _ _ qs _ he' hitems' =>
          have hvalues : forall q, q ∈ qs -> exists w, Eval.scalar clock read q = .ok w := by
            intro q hq
            rcases Outcome.exists_of_forall₂ (Context.qualifyList_eq_ok.mp hitems') hq with
              ⟨item, hitem, hiq⟩
            exact hitems item hitem q hiq
          rcases he _ he' with ⟨v, hv⟩
          rcases memberOf_total hvalues v .isFalse with ⟨t, ht⟩
          rw [Eval.predicate, hv, Outcome.ok_bind, ht]
          exact ⟨_, rfl⟩
  | like he hpattern =>
      cases Context.qualifyPredicate_eq_ok.mp h with
      | like he' hpattern' =>
          rcases he _ he' with ⟨v, hv⟩
          rcases hpattern _ hpattern' with ⟨text, rfl, hcompile⟩
          rcases Eval.likeTruth_total hcompile v with ⟨t, ht⟩
          rw [Eval.predicate, hv, Outcome.ok_bind]
          change exists t', (Eval.likeTruth .standard v (.str text) >>= _) = .ok t'
          rw [ht]
          exact ⟨_, rfl⟩

theorem andAll_total {qs : List Predicate}
    (h : forall q, q ∈ qs -> exists t, Eval.predicate clock read q = .ok t) {q : Predicate}
    (hq : Predicate.andAll qs = some q) : exists t, Eval.predicate clock read q = .ok t := by
  match qs with
  | [] =>
      cases hq
  | [first] =>
      cases hq
      exact h q List.mem_cons_self
  | first :: second :: rest =>
      cases hq
      rw [Eval.predicate]
      exact allOf_total h .isTrue

/-!
# Conditions that are true

A conjunction is true if its members are, even if some of these cannot be evaluated.
-/

/-- The condition is true, evaluated without an error. -/
def isTrueOn (clock : Clock) (read : String -> Value) (q : Predicate) : Bool :=
  match Eval.predicate clock read q with
  | .ok t => t.holds
  | .error _ => false

theorem isTrueOn_of_ok {q : Predicate} {t : Truth} (h : Eval.predicate clock read q = .ok t) :
    isTrueOn clock read q = t.holds := by
  rw [isTrueOn, h]

theorem isTrueOn_iff {q : Predicate} :
    isTrueOn clock read q = true <-> Eval.predicate clock read q = .ok .isTrue := by
  rw [isTrueOn]
  cases Eval.predicate clock read q with
  | error e =>
      simp
  | ok t =>
      cases t <;> simp [Truth.holds]

theorem allOf_isTrue_iff {qs : List Predicate} :
    Eval.allOf clock read .isTrue qs = .ok .isTrue <->
      qs.all (isTrueOn clock read) = true := by
  induction qs with
  | nil =>
      simp [Eval.allOf]
  | cons q rest ih =>
      rw [Eval.allOf, List.all_cons, Bool.and_eq_true, isTrueOn_iff, <- ih]
      cases hq : Eval.predicate clock read q with
      | error e =>
          simp
      | ok t =>
          cases t with
          | isTrue =>
              rw [Outcome.ok_bind]
              exact (and_iff_right rfl).symm
          | isFalse =>
              simp [Truth.and]
          | unknown =>
              refine ⟨fun h => ?_, fun h => ?_⟩
              · rw [Outcome.ok_bind] at h
                cases @Context.holds_allOf_of_not_holds clock read .unknown _ _ rfl h
              · cases h.1

theorem andAll_isTrueOn (qs : List Predicate) :
    (Predicate.andAll qs).all (isTrueOn clock read) = qs.all (isTrueOn clock read) := by
  match qs with
  | [] =>
      rfl
  | [q] =>
      rw [Predicate.andAll, Option.all_some, List.all_cons, List.all_nil, Bool.and_true]
  | q :: q' :: rest =>
      change isTrueOn clock read (.and (q :: q' :: rest)) = _
      rw [Bool.eq_iff_iff, isTrueOn_iff, Eval.predicate, allOf_isTrue_iff]

/-- The whole condition is true if its conjuncts are. -/
theorem isTrueOn_conjuncts {p : Predicate} {qs : List Predicate}
    (hqs : List.Forall₂ (fun p q => ctx.qualifyPredicate p = .ok q) p.pushNot.conjuncts qs) :
    exists q, ctx.qualifyPredicate p = .ok q ∧
      forall read, isTrueOn clock read q = qs.all (isTrueOn clock read) := by
  have hlist := Context.qualifyPredicates_eq_ok.mpr hqs
  rw [Context.qualifyPredicates_conjuncts, Context.qualifyPredicate_pushNot] at hlist
  cases hq : ctx.qualifyPredicate p with
  | error e =>
      rw [hq] at hlist
      cases hlist
  | ok q =>
      rw [hq] at hlist
      cases hlist
      refine ⟨q, rfl, fun read => ?_⟩
      rw [Bool.eq_iff_iff, isTrueOn_iff, <- allOf_isTrue_iff, Eval.allOf_conjuncts,
        Eval.predicate_pushNot]

/-!
# Columns of conjunctions
-/

theorem mem_readsOfPredicates {c : Sql.Column} {qs : List Predicate}
    (h : c ∈ readsOfPredicates qs) : exists q, q ∈ qs ∧ c ∈ readsOfPredicate q := by
  induction qs with
  | nil =>
      cases h
  | cons q rest ih =>
      rw [readsOfPredicates] at h
      rcases List.mem_append.mp h with h | h
      · exact ⟨q, List.mem_cons_self, h⟩
      · rcases ih h with ⟨q', hq', hc⟩
        exact ⟨q', List.mem_cons_of_mem _ hq', hc⟩

theorem mem_reads_andAll {c : Sql.Column} {qs : List Predicate} {q : Predicate}
    (hq : Predicate.andAll qs = some q) (hc : c ∈ readsOfPredicate q) :
    exists q', q' ∈ qs ∧ c ∈ readsOfPredicate q' := by
  match qs with
  | [] =>
      cases hq
  | [first] =>
      cases hq
      exact ⟨q, List.mem_cons_self, hc⟩
  | first :: second :: rest =>
      cases hq
      exact mem_readsOfPredicates hc

end

/-!
# Dividing the conjuncts
-/

section

variable {ctx : Context} {clock : Clock} {now : Calendar.DateTime}

/-- How conjuncts are divided: each becomes native or stays, qualified, with the local steps. -/
inductive Divided (ctx : Context) : List Predicate -> List Native -> List Predicate -> Prop where
  | nil : Divided ctx [] [] []
  | native {p : Predicate} {n : Native} {rest : List Predicate} {found : List Native}
      {qualified : List Predicate} (h : ctx.native p = .ok (some n))
      (hinner : ctx.scopes.isOuter n.scope = false) (hrest : Divided ctx rest found qualified) :
      Divided ctx (p :: rest) (n :: found) qualified
  | kept {p q : Predicate} {rest : List Predicate} {found : List Native}
      {qualified : List Predicate} (h : ctx.qualifyPredicate p = .ok q)
      (hrest : Divided ctx rest found qualified) :
      Divided ctx (p :: rest) found (q :: qualified)

theorem splitAll_divided {conjuncts : List Predicate}
    (hconst : forall p, p ∈ conjuncts -> p ≠ .const .isTrue) {split : Split}
    (h : ctx.splitAll conjuncts = .ok split) :
    Divided ctx conjuncts split.native split.qualified := by
  induction conjuncts generalizing split with
  | nil =>
      rw [Context.splitAll] at h
      cases h
      exact .nil
  | cons p rest ih =>
      have hrest := fun q hq => hconst q (List.mem_cons_of_mem p hq)
      rcases Context.splitAll_cons (hconst p List.mem_cons_self) h with ⟨split', hsplit', hp⟩
      rcases hp with ⟨n, hn, hinner, rfl⟩ | ⟨q, hq, rfl⟩
      · exact .native hn hinner (ih hrest hsplit')
      · exact .kept hq (ih hrest hsplit')

/-- What stays with the local steps is kept as it is in the statement and qualified. -/
theorem splitAll_qualified {conjuncts : List Predicate} {split : Split}
    (h : ctx.splitAll conjuncts = .ok split) :
    List.Forall₂ (fun p q => ctx.qualifyPredicate p = .ok q) split.residual split.qualified := by
  induction conjuncts generalizing split with
  | nil =>
      rw [Context.splitAll] at h
      cases h
      exact .nil
  | cons p rest ih =>
      by_cases hp : p = .const .isTrue
      · subst hp
        rw [Context.splitAll] at h
        exact ih h
      · rcases Context.splitAll_cons hp h with ⟨split', hsplit', hpart⟩
        rcases hpart with ⟨n, _, _, rfl⟩ | ⟨q, hq, rfl⟩
        · have hrest := ih hsplit'
          exact hrest
        · exact .cons hq (ih hsplit')

/-- The platform keeps the row by a native condition. -/
def holdsNatively (now : Calendar.DateTime) (ctx : Context) (row : Joined) (n : Native) : Bool :=
  match itemHolds now (ctx.scopes.front n.scope) row n.item with
  | .ok b => b
  | .error _ => false

theorem allHold_eq_all {now : Calendar.DateTime} {row : Joined} {found : List Native} {scope : Nat}
    (hscope : forall n, n ∈ found -> n.scope = scope)
    (h : forall n, n ∈ found ->
      exists b, itemHolds now (ctx.scopes.front n.scope) row n.item = .ok b) :
    Fetch.allHold now (ctx.scopes.front scope) row (found.map (·.item)) =
      .ok (found.all (holdsNatively now ctx row)) := by
  induction found with
  | nil =>
      rfl
  | cons n rest ih =>
      rcases h n List.mem_cons_self with ⟨b, hb⟩
      have hrest := ih (fun n hn => hscope n (List.mem_cons_of_mem _ hn))
        (fun n hn => h n (List.mem_cons_of_mem _ hn))
      rw [List.map_cons, Fetch.allHold_cons, List.all_cons, hrest, holdsNatively, hb,
        <- hscope n List.mem_cons_self, hb]
      cases b <;> rfl

theorem Divided.mem_native {conjuncts : List Predicate} {found : List Native}
    {qualified : List Predicate} (h : Divided ctx conjuncts found qualified) {n : Native}
    (hn : n ∈ found) :
    exists p, p ∈ conjuncts ∧ ctx.native p = .ok (some n) ∧ ctx.scopes.isOuter n.scope = false := by
  induction h with
  | nil =>
      cases hn
  | native hp hinner _ ih =>
      rcases List.mem_cons.mp hn with rfl | hn
      · exact ⟨_, List.mem_cons_self, hp, hinner⟩
      · rcases ih hn with ⟨p, hp, hrest⟩
        exact ⟨p, List.mem_cons_of_mem _ hp, hrest⟩
  | kept _ _ ih =>
      rcases ih hn with ⟨p, hp, hrest⟩
      exact ⟨p, List.mem_cons_of_mem _ hp, hrest⟩

theorem Divided.mem_qualified {conjuncts : List Predicate} {found : List Native}
    {qualified : List Predicate} (h : Divided ctx conjuncts found qualified) {q : Predicate}
    (hq : q ∈ qualified) : exists p, p ∈ conjuncts ∧ ctx.qualifyPredicate p = .ok q := by
  induction h with
  | nil =>
      cases hq
  | native _ _ _ ih =>
      rcases ih hq with ⟨p, hp, hpq⟩
      exact ⟨p, List.mem_cons_of_mem _ hp, hpq⟩
  | kept hp _ ih =>
      rcases List.mem_cons.mp hq with rfl | hq
      · exact ⟨_, List.mem_cons_self, hp⟩
      · rcases ih hq with ⟨p, hp, hpq⟩
        exact ⟨p, List.mem_cons_of_mem _ hp, hpq⟩

/-- The conjunct is decided on the rows by the platform as it is by its evaluation. -/
def DecidedAlike (now : Calendar.DateTime) (clock : Clock) (ctx : Context) (good : Joined -> Prop)
    (p : Predicate) : Prop :=
  forall n, ctx.native p = .ok (some n) -> exists q, ctx.qualifyPredicate p = .ok q ∧
    forall row, good row ->
      itemHolds now (ctx.scopes.front n.scope) row n.item = .ok (isTrueOn clock row.get q)

/--
A native condition with a truth value is decided alike on rows that can be read.  That it can be
qualified is seen from any such row, even a row without values.
-/
theorem decidedAlike_of_readable {known : Bound -> Prop} {good : Joined -> Prop} {p : Predicate}
    {row₀ : Joined} (hp : Simple ctx known p) (hrow₀ : Context.Readable ctx known row₀)
    (hgood : forall row, good row -> Context.Readable ctx known row)
    (htotal : forall q, ctx.qualifyPredicate p = .ok q -> forall row, good row ->
      exists t, Eval.predicate clock row.get q = .ok t) :
    DecidedAlike now clock ctx good p := by
  intro n hn
  rcases @Context.agrees_of_simple ctx _ now clock _ hrow₀ p hp n hn with ⟨q, hq, _⟩
  refine ⟨q, hq, fun row hrow => ?_⟩
  rcases Context.agrees_of_simple (hgood row hrow) hp hn with ⟨q', hq', hagree⟩
  cases hq.symm.trans hq'
  rcases htotal q hq row hrow with ⟨t, ht⟩
  rw [isTrueOn_of_ok ht]
  exact hagree t ht

/-- The conjuncts are true on a row if the native ones hold and the kept ones are true. -/
theorem Divided.all_eq {good : Joined -> Prop} {conjuncts : List Predicate} {found : List Native}
    {qualified : List Predicate} (h : Divided ctx conjuncts found qualified)
    (halike : forall p, p ∈ conjuncts -> DecidedAlike now clock ctx good p) :
    exists qs, List.Forall₂ (fun p q => ctx.qualifyPredicate p = .ok q) conjuncts qs ∧
      forall row, good row -> qs.all (isTrueOn clock row.get) =
        (found.all (holdsNatively now ctx row) && qualified.all (isTrueOn clock row.get)) := by
  induction h with
  | nil =>
      exact ⟨[], .nil, fun _ _ => rfl⟩
  | native hn _ _ ih =>
      rcases halike _ List.mem_cons_self _ hn with ⟨q, hq, hholds⟩
      rcases ih fun p hp => halike p (List.mem_cons_of_mem _ hp) with ⟨qs, hqs, hall⟩
      refine ⟨q :: qs, .cons hq hqs, fun row hrow => ?_⟩
      rw [List.all_cons, List.all_cons, hall row hrow, holdsNatively, hholds row hrow,
        Bool.and_assoc]
  | kept hq _ ih =>
      rcases ih fun p hp => halike p (List.mem_cons_of_mem _ hp) with ⟨qs, hqs, hall⟩
      refine ⟨_ :: qs, .cons hq hqs, fun row hrow => ?_⟩
      rw [List.all_cons, List.all_cons, hall row hrow, Bool.and_left_comm]

/-- A condition is true on a row if its native part holds and its local part is true. -/
theorem Divided.isTrueOn_eq {good : Joined -> Prop} {p : Predicate} {found : List Native}
    {qualified : List Predicate} (h : Divided ctx p.pushNot.conjuncts found qualified)
    (halike : forall q, q ∈ p.pushNot.conjuncts -> DecidedAlike now clock ctx good q) :
    exists q, ctx.qualifyPredicate p = .ok q ∧ forall row, good row -> isTrueOn clock row.get q =
      (found.all (holdsNatively now ctx row) && qualified.all (isTrueOn clock row.get)) := by
  rcases h.all_eq halike with ⟨qs, hqs, hall⟩
  rcases @isTrueOn_conjuncts ctx clock p qs hqs with ⟨q, hq, hwhole⟩
  exact ⟨q, hq, fun row hrow => (hwhole row.get).trans (hall row hrow)⟩

end

end Plan
end RecordSql
