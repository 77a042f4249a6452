import RecordSql.Proofs.FilterAgreement
import RecordSql.Proofs.Negation
import RecordSql.Proofs.TextQuery.Evaluation

/-!
# Conditions on texts

The condition of a query is folded, its negations are pushed inwards, and its conjuncts are split
into those that the platform decides and those that a local step decides.  All of them are
conditions on texts again, and the native ones become one filter.
-/

namespace RecordSql
namespace TextQuery

open Plan (Bound Context Native Plain Residual Simple)
open Sql (Column Predicate Scalar)

variable {known : Column -> Prop} {clock : Clock}

/-!
# Folding
-/

theorem literal_cases {e : Scalar} (he : TextScalar known e) (h : e.isLiteral = true) :
    (exists s, e = .literal (.str s)) ∨ e = .literal .null := by
  cases he with
  | text s =>
      exact Or.inl ⟨s, rfl⟩
  | missing =>
      exact Or.inr rfl
  | column _ =>
      cases h
  | join _ _ =>
      cases h

/-- The join of two literals is a literal. -/
theorem literalOr_join {left right : Scalar} (hleft : TextScalar known left)
    (hright : TextScalar known right) (h : (left.isLiteral && right.isLiteral) = true) :
    TextScalar known (Eval.literalOr clock (.binary left .add right)) := by
  rcases Bool.and_eq_true_iff.mp h with ⟨hl, hr⟩
  rcases literal_cases hleft hl with ⟨s, rfl⟩ | rfl
  · rcases literal_cases hright hr with ⟨u, rfl⟩ | rfl
    · exact .text (s ++ u)
    · exact .missing
  · rcases literal_cases hright hr with ⟨u, rfl⟩ | rfl
    · exact .missing
    · exact .missing

theorem fold_text {e : Scalar} (he : TextScalar known e) :
    TextScalar known (Eval.fold clock e) := by
  induction he with
  | text s =>
      exact .text s
  | missing =>
      exact .missing
  | column h =>
      exact .column h
  | join _ _ ihLeft ihRight =>
      rw [Eval.fold]
      split
      · rename_i hliteral
        exact literalOr_join ihLeft ihRight hliteral
      · exact .join ihLeft ihRight

theorem foldAll_text {items : List Scalar} (h : forall e, e ∈ items -> TextScalar known e) :
    forall e, e ∈ Eval.foldAll clock items -> TextScalar known e := by
  induction items with
  | nil =>
      rw [Eval.foldAll]
      exact h
  | cons e rest ih =>
      rw [Eval.foldAll]
      exact List.forall_mem_cons.mpr ⟨fold_text (h e List.mem_cons_self),
        ih fun e' he' => h e' (List.mem_cons_of_mem _ he')⟩

theorem foldAll_ne_nil {items : List Scalar} (h : items ≠ []) : Eval.foldAll clock items ≠ [] := by
  cases items with
  | nil =>
      exact absurd rfl h
  | cons e rest =>
      rw [Eval.foldAll]
      exact List.cons_ne_nil _ _

theorem foldPredicates_text {items : List Predicate}
    (h : forall p, p ∈ items -> TextPredicate known (Eval.foldPredicate clock p)) :
    forall p, p ∈ Eval.foldPredicates clock items -> TextPredicate known p := by
  induction items with
  | nil =>
      intro p hp
      rw [Eval.foldPredicates] at hp
      cases hp
  | cons p rest ih =>
      rw [Eval.foldPredicates]
      exact List.forall_mem_cons.mpr ⟨h p List.mem_cons_self,
        ih fun q hq => h q (List.mem_cons_of_mem _ hq)⟩

theorem foldPredicate_text {p : Predicate} (hp : TextPredicate known p) :
    TextPredicate known (Eval.foldPredicate clock p) := by
  induction hp with
  | and _ ih =>
      rw [Eval.foldPredicate]
      exact .and (foldPredicates_text ih)
  | or _ ih =>
      rw [Eval.foldPredicate]
      exact .or (foldPredicates_text ih)
  | not _ ih =>
      rw [Eval.foldPredicate]
      exact .not ih
  | compare hleft hright =>
      rw [Eval.foldPredicate]
      exact .compare (fold_text hleft) (fold_text hright)
  | isNull he =>
      rw [Eval.foldPredicate]
      exact .isNull (fold_text he)
  | inList he hitems hsome =>
      rw [Eval.foldPredicate]
      exact .inList (fold_text he) (foldAll_text hitems) (foldAll_ne_nil hsome)
  | like he hpattern =>
      rw [Eval.foldPredicate]
      exact .like (fold_text he) hpattern

theorem TextPredicate.closed : Predicate.Closed (TextPredicate known) where
  and := ⟨fun | .and h => h, .and⟩
  or := ⟨fun | .or h => h, .or⟩
  not := ⟨fun | .not h => h, .not⟩
  compare
    | .compare hleft hright => .compare hleft hright
  isNull
    | .isNull he => .isNull he
  inList
    | .inList he hitems hsome => .inList he hitems hsome
  like
    | .like he hpattern => .like he hpattern
  const h := by cases h

/-- The conjuncts that a condition is split into, before any of them is native. -/
theorem normal_text {p : Predicate} (hp : TextPredicate known p) :
    forall q, q ∈ (Eval.foldPredicate clock p).pushNot.conjuncts -> TextPredicate known q :=
  TextPredicate.closed.normal (foldPredicate_text hp)

/-!
# Native conjuncts

A column of the class has a type of texts, and the rows that the platform reads hold a text for it
or nothing.
-/

section

variable {t : TableDef} {r : Record} {ctx : Context} {records : List Record}
  {now : Calendar.DateTime}

theorem get_ofRecord (r : Record) (name : String) :
    (Fetch.Joined.ofRecord "" r).get name = r.get name := by
  have h : (r.attributes.withFront "").get? name = r.attributes.get? name := by
    cases hd : r.attributes.get? name with
    | some v =>
        exact (Dict.get?_withFront "" _).mpr ⟨name, by rw [String.empty_append], hd⟩
    | none =>
        cases hf : (r.attributes.withFront "").get? name with
        | none =>
            rfl
        | some v =>
            rcases (Dict.get?_withFront "" _).mp hf with ⟨name', hname, hv⟩
            rw [String.empty_append] at hname
            rw [<- hname, hd] at hv
            cases hv
  rw [Fetch.Joined.get, Fetch.Joined.ofRecord, h]
  rfl

theorem OneScope.front (hctx : OneScope t ctx) (n : Nat) : ctx.scopes.front n = "" := by
  rcases hctx.scopes with ⟨aliasName, hscopes⟩
  rw [hscopes]
  cases n <;> rfl

/-- The bound column is one of those that the class speaks of. -/
def TextBound (t : TableDef) (records : List Record) (b : Bound) : Prop :=
  b.scope = 0 ∧ exists a, t.attribute? b.name = some a ∧ a.type.isString = true ∧
    forall r, r ∈ records -> Value.OfKind .text (r.get b.name)

theorem OneScope.textBound (hctx : OneScope t ctx) {c : Column} (hc : TextColumn t records c)
    {b : Bound} (h : ctx.resolve c = .ok (some b)) : TextBound t records b := by
  rcases hctx.bound h with ⟨rfl, a, ha⟩
  have hname : attributeName t c = a.name := by
    rw [attributeName, ha]
    rfl
  rcases hc a ha with ⟨htype, hvalues⟩
  refine ⟨rfl, a, ?_, htype, ?_⟩
  · rw [hname]
    exact TableDef.attribute?_self ha
  · intro r hr
    rw [hname]
    exact hvalues r hr

theorem OneScope.readable (hctx : OneScope t ctx) (hr : r ∈ records) :
    Context.Readable ctx (TextBound t records) (.ofRecord "" r) := by
  intro c b _ hb
  rcases hb with ⟨hscope, a, ha, htype, hvalues⟩
  rcases hctx.scopes with ⟨aliasName, hscopes⟩
  refine ⟨a.type, ?_, ?_⟩
  · rw [Context.typeOf?, Plan.Scopes.attributeOf, Plan.Scopes.attributeIn, hscopes, hscope]
    simp [ha]
  · have hkey : ctx.scopes.rowKey b = b.name := by
      have hb : b = ⟨0, b.name⟩ := by rw [<- hscope]
      rw [hb, hctx.rowKey]
    rw [hkey, get_ofRecord]
    rcases ofKind_text_cases (hvalues r hr) with hv | ⟨s, hv⟩
    · rw [hv]
      trivial
    · rw [hv]
      exact htype

theorem OneScope.plain (hctx : OneScope t ctx) {e : Scalar}
    (he : TextScalar (TextColumn t records) e) : Plain ctx (TextBound t records) e := by
  cases he with
  | text s =>
      exact .text s
  | missing =>
      exact .missing
  | column h =>
      exact .column _ fun b hb => hctx.textBound h hb
  | join _ _ =>
      exact .computed _ rfl fun _ _ _ h => by cases h

theorem OneScope.simple (hctx : OneScope t ctx) {p : Predicate}
    (hp : TextPredicate (TextColumn t records) p) : Simple ctx (TextBound t records) p := by
  induction hp with
  | and _ ih =>
      exact .and ih
  | or _ ih =>
      exact .or ih
  | not h _ =>
      refine .not ?_
      intro c wanted heq
      rw [heq] at h
      cases h
  | compare hleft hright =>
      exact .compare (hctx.plain hleft) (hctx.plain hright)
        fun b _ => Or.inl (hctx.front b.scope)
  | isNull h =>
      exact .isNull (hctx.plain h)
  | inList h hitems hsome =>
      exact .inList (hctx.plain h) (fun item hi => hctx.plain (hitems item hi)) hsome
  | like h _ =>
      exact .like (hctx.plain h) (.text _)

theorem OneScope.scope_native (hctx : OneScope t ctx) {p : Predicate}
    (hp : TextPredicate (TextColumn t records) p) {found : Native}
    (h : ctx.native p = .ok (some found)) : found.scope = 0 := by
  have hlt := Context.native_scope_lt (hctx.simple hp) h
  rcases hctx.scopes with ⟨aliasName, hscopes⟩
  rw [hscopes] at hlt
  simpa using hlt

/-!
# Attaching

The native conjuncts become one filter of the root.
-/

/-- The context with other filters at its root. -/
def withFilters (ctx : Context) (filters : List Fetch.Filter) : Context :=
  { ctx with fetch := { ctx.fetch with root := { ctx.fetch.root with filters } } }

theorem withFilters_self {filters : List Fetch.Filter} (h : ctx.fetch.root.filters = filters) :
    withFilters ctx filters = ctx := by
  have hroot : { ctx.fetch.root with filters } = ctx.fetch.root := by
    rw [<- h]
    cases ctx.fetch.root
    rfl
  rw [withFilters, hroot]

theorem OneScope.update (hctx : OneScope t ctx) (f : Fetch.Scope -> Fetch.Scope) :
    ctx.update 0 f = { ctx with fetch := { ctx.fetch with root := f ctx.fetch.root } } := by
  rcases hctx.scopes with ⟨aliasName, hscopes⟩
  rw [Context.update, hscopes]
  rfl

theorem OneScope.attachAll (hctx : OneScope t ctx) (hroot : ctx.fetch.root.filters = [])
    {found : List Native} (hfound : forall n, n ∈ found -> n.scope = 0) :
    exists filters, ctx.attachAll found = withFilters ctx filters ∧
      forall front row, Fetch.filtersHold now front row filters =
        Fetch.allHold now front row (found.map (·.item)) := by
  rcases hctx.scopes with ⟨aliasName, hscopes⟩
  cases found with
  | nil =>
      refine ⟨[], ?_, fun _ _ => rfl⟩
      have hnone : ctx.attachAll [] = ctx := by
        simp [Context.attachAll]
      rw [hnone, withFilters_self hroot]
  | cons n rest =>
      have hall : (n :: rest).filter (·.scope == 0) = n :: rest := by
        rw [List.filter_eq_self]
        intro m hm
        rw [hfound m hm]
        rfl
      have hattach : ctx.attachAll (n :: rest) =
          ctx.update 0 (·.addFilter (Plan.groupItems ((n :: rest).map (·.item)))) := by
        rw [Context.attachAll, hscopes]
        simp only [List.length_singleton, List.range_one, List.filter_cons, List.any_cons,
          hfound n List.mem_cons_self, beq_self_eq_true, Bool.true_or, if_true, List.filter_nil,
          List.foldl_cons, List.foldl_nil]
        rw [Context.attach, hall]
      refine ⟨[Plan.groupItems ((n :: rest).map (·.item))], ?_, ?_⟩
      · rw [hattach, hctx.update, withFilters, Fetch.Scope.addFilter, hroot]
        rfl
      · intro front row
        rw [Fetch.filtersHold, Fetch.filtersHold, Plan.filterHolds_groupItems]
        cases Fetch.allHold now front row ((n :: rest).map (·.item)) with
        | error e =>
            rfl
        | ok b =>
            cases b <;> rfl

/-- Filters of the platform and a local condition that keep certain records together. -/
structure Keeps (t : TableDef) (records : List Record) (now : Calendar.DateTime) (clock : Clock)
    (kept : Record -> Bool) (filters : List Fetch.Filter) (residual : Residual)
    (native : Record -> Bool) : Prop where
  filters : forall r, r ∈ records ->
    Fetch.filtersHold now "" (.ofRecord "" r) filters = .ok (native r)
  whole : residual.predicate = none -> forall r, r ∈ records -> native r = kept r
  rest : forall q, residual.predicate = some q -> forall r, r ∈ records ->
    forall read, (forall b, b ∈ residual.used -> read b.name = r.get b.name) ->
      exists u, Eval.predicate clock read q = .ok u ∧ (native r && u.holds) = kept r
  used : forall b, b ∈ residual.used -> Listed t b

end

end TextQuery
end RecordSql
