import RecordSql.Proofs.Changes.Selection
import RecordSql.Proofs.WhereSplit

/-!
# Changes over inner joins

A statement that joins its tables by inner joins changes the records of those joined rows on which
its condition is true.  The platform returns one of the rows that it does not tell apart, so this
holds as long as the local part of the condition does not tell them apart either.
-/

namespace RecordSql
namespace Plan

open Fetch (AllStored Database Joined Scope StoredIn scopeRows)
open Sql (Comparison Literal Predicate Scalar TableRef Truth)

/-!
# Conditions on text columns

Besides comparisons they may have patterns, literals of any kind and collations.  A pattern in the
statement must be well formed.
-/

inductive SearchTerm (ctx : Context) : Scalar -> Prop where
  | literal (l : Literal) : SearchTerm ctx (.literal l)
  | column {c : Sql.Column} (h : NamesText ctx c) : SearchTerm ctx (.column c)
  | collate {e : Scalar} (collation : String) (h : SearchTerm ctx e) :
      SearchTerm ctx (.collate e collation)

inductive SearchCondition (ctx : Context) : Predicate -> Prop where
  | and {items : List Predicate} (h : forall p, p ∈ items -> SearchCondition ctx p) :
      SearchCondition ctx (.and items)
  | or {items : List Predicate} (h : forall p, p ∈ items -> SearchCondition ctx p) :
      SearchCondition ctx (.or items)
  | not {p : Predicate} (h : SearchCondition ctx p) : SearchCondition ctx (.not p)
  | compare {left right : Scalar} {op : Comparison} (hleft : SearchTerm ctx left)
      (hright : SearchTerm ctx right) : SearchCondition ctx (.compare left op right)
  | isNull {e : Scalar} {negated : Bool} (h : SearchTerm ctx e) :
      SearchCondition ctx (.isNull e negated)
  | inList {e : Scalar} {items : List Scalar} {negated : Bool} (h : SearchTerm ctx e)
      (hitems : forall item, item ∈ items -> SearchTerm ctx item) (hsome : items ≠ []) :
      SearchCondition ctx (.inList e items negated)
  | like {e pattern : Scalar} {negated : Bool} (h : SearchTerm ctx e)
      (hpattern : SearchTerm ctx pattern)
      (hform : forall text, ctx.operand pattern = .ok (.literal (.str text)) ->
        (Like.compile .standard text).isSome = true) : SearchCondition ctx (.like e pattern negated)

section

variable {ctx : Context} {clock : Clock}

theorem fold_of_searchTerm {e : Scalar} (h : SearchTerm ctx e) : Eval.fold clock e = e := by
  cases h <;> rfl

namespace SearchCondition

theorem fold_eq {p : Predicate} (h : SearchCondition ctx p) : Eval.foldPredicate clock p = p := by
  induction h with
  | and _ ih =>
      rw [Eval.foldPredicate, foldPredicates_eq_self ih]
  | or _ ih =>
      rw [Eval.foldPredicate, foldPredicates_eq_self ih]
  | not _ ih =>
      rw [Eval.foldPredicate, ih]
  | compare hleft hright =>
      rw [Eval.foldPredicate, fold_of_searchTerm hleft, fold_of_searchTerm hright]
  | isNull he =>
      rw [Eval.foldPredicate, fold_of_searchTerm he]
  | inList he hitems _ =>
      rw [Eval.foldPredicate, fold_of_searchTerm he,
        foldAll_eq_self fun item hitem => fold_of_searchTerm (hitems item hitem)]
  | like he hpattern _ =>
      rw [Eval.foldPredicate, fold_of_searchTerm he, fold_of_searchTerm hpattern]

theorem closed : Predicate.Closed (SearchCondition ctx) where
  and := ⟨fun | .and h => h, .and⟩
  or := ⟨fun | .or h => h, .or⟩
  not := ⟨fun | .not h => h, .not⟩
  compare
    | .compare hleft hright => .compare hleft hright
  isNull
    | .isNull he => .isNull he
  inList
    | .inList he hitems hsome => .inList he hitems hsome
  like
    | .like he hpattern hform => .like he hpattern hform
  const h := by cases h

end SearchCondition

/-!
# Native forms

The platform has no form for a collation, and it accepts no literal but a text for a text column.
What it has a form for can be evaluated on every row.
-/

/-- An operand that the platform knows is a column of texts, a text or the missing value. -/
theorem SearchTerm.plain {e : Scalar} (h : SearchTerm ctx e) :
    (exists l, e = .literal l ∧ l ≠ .null ∧ forall s, l ≠ .str s) ∨ Plain ctx (IsText ctx) e := by
  cases h with
  | literal l =>
      cases l with
      | str s =>
          exact Or.inr (.text s)
      | null =>
          exact Or.inr .missing
      | _ =>
          exact Or.inl ⟨_, rfl, Sql.Literal.noConfusion, fun _ => Sql.Literal.noConfusion⟩
  | column h =>
      exact Or.inr (.column _ h)
  | collate collation _ =>
      exact Or.inr (.computed _ rfl fun _ _ _ => Scalar.noConfusion)

theorem SearchTerm.isText {e : Scalar} (he : SearchTerm ctx e) {b : Bound}
    (h : ctx.operand e = .ok (.column b)) : IsText ctx b := by
  rcases Context.resolve_of_operand h with ⟨c, rfl, hfound⟩
  cases he with
  | column hc =>
      exact hc b hfound

theorem not_compatible {b : Bound} (hb : IsText ctx b) {l : Literal} (hnull : l ≠ .null)
    (hstr : forall s, l ≠ .str s) : ctx.compatible b l = false := by
  rw [IsText] at hb
  rw [Context.compatible]
  cases htype : ctx.typeOf? b with
  | none =>
      rfl
  | some type =>
      rw [htype, Option.any_some] at hb
      cases l with
      | null =>
          exact absurd rfl hnull
      | str s =>
          exact absurd rfl (hstr s)
      | _ =>
          change (!(type.isString || type.isIdentifier || type == .dateTime)) = false
          rw [hb]
          rfl

/-- An operand that is compatible with a column of texts is known to the platform. -/
theorem SearchTerm.plain_of_compatible {e : Scalar} (he : SearchTerm ctx e) {b : Bound}
    (hb : IsText ctx b) {l : Literal} (ho : ctx.operand e = .ok (.literal l))
    (hcompatible : ctx.compatible b l = true) : Plain ctx (IsText ctx) e := by
  rcases he.plain with ⟨x, rfl, hnull, hstr⟩ | hplain
  · cases ho
    rw [not_compatible hb hnull hstr] at hcompatible
    cases hcompatible
  · exact hplain

theorem SearchTerm.plain_of_column {e : Scalar} (he : SearchTerm ctx e) {b : Bound}
    (ho : ctx.operand e = .ok (.column b)) : Plain ctx (IsText ctx) e := by
  rcases he.plain with ⟨x, rfl, _, _⟩ | hplain
  · cases ho
  · exact hplain

/-- The operands of a native comparison are known to the platform. -/
theorem plain_of_native_compare {left right : Scalar} {op : Comparison}
    (hleft : SearchTerm ctx left) (hright : SearchTerm ctx right) {n : Native}
    (h : NativeForm ctx (.compare left op right) n) :
    Plain ctx (IsText ctx) left ∧ Plain ctx (IsText ctx) right := by
  cases h with
  | columnLiteral hl hr _ hcompatible =>
      exact ⟨hleft.plain_of_column hl, hright.plain_of_compatible (hleft.isText hl) hr hcompatible⟩
  | literalColumn hl hr _ hcompatible =>
      exact ⟨hleft.plain_of_compatible (hright.isText hr) hl hcompatible, hright.plain_of_column hr⟩
  | columns hl hr _ =>
      exact ⟨hleft.plain_of_column hl, hright.plain_of_column hr⟩
  | function _ _ =>
      cases hright

theorem plain_of_literalTexts {b : Bound} (hb : IsText ctx b) {items : List Scalar}
    (hitems : forall item, item ∈ items -> SearchTerm ctx item) {values : List String}
    (h : ctx.literalTexts (ctx.compatible b) items = .ok (some values)) :
    forall item, item ∈ items -> Plain ctx (IsText ctx) item := by
  intro item hitem
  have hforall := List.Forall₂.flip (Context.literalTexts_forall₂ h)
  rcases Outcome.exists_of_forall₂ hforall hitem with ⟨_, _, l, ho, hcompatible, _⟩
  exact (hitems item hitem).plain_of_compatible hb ho hcompatible

/-- A condition with a native form is one that the platform decides as its evaluation does. -/
theorem SearchCondition.simple {db : Database} (hplain : PlainTables ctx db) {p : Predicate}
    (hp : SearchCondition ctx p) {n : Native} (h : ctx.native p = .ok (some n)) :
    Simple ctx (IsText ctx) p := by
  induction hp generalizing n with
  | and _ ih =>
      cases Context.native_form h with
      | and hmembers =>
          refine .and fun p hp => ?_
          rcases hmembers.native_of_mem hp with ⟨item, hitem⟩
          exact ih p hp hitem
  | or _ ih =>
      cases Context.native_form h with
      | or hmembers =>
          refine .or fun p hp => ?_
          rcases hmembers.native_of_mem hp with ⟨item, hitem⟩
          exact ih p hp hitem
  | not hp =>
      refine .not fun c wanted heq => ?_
      subst heq
      cases hp
  | compare hleft hright =>
      rcases plain_of_native_compare hleft hright (Context.native_form h) with ⟨hleft, hright⟩
      exact .compare hleft hright (comparable_of_plain hplain _)
  | isNull he =>
      cases Context.native_form h with
      | isNull hb =>
          exact .isNull (he.plain_of_column hb)
  | inList he hitems hsome =>
      cases Context.native_form h with
      | inList hb htexts =>
          exact .inList (he.plain_of_column hb)
            (plain_of_literalTexts (he.isText hb) hitems htexts) hsome
  | like he hpattern _ =>
      cases Context.native_form h with
      | like hb htext =>
          rcases hpattern.plain with ⟨_, rfl, _, hstr⟩ | hpattern
          · cases htext
            exact absurd rfl (hstr _)
          · exact .like (he.plain_of_column hb) hpattern

theorem SearchTerm.hasValue {read : String -> Value} {e : Scalar} (he : SearchTerm ctx e) :
    HasValue ctx clock read e := by
  induction he with
  | literal l =>
      intro q h
      cases h
      exact ⟨_, rfl⟩
  | column _ =>
      intro q h
      cases Context.qualify_eq_ok.mp h <;> exact ⟨_, rfl⟩
  | collate collation _ ih =>
      intro q h
      cases Context.qualify_eq_ok.mp h with
      | collate he' =>
          rw [Eval.scalar]
          exact ih _ he'

/-- A condition with a native form has a truth value on every row. -/
theorem SearchCondition.hasTruth {read : String -> Value} {p : Predicate}
    (hp : SearchCondition ctx p) {n : Native} (h : ctx.native p = .ok (some n)) :
    HasTruth ctx clock read p := by
  induction hp generalizing n with
  | and _ ih =>
      cases Context.native_form h with
      | and hmembers =>
          refine .and fun p hp => ?_
          rcases hmembers.native_of_mem hp with ⟨item, hitem⟩
          exact ih p hp hitem
  | or _ ih =>
      cases Context.native_form h with
      | or hmembers =>
          refine .or fun p hp => ?_
          rcases hmembers.native_of_mem hp with ⟨item, hitem⟩
          exact ih p hp hitem
  | not hp =>
      cases Context.native_form h with
      | notContains _ _ =>
          cases hp
  | compare hleft hright =>
      exact .compare hleft.hasValue hright.hasValue
  | isNull he =>
      exact .isNull he.hasValue
  | inList he hitems _ =>
      exact .inList he.hasValue fun item hitem => (hitems item hitem).hasValue
  | like he _ hform =>
      cases Context.native_form h with
      | @like _ _ _ _ text _ htext =>
          refine .like he.hasValue fun q hq => ⟨text, ?_, hform text htext⟩
          exact Except.ok.inj (hq.symm.trans (Context.qualify_of_literal_operand htext))

/-!
# Inner joins
-/

/-- No path in the tree has an outer link. -/
def AllInner (s : Scope) : Prop :=
  forall path, s.innerPath path = true

theorem allInner_ofTable (table : String) : AllInner (.ofTable table) := by
  intro path
  cases path <;> rfl

theorem allInner_iff {s : Scope} :
    AllInner s <-> forall entry : Fetch.Link × Scope, entry ∈ s.links ->
      entry.1.outer = false ∧ AllInner entry.2 := by
  constructor
  · intro h entry hentry
    rcases List.getElem?_of_mem hentry with ⟨i, hi⟩
    have hpath : forall path, (!entry.1.outer && entry.2.innerPath path) = true := by
      intro path
      have hpath := h (i :: path)
      rw [Scope.innerPath, hi] at hpath
      exact hpath
    simp only [Bool.and_eq_true, Bool.not_eq_true'] at hpath
    exact ⟨(hpath []).1, fun path => (hpath path).2⟩
  · intro h path
    cases path with
    | nil =>
        rfl
    | cons i path =>
        rw [Scope.innerPath, Option.all_eq_true]
        intro entry hentry
        rcases h entry (List.mem_of_getElem? hentry) with ⟨hlink, hchild⟩
        change (!entry.1.outer && entry.2.innerPath path) = true
        rw [hlink, hchild path]
        rfl

theorem AllInner.addLink {s : Scope} (h : AllInner s) {link : Fetch.Link}
    (hlink : link.outer = false) (table : String) : AllInner (s.addLink link (.ofTable table)) := by
  refine allInner_iff.mpr fun entry hentry => ?_
  rcases List.mem_append.mp hentry with hold | hnew
  · exact allInner_iff.mp h entry hold
  · cases List.mem_singleton.mp hnew
    exact ⟨hlink, allInner_ofTable table⟩

theorem AllInner.update {f : Scope -> Scope} (hf : forall s, AllInner s -> AllInner (f s))
    (path : List Nat) {s : Scope} (h : AllInner s) : AllInner (s.update f path) := by
  induction path generalizing s with
  | nil =>
      exact hf s h
  | cons i path ih =>
      refine allInner_iff.mpr fun entry hentry => ?_
      rcases List.getElem?_of_mem hentry with ⟨j, hj⟩
      rw [Scope.update, Scope.getElem?_updateLink, Option.map_eq_some_iff] at hj
      rcases hj with ⟨old, hold, rfl⟩
      rcases allInner_iff.mp h old (List.mem_of_getElem? hold) with ⟨hlink, hchild⟩
      refine ⟨hlink, ?_⟩
      dsimp only
      split
      · exact ih hchild
      · exact hchild

theorem AllInner.addJoin {ctx joined : Context} (h : AllInner ctx.fetch.root) {join : Sql.Join}
    {table : TableDef} (hjoined : addJoin ctx join false table = .ok joined) :
    AllInner joined.fetch.root := by
  rcases addJoin_cases hjoined with ⟨link, linked, _, hlinked, hjoined⟩
  rcases addLink_scopes hlinked with ⟨_, _, _, hfetch⟩
  have hlink : AllInner linked.fetch.root := by
    rw [hfetch]
    exact h.update (fun s hs => hs.addLink rfl _) _
  rcases hjoined with rfl | ⟨filter, rfl⟩
  · exact hlink
  · exact fun path => (Scope.innerPath_addFilter filter path _ _).trans (hlink path)

/-- Inner joins make a tree without outer links. -/
theorem allInner_contextOf {σ : Type} {lookup : Lookup σ} {options : Options} {source : Sql.Source}
    {v v' : σ} (hinner : forall join, join ∈ source.joins -> join.kind = .inner)
    (h : (contextOf lookup options source).run v = .ok ctx v') : AllInner ctx.fetch.root := by
  refine @contextOf_induction _ _ _ _ _ _ (fun ctx => AllInner ctx.fetch.root)
    (fun _ _ => allInner_ofTable _) _ h ?_
  intro normal hnormal join hjoin ctx outer table joined _ hctx houter hjoined
  have hsame : normalizeRightJoin source = .ok source := by
    refine normalizeRightJoin_eq_self fun join hjoin hright => ?_
    cases (hinner join hjoin).symm.trans hright
  cases hnormal.symm.trans hsame
  rw [hinner join hjoin] at houter
  cases houter
  exact hctx.addJoin hjoined

/-!
# Rows of a selection
-/

section

variable {σ : Type} {lookup : Lookup σ} {options : Options} {source : Sql.Source} {v v' : σ}
  {target : TableRef} {p : Predicate} {s : Selection} {db : Database} {rows : List Joined}

/--
The native part of a condition filters the joined rows, and its local part is true on what is left
where the whole condition is.
-/
theorem selection_rows (hctx : (contextOf lookup options source).run v = .ok ctx v')
    (hinner : forall join, join ∈ source.joins -> join.kind = .inner) (hp : SearchCondition ctx p)
    (hplain : PlainTables ctx db) (hrows : scopeRows db "" ctx.fetch.root = .ok rows)
    (hs : selection ctx clock target (some p) = .ok s) :
    exists condition native, ctx.qualifyPredicate p = .ok condition ∧
      scopeRows db "" s.ctx.fetch.root = .ok (rows.filter native) ∧
      forall row, row ∈ rows ->
        isTrueOn clock row.get condition = (native row && s.passes clock row) := by
  have htabled := tabled_contextOf hctx
  have hconjuncts := SearchCondition.closed.normal hp
  rcases selection_eq_ok hs with ⟨_, _, hwhere⟩
  rcases Context.applyWhere_some hwhere with ⟨split, hsplit, hattached, hresidual⟩
  rw [hp.fold_eq] at hsplit
  have hpasses : forall row, s.passes clock row =
      split.qualified.all (isTrueOn clock row.get) := by
    intro row
    rw [Selection.passes, hresidual, andAll_isTrueOn]
  have hconst : forall q, q ∈ p.pushNot.conjuncts -> q ≠ .const .isTrue := by
    rintro q hq rfl
    cases hconjuncts _ hq
  have hdivided := splitAll_divided hconst hsplit
  have halike : forall q, q ∈ p.pushNot.conjuncts -> DecidedAlike db.now clock ctx
      (fun row => AllStored db (ctx.fetch.root.tables "") [row]) q := by
    intro q hq n hn
    exact decidedAlike_of_simple htabled hplain ((hconjuncts q hq).simple hplain hn)
      (fun _ hqualified _ => ((hconjuncts q hq).hasTruth hn).total hqualified) n hn
  have hmovable : forall n, n ∈ split.native -> Movable db ctx n := by
    intro n hn
    rcases hdivided.mem_native hn with ⟨q, hq, hnative, _⟩
    have hsimple := (hconjuncts q hq).simple hplain hnative
    refine ⟨Context.native_scope_lt hsimple hnative, allInner_contextOf hinner hctx _,
      native_confined hsimple hnative, fun row hrow => ?_⟩
    rcases halike q hq n hnative with ⟨_, _, hholds⟩
    exact ⟨_, hholds row hrow⟩
  rcases hdivided.isTrueOn_eq halike with ⟨condition, hcondition, hwhole⟩
  refine ⟨condition, fun row => split.native.all (holdsNatively db.now ctx row), hcondition, ?_,
    fun row hrow => ?_⟩
  · rw [hattached]
    exact scopeRows_attachAll htabled (ready_contextOf hctx).rooted hplain hmovable hrows
  · rw [hpasses]
    exact hwhole row (Fetch.allStored_of_mem hrows hrow)

/-- A row shows the identifier of a stored record, or none, where the records are identified. -/
theorem stored_id (hctx : (contextOf lookup options source).run v = .ok ctx v')
    (hplain : PlainTables ctx db) (hrows : scopeRows db "" ctx.fetch.root = .ok rows)
    (hs : selection ctx clock target (some p) = .ok s) {records : List Record}
    (htable : db.tables s.scope.table.name = some records)
    (hdot : '.' ∉ s.scope.table.primaryId.toList)
    (hids : Store.Identified s.scope.table records) {row : Joined} (hrow : row ∈ rows) :
    row.get s.idColumn = .null ∨
      exists r id, r ∈ records ∧ r.id = some id ∧ row.get s.idColumn = .guid id := by
  rcases selection_eq_ok hs with ⟨_, hscope, _⟩
  rw [Selection.idColumn, Selection.scopes_eq hs, Scopes.rowKey_eq, Joined.get]
  cases hv : row.values.get? (ctx.scopes.front s.idBound.scope ++ s.idBound.name) with
  | none =>
      exact Or.inl rfl
  | some value =>
      rcases Fetch.allStored_of_mem hrows hrow row (List.mem_singleton_self _) _ value hv with
        ⟨front, table, records', r, name, hentry, hstored⟩
      have hdot' : s.scope.table.primaryId.toList.contains '.' = false := by
        simpa using hdot
      rcases (stored_of_name (tabled_contextOf hctx) hplain hscope hdot' hentry
        ⟨front, table, records', r, name, List.mem_singleton_self _, hstored⟩).2 with
        ⟨records'', r, hrecords, hr, hget⟩
      cases htable.symm.trans hrecords
      rcases hids.ids r hr with ⟨id, hid, hguid⟩
      rw [Record.get, hget] at hguid
      exact Or.inr ⟨r, id, hr, hid, hguid⟩

end

end

/-!
# Records of joined rows
-/

namespace Selection

/-- The row has the record as the one to change. -/
def holds (s : Selection) (row : Joined) (r : Record) : Bool :=
  r.id.any fun id => row.get s.idColumn == .guid id

/-- Some joined row with the record makes the condition true. -/
def reaches (s : Selection) (clock : Clock) (condition : Predicate) (rows : List Joined)
    (r : Record) : Bool :=
  rows.any fun row => s.holds row r && isTrueOn clock row.get condition

/--
The records to change are among those that are reached.  They are all of these if the local filter
tells no rows apart that look the same to the platform.
-/
structure Picks (s : Selection) (clock : Clock) (db : Database) (condition : Predicate)
    (used : List Bound) (rows : List Joined) (records : List Record) (picks : Record -> Bool) :
    Prop where
  sound : forall r, r ∈ records -> picks r = true -> s.reaches clock condition rows r = true
  complete : (forall kept, scopeRows db "" s.ctx.fetch.root = .ok kept ->
      s.Blind clock used kept) ->
    forall r, r ∈ records -> picks r = s.reaches clock condition rows r

theorem holds_eq {s : Selection} {row : Joined} {r : Record} {id : Guid} (hid : r.id = some id) :
    s.holds row r = true <-> row.get s.idColumn = .guid id := by
  rw [holds, hid, Option.any_some, beq_iff_eq]

theorem reaches_iff {s : Selection} {clock : Clock} {condition : Predicate} {rows : List Joined}
    {r : Record} {id : Guid} (hid : r.id = some id) :
    s.reaches clock condition rows r = true <-> exists row, row ∈ rows ∧
      row.get s.idColumn = .guid id ∧ isTrueOn clock row.get condition = true := by
  rw [reaches, List.any_eq_true]
  refine exists_congr fun row => and_congr_right fun _ => ?_
  rw [Bool.and_eq_true, holds_eq hid]

section

variable {s : Selection} {clock : Clock} {used : List Bound} {rows : List Joined}
  {native : Joined -> Bool} {selected : List (Guid × Record)} {condition : Predicate}

/-- What is selected among filtered rows shows joined rows on which the whole condition is true. -/
theorem Chosen.sound_joined (h : s.Chosen clock used (rows.filter native) selected)
    (hwhole : forall row, row ∈ rows ->
      isTrueOn clock row.get condition = (native row && s.passes clock row))
    {pair : Guid × Record} (hpair : pair ∈ selected) :
    exists row, row ∈ rows ∧ row.get s.idColumn = .guid pair.1 ∧
      isTrueOn clock row.get condition = true ∧ forall b, b ∈ used ->
        pair.2.get (s.ctx.scopes.rowKey b) = row.get (s.ctx.scopes.rowKey b) := by
  rcases h.sound pair hpair with ⟨row, hrow, hpasses, hid, hshows⟩
  rcases List.mem_filter.mp hrow with ⟨hrow, hnative⟩
  refine ⟨row, hrow, hid, ?_, hshows⟩
  rw [hwhole row hrow, hnative, hpasses]
  rfl

/-- The selected records are reached; and they are stored ones, if the rows are of stored ones. -/
theorem Chosen.picked (h : s.Chosen clock used (rows.filter native) selected)
    (hwhole : forall row, row ∈ rows ->
      isTrueOn clock row.get condition = (native row && s.passes clock row))
    {t : TableDef} {records : List Record} (hids : Store.Identified t records)
    (hstored : forall row, row ∈ rows -> row.get s.idColumn = .null ∨
      exists r id, r ∈ records ∧ r.id = some id ∧ row.get s.idColumn = .guid id)
    {db : Database} (hkept : scopeRows db "" s.ctx.fetch.root = .ok (rows.filter native)) :
    exists picks, Store.Picked records picks (selected.map (·.1)) ∧
      s.Picks clock db condition used rows records picks := by
  let picks : Record -> Bool := fun r => r.id.any (selected.map (·.1)).contains
  have hpicks : forall {r id}, r.id = some id -> (picks r = true <-> id ∈ selected.map (·.1)) := by
    intro r id hid
    change r.id.any _ = true <-> _
    rw [hid, Option.any_some, List.contains_iff_mem]
  have hsound : forall id, id ∈ selected.map (·.1) -> exists row, row ∈ rows ∧
      row.get s.idColumn = .guid id ∧ isTrueOn clock row.get condition = true := by
    intro id hid
    rcases List.mem_map.mp hid with ⟨pair, hpair, rfl⟩
    rcases h.sound_joined hwhole hpair with ⟨row, hrow, hid, htrue, _⟩
    exact ⟨row, hrow, hid, htrue⟩
  refine ⟨picks, ⟨h.distinct, fun id => ⟨fun hid => ?_, ?_⟩⟩, ⟨fun r hr hpicked => ?_,
    fun hblind r hr => ?_⟩⟩
  · rcases hsound id hid with ⟨row, hrow, hguid, _⟩
    rcases hstored row hrow with hnull | ⟨r, id', hr, hrid, hguid'⟩
    · rw [hnull] at hguid
      cases hguid
    · cases hguid.symm.trans hguid'
      exact ⟨r, hr, hrid, (hpicks hrid).mpr hid⟩
  · rintro ⟨r, _, hrid, hpicked⟩
    exact (hpicks hrid).mp hpicked
  · rcases hids.ids r hr with ⟨id, hrid, _⟩
    exact (reaches_iff hrid).mpr (hsound id ((hpicks hrid).mp hpicked))
  · rcases hids.ids r hr with ⟨id, hrid, _⟩
    rw [Bool.eq_iff_iff, hpicks hrid, reaches_iff hrid]
    refine ⟨hsound id, ?_⟩
    rintro ⟨row, hrow, hguid, htrue⟩
    rw [hwhole row hrow, Bool.and_eq_true] at htrue
    exact h.complete (hblind _ hkept) row (List.mem_filter.mpr ⟨hrow, htrue.1⟩) htrue.2 id hguid

end

end Selection

section

variable {σ τ : Type} {host : Host σ} {store : σ -> Store} {lookup : Lookup τ} {options : Options}
  {source : Sql.Source} {v v' : τ} {w : σ} {ctx : Context} {target : TableRef} {p : Predicate}
  {s : Selection} {rows : List Joined} {records : List Record} {condition : Predicate}

/-- The joined rows of a statement, and what is known of the tables that they come from. -/
structure Joins (lookup : Lookup τ) (options : Options) (clock : Clock) (source : Sql.Source)
    (v v' : τ) (ctx : Context) (before : Store) (rows : List Joined) : Prop where
  context : (contextOf lookup options source).run v = .ok ctx v'
  inner : forall join, join ∈ source.joins -> join.kind = .inner
  plain : PlainTables ctx (before.database clock)
  identified : IdentifiedTables before ctx
  joined : scopeRows (before.database clock) "" ctx.fetch.root = .ok rows
  fits : rows.length ≤ Run.maxPages * max before.pageSize 1

theorem Joins.identifiedTarget {clock : Clock} {before : Store}
    (h : Joins lookup options clock source v v' ctx before rows)
    (hs : selection ctx clock target (some p) = .ok s)
    (htable : before.tables.get? s.scope.table.name = some records) :
    '.' ∉ s.scope.table.primaryId.toList ∧ Store.Identified s.scope.table records := by
  rcases h.identified s.scope (List.mem_of_getElem? (selection_eq_ok hs).2.1) with ⟨hdot, hids⟩
  exact ⟨hdot, hids records htable⟩

/-- What is selected among joined rows are stored records of rows on which the condition is true. -/
theorem joined_selected (hserves : Run.Serves host store)
    (hjoins : Joins lookup options host.clock source v v' ctx (store w) rows)
    (hp : SearchCondition ctx p) (hs : selection ctx host.clock target (some p) = .ok s)
    (htable : (store w).tables.get? s.scope.table.name = some records)
    (hcondition : ctx.qualifyPredicate p = .ok condition) {used : List Bound}
    (hprovided : s.Provided used) {w' : σ} {selected : List (Guid × Record)}
    (hselected : Run.selectRecords host (s.plan used).1 (s.plan used).2 w = .ok selected w') :
    store w' = store w ∧
      (exists picks, Store.Picked records picks (selected.map (·.1)) ∧
        s.Picks host.clock ((store w).database host.clock) condition used rows records picks) ∧
      forall pair, pair ∈ selected -> exists row, row ∈ rows ∧
        row.get s.idColumn = .guid pair.1 ∧ isTrueOn host.clock row.get condition = true ∧
        forall b, b ∈ used ->
          pair.2.get (s.ctx.scopes.rowKey b) = row.get (s.ctx.scopes.rowKey b) := by
  rcases selection_rows hjoins.context hjoins.inner hp hjoins.plain hjoins.joined hs with
    ⟨_, native, hcondition', hkept, hwhole⟩
  cases hcondition.symm.trans hcondition'
  rcases hjoins.identifiedTarget hs htable with ⟨hdot, hids⟩
  have hstored : forall row, row ∈ rows -> row.get s.idColumn = .null ∨
      exists r id, r ∈ records ∧ r.id = some id ∧ row.get s.idColumn = .guid id :=
    fun row hrow => stored_id hjoins.context hjoins.plain hjoins.joined hs htable hdot hids hrow
  have hidentifies : s.Identifies (rows.filter native) := by
    intro row hrow
    rcases hstored row (List.mem_of_mem_filter hrow) with hnull | ⟨_, id, _, _, hid⟩
    · exact Or.inl hnull
    · exact Or.inr ⟨id, hid⟩
  have hfit := Nat.le_trans (List.length_filter_le native rows) hjoins.fits
  rcases hprovided.chosen hserves hkept hfit hidentifies hselected with ⟨hstore, hchosen⟩
  exact ⟨hstore, hchosen.picked hwhole hids hstored hkept,
    fun pair hpair => hchosen.sound_joined hwhole hpair⟩

/-- What an update makes of a record, computed on a row with it that makes the condition true. -/
def Selection.Rewrites (s : Selection) (clock : Clock) (t : TableDef) (condition : Predicate)
    (changes : List Change) (rows : List Joined) (picks : Record -> Bool) (r r' : Record) : Prop :=
  if picks r then exists row values, row ∈ rows ∧ s.holds row r = true ∧
    isTrueOn clock row.get condition = true ∧
    changes.mapM (Run.newValue clock t row.get) = .ok values ∧ Store.Rewritten values r r'
  else r' = r

theorem delete_joined (happlies : Run.Applies host store)
    (hbulk : host.options.useBulkDelete = false)
    (hjoins : Joins lookup options host.clock source v v' ctx (store w) rows)
    (hp : SearchCondition ctx p) (hs : selection ctx host.clock target (some p) = .ok s)
    (htable : (store w).tables.get? s.scope.table.name = some records)
    (hcondition : ctx.qualifyPredicate p = .ok condition) {task : Task} {v₁ : τ}
    (hplan : (planStatement lookup options host.clock
      (.delete ⟨target, some source, some p⟩)).run v = .ok task v₁)
    {sql : String} {q : Query} {w' : σ}
    (hdone : (Query.ofTask sql task).execute host w = ((q, none), w')) :
    exists picks, s.Picks host.clock ((store w).database host.clock) condition s.residual.used rows
        records picks ∧
      store w' = (store w).setTable s.scope.table.name (records.filter fun r => !picks r) := by
  rcases planStatement_delete hplan with ⟨ctx', s', hctx', hs', rfl⟩
  cases hjoins.context.symm.trans hctx'
  cases hs.symm.trans hs'
  rcases (Run.execute_affected_iff rfl).mp hdone with ⟨a, hrun, _⟩
  have hrun' := hrun
  rw [Run.runDelete_eq] at hrun'
  rcases Run.Mutation.of_run_eq_ok (fun n t w => happlies.confirmsDelete n t w)
    (fun _ => ⟨_, rfl⟩) hrun' with ⟨hallowed, t, w₁, selected, w₂, _, hdefinition, hselected, _⟩
  have hw₁ := happlies.looksUp _ _ _ _ (Run.adaptExcept_eq_ok.mp hdefinition)
  rw [<- hw₁] at hjoins htable
  rcases joined_selected happlies.toServes hjoins hp hs htable hcondition
    (Selection.provided_delete hjoins.context hs) hselected with
    ⟨hw₂, ⟨picks, hpicked, hpicks⟩, _⟩
  rw [hw₁] at hjoins htable hw₂ hpicks
  rcases Run.runDelete_picked happlies (by rw [hbulk]; rfl) hallowed hdefinition hselected hw₂
    htable (hjoins.identifiedTarget hs htable).2 hpicked with ⟨_, _, hrun', _, hstore⟩
  cases hrun.symm.trans hrun'
  exact ⟨picks, hpicks, hstore⟩

theorem rewrites_of_updates {u : Sql.Update} {changes : List Change}
    (hchanges : u.assignments.mapM (changeOf s) = .ok changes) {clock : Clock}
    {selected : List (Guid × Record)}
    (hshows : forall pair, pair ∈ selected -> exists row, row ∈ rows ∧
      row.get s.idColumn = .guid pair.1 ∧ isTrueOn clock row.get condition = true ∧
      forall b, b ∈ s.usedBy u ->
        pair.2.get (s.ctx.scopes.rowKey b) = row.get (s.ctx.scopes.rowKey b))
    {t : TableDef} {picks : Record -> Bool} {r r' : Record}
    (h : Run.Updates clock t changes picks selected r r') :
    s.Rewrites clock t condition changes rows picks r r' := by
  rw [Run.Updates] at h
  rw [Selection.Rewrites]
  split at h
  · rename_i hpicked
    rcases h with ⟨pair, values, hpair, hid, hvalues, hrewritten⟩
    rcases hshows pair hpair with ⟨row, hrow, hguid, htrue, hcolumns⟩
    rw [if_pos hpicked]
    exact ⟨row, values, hrow, (Selection.holds_eq hid).mpr hguid, htrue,
      Selection.newValues_congr hchanges hcolumns hvalues, hrewritten⟩
  · rename_i hnot
    rw [if_neg hnot]
    exact h

theorem update_joined (happlies : Run.Applies host store)
    (hjoins : Joins lookup options host.clock source v v' ctx (store w) rows)
    (hp : SearchCondition ctx p) (hs : selection ctx host.clock target (some p) = .ok s)
    (htable : (store w).tables.get? s.scope.table.name = some records)
    (hcondition : ctx.qualifyPredicate p = .ok condition) {u : Sql.Update}
    (hu : u.target = target ∧ u.source = some source ∧ u.criteria = some p) {task : Task} {v₁ : τ}
    (hplan : (planStatement lookup options host.clock (.update u)).run v = .ok task v₁)
    {sql : String} {q : Query} {w' : σ}
    (hdone : (Query.ofTask sql task).execute host w = ((q, none), w')) :
    exists picks t changes records', u.assignments.mapM (changeOf s) = .ok changes ∧
      (exists w₁, host.lookup s.scope.table.name w = .ok t w₁) ∧
      s.Picks host.clock ((store w).database host.clock) condition (s.usedBy u) rows records picks ∧
      store w' = (store w).setTable s.scope.table.name records' ∧
      List.Forall₂ (s.Rewrites host.clock t condition changes rows picks) records records' := by
  rcases planStatement_update hplan with ⟨ctx', s', changes, hctx', hs', hchanges, rfl⟩
  rw [hu.2.1, Option.getD_some] at hctx'
  rw [hu.1, hu.2.2] at hs'
  cases hjoins.context.symm.trans hctx'
  cases hs.symm.trans hs'
  rcases (Run.execute_affected_iff rfl).mp hdone with ⟨a, hrun, _⟩
  have hrun' := hrun
  rw [Run.runUpdate_eq] at hrun'
  rcases Run.Mutation.of_run_eq_ok (fun n t w => happlies.confirmsUpdate n t w)
    (fun _ => ⟨_, rfl⟩) hrun' with
    ⟨hallowed, t, w₁, selected, w₂, items, hdefinition, hselected, hitems⟩
  have hlookup := Run.adaptExcept_eq_ok.mp hdefinition
  have hw₁ := happlies.looksUp _ _ _ _ hlookup
  rw [<- hw₁] at hjoins htable
  rcases joined_selected happlies.toServes hjoins hp hs htable hcondition
    (Selection.provided_update hjoins.context hs u) hselected with
    ⟨hw₂, ⟨picks, hpicked, hpicks⟩, hshows⟩
  rw [hw₁] at hjoins htable hw₂ hpicks
  rcases Run.runUpdate_picked happlies hallowed hdefinition hselected hitems hw₂ htable
    (hjoins.identifiedTarget hs htable).2 hpicked with ⟨_, _, records', hrun', _, hstore, hrecords⟩
  cases hrun.symm.trans hrun'
  exact ⟨picks, t, changes, records', hchanges, ⟨w₁, hlookup⟩, hpicks, hstore,
    hrecords.imp fun _ _ h => rewrites_of_updates hchanges hshows h⟩

/--
A statement over inner joins that is completed changes records of joined rows on which its condition
is true, and leaves all others alone.  It changes all of these records if its local filter tells no
rows apart that look the same to the platform.
-/
theorem joined_effects (happlies : Run.Applies host store)
    (hbulk : host.options.useBulkDelete = false)
    (hjoins : Joins lookup options host.clock source v v' ctx (store w) rows)
    (hp : SearchCondition ctx p) (hs : selection ctx host.clock target (some p) = .ok s)
    (htable : (store w).tables.get? s.scope.table.name = some records) (sql : String) :
    exists condition, ctx.qualifyPredicate p = .ok condition ∧
      (forall task v₁ q w', (planStatement lookup options host.clock
          (.delete ⟨target, some source, some p⟩)).run v = .ok task v₁ ->
        (Query.ofTask sql task).execute host w = ((q, none), w') ->
        exists picks, s.Picks host.clock ((store w).database host.clock) condition s.residual.used
            rows records picks ∧
          store w' = (store w).setTable s.scope.table.name (records.filter fun r => !picks r)) ∧
      forall assignments task v₁ q w', (planStatement lookup options host.clock
          (.update ⟨target, assignments, some source, some p⟩)).run v = .ok task v₁ ->
        (Query.ofTask sql task).execute host w = ((q, none), w') ->
        exists picks t changes records', assignments.mapM (changeOf s) = .ok changes ∧
          (exists w₁, host.lookup s.scope.table.name w = .ok t w₁) ∧
          s.Picks host.clock ((store w).database host.clock) condition
            (s.usedBy ⟨target, assignments, some source, some p⟩) rows records picks ∧
          store w' = (store w).setTable s.scope.table.name records' ∧
          List.Forall₂ (s.Rewrites host.clock t condition changes rows picks) records records' := by
  rcases selection_rows hjoins.context hjoins.inner hp hjoins.plain hjoins.joined hs with
    ⟨condition, _, hcondition, _⟩
  refine ⟨condition, hcondition, ?_, ?_⟩
  · intro task v₁ q w' hplan hdone
    exact delete_joined happlies hbulk hjoins hp hs htable hcondition hplan hdone
  · intro assignments task v₁ q w' hplan hdone
    exact update_joined happlies hjoins hp hs htable hcondition ⟨rfl, rfl, rfl⟩ hplan hdone

end

/-!
# Members with badges

A member has several badges, and is one record whatever badges are asked for.
-/

def textColumns (table key : String) (names : List String) : TableDef :=
  { TableDef.ofKey table key with
    attributes := .ofType key .uniqueIdentifier :: names.map fun name => .ofType name .string }

def recordOf (table key : String) (n : Nat) (values : List (String × String)) : Record :=
  ⟨table, some (.ofNat n), .ofList ((key, .guid (.ofNat n)) :: values.map fun (name, text) =>
    (name, .str text))⟩

def members : List Record :=
  [recordOf "member" "memberid" 1 [("name", "ann")],
    recordOf "member" "memberid" 2 [("name", "bob")],
    recordOf "member" "memberid" 3 [("name", "cid")]]

def badgeOf (n : Nat) (owner label : String) : Record :=
  recordOf "badge" "badgeid" n [("owner", owner), ("label", label)]

def badges : List Record :=
  [badgeOf 11 "ann" "gold", badgeOf 12 "ann" "gold", badgeOf 13 "bob" "Gold",
    badgeOf 14 "cid" "gold"]

def badgeStore (badges : List Record) : Store :=
  { Store.empty with
    tables := .ofList [("member", members), ("badge", badges)]
    definitions := .ofList [("member", textColumns "member" "memberid" ["name"]),
      ("badge", textColumns "badge" "badgeid" ["owner", "label"])]
    pageSize := 2 }

/-- `member INNER JOIN badge AS b ON b.owner = member.name` -/
def badgeSource : Sql.Source :=
  ⟨⟨"member", none, false⟩, [⟨.inner, ⟨"badge", some "b", false⟩,
    .compare (.column (.inCollection "b" "owner")) .eq (.column (.inCollection "member" "name"))⟩]⟩

/-- `b.label COLLATE Latin1_General_CS_AS = 'gold' AND NOT member.name LIKE 'c%'` -/
def badgeCondition : Predicate :=
  .and [.compare (.collate (.column (.inCollection "b" "label")) "Latin1_General_CS_AS") .eq
      (.literal (.str "gold")),
    .not (.like (.column (.inCollection "member" "name")) (.literal (.str "c%")) false)]

def badgeDelete : Sql.Delete :=
  ⟨⟨"member", none, false⟩, some badgeSource, some badgeCondition⟩

/-- With `SET name = b.label`. -/
def badgeUpdate : Sql.Update :=
  ⟨⟨"member", none, false⟩, [⟨.ofName "name", .column (.inCollection "b" "label")⟩],
    some badgeSource, some badgeCondition⟩

def badgeContext : Context where
  options := .standard
  scopes := [⟨"member", textColumns "member" "memberid" ["name"], [], false⟩,
    ⟨"b", textColumns "badge" "badgeid" ["owner", "label"], [0], false⟩]
  fetch := { Fetch.Query.ofTable "member" with
    root := (Scope.ofTable "member").addLink ⟨"owner", "name", "b", false⟩ (.ofTable "badge") }

def badgeHost : Host (Session Store) :=
  Session.hostOf ⟨Store.client TextQuery.letterClock, .standard, TextQuery.letterClock⟩ .standard

theorem badgeCondition_search : SearchCondition badgeContext badgeCondition := by
  have hlabel : NamesText badgeContext (.inCollection "b" "label") := by
    intro b hb
    cases hb
    rfl
  have hname : NamesText badgeContext (.inCollection "member" "name") := by
    intro b hb
    cases hb
    rfl
  refine .and fun p hp => ?_
  rcases List.mem_cons.mp hp with rfl | hp
  · exact .compare (.collate _ (.column hlabel)) (.literal _)
  · cases List.mem_singleton.mp hp
    refine .not (.like (.column hname) (.literal _) fun text htext => ?_)
    cases htext
    decide

theorem badges_plain : PlainTables badgeContext ((badgeStore badges).database badgeHost.clock) := by
  have hnames : forall s, s ∈ badgeContext.scopes -> forall a, a ∈ s.table.attributes ->
      a.name.toList.contains '.' = false := by
    decide
  have hentries : forall s, s ∈ badgeContext.scopes ->
      forall r, r ∈ ((badgeStore badges).tables.get? s.table.name).getD [] ->
        (forall entry, entry ∈ r.attributes.entries -> entry.1.toList.contains '.' = false) ∧
        forall a, a ∈ s.table.attributes -> a.type.isString = true ->
          Eval.isText (r.get a.name) = true := by
    decide +kernel
  refine ⟨fun s hs a ha => hnames s hs a (List.mem_of_find?_eq_some ha), ?_, ?_⟩
  · intro s hs records hrecords r hr name v hv
    have hrecords' : (badgeStore badges).tables.get? s.table.name = some records := hrecords
    have hentry := hentries s hs
    rw [hrecords'] at hentry
    exact (hentry r hr).1 (name, v) ((Dict.get?_eq_some_iff _).mp hv)
  · intro s hs a ha hstring records hrecords r hr
    have hrecords' : (badgeStore badges).tables.get? s.table.name = some records := hrecords
    have hentry := hentries s hs
    rw [hrecords'] at hentry
    have htext := (hentry r hr).2 a (List.mem_of_find?_eq_some ha) hstring
    cases hv : r.get a.name with
    | str text =>
        exact Or.inr ⟨text, rfl⟩
    | _ =>
        rw [hv] at htext
        cases htext

theorem badges_identified : IdentifiedTables (badgeStore badges) badgeContext := by
  have hcheck : forall s, s ∈ badgeContext.scopes ->
      s.table.primaryId.toList.contains '.' = false ∧
      ((((badgeStore badges).tables.get? s.table.name).getD []).map (·.id)).Nodup ∧
      forall r, r ∈ ((badgeStore badges).tables.get? s.table.name).getD [] ->
        r.id.map Value.guid = some (r.get s.table.primaryId) := by
    decide +kernel
  intro s hs
  rcases hcheck s hs with ⟨hdot, hunique, hids⟩
  refine ⟨by simpa using hdot, fun records hrecords => ?_⟩
  rw [hrecords] at hunique hids
  refine ⟨fun r hr => ?_, hunique⟩
  rcases Option.map_eq_some_iff.mp (hids r hr) with ⟨id, hid, hguid⟩
  exact ⟨id, hid, hguid.symm⟩

theorem badges_effects : exists session task task' records',
    (planStatement badgeHost.lookup .standard badgeHost.clock (.delete badgeDelete)).run
      (Session.ofHost (badgeStore badges)) = .ok task session ∧
    (planStatement badgeHost.lookup .standard badgeHost.clock (.update badgeUpdate)).run
      (Session.ofHost (badgeStore badges)) = .ok task' session ∧
    ((Query.ofTask "" task).execute badgeHost session).2.host =
      (badgeStore badges).setTable "member" (members.filter (·.id != some (.ofNat 1))) ∧
    ((Query.ofTask "" task').execute badgeHost session).2.host =
      (badgeStore badges).setTable "member" records' ∧
    List.Forall₂ (fun r r' => r.id = some (.ofNat 1) ∨ r' = r) members records' := by
  have hruns : exists session rows s kept condition task task',
      (contextOf badgeHost.lookup .standard badgeSource).run (Session.ofHost (badgeStore badges)) =
        .ok badgeContext session ∧
      session.host = badgeStore badges ∧
      scopeRows ((badgeStore badges).database badgeHost.clock) "" badgeContext.fetch.root =
        .ok rows ∧
      rows.length = 4 ∧
      selection badgeContext badgeHost.clock ⟨"member", none, false⟩ (some badgeCondition) = .ok s ∧
      s.scope.table.name = "member" ∧
      scopeRows ((badgeStore badges).database badgeHost.clock) "" s.ctx.fetch.root = .ok kept ∧
      badgeContext.qualifyPredicate badgeCondition = .ok condition ∧
      (planStatement badgeHost.lookup .standard badgeHost.clock (.delete badgeDelete)).run
        (Session.ofHost (badgeStore badges)) = .ok task session ∧
      (planStatement badgeHost.lookup .standard badgeHost.clock (.update badgeUpdate)).run
        (Session.ofHost (badgeStore badges)) = .ok task' session ∧
      ((Query.ofTask "" task).execute badgeHost session).1.2.isNone = true ∧
      ((Query.ofTask "" task').execute badgeHost session).1.2.isNone = true ∧
      (forall row, row ∈ kept -> forall row', row' ∈ kept ->
        s.passes badgeHost.clock row = s.passes badgeHost.clock row' ∨
        exists b, b ∈ s.columns s.residual.used ∧
          (row.get (s.ctx.scopes.rowKey b)).key.toJson.chars ≠
            (row'.get (s.ctx.scopes.rowKey b)).key.toJson.chars) ∧
      forall r, r ∈ members ->
        s.reaches badgeHost.clock condition rows r = (r.id == some (.ofNat 1)) :=
    ⟨_, _, _, _, _, _, _, rfl, rfl, rfl, rfl, rfl, rfl, rfl, rfl, rfl, rfl, by decide +kernel,
      by decide +kernel, by decide +kernel, by decide +kernel⟩
  rcases hruns with ⟨session, rows, s, kept, condition, task, task', hctx, hhost, hrows, hlength,
    hs, hname, hkept, hcondition, hdelete, hupdate, hdeleted, hupdated, htold, hreached⟩
  have hjoins : Joins badgeHost.lookup .standard badgeHost.clock badgeSource
      (Session.ofHost (badgeStore badges)) session badgeContext session.host rows := by
    rw [hhost]
    refine ⟨hctx, ?_, badges_plain, badges_identified, hrows, by rw [hlength]; decide⟩
    intro join hjoin
    cases List.mem_singleton.mp hjoin
    rfl
  have htable : session.host.tables.get? s.scope.table.name = some members := by
    rw [hhost, hname]
    rfl
  have happlies : Run.Applies badgeHost Session.host := Run.applies_hostOf _ _
  rcases joined_effects happlies rfl hjoins badgeCondition_search hs htable "" with
    ⟨_, hcondition', hdeletes, hupdates⟩
  cases hcondition.symm.trans hcondition'
  have hdone : forall task, ((Query.ofTask "" task).execute badgeHost session).1.2.isNone = true ->
      (Query.ofTask "" task).execute badgeHost session =
        ((((Query.ofTask "" task).execute badgeHost session).1.1, none),
          ((Query.ofTask "" task).execute badgeHost session).2) :=
    fun task h => Prod.ext (Prod.ext rfl (Option.isNone_iff_eq_none.mp h)) rfl
  rcases hdeletes task _ _ _ hdelete (hdone task hdeleted) with ⟨picks, hpicks, hrest⟩
  rcases hupdates _ task' _ _ _ hupdate (hdone task' hupdated) with
    ⟨picks', t, changes, records', _, _, hpicks', hrecords', hall⟩
  rw [hname, hhost] at hrest hrecords'
  rw [hhost] at hpicks
  refine ⟨session, task, task', records', hdelete, hupdate, ?_, hrecords', ?_⟩
  · rw [hrest]
    refine congrArg ((badgeStore badges).setTable "member") (List.filter_congr fun r hr => ?_)
    have hblind : forall kept, scopeRows ((badgeStore badges).database badgeHost.clock) ""
        s.ctx.fetch.root = .ok kept -> s.Blind badgeHost.clock s.residual.used kept := by
      intro kept' hkept' row hrow row' hrow' hsame
      cases hkept.symm.trans hkept'
      rcases htold row hrow row' hrow' with hpasses | ⟨b, hb, hne⟩
      · exact hpasses
      · exact absurd (hsame b hb) hne
    rw [hpicks.complete hblind r hr, hreached r hr]
    rfl
  · refine (Outcome.forall₂_and_mem hall.flip).flip.imp fun r r' hr => ?_
    have hrewrites : s.Rewrites badgeHost.clock t condition changes rows picks' r r' := hr.1
    rw [Selection.Rewrites] at hrewrites
    split at hrewrites
    · rename_i hpicked
      have hreach := hpicks'.sound r hr.2 hpicked
      rw [hreached r hr.2] at hreach
      exact Or.inl (eq_of_beq hreach)
    · exact Or.inr hrewrites

/-- Of two badges that the platform does not tell apart it shows one, here not the one asked for. -/
example : exists session task,
    (planStatement badgeHost.lookup .standard badgeHost.clock (.delete badgeDelete)).run
      (Session.ofHost (badgeStore [badgeOf 11 "bob" "Gold", badgeOf 12 "bob" "gold"])) =
        .ok task session ∧
    (((Query.ofTask "" task).execute badgeHost session).2.host.records "member").map (·.id) =
      members.map (·.id) :=
  ⟨_, _, rfl, by decide +kernel⟩

end Plan
end RecordSql
