import RecordSql.Proofs.Conjuncts
import RecordSql.Proofs.Join.Meaning
import RecordSql.Proofs.LinkFilters
import RecordSql.Proofs.ScopeNames

/-!
# Splitting a condition over joined tables

The native part of a `WHERE` clause becomes filters of the scopes that it is about, the rest is
decided on the retrieved rows.  For conditions on text columns this keeps the rows on which the
whole condition is true, provided that the way to every filtered scope has inner joins only.
-/

namespace RecordSql
namespace Plan

open Fetch (AllStored Database Joined ReadsOnly Scope StoredIn WrittenAt conditionHolds filterHolds
  itemHolds scopeRows)
open Sql (Column Comparison Predicate Scalar Truth)

/-!
# Conditions on text columns
-/

inductive TextTerm (known : Column -> Prop) : Scalar -> Prop where
  | text (s : String) : TextTerm known (.literal (.str s))
  | column {c : Column} (h : known c) : TextTerm known (.column c)

inductive TextCondition (known : Column -> Prop) : Predicate -> Prop where
  | and {items : List Predicate} (h : forall p, p ∈ items -> TextCondition known p) :
      TextCondition known (.and items)
  | or {items : List Predicate} (h : forall p, p ∈ items -> TextCondition known p) :
      TextCondition known (.or items)
  | not {p : Predicate} (h : TextCondition known p) : TextCondition known (.not p)
  | compare {left right : Scalar} {op : Comparison} (hleft : TextTerm known left)
      (hright : TextTerm known right) : TextCondition known (.compare left op right)
  | isNull {e : Scalar} {negated : Bool} (h : TextTerm known e) :
      TextCondition known (.isNull e negated)
  | inList {e : Scalar} {items : List Scalar} {negated : Bool} (h : TextTerm known e)
      (hitems : forall item, item ∈ items -> TextTerm known item) (hsome : items ≠ []) :
      TextCondition known (.inList e items negated)

variable {known : Column -> Prop} {clock : Clock}

theorem fold_of_term {e : Scalar} (h : TextTerm known e) : Eval.fold clock e = e := by
  cases h <;> rfl

theorem foldAll_eq_self {items : List Scalar}
    (h : forall item, item ∈ items -> Eval.fold clock item = item) :
    Eval.foldAll clock items = items := by
  induction items with
  | nil =>
      rfl
  | cons e rest ih =>
      rw [Eval.foldAll, h e List.mem_cons_self,
        ih fun item hitem => h item (List.mem_cons_of_mem _ hitem)]

theorem foldPredicates_eq_self {items : List Predicate}
    (h : forall p, p ∈ items -> Eval.foldPredicate clock p = p) :
    Eval.foldPredicates clock items = items := by
  induction items with
  | nil =>
      rfl
  | cons p rest ih =>
      rw [Eval.foldPredicates, h p List.mem_cons_self,
        ih fun p hp => h p (List.mem_cons_of_mem _ hp)]

/-- There is nothing to fold. -/
theorem foldPredicate_of_condition {p : Predicate} (h : TextCondition known p) :
    Eval.foldPredicate clock p = p := by
  induction h with
  | and _ ih =>
      rw [Eval.foldPredicate, foldPredicates_eq_self ih]
  | or _ ih =>
      rw [Eval.foldPredicate, foldPredicates_eq_self ih]
  | not _ ih =>
      rw [Eval.foldPredicate, ih]
  | compare hleft hright =>
      rw [Eval.foldPredicate, fold_of_term hleft, fold_of_term hright]
  | isNull he =>
      rw [Eval.foldPredicate, fold_of_term he]
  | inList he hitems _ =>
      rw [Eval.foldPredicate, fold_of_term he,
        foldAll_eq_self fun item hitem => fold_of_term (hitems item hitem)]

theorem TextCondition.closed : Predicate.Closed (TextCondition known) where
  and := ⟨fun | .and h => h, .and⟩
  or := ⟨fun | .or h => h, .or⟩
  not := ⟨fun | .not h => h, .not⟩
  compare
    | .compare hleft hright => .compare hleft hright
  isNull
    | .isNull he => .isNull he
  inList
    | .inList he hitems hsome => .inList he hitems hsome
  like h := by cases h
  const h := by cases h

/-!
# Evaluation never fails
-/

section

variable {ctx : Context} {read : String -> Value}

theorem TextTerm.hasValue {e : Scalar} (he : TextTerm known e) : HasValue ctx clock read e := by
  intro q h
  cases he with
  | text s =>
      cases h
      exact ⟨_, rfl⟩
  | column hc =>
      cases Context.qualify_eq_ok.mp h <;> exact ⟨_, rfl⟩

theorem TextCondition.hasTruth {p : Predicate} (hp : TextCondition known p) :
    HasTruth ctx clock read p := by
  induction hp with
  | and _ ih =>
      exact .and ih
  | or _ ih =>
      exact .or ih
  | not _ ih =>
      exact .not ih
  | compare hleft hright =>
      exact .compare hleft.hasValue hright.hasValue
  | isNull he =>
      exact .isNull he.hasValue
  | inList he hitems _ =>
      exact .inList he.hasValue fun item hitem => (hitems item hitem).hasValue

end

/-!
# Names without dots

If no attribute has a dot in its name, the name of a value in a row tells the scope that it comes
from.
-/

/-- The tables hold texts in their text columns, and no name in them has a dot. -/
structure PlainTables (ctx : Context) (db : Database) : Prop where
  declared : forall s, s ∈ ctx.scopes -> forall a, s.table.attribute? a.name = some a ->
    a.name.toList.contains '.' = false
  stored : forall s, s ∈ ctx.scopes -> forall records, db.tables s.table.name = some records ->
    forall r, r ∈ records -> forall name v, r.attributes.get? name = some v ->
      name.toList.contains '.' = false
  texts : forall s, s ∈ ctx.scopes -> forall a, s.table.attribute? a.name = some a ->
    a.type.isString = true -> forall records, db.tables s.table.name = some records ->
      forall r, r ∈ records -> r.get a.name = .null ∨ exists text, r.get a.name = .str text

/-- The name of an attribute of a scope, as rows have it. -/
def KeyOf (ctx : Context) (scope : Nat) (key : String) : Prop :=
  exists a, ctx.scopes.attributeIn scope a.name = some a ∧ key = ctx.scopes.front scope ++ a.name

section

variable {ctx : Context} {db : Database}

theorem attributeIn_eq {scope : Nat} {a : AttributeDef}
    (h : ctx.scopes.attributeIn scope a.name = some a) :
    exists s, ctx.scopes[scope]? = some s ∧ s.table.attribute? a.name = some a :=
  Option.bind_eq_some_iff.mp h

/-- A value that rows show for a name of a scope is stored in the table of the scope. -/
theorem stored_of_name (htabled : Tabled ctx) (hplain : PlainTables ctx db) {scope : Nat}
    {s : TableScope} (hs : ctx.scopes[scope]? = some s) {column : String}
    (hdot : column.toList.contains '.' = false) {v : Value} {entry : String × String}
    (hentry : entry ∈ ctx.fetch.root.tables "")
    (h : StoredIn db [entry] (ctx.scopes.front scope ++ column) v) :
    entry = (s.front, s.table.name) ∧ exists records r, db.tables s.table.name = some records ∧
      r ∈ records ∧ r.attributes.get? column = some v := by
  rcases List.mem_map.mp (htabled.tables.mem_iff.mp hentry) with ⟨t, ht, rfl⟩
  rcases h with ⟨front, table, records, r, name, hmem, hrecords, hr, hkey, hv⟩
  cases List.mem_singleton.mp hmem
  rw [Scopes.front_eq hs] at hkey
  have hfront : s.front = t.front := front_eq_of_key_eq hdot
    (hplain.stored t ht records hrecords r hr name v hv) hkey
  rcases List.getElem?_of_mem ht with ⟨j, hj⟩
  cases htabled.eq_of_front hs hj hfront
  cases hs.symm.trans hj
  cases (String.append_right_inj _).mp hkey
  exact ⟨rfl, records, r, hrecords, hr, hv⟩

/-- A value that rows show for an attribute is stored in the table of its scope. -/
theorem stored_of_key (htabled : Tabled ctx) (hplain : PlainTables ctx db) {scope : Nat}
    {s : TableScope} (hs : ctx.scopes[scope]? = some s) {a : AttributeDef}
    (ha : s.table.attribute? a.name = some a) {v : Value} {entry : String × String}
    (hentry : entry ∈ ctx.fetch.root.tables "")
    (h : StoredIn db [entry] (ctx.scopes.front scope ++ a.name) v) :
    entry = (s.front, s.table.name) ∧ exists records r, db.tables s.table.name = some records ∧
      r ∈ records ∧ r.attributes.get? a.name = some v :=
  stored_of_name htabled hplain hs (hplain.declared s (List.mem_of_getElem? hs) a ha) hentry h

theorem writtenAt_keyOf (htabled : Tabled ctx) (hplain : PlainTables ctx db) (scope : Nat) :
    WrittenAt db (ctx.fetch.root.tables "") (ctx.scopes.front scope) (KeyOf ctx scope) := by
  rintro entry hentry key v ⟨a, ha, rfl⟩ hstored
  rcases attributeIn_eq ha with ⟨s, hs, ha⟩
  rw [(stored_of_key htabled hplain hs ha hentry hstored).1, Scopes.front_eq hs]

/-- The bound column is of texts. -/
def IsText (ctx : Context) (b : Bound) : Prop :=
  (ctx.typeOf? b).any (·.isString) = true

theorem keyOf_resolve {c : Column} {b : Bound} (h : ctx.resolve c = .ok (some b)) :
    KeyOf ctx b.scope (ctx.scopes.front b.scope ++ b.name) := by
  rcases Scopes.attributeOf_resolve (Context.resolve_eq h) with ⟨a, ha, hname, _⟩
  exact ⟨a, by rw [hname]; exact ha, by rw [hname]⟩

/-- Rows of the tables have texts, or nothing, in the text columns. -/
theorem readable_of_stored (htabled : Tabled ctx) (hplain : PlainTables ctx db) {row : Joined}
    (hrow : AllStored db (ctx.fetch.root.tables "") [row]) :
    Context.Readable ctx (IsText ctx) row := by
  intro c b hc hb
  rcases Scopes.attributeOf_resolve (Context.resolve_eq hc) with ⟨a, ha, hname, _⟩
  have htyped : ctx.typeOf? b = some a.type := by
    rw [Context.typeOf?, ha]
    rfl
  have hstring : a.type.isString = true := by
    rw [IsText, htyped] at hb
    exact hb
  refine ⟨a.type, htyped, ?_⟩
  rw [Scopes.rowKey_eq, Joined.get]
  cases hv : row.values.get? (ctx.scopes.front b.scope ++ b.name) with
  | none =>
      trivial
  | some v =>
      rw [Scopes.attributeOf, <- hname] at ha
      rcases attributeIn_eq ha with ⟨s, hs, ha⟩
      rw [<- hname] at hv
      rcases hrow row (List.mem_singleton_self _) _ v hv with
        ⟨front, table, records, r, name, hentry, hstored⟩
      rcases (stored_of_key htabled hplain hs ha hentry
        ⟨front, table, records, r, name, List.mem_singleton_self _, hstored⟩).2 with
        ⟨records, r, hrecords, hr, hget⟩
      have hvalue : r.get a.name = v := by
        rw [Record.get, hget]
        rfl
      rcases hplain.texts s (List.mem_of_getElem? hs) a ha hstring records hrecords r hr with
        hnull | ⟨text, htext⟩
      · rw [Option.getD_some, <- hvalue, hnull]
        trivial
      · rw [Option.getD_some, <- hvalue, htext]
        exact hstring

end

/-!
# What a native condition reads
-/

section

variable {ctx : Context} {now : Calendar.DateTime} {row row' : Joined}

/-- A condition is about columns of one scope, and names them so that the platform finds them. -/
structure About (ctx : Context) (scope : Nat) (c : Fetch.Condition) : Prop where
  column : KeyOf ctx scope (ctx.scopes.front scope ++ c.column)
  other : forall name, c.valueOf = some name ->
    KeyOf ctx scope (ctx.scopes.front scope ++ name) ∧
      (ctx.scopes.front scope = "" ∨ name.toList.contains '.' = false)

theorem About.conditionHolds_congr {scope : Nat} {c : Fetch.Condition} (h : About ctx scope c)
    (hrow : forall key, KeyOf ctx scope key -> row.get key = row'.get key) :
    conditionHolds now (ctx.scopes.front scope) row c =
      conditionHolds now (ctx.scopes.front scope) row' c := by
  have hoperand : Fetch.operand (ctx.scopes.front scope) row c =
      Fetch.operand (ctx.scopes.front scope) row' c := by
    rw [Fetch.operand, Fetch.operand]
    cases hother : c.valueOf with
    | none =>
        rfl
    | some name =>
        rcases h.other name hother with ⟨hkey, hname⟩
        have hsame : (if name.toList.contains '.' then name
            else ctx.scopes.front scope ++ name) = ctx.scopes.front scope ++ name := by
          rcases hname with hfront | hdot
          · rw [hfront, String.empty_append, ite_self]
          · rw [hdot]
            rfl
        simp only [hsame]
        exact hrow _ hkey
  rw [conditionHolds, conditionHolds, hrow _ h.column, hoperand]

theorem keyOf_operand {e : Scalar} {b : Bound} (h : ctx.operand e = .ok (.column b)) :
    KeyOf ctx b.scope (ctx.scopes.front b.scope ++ b.name) := by
  rcases Context.resolve_of_operand h with ⟨c, _, hfound⟩
  exact keyOf_resolve hfound

/-- Whether an item holds depends on the attributes of one scope. -/
def Confined (now : Calendar.DateTime) (ctx : Context) (scope : Nat) (item : FilterItem) : Prop :=
  forall row row' : Joined, (forall key, KeyOf ctx scope key -> row.get key = row'.get key) ->
    itemHolds now (ctx.scopes.front scope) row item =
      itemHolds now (ctx.scopes.front scope) row' item

theorem About.confined {scope : Nat} {c : Fetch.Condition} (h : About ctx scope c) :
    Confined now ctx scope (.inl c) :=
  fun _ _ hrow => h.conditionHolds_congr hrow

theorem confined_all {scope : Nat} {items : List FilterItem}
    (h : forall item, item ∈ items -> Confined now ctx scope item) :
    Confined now ctx scope (.inr ⟨.all, items⟩) := by
  intro row row' hrow
  rw [itemHolds, itemHolds, Fetch.filterHolds_all, Fetch.filterHolds_all]
  induction items with
  | nil =>
      rfl
  | cons item rest ih =>
      rw [Fetch.allHold_cons, Fetch.allHold_cons, h item List.mem_cons_self row row' hrow,
        ih fun item hitem => h item (List.mem_cons_of_mem _ hitem)]

theorem anyHolds_confined {scope : Nat} {items : List FilterItem}
    (h : forall item, item ∈ items -> Confined now ctx scope item)
    (hrow : forall key, KeyOf ctx scope key -> row.get key = row'.get key) :
    Fetch.anyHolds now (ctx.scopes.front scope) row items =
      Fetch.anyHolds now (ctx.scopes.front scope) row' items := by
  induction items with
  | nil =>
      rfl
  | cons item rest ih =>
      rw [Fetch.anyHolds_cons, Fetch.anyHolds_cons, h item List.mem_cons_self row row' hrow,
        ih fun item hitem => h item (List.mem_cons_of_mem _ hitem)]

theorem confined_any {scope : Nat} {items : List FilterItem} (hsome : items ≠ [])
    (h : forall item, item ∈ items -> Confined now ctx scope item) :
    Confined now ctx scope (.inr ⟨.any, items⟩) := by
  intro row row' hrow
  rw [itemHolds, itemHolds, Fetch.filterHolds_any hsome, Fetch.filterHolds_any hsome,
    anyHolds_confined h hrow]

theorem NativeMembers.confined {items : List Predicate} {scope : Nat} {found : List FilterItem}
    (h : NativeMembers ctx items scope found)
    (hitems : forall p, p ∈ items -> forall {n : Native}, ctx.native p = .ok (some n) ->
      Confined now ctx n.scope n.item) :
    forall item, item ∈ found -> Confined now ctx scope item := by
  intro item hitem
  rcases h.exists_of_mem hitem with ⟨p, hp, hnative⟩
  have hconfined := hitems p hp hnative
  exact hconfined

/-- A condition that reads one column and no other. -/
theorem confined_column {e : Scalar} {b : Bound} (hb : ctx.operand e = .ok (.column b))
    {c : Fetch.Condition} (hcolumn : c.column = b.name) (hother : c.valueOf = none) :
    Confined now ctx b.scope (.inl c) := by
  refine About.confined ⟨?_, fun name hname => ?_⟩
  · rw [hcolumn]
    exact keyOf_operand hb
  · rw [hother] at hname
    cases hname

/-- A native condition reads the attributes of its scope only. -/
theorem native_confined {known : Bound -> Prop} {p : Predicate} (hp : Simple ctx known p)
    {found : Native} (h : ctx.native p = .ok (some found)) :
    Confined now ctx found.scope found.item := by
  induction hp generalizing found with
  | and _ ih =>
      cases Context.native_form h with
      | and hmembers =>
          exact confined_all (hmembers.confined ih)
  | or _ ih =>
      cases Context.native_form h with
      | or hmembers =>
          exact confined_any hmembers.found_ne_nil (hmembers.confined ih)
  | compare _ hright hcomparable =>
      cases Context.native_form h with
      | columnLiteral hl _ _ _ =>
          exact confined_column hl rfl rfl
      | literalColumn _ hr _ _ =>
          exact confined_column hr rfl rfl
      | @columns _ _ _ a b hl hr hscope =>
          refine About.confined ⟨keyOf_operand hl, fun name hname => ?_⟩
          cases hname
          change KeyOf ctx a.scope _ ∧ _
          rw [hscope]
          exact ⟨keyOf_operand hr, hcomparable b hr⟩
      | function _ _ =>
          exact absurd hright Context.not_call_of_plain
  | isNull _ =>
      cases Context.native_form h with
      | isNull hb =>
          exact confined_column hb rfl rfl
  | inList _ _ _ =>
      cases Context.native_form h with
      | inList hb _ =>
          exact confined_column hb rfl rfl
  | like _ _ =>
      cases Context.native_form h with
      | like hb _ =>
          exact confined_column hb rfl rfl
  | const u =>
      cases Context.native_form h
  | not hp =>
      cases Context.native_form h with
      | notContains _ _ =>
          exact absurd rfl (hp _ _)

end

/-!
# The two parts of a condition
-/

section

variable {ctx : Context} {db : Database}

/-- The columns that a condition may read: those of texts, and names that are no columns. -/
def NamesText (ctx : Context) (c : Column) : Prop :=
  forall b, ctx.resolve c = .ok (some b) -> IsText ctx b

theorem comparable_of_plain (hplain : PlainTables ctx db) (right : Scalar) :
    Comparable ctx right := by
  intro b hb
  rcases keyOf_operand hb with ⟨a, ha, hkey⟩
  have hname : b.name = a.name := (String.append_right_inj _).mp hkey
  rcases attributeIn_eq ha with ⟨s, hs, ha⟩
  rw [hname]
  exact Or.inr (hplain.declared s (List.mem_of_getElem? hs) a ha)

theorem TextTerm.plain {e : Scalar} (h : TextTerm (NamesText ctx) e) :
    Plain ctx (IsText ctx) e := by
  cases h with
  | text s =>
      exact .text s
  | column h =>
      exact .column _ h

theorem TextCondition.simple (hplain : PlainTables ctx db) {p : Predicate}
    (h : TextCondition (NamesText ctx) p) : Simple ctx (IsText ctx) p := by
  induction h with
  | and _ ih =>
      exact .and ih
  | or _ ih =>
      exact .or ih
  | not h ih =>
      refine .not fun c wanted hp => ?_
      subst hp
      cases h
  | compare hleft hright =>
      exact .compare hleft.plain hright.plain (comparable_of_plain hplain _)
  | isNull he =>
      exact .isNull he.plain
  | inList he hitems hsome =>
      exact .inList he.plain (fun item hitem => (hitems item hitem).plain) hsome

variable {now : Calendar.DateTime}

/-- A native condition is decided without a fault, and holds if the condition is true. -/
theorem decidedAlike_of_simple (htabled : Tabled ctx) (hplain : PlainTables ctx db) {p : Predicate}
    (hp : Simple ctx (IsText ctx) p)
    (htotal : forall q, ctx.qualifyPredicate p = .ok q -> forall row : Joined,
      exists t, Eval.predicate clock row.get q = .ok t) :
    DecidedAlike now clock ctx (fun row => AllStored db (ctx.fetch.root.tables "") [row]) p := by
  have hempty : AllStored db (ctx.fetch.root.tables "") [⟨none, .empty⟩] := by
    intro row hrow key v hv
    cases List.mem_singleton.mp hrow
    cases hv
  exact decidedAlike_of_readable hp (readable_of_stored htabled hplain hempty)
    (fun row hrow => readable_of_stored htabled hplain hrow) fun q hq row _ => htotal q hq row

theorem decidedAlike_of_text (htabled : Tabled ctx) (hplain : PlainTables ctx db) {p : Predicate}
    (hp : TextCondition (NamesText ctx) p) :
    DecidedAlike now clock ctx (fun row => AllStored db (ctx.fetch.root.tables "") [row]) p :=
  decidedAlike_of_simple htabled hplain (hp.simple hplain) fun _ hq _ => hp.hasTruth.total hq

end

/-!
# The rows of the filtered tree
-/

section

variable {ctx : Context} {db : Database}

/-- A native condition that may as well be decided on the joined rows. -/
structure Movable (db : Database) (ctx : Context) (n : Native) : Prop where
  scope : n.scope < ctx.scopes.length
  inner : ctx.fetch.root.innerPath (ctx.scopes.pathOf n.scope) = true
  confined : Confined db.now ctx n.scope n.item
  decided : forall row, AllStored db (ctx.fetch.root.tables "") [row] ->
    exists b, itemHolds db.now (ctx.scopes.front n.scope) row n.item = .ok b

theorem Movable.update {n : Native} (h : Movable db ctx n) (hrooted : Rooted ctx) {i : Nat}
    (hi : i < ctx.scopes.length) (f : Fetch.Filter) :
    Movable db (ctx.update i (·.addFilter f)) n where
  scope := h.scope
  inner := (Scope.innerPath_addFilter f _ _ _).trans h.inner
  confined := h.confined
  decided row hrow := h.decided row (hrow.mono (tables_addFilter hrooted hi f).subset)

theorem readsOnly_all {found : List Native} {scope : Nat}
    (hscope : forall n, n ∈ found -> n.scope = scope)
    (h : forall n, n ∈ found -> Movable db ctx n) :
    ReadsOnly (KeyOf ctx scope) fun row => found.all (holdsNatively db.now ctx row) := by
  intro row row' hrow
  rw [Bool.eq_iff_iff, List.all_eq_true, List.all_eq_true]
  refine forall_congr' fun n => forall_congr' fun hn => ?_
  have hconfined := (h n hn).confined
  rw [hscope n hn] at hconfined
  rw [holdsNatively, holdsNatively, hscope n hn, hconfined row row' hrow]

/-- The native conditions of one scope filter the joined rows. -/
theorem scopeRows_attach (htabled : Tabled ctx) (hrooted : Rooted ctx)
    (hplain : PlainTables ctx db) {found : List Native}
    (hfound : forall n, n ∈ found -> Movable db ctx n) {scope : Nat}
    (hscope : found.any (·.scope == scope) = true) {rows : List Joined}
    (h : scopeRows db "" ctx.fetch.root = .ok rows) :
    scopeRows db "" (ctx.attach found scope).fetch.root =
      .ok (rows.filter fun row =>
        (found.filter (·.scope == scope)).all (holdsNatively db.now ctx row)) := by
  have hsame : forall n, n ∈ found.filter (·.scope == scope) -> n.scope = scope :=
    fun n hn => eq_of_beq (List.mem_filter.mp hn).2
  have hmovable : forall n, n ∈ found.filter (·.scope == scope) -> Movable db ctx n :=
    fun n hn => hfound n (List.mem_of_mem_filter hn)
  rcases List.any_eq_true.mp hscope with ⟨n, hn, hnscope⟩
  have hn' := hmovable n (List.mem_filter.mpr ⟨hn, hnscope⟩)
  have hlt := hn'.scope
  have hinner := hn'.inner
  rw [eq_of_beq hnscope] at hlt hinner
  rcases hrooted.place hlt with ⟨at', hplace, _⟩
  refine Fetch.scopeRows_addFilter (readsOnly_all hsame hmovable) ?_ hplace hinner
    (writtenAt_keyOf htabled hplain scope) htabled.nodup h
  intro below hbelow row hrow
  have hstored : AllStored db (ctx.fetch.root.tables "") [row] :=
    (Fetch.allStored_of_mem hbelow hrow).mono (Scope.gather_subset_of_place hplace)
  rw [filterHolds_groupItems]
  exact allHold_eq_all hsame fun n hn => (hmovable n hn).decided row hstored

theorem scopeRows_foldl_attach (htabled : Tabled ctx) (hrooted : Rooted ctx)
    (hplain : PlainTables ctx db) {found : List Native}
    (hfound : forall n, n ∈ found -> Movable db ctx n) {scopes : List Nat}
    (hscopes : forall scope, scope ∈ scopes -> scope < ctx.scopes.length ∧
      found.any (·.scope == scope) = true)
    {rows : List Joined} (h : scopeRows db "" ctx.fetch.root = .ok rows) :
    scopeRows db "" (scopes.foldl (fun ctx scope => ctx.attach found scope) ctx).fetch.root =
      .ok (rows.filter fun row => scopes.all fun scope =>
        (found.filter (·.scope == scope)).all (holdsNatively db.now ctx row)) := by
  induction scopes generalizing ctx rows with
  | nil =>
      rw [List.foldl_nil, h]
      exact congrArg Except.ok (List.filter_eq_self.mpr fun _ _ => rfl).symm
  | cons scope rest ih =>
      rcases hscopes scope List.mem_cons_self with ⟨hlt, hsome⟩
      have hstep := scopeRows_attach htabled hrooted hplain hfound hsome h
      have hrest := ih (htabled.addFilter hrooted hlt _)
        (hrooted.update (Scope.extends_addFilter _) scope) ⟨hplain.declared, hplain.stored,
          hplain.texts⟩ (fun n hn => (hfound n hn).update hrooted hlt _)
        (fun scope hscope => hscopes scope (List.mem_cons_of_mem _ hscope)) hstep
      rw [List.foldl_cons]
      refine hrest.trans (congrArg Except.ok ?_)
      rw [List.filter_filter]
      refine List.filter_congr fun row _ => ?_
      rw [List.all_cons, Bool.and_comm]
      rfl

/-- All native conditions together filter the joined rows. -/
theorem scopeRows_attachAll (htabled : Tabled ctx) (hrooted : Rooted ctx)
    (hplain : PlainTables ctx db) {found : List Native}
    (hfound : forall n, n ∈ found -> Movable db ctx n) {rows : List Joined}
    (h : scopeRows db "" ctx.fetch.root = .ok rows) :
    scopeRows db "" (ctx.attachAll found).fetch.root =
      .ok (rows.filter fun row => found.all (holdsNatively db.now ctx row)) := by
  rw [Context.attachAll, scopeRows_foldl_attach htabled hrooted hplain hfound ?_ h]
  · refine congrArg Except.ok (List.filter_congr fun row _ => ?_)
    rw [Bool.eq_iff_iff, List.all_eq_true, List.all_eq_true]
    constructor
    · intro hall n hn
      have hscope : n.scope ∈ (List.range ctx.scopes.length).filter
          fun i => found.any (·.scope == i) :=
        List.mem_filter.mpr ⟨List.mem_range.mpr (hfound n hn).scope,
          List.any_eq_true.mpr ⟨n, hn, beq_self_eq_true _⟩⟩
      exact List.all_eq_true.mp (hall n.scope hscope) n
        (List.mem_filter.mpr ⟨hn, beq_self_eq_true _⟩)
    · intro hall scope _
      exact List.all_eq_true.mpr fun n hn => hall n (List.mem_of_mem_filter hn)
  · intro scope hscope
    rcases List.mem_filter.mp hscope with ⟨hrange, hsome⟩
    exact ⟨List.mem_range.mp hrange, hsome⟩

/-- The rows on which a condition is true; without one, all rows. -/
def keptBy (clock : Clock) (condition : Option Predicate) (rows : List Joined) : List Joined :=
  rows.filter fun row => condition.all (isTrueOn clock row.get)

/-- Every row has a truth value, if there is a condition. -/
def Decides (clock : Clock) (condition : Option Predicate) (rows : List Joined) : Prop :=
  forall q, condition = some q -> forall row, row ∈ rows ->
    exists t, Eval.predicate clock row.get q = .ok t

/--
The two parts of a condition keep the rows on which it is true, if every scope with a native filter
is reached by inner joins.  It is not enough that the scope itself is linked by one.
-/
theorem filtered_rows_eq {σ : Type} {lookup : Lookup σ} {options : Options} {source : Sql.Source}
    {ctx' : Context} {w w' : σ} {p : Predicate} {residual : Residual} {rows : List Joined}
    (hctx : (contextOf lookup options source).run w = .ok ctx w')
    (hp : TextCondition (NamesText ctx) p)
    (hwhere : ctx.applyWhere clock (some p) = .ok (ctx', residual))
    (hplain : PlainTables ctx db) (hrows : scopeRows db "" ctx.fetch.root = .ok rows)
    (hinner : forall q, q ∈ p.pushNot.conjuncts -> forall n, ctx.native q = .ok (some n) ->
      ctx.scopes.isOuter n.scope = false ->
      ctx.fetch.root.innerPath (ctx.scopes.pathOf n.scope) = true) :
    exists q rows', ctx.qualifyPredicate p = .ok q ∧
      scopeRows db "" ctx'.fetch.root = .ok rows' ∧
      Decides clock (some q) rows ∧ Decides clock residual.predicate rows' ∧
      keptBy clock residual.predicate rows' = keptBy clock (some q) rows := by
  have htabled := tabled_contextOf hctx
  have hrooted := (ready_contextOf hctx).rooted
  have hconjuncts := TextCondition.closed.normal hp
  rcases Context.applyWhere_some hwhere with ⟨split, hsplit, rfl, rfl⟩
  rw [foldPredicate_of_condition hp] at hsplit
  have hconst : forall q, q ∈ p.pushNot.conjuncts -> q ≠ .const .isTrue := by
    rintro q hq rfl
    cases hconjuncts _ hq
  have hdivided := splitAll_divided hconst hsplit
  have halike := fun q hq => @decidedAlike_of_text clock ctx db db.now htabled hplain q
    (hconjuncts q hq)
  have hmovable : forall n, n ∈ split.native -> Movable db ctx n := by
    intro n hn
    rcases hdivided.mem_native hn with ⟨q, hq, hnative, hnouter⟩
    have hsimple := (hconjuncts q hq).simple hplain
    refine ⟨Context.native_scope_lt hsimple hnative, hinner q hq n hnative hnouter,
      native_confined hsimple hnative, fun row hrow => ?_⟩
    rcases halike q hq n hnative with ⟨q', _, hholds⟩
    exact ⟨_, hholds row hrow⟩
  have htotal : forall q, q ∈ split.qualified -> forall row : Joined,
      exists t, Eval.predicate clock row.get q = .ok t := by
    intro q hq row
    rcases hdivided.mem_qualified hq with ⟨p', hp', hpq⟩
    exact (hconjuncts p' hp').hasTruth.total hpq
  rcases hdivided.isTrueOn_eq halike with ⟨q, hq, hwhole⟩
  refine ⟨q, _, hq, scopeRows_attachAll htabled hrooted hplain hmovable hrows, ?_, ?_, ?_⟩
  · intro q' hq' row _
    cases hq'
    exact hp.hasTruth.total hq
  · intro q' hq' row _
    exact andAll_total (fun q'' hq'' => htotal q'' hq'' row) hq'
  · rw [keptBy, keptBy, List.filter_filter]
    refine List.filter_congr fun row hrow => ?_
    rw [andAll_isTrueOn, Option.all_some, hwhole row (Fetch.allStored_of_mem hrows hrow),
      Bool.and_comm]

end

/-!
# Parcels by depot

The depots are filtered by the platform, since all joins on the way to them are inner ones.  The
condition on the towns, which an outer join adds, is decided on the retrieved rows.
-/

/-- `parcel INNER JOIN depot AS d ON d.name = parcel.depot LEFT JOIN town AS t ON t.name = d.town` -/
def depotSource : Sql.Source :=
  let equation (a b c d : String) : Predicate :=
    .compare (.column (.inCollection a b)) .eq (.column (.inCollection c d))
  ⟨⟨"parcel", none, false⟩,
    [⟨.inner, ⟨"depot", some "d", false⟩, equation "d" "name" "parcel" "depot"⟩,
      ⟨.leftOuter, ⟨"town", some "t", false⟩, equation "t" "name" "d" "town"⟩]⟩

def depotContext : Context where
  options := .standard
  scopes := [⟨"parcel", Join.textTable "parcel" ["depot"], [], false⟩,
    ⟨"d", Join.textTable "depot" ["name", "town"], [0], false⟩,
    ⟨"t", Join.textTable "town" ["name"], [0, 0], true⟩]
  fetch := { Fetch.Query.ofTable "parcel" with
    root := (Scope.ofTable "parcel").addLink ⟨"name", "depot", "d", false⟩
      ((Scope.ofTable "depot").addLink ⟨"name", "town", "t", true⟩ (.ofTable "town")) }

def depotDatabase : Database where
  tables := fun name =>
    if name = "parcel" then
      some [⟨"parcel", none, .ofList [("depot", .str "north")]⟩,
        ⟨"parcel", none, .ofList [("depot", .str "south")]⟩]
    else if name = "depot" then
      some [⟨"depot", none, .ofList [("name", .str "north"), ("town", .str "york")]⟩,
        ⟨"depot", none, .ofList [("name", .str "south"), ("town", .str "leeds")]⟩]
    else some []
  pageSize := 10
  aggregateLimit := none
  now := newYear

/-- `d.town = 'york' AND (t.name IS NULL OR NOT parcel.depot = 'south')` -/
def depotCondition : Predicate :=
  .and [.compare (.column (.inCollection "d" "town")) .eq (.literal (.str "york")),
    .or [.isNull (.column (.inCollection "t" "name")) false,
      .not (.compare (.column (.inCollection "parcel" "depot")) .eq (.literal (.str "south")))]]

theorem depotCondition_text : TextCondition (NamesText depotContext) depotCondition := by
  have hcolumn : forall c, c ∈ [Column.inCollection "d" "town", .inCollection "t" "name",
      .inCollection "parcel" "depot"] -> NamesText depotContext c := by
    intro c hc b hb
    rcases List.mem_cons.mp hc with rfl | hc
    · cases hb
      rfl
    · rcases List.mem_cons.mp hc with rfl | hc
      · cases hb
        rfl
      · cases List.mem_singleton.mp hc
        cases hb
        rfl
  have htown := hcolumn (.inCollection "d" "town") (by simp)
  have hname := hcolumn (.inCollection "t" "name") (by simp)
  have hdepot := hcolumn (.inCollection "parcel" "depot") (by simp)
  refine .and fun p hp => ?_
  rcases List.mem_cons.mp hp with rfl | hp
  · exact .compare (.column htown) (.text "york")
  · cases List.mem_singleton.mp hp
    refine .or fun p hp => ?_
    rcases List.mem_cons.mp hp with rfl | hp
    · exact .isNull (.column hname)
    · cases List.mem_singleton.mp hp
      exact .not (.compare (.column hdepot) (.text "south"))

theorem depot_entries : forall s, s ∈ depotContext.scopes ->
    forall r, r ∈ (depotDatabase.tables s.table.name).getD [] ->
      forall entry, entry ∈ r.attributes.entries ->
        entry.1.toList.contains '.' = false ∧ Eval.isText entry.2 = true := by
  decide

theorem depot_plainTables : PlainTables depotContext depotDatabase where
  declared := by
    have hnames : forall s, s ∈ depotContext.scopes -> forall a, a ∈ s.table.attributes ->
        a.name.toList.contains '.' = false := by
      decide
    intro s hs a ha
    exact hnames s hs a (List.mem_of_find?_eq_some ha)
  stored := by
    intro s hs records hrecords r hr name v hv
    have hentries := depot_entries s hs
    rw [hrecords] at hentries
    exact (hentries r hr (name, v) ((Dict.get?_eq_some_iff _).mp hv)).1
  texts := by
    intro s hs a _ _ records hrecords r hr
    have hentries := depot_entries s hs
    rw [hrecords] at hentries
    rw [Record.get]
    cases hv : r.attributes.get? a.name with
    | none =>
        exact Or.inl rfl
    | some v =>
        have htext := (hentries r hr (a.name, v) ((Dict.get?_eq_some_iff _).mp hv)).2
        cases v with
        | str text =>
            exact Or.inr ⟨text, rfl⟩
        | _ =>
            cases htext

theorem depot_filtered_rows :
    exists ctx residual rows',
      depotContext.applyWhere ⟨newYear, newYear⟩ (some depotCondition) = .ok (ctx, residual) ∧
      residual.predicate.isSome = true ∧ scopeRows depotDatabase "" ctx.fetch.root = .ok rows' ∧
      (keptBy ⟨newYear, newYear⟩ residual.predicate rows').length = 1 := by
  have hinner : forall q, q ∈ depotCondition.pushNot.conjuncts -> forall n,
      depotContext.native q = .ok (some n) -> depotContext.scopes.isOuter n.scope = false ->
      depotContext.fetch.root.innerPath (depotContext.scopes.pathOf n.scope) = true := by
    intro q hq n hn _
    rcases List.mem_cons.mp hq with rfl | hq
    · cases hn
      rfl
    · cases List.mem_singleton.mp hq
      cases hn
  rcases @filtered_rows_eq ⟨newYear, newYear⟩ depotContext depotDatabase Unit Join.parcelTables
    .standard depotSource _ () () depotCondition _ _ rfl depotCondition_text rfl depot_plainTables
    rfl hinner with ⟨q, rows', hq, hrows', _, _, hkept⟩
  refine ⟨_, _, rows', rfl, rfl, hrows', ?_⟩
  rw [hkept]
  cases hq
  rfl

end Plan
end RecordSql
