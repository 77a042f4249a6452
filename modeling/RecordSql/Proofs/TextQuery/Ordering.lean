import RecordSql.Plan.Ordering
import RecordSql.Proofs.TextQuery.SelectList
import RecordSql.Step.Apply

/-!
# Planning the order of texts

The keys from the front that are attributes become orders of the platform.  If any key is left, a
local step sorts by all of them, each of which it reads from a retrieved or computed column or
evaluates on retrieved ones.
-/

namespace RecordSql
namespace TextQuery

open Fetch (Attribute Order)
open Plan (Bound Context SortTarget bound?_eq_some_iff reads)
open Sql (Column OrderKey Scalar SelectItem)

variable {f : Frame} {attributes : List Attribute} {orders : List Order} {records : List Record}

/-!
# Items named by keys
-/

/-- A key is a select item if it has the alias of one, and the first such item. -/
theorem aliasedItem?_eq_some {items : List SelectItem} {name : String} {item : SelectItem}
    {aliasName : String} (h : Plan.aliasedItem? items name = some (item, aliasName)) :
    items.find? (fun item => item.aliasName.any (Text.sameName · name)) = some item ∧
      item.aliasName = some aliasName := by
  induction items with
  | nil =>
      cases h
  | cons first rest ih =>
      rw [Plan.aliasedItem?, List.findSome?_cons] at h
      rw [List.find?_cons]
      cases halias : first.aliasName with
      | none =>
          simp only [halias, Option.filter_none, Option.map_none] at h
          exact ih h
      | some found =>
          cases hsame : Text.sameName found name with
          | false =>
              simp only [halias, Option.filter_some, hsame, Bool.false_eq_true, if_false,
                Option.map_none] at h
              simpa [hsame] using ih h
          | true =>
              simp only [halias, Option.filter_some, hsame, if_true, Option.map_some,
                Option.some.injEq, Prod.mk.injEq] at h
              rcases h with ⟨rfl, rfl⟩
              exact ⟨by simp [hsame], halias⟩

theorem aliasedItem?_eq_none {items : List SelectItem} {name : String}
    (h : Plan.aliasedItem? items name = none) :
    items.find? (fun item => item.aliasName.any (Text.sameName · name)) = none := by
  rw [List.find?_eq_none]
  intro item hitem hany
  rw [Plan.aliasedItem?, List.findSome?_eq_none_iff] at h
  have hnone := h item hitem
  cases halias : item.aliasName with
  | none =>
      rw [halias] at hany
      cases hany
  | some found =>
      rw [halias, Option.any_some] at hany
      simp [halias, hany] at hnone

/-- An item that is not a column is computed into the column that shows it. -/
theorem mem_computes_of_zip {t : TableDef} {n : Nat} {items : List SelectItem} {item : SelectItem}
    {output : String} (hcolumn : forall c, item.expr ≠ .column c)
    (h : (item, output) ∈ items.zip (outputs t n items)) : (item.expr, output) ∈ computes n items := by
  induction items generalizing n with
  | nil =>
      cases h
  | cons first rest ih =>
      rcases first with ⟨e, aliasName⟩
      by_cases hfirst : exists c, e = .column c
      · rcases hfirst with ⟨c, rfl⟩
        rw [computes_cons_column]
        cases aliasName with
        | none =>
            rw [outputs, List.zip_cons_cons, List.mem_cons] at h
            rcases h with heq | h
            · cases heq
              exact absurd rfl (hcolumn c)
            · exact ih h
        | some name =>
            rw [outputs, List.zip_cons_cons, List.mem_cons] at h
            rcases h with heq | h
            · cases heq
              exact absurd rfl (hcolumn c)
            · exact ih h
      · have hnot : forall c, e ≠ .column c := fun c hc => hfirst ⟨c, hc⟩
        rcases @cons_of_not_column t e hnot n aliasName rest with ⟨houtputs, _, hcomputes⟩
        rw [houtputs, List.zip_cons_cons, List.mem_cons] at h
        rw [hcomputes]
        rcases h with heq | h
        · cases heq
          exact List.mem_append_left _ (List.mem_singleton_self _)
        · exact List.mem_append_right _ (ih h)

theorem mem_zip_of_alias {t : TableDef} {n : Nat} {items : List SelectItem} {item : SelectItem}
    {aliasName : String} (hitem : item ∈ items) (halias : item.aliasName = some aliasName) :
    (item, aliasName) ∈ items.zip (outputs t n items) := by
  induction items generalizing n with
  | nil =>
      cases hitem
  | cons first rest ih =>
      rcases first with ⟨e, other⟩
      have hshape : exists output m, outputs t n (⟨e, other⟩ :: rest) = output :: outputs t m rest ∧
          (forall name, other = some name -> output = name) := by
        cases other with
        | some name =>
            refine ⟨name, n, by rw [outputs], ?_⟩
            intro name' hname
            cases hname
            rfl
        | none =>
            by_cases hfirst : exists c, e = .column c
            · rcases hfirst with ⟨c, rfl⟩
              exact ⟨_, n, by rw [outputs], fun _ h => by cases h⟩
            · have hnot : forall c, e ≠ .column c := fun c hc => hfirst ⟨c, hc⟩
              exact ⟨_, _, (cons_of_not_column hnot n none rest).1, fun _ h => by cases h⟩
      rcases hshape with ⟨output, m, houtputs, houtput⟩
      rw [houtputs, List.zip_cons_cons, List.mem_cons]
      rcases List.mem_cons.mp hitem with rfl | hitem
      · rw [houtput aliasName halias]
        exact Or.inl rfl
      · exact Or.inr (ih hitem)

/-!
# Targets
-/

/-- What a sort target sorts by. -/
inductive Aims (f : Frame) (records : List Record) (entries : List (Scalar × String)) :
    SortTarget -> (Record -> Value) -> Prop where
  | native {b : Bound} (h : Listed f.table b) : Aims f records entries (.native b) (·.get b.name)
  | output {e : Scalar} {name : String} (h : (e, name) ∈ entries) :
      Aims f records entries (.computed (.column (.ofName name)) []) fun r => value f.table r e
  | computed {e : Scalar} (he : TextScalar (TextColumn f.table records) e)
      (h : Binds (f.context [] []) (reads e)) :
      Aims f records entries (.computed (bare f.table e) ((f.context [] []).used e))
        fun r => value f.table r e

theorem aims_column {entries : List (Scalar × String)} {c : Column} {b : Bound}
    (h : (f.context attributes orders).resolve c = .ok (some b)) :
    Aims f records entries (.native b) fun r => value f.table r (.column c) := by
  have hlisted := Frame.single.listed h
  rcases resolve_single Frame.single h with ⟨hb, a, ha⟩
  cases hb
  have hvalue : (fun r => value f.table r (.column c)) = (·.get (attributeName f.table c)) := by
    funext r
    exact value_column ha r
  rw [hvalue]
  exact .native hlisted

theorem exprTarget_aims {entries : List (Scalar × String)} {e : Scalar}
    (he : TextScalar (TextColumn f.table records) e) {target : SortTarget}
    (h : Plan.exprTarget (f.context attributes orders) e = .ok target) :
    Aims f records entries target fun r => value f.table r e := by
  simp only [Plan.exprTarget, Outcome.bind_eq_ok] at h
  rcases h with ⟨q, hq, h⟩
  rcases qualify_single Frame.single he hq with ⟨rfl, hbinds⟩
  split at h
  · rename_i b hb
    cases h
    cases he with
    | column _ =>
        exact aims_column (bound?_eq_some_iff.mp hb)
    | _ =>
        cases hb
  · cases h
    exact .computed he hbinds

theorem itemTarget_aims {items : List SelectItem} {item : SelectItem} {output : String}
    (hitem : TextScalar (TextColumn f.table records) item.expr)
    (hmem : (item, output) ∈ items.zip (outputs f.table 0 items)) {target : SortTarget}
    (h : Plan.itemTarget (f.context attributes orders) item output = .ok target) :
    Aims f records (computes 0 items) target fun r => value f.table r item.expr := by
  by_cases hcolumn : exists c, item.expr = .column c
  · rcases hcolumn with ⟨c, hc⟩
    simp only [Plan.itemTarget, hc, Outcome.bind_eq_ok] at h
    rcases h with ⟨found, hfound, h⟩
    rcases resolve_single Frame.single hfound with ⟨rfl, _⟩
    cases h
    rw [hc]
    exact aims_column hfound
  · have hnot : forall c, item.expr ≠ .column c := fun c hc => hcolumn ⟨c, hc⟩
    have htarget : target = .computed (.column (.ofName output)) [] := by
      rcases item with ⟨e, aliasName⟩
      cases hitem with
      | column _ =>
          exact absurd rfl (hnot _)
      | _ =>
          cases h
          rfl
    rw [htarget]
    exact .output (mem_computes_of_zip hnot hmem)

/-- The target of a key sorts by what the key stands for, which is a text. -/
theorem sortTarget_aims {items : List SelectItem} {e : Scalar}
    (hitems : forall item, item ∈ items -> TextScalar (TextColumn f.table records) item.expr)
    (he : TextScalar (TextColumn f.table records) e ∨ exists ordinal, e = .literal (.int ordinal))
    {target : SortTarget}
    (h : Plan.sortTarget (f.context attributes orders) items (outputs f.table 0 items) e =
      .ok target) :
    TextScalar (TextColumn f.table records) (keyExpr items e) ∧
      Aims f records (computes 0 items) target fun r => value f.table r (keyExpr items e) := by
  rcases he with he | ⟨ordinal, rfl⟩
  · cases he with
    | text s =>
        exact ⟨.text s, exprTarget_aims (.text s) h⟩
    | missing =>
        exact ⟨.missing, exprTarget_aims .missing h⟩
    | join hleft hright =>
        exact ⟨.join hleft hright, exprTarget_aims (.join hleft hright) h⟩
    | @column c hc =>
        rcases c with ⟨collection, name, quoted⟩
        cases collection with
        | some collection =>
            exact ⟨.column hc, exprTarget_aims (.column hc) h⟩
        | none =>
            simp only [Plan.sortTarget] at h
            cases hfound : Plan.aliasedItem? items name with
            | none =>
                rw [hfound] at h
                rw [keyExpr, aliasedItem?_eq_none hfound]
                exact ⟨.column hc, exprTarget_aims (.column hc) h⟩
            | some found =>
                rcases found with ⟨item, aliasName⟩
                rw [hfound] at h
                rcases aliasedItem?_eq_some hfound with ⟨hfind, halias⟩
                rw [keyExpr, hfind]
                have hmem := List.mem_of_find?_eq_some hfind
                exact ⟨hitems item hmem,
                  itemTarget_aims (hitems item hmem) (mem_zip_of_alias hmem halias) h⟩
  · simp only [Plan.sortTarget] at h
    split at h
    · cases h
    · split at h
      · rename_i item output hfound
        unfold Plan.atOrdinal? at hfound
        split at hfound
        · have hitem : items[(ordinal - 1).toNat]? = some item :=
            (List.getElem?_zip_eq_some.mp hfound).1
          have hmem := List.mem_of_getElem? hitem
          rw [keyExpr, hitem]
          exact ⟨hitems item hmem, itemTarget_aims (hitems item hmem) (List.mem_of_getElem? hfound) h⟩
        · cases hfound
      · cases h

/-!
# Keys of the platform
-/

/-- The comparison keys of native orders. -/
def nativeRanking (keys : List (Bound × Bool)) : List ((Record -> Value) × Bool) :=
  keys.map fun key => (fun r => r.get key.1.name, key.2)

theorem nativeKeys_nil (scopes : Plan.Scopes) (last : Option (List Nat)) :
    Plan.nativeKeys scopes last [] = [] := by
  cases last <;> rfl

theorem nativeKeys_computed (scopes : Plan.Scopes) (last : Option (List Nat)) (e : Scalar)
    (used : List Bound) (descending : Bool) (rest : List (SortTarget × Bool)) :
    Plan.nativeKeys scopes last ((.computed e used, descending) :: rest) = [] := by
  cases last <;> rfl

theorem nativeKeys_cons (b : Bound) (hb : b.scope = 0) (descending : Bool)
    (rest : List (SortTarget × Bool)) {last : Option (List Nat)} (hlast : last.all List.isEmpty) :
    Plan.nativeKeys (f.context attributes orders).scopes last ((.native b, descending) :: rest) =
      (b, descending) ::
        Plan.nativeKeys (f.context attributes orders).scopes (some []) rest := by
  have hpath : (f.context attributes orders).scopes.pathOf b.scope = [] := by
    rw [hb]
    rfl
  rw [Plan.nativeKeys]
  simp only [hpath]
  cases last with
  | none =>
      rfl
  | some path =>
      cases path with
      | nil =>
          rfl
      | cons n more =>
          cases hlast

/-- The native keys are the ranking that the keys begin with. -/
theorem nativeKeys_ranking {targets : List (SortTarget × Bool)}
    {ranking : List ((Record -> Value) × Bool)} {entries : List (Scalar × String)}
    (h : List.Forall₂ (fun target key => Aims f records entries target.1 key.1 ∧ target.2 = key.2)
      targets ranking)
    {last : Option (List Nat)} (hlast : last.all List.isEmpty) :
    let native := Plan.nativeKeys (f.context attributes orders).scopes last targets
    (exists more, ranking = nativeRanking native ++ more) ∧
      (forall key, key ∈ native -> Listed f.table key.1) := by
  induction h generalizing last with
  | nil =>
      rw [nativeKeys_nil]
      refine ⟨⟨[], rfl⟩, ?_⟩
      intro key hkey
      cases hkey
  | @cons target key targets ranking hfirst _ ih =>
      rcases target with ⟨target, descending⟩
      rcases key with ⟨g, direction⟩
      rcases hfirst with ⟨haims, rfl⟩
      cases haims with
      | @native b hb =>
          rcases @ih (some []) rfl with ⟨⟨more, hmore⟩, hlisted⟩
          rw [nativeKeys_cons b hb.1 _ _ hlast]
          refine ⟨⟨more, ?_⟩, ?_⟩
          · rw [hmore]
            rfl
          · intro key hkey
            rcases List.mem_cons.mp hkey with rfl | hkey
            · exact hb
            · exact hlisted key hkey
      | _ =>
          rw [nativeKeys_computed]
          refine ⟨⟨_, rfl⟩, ?_⟩
          intro key hkey
          cases hkey

def orderOf (key : Bound × Bool) : Order :=
  .byColumn key.1.name key.2

theorem addOrder_context {key : Bound × Bool} (hscope : key.1.scope = 0) :
    Plan.addOrder (f.context attributes orders) key =
      f.context (ensured attributes key.1.name) (orders ++ [orderOf key]) := by
  rcases key with ⟨⟨scope, name⟩, descending⟩
  cases hscope
  have hpath : (f.context attributes orders).scopes.pathOf 0 = [] := rfl
  have hensure : (f.query attributes orders).root.ensure name =
      ⟨f.table.name, false, ensured attributes name, f.filters, [], orders⟩ := by
    unfold ensured Fetch.Scope.ensure
    simp only [Frame.query, Bool.false_or]
    split <;> rfl
  simp only [Plan.addOrder, hpath, List.isEmpty_nil, if_true]
  rw [Frame.single.update]
  change ({ (f.context attributes orders) with
    fetch := { (f.query attributes orders) with
      root := ((f.query attributes orders).root.ensure name).addOrder _ } } : Context) = _
  rw [hensure]
  rfl

theorem foldl_addOrder_context {keys : List (Bound × Bool)}
    (hscope : forall key, key ∈ keys -> key.1.scope = 0) :
    keys.foldl Plan.addOrder (f.context attributes orders) =
      f.context ((keys.map (·.1)).foldl (fun found b => ensured found b.name) attributes)
        (orders ++ keys.map orderOf) := by
  induction keys generalizing attributes orders with
  | nil =>
      rw [List.map_nil, List.map_nil, List.append_nil]
      rfl
  | cons key rest ih =>
      rw [List.foldl_cons, addOrder_context (hscope key List.mem_cons_self),
        ih fun k hk => hscope k (List.mem_cons_of_mem _ hk), List.map_cons, List.foldl_cons,
        List.map_cons, List.append_assoc]
      rfl

/-!
# Keys of the local step
-/

/-- The row holds the retrieved attributes and the computed columns of a record. -/
structure Shows (t : TableDef) (attributes : List Attribute) (entries : List (Scalar × String))
    (row : Row) (r : Record) : Prop where
  keys : row.keys = .empty
  retrieved : forall a, a ∈ attributes -> row.get (outputName a) = r.get a.name
  computed : forall entry, entry ∈ entries -> row.get entry.2 = value t r entry.1

/-- A sort key that finds the values of the given key on rows that show records. -/
structure SortsBy (t : TableDef) (records : List Record) (clock : Clock)
    (attributes : List Attribute) (entries : List (Scalar × String)) (key : OrderKey)
    (wanted : (Record -> Value) × Bool) : Prop where
  descending : key.descending = wanted.2
  ignoresCase : key.expr.isCaseSensitive = false
  finds : forall r, r ∈ records -> forall row, Shows t attributes entries row r ->
    Step.sortValue clock key.expr row = .ok (wanted.1 r)

theorem sortValue_eq (clock : Clock) (e : Scalar) {row : Row} (h : row.keys = .empty) :
    Step.sortValue clock e row = Eval.scalar clock row.get e := by
  cases e with
  | column c =>
      rw [Step.sortValue, Row.keyOf, h]
      rfl
  | _ =>
      rfl

theorem sortsBy_of_aims {clock : Clock} {entries : List (Scalar × String)}
    {target : SortTarget} {wanted : Record -> Value} (h : Aims f records entries target wanted)
    (hused : forall b, b ∈ target.used -> .ofName b.name ∈ attributes) (descending : Bool) :
    SortsBy f.table records clock attributes entries
      ⟨target.expr (f.context [] []).scopes, descending⟩ (wanted, descending) := by
  cases h with
  | @native b hb =>
      have hkey : b = ⟨0, b.name⟩ := by
        rw [<- hb.1]
      have hexpr : (SortTarget.native b).expr (f.context [] []).scopes =
          .column (.ofName b.name) := by
        rw [SortTarget.expr, hkey, Frame.single.qualified]
      refine ⟨rfl, by rw [hexpr]; rfl, ?_⟩
      intro r _ row hrow
      rw [sortValue_eq _ _ hrow.keys, hexpr, Eval.scalar]
      exact congrArg Except.ok (hrow.retrieved _ (hused b (List.mem_singleton_self b)))
  | output hentry =>
      refine ⟨rfl, rfl, ?_⟩
      intro r _ row hrow
      rw [sortValue_eq _ _ hrow.keys, SortTarget.expr, Eval.scalar]
      exact congrArg Except.ok (hrow.computed _ hentry)
  | @computed e he hbinds =>
      refine ⟨rfl, ?_, ?_⟩
      · rw [SortTarget.expr]
        cases he <;> rfl
      · intro r hr row hrow
        rw [sortValue_eq _ _ hrow.keys, SortTarget.expr]
        refine scalar_bare Frame.single hr he hbinds ?_
        intro c hc
        exact hrow.retrieved _ (hused _ (mem_use_of_binds Frame.single hbinds hc))

/-!
# The whole order
-/

/-- The order of a query, planned after the select list. -/
structure Ordered (f : Frame) (records : List Record) (clock : Clock)
    (attributes : List Attribute) (entries : List (Scalar × String))
    (ranking : List ((Record -> Value) × Bool)) (steps : List Step) (ctx : Context)
    (steps' : List Step) (attributes' : List Attribute) (native : List (Bound × Bool))
    (sort : Option (List OrderKey)) : Prop where
  ctx : ctx = f.context attributes' (native.map orderOf)
  subset : attributes ⊆ attributes'
  layout : exists given, Layout f.table given attributes' (entries.map (·.2))
  front : exists more, ranking = nativeRanking native ++ more
  whole : sort = none -> ranking = nativeRanking native
  steps : steps' = steps ++ sort.toList.map .sort
  sorts : forall keys, sort = some keys ->
    List.Forall₂ (SortsBy f.table records clock attributes' entries) keys ranking

theorem mapM_sortTarget {items : List SelectItem} {keys : List OrderKey}
    (hitems : forall item, item ∈ items -> TextScalar (TextColumn f.table records) item.expr)
    (hkeys : forall key, key ∈ keys -> TextScalar (TextColumn f.table records) key.expr ∨
      exists ordinal, key.expr = .literal (.int ordinal))
    {targets : List (SortTarget × Bool)}
    (h : (keys.mapM fun key => do
      let target <- Plan.sortTarget (f.context attributes orders) items (outputs f.table 0 items)
        key.expr
      return (target, key.descending)) = Except.ok targets) :
    List.Forall₂ (fun target (key : (Record -> Value) × Bool) =>
      Aims f records (computes 0 items) target.1 key.1 ∧ target.2 = key.2) targets
      (keys.map fun key => (fun r => value f.table r (keyExpr items key.expr), key.descending)) ∧
    forall key, key ∈ keys ->
      TextScalar (TextColumn f.table records) (keyExpr items key.expr) := by
  induction keys generalizing targets with
  | nil =>
      cases h
      refine ⟨.nil, ?_⟩
      intro key hkey
      cases hkey
  | cons key rest ih =>
      simp only [List.mapM_cons, Outcome.bind_eq_ok] at h
      rcases h with ⟨first, ⟨target, htarget, hfirst⟩, more, hmore, h⟩
      cases hfirst
      cases h
      rcases sortTarget_aims hitems (hkeys key List.mem_cons_self) htarget with ⟨htext, haims⟩
      rcases ih (fun k hk => hkeys k (List.mem_cons_of_mem _ hk)) hmore with ⟨hrest, htexts⟩
      refine ⟨.cons ⟨haims, rfl⟩ hrest, ?_⟩
      intro k hk
      rcases List.mem_cons.mp hk with rfl | hk
      · exact htext
      · exact htexts k hk

theorem Aims.listed {entries : List (Scalar × String)} {target : SortTarget}
    {wanted : Record -> Value} (h : Aims f records entries target wanted) {b : Bound}
    (hb : b ∈ target.used) : Listed f.table b := by
  cases h with
  | native hlisted =>
      rcases List.mem_singleton.mp hb with rfl
      exact hlisted
  | output _ =>
      cases hb
  | computed _ _ =>
      exact Frame.single.listed_of_mem_used hb

theorem listed_of_mem_targets {targets : List (SortTarget × Bool)}
    {ranking : List ((Record -> Value) × Bool)} {entries : List (Scalar × String)}
    (h : List.Forall₂ (fun target key => Aims f records entries target.1 key.1 ∧ target.2 = key.2)
      targets ranking) {b : Bound} (hb : b ∈ targets.flatMap (·.1.used)) : Listed f.table b := by
  induction h with
  | nil =>
      cases hb
  | cons hfirst _ ih =>
      rw [List.flatMap_cons, List.mem_append] at hb
      rcases hb with hb | hb
      · exact hfirst.1.listed hb
      · exact ih hb

theorem applyOrderBy_ordered {clock : Clock} {items : List SelectItem} {keys : List OrderKey}
    {given : List String} {steps steps' : List Step} {ctx : Context}
    (hlayout : Layout f.table given attributes ((computes 0 items).map (·.2)))
    (hitems : forall item, item ∈ items -> TextScalar (TextColumn f.table records) item.expr)
    (hkeys : forall key, key ∈ keys -> TextScalar (TextColumn f.table records) key.expr ∨
      exists ordinal, key.expr = .literal (.int ordinal))
    (h : Plan.applyOrderBy (f.context attributes []) keys items (outputs f.table 0 items) steps =
      .ok (ctx, steps')) :
    (forall key, key ∈ keys ->
      TextScalar (TextColumn f.table records) (keyExpr items key.expr)) ∧
    exists attributes' native sort, Ordered f records clock attributes (computes 0 items)
      (keys.map fun key => (fun r => value f.table r (keyExpr items key.expr), key.descending))
      steps ctx steps' attributes' native sort := by
  simp only [Plan.applyOrderBy, Outcome.bind_eq_ok] at h
  rcases h with ⟨targets, htargets, h⟩
  rcases mapM_sortTarget hitems hkeys htargets with ⟨haims, htext⟩
  refine ⟨htext, ?_⟩
  rcases @nativeKeys_ranking f attributes [] records _ _ _ haims none rfl with
    ⟨⟨more, hmore⟩, hlisted⟩
  generalize hnative : Plan.nativeKeys (f.context attributes []).scopes none targets = native at h
  rw [hnative] at hmore hlisted
  have hscope : forall key, key ∈ native -> key.1.scope = 0 := fun key hkey => (hlisted key hkey).1
  have hordered := @foldl_addOrder_context f attributes [] native hscope
  rw [List.nil_append] at hordered
  have hnativeListed : forall b, b ∈ native.map (·.1) -> Listed f.table b := by
    intro b hb
    rcases List.mem_map.mp hb with ⟨key, hkey, rfl⟩
    exact hlisted key hkey
  rcases hlayout.ensureAll hnativeListed with ⟨hlayout₁, hsubset₁, _⟩
  split at h
  · rename_i hlength
    cases h
    refine ⟨_, native, none, hordered, hsubset₁, ⟨given, hlayout₁⟩, ⟨more, hmore⟩, ?_,
      (List.append_nil _).symm, fun keys hnone => by cases hnone⟩
    intro _
    have hall := haims.length_eq
    rw [hmore, List.length_append, nativeRanking, List.length_map, eq_of_beq hlength] at hall
    have hnil : more = [] := List.length_eq_zero_iff.mp (by omega)
    rw [hmore, hnil, List.append_nil]
  · cases h
    rw [hordered]
    have htargetsListed : forall b, b ∈ targets.flatMap (·.1.used) -> Listed f.table b :=
      fun b hb => listed_of_mem_targets haims hb
    rcases hlayout₁.ensureAll htargetsListed with ⟨hlayout₂, hsubset₂, hmem⟩
    rw [ensureAll_context _ fun b hb => (htargetsListed b hb).1]
    refine ⟨_, native, some _, rfl, fun a ha => hsubset₂ (hsubset₁ ha), ⟨given, hlayout₂⟩,
      ⟨more, hmore⟩, (fun hnone => by cases hnone), rfl, ?_⟩
    intro keys' hkeys'
    cases hkeys'
    rw [List.forall₂_map_left_iff]
    have hmember := (List.forall₂_and_left (p := (· ∈ targets)) _ _).mpr ⟨fun _ h => h, haims⟩
    refine hmember.imp ?_
    rintro ⟨target, descending⟩ ⟨wanted, direction⟩ ⟨htarget, haim, rfl⟩
    refine sortsBy_of_aims haim ?_ descending
    intro b hb
    exact hmem b (List.mem_flatMap.mpr ⟨_, htarget, hb⟩)

end TextQuery
end RecordSql
