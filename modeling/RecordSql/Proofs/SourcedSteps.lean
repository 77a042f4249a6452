import RecordSql.Proofs.Changes.Selection
import RecordSql.Proofs.ParsedForms
import RecordSql.Proofs.Parsing.Statements
import RecordSql.Proofs.StepReads
import RecordSql.Proofs.VirtualPages
import RecordSql.Sql.StatementParser

/-!
# Steps read what is there

Each clause of a statement asks for the columns that its own steps read: a condition, an item of a
select list and a local sort for those of their expressions, a wildcard for all of a table.  A sort
by the name of an item reads a column that is retrieved or was computed before, since a written
wildcard has no alias.
-/

namespace RecordSql

open Sql (Column OrderKey Predicate Scalar Select SelectItem Source Statement)

/-!
# Written queries
-/

namespace Sql

/-- A wildcard has no alias. -/
def SelectItem.Named (item : SelectItem) : Prop :=
  item.expr.isStar = true -> item.aliasName = none

def Statement.ItemsNamed : Statement -> Prop
  | .select s => forall item, item ∈ s.items -> item.Named
  | .update _ => True
  | .delete _ => True

/-- The clauses from which a statement takes its tables. -/
def Statement.sources : Statement -> List Source
  | .select s => s.sources
  | .update u => [u.source.getD ⟨u.target, []⟩]
  | .delete d => [d.source.getD ⟨d.target, []⟩]

namespace Parser

theorem yields_selectItem : Yields selectItem SelectItem.Named := by
  refine Yields.after fun e => ?_
  split
  · refine Yields.ofPure (Yields.pure ?_)
    intro _
    rfl
  · rename_i hstar
    refine Yields.after fun aliasName => Yields.pure ?_
    intro hwhole
    exact absurd hwhole hstar

theorem yields_selectAfter (distinct : Bool) :
    Yields (selectAfter distinct) fun s => forall item, item ∈ s.items -> item.Named := by
  refine Yields.after fun _ => ?_
  refine Yields.bind (Yields.commaList yields_selectItem) fun items hitems => ?_
  refine Yields.after fun _ => Yields.after fun _ => Yields.after fun _ => ?_
  refine Yields.after fun _ => Yields.after fun _ => Yields.after fun _ => ?_
  exact Yields.pure hitems

theorem yields_select : Yields select fun s => forall item, item ∈ s.items -> item.Named := by
  refine Yields.after fun _ => Yields.after fun distinct => ?_
  cases distinct with
  | true =>
      exact yields_selectAfter true
  | false =>
      exact Yields.after fun _ => yields_selectAfter false

theorem yields_statement : Yields statement Statement.ItemsNamed := by
  refine Yields.after fun c => ?_
  split
  · refine Yields.bind yields_select fun s hs => ?_
    exact Yields.pure hs
  · split
    · exact Yields.after fun u => Yields.pure trivial
    · split
      · exact Yields.after fun d => Yields.pure trivial
      · exact Yields.failHere

theorem yields_written : Yields written fun w => w.statement.ItemsNamed := by
  refine Yields.after fun _ => ?_
  refine Yields.bind yields_statement fun parsed hparsed => ?_
  refine Yields.after fun c => ?_
  split
  · exact Yields.failHere
  · exact Yields.pure hparsed

theorem yields_batch (tokens : List Token) :
    Yields (batch tokens) fun ws => forall w, w ∈ ws -> w.statement.ItemsNamed := by
  induction tokens with
  | nil =>
      exact Yields.pure (by simp)
  | cons t left ih =>
      refine Yields.after fun c => ?_
      split
      · exact Yields.pure (by simp)
      · refine Yields.after fun again => ?_
        split
        · exact ih
        · refine Yields.bind yields_written fun first hfirst => ?_
          refine Yields.bind ih fun rest hrest => ?_
          exact Yields.pure (List.forall_mem_cons.mpr ⟨hfirst, hrest⟩)

end Parser

/-- In a parsed statement no wildcard has an alias. -/
theorem itemsNamed_of_parseBatch {source : String} {ws : List Written}
    (h : parseBatch source = .ok ws) {w : Written} (hw : w ∈ ws) : w.statement.ItemsNamed := by
  rw [parseBatch, Outcome.bind_eq_ok] at h
  rcases h with ⟨c, _, h⟩
  split at h
  · rename_i rest hbatch
    cases h
    exact Parser.yields_batch c.ahead c ws rest hbatch w hw
  · cases h

end Sql

namespace Plan

variable {ctx ctx' : Context}

/-!
# Expressions
-/

/-- What an expression reads is there once its columns are asked for. -/
theorem held_of_qualify (h : Anchored ctx) {e q : Scalar} (hq : ctx.qualify e = .ok q)
    {key : String} (hkey : key ∈ (reads q).map Column.rowKey) :
    Held (ctx.ensureAll (ctx.used e)) key := by
  rcases List.mem_map.mp hkey with ⟨c, hc, rfl⟩
  rcases columns_of_qualify hq hc with ⟨b, hb, rfl⟩
  exact held_ensureAll h (fun _ hb => known_of_use hb) hb

/-!
# Select lists
-/

/-- The columns of a select list planned so far are there, and so is what its steps read. -/
structure Projection.Sourced (p : Projection) : Prop where
  anchored : Anchored p.ctx
  steps : Plan.Sourced (Held p.ctx) p.steps
  columns : forall name, name ∈ p.columns -> Held p.ctx name ∨ exists e, .compute e name ∈ p.steps

/-- More of the select list is planned. -/
structure Projection.Continues (p p' : Projection) : Prop where
  ctx : Context.Grown p.ctx p'.ctx
  steps : p.steps ⊆ p'.steps

/-- Rows can be sorted by an item: by the column that it is, or by the output that shows it. -/
def Sortable (ctx : Context) (steps : List Step) (item : SelectItem) (output : String) : Prop :=
  (exists c b, item.expr = .column c ∧ ctx.resolve c = .ok (some b)) ∨
    exists e, .compute e output ∈ steps

theorem Sortable.mono {steps steps' : List Step} {item : SelectItem} {output : String}
    (h : Sortable ctx steps item output) (hnames : Context.SameNames ctx ctx')
    (hsteps : steps ⊆ steps') : Sortable ctx' steps' item output := by
  cases h with
  | inl hcolumn =>
      rcases hcolumn with ⟨c, b, hc, hb⟩
      rw [<- hnames.resolve] at hb
      exact Or.inl ⟨c, b, hc, hb⟩
  | inr hcomputed =>
      rcases hcomputed with ⟨e, he⟩
      exact Or.inr ⟨e, hsteps he⟩

/-- Rows can be sorted by every item that a key can name, by its alias or its position. -/
structure ItemsSortable (ctx : Context) (steps : List Step) (items : List SelectItem)
    (columns : List String) : Prop where
  named : forall item, item ∈ items -> forall aliasName, item.aliasName = some aliasName ->
    Sortable ctx steps item aliasName
  listed : (forall item, item ∈ items -> item.expr.isStar = false) -> forall item output,
    (item, output) ∈ items.zip columns -> Sortable ctx steps item output

theorem ItemsSortable.mono {steps steps' : List Step} {items : List SelectItem}
    {columns : List String} (h : ItemsSortable ctx steps items columns)
    (hnames : Context.SameNames ctx ctx') (hsteps : steps ⊆ steps') :
    ItemsSortable ctx' steps' items columns where
  named := fun item hitem aliasName haliasName =>
    (h.named item hitem aliasName haliasName).mono hnames hsteps
  listed := fun hstar item output hmem => (h.listed hstar item output hmem).mono hnames hsteps

namespace Projection

variable {p p' p'' : Projection}

theorem Continues.refl (p : Projection) : p.Continues p :=
  ⟨.refl p.ctx, List.Subset.refl _⟩

theorem Continues.trans (h : p.Continues p') (h' : p'.Continues p'') : p.Continues p'' :=
  ⟨h.ctx.trans h'.ctx, List.Subset.trans h.steps h'.steps⟩

/-- A change of the native query and more columns that it returns. -/
theorem Sourced.retrieving (h : p.Sourced) {ctx : Context} (hgrown : Context.Grown p.ctx ctx)
    {columns : List String} (hcolumns : forall name, name ∈ columns -> Held ctx name) :
    Sourced { p with ctx, columns := p.columns ++ columns } where
  anchored := h.anchored.grown hgrown
  steps := h.steps.mono fun _ hkey => hkey.grown hgrown
  columns := by
    intro name hname
    cases List.mem_append.mp hname with
    | inl hold =>
        exact (h.columns name hold).imp_left fun hkey => hkey.grown hgrown
    | inr hnew =>
        exact Or.inl (hcolumns name hnew)

theorem Sourced.wholeScope (h : p.Sourced) (scope : Nat) :
    (p.wholeScope scope).Sourced ∧ p.Continues (p.wholeScope scope) := by
  rw [Projection.wholeScope]
  split
  · exact ⟨h, .refl p⟩
  · rename_i s hs
    have hgrown := Context.grown_update Fetch.Scope.grows_allAttributes p.ctx scope
    rcases h.anchored.place_update_self hs (fun s => { s with allAttributes := true }) with
      ⟨found, hplace⟩
    constructor
    · refine h.retrieving hgrown fun name hname => ?_
      rcases List.mem_map.mp hname with ⟨own, hown, rfl⟩
      have hmem := (Sorting.stable_perm _ _).mem_iff.mp hown
      rcases List.mem_map.mp hmem with ⟨a, ha, rfl⟩
      exact .whole hs (List.mem_of_mem_filter ha) hplace rfl rfl
    · exact ⟨hgrown, List.Subset.refl _⟩

theorem Sourced.wholeScopes (h : p.Sourced) (scopes : List Nat) :
    (scopes.foldl Projection.wholeScope p).Sourced ∧
      p.Continues (scopes.foldl Projection.wholeScope p) := by
  induction scopes generalizing p with
  | nil =>
      exact ⟨h, .refl p⟩
  | cons scope rest ih =>
      rcases h.wholeScope scope with ⟨hfirst, hnext⟩
      rcases ih hfirst with ⟨hrest, hmore⟩
      exact ⟨hrest, hnext.trans hmore⟩

theorem Sourced.retrieve (h : p.Sourced) {b : Bound} (hb : Known p.ctx.scopes b)
    (aliasName : Option String) :
    (p.retrieve b aliasName).Sourced ∧ p.Continues (p.retrieve b aliasName) := by
  cases aliasName with
  | none =>
      have hgrown := p.ctx.grown_ensure b
      constructor
      · refine h.retrieving hgrown fun name hname => ?_
        rw [List.mem_singleton.mp hname]
        exact held_ensure h.anchored hb
      · exact ⟨hgrown, List.Subset.refl _⟩
  | some aliasName =>
      have hgrown := Context.grown_update
        (Fetch.Scope.grows_addAttribute (.aliased b.name aliasName)) p.ctx b.scope
      constructor
      · refine h.retrieving hgrown fun name hname => ?_
        rw [List.mem_singleton.mp hname]
        exact held_addAttribute h.anchored hb aliasName
      · exact ⟨hgrown, List.Subset.refl _⟩

theorem Sourced.compute (h : p.Sourced) {item : SelectItem} (hp : p.compute item = .ok p') :
    p'.Sourced ∧ p.Continues p' ∧ forall aliasName, item.aliasName = some aliasName ->
      exists e, .compute e aliasName ∈ p'.steps := by
  rw [Projection.compute, Outcome.bind_eq_ok] at hp
  rcases hp with ⟨q, hq, hp⟩
  cases hp
  have hgrown := p.ctx.grown_ensureAll (p.ctx.used item.expr)
  refine ⟨⟨h.anchored.grown hgrown, ?_, ?_⟩, ⟨hgrown, List.subset_append_left _ _⟩, ?_⟩
  · have hold := h.steps.mono fun _ hkey => hkey.grown hgrown
    refine hold.snoc fun key hkey => Or.inl ?_
    exact held_of_qualify h.anchored hq hkey
  · intro name hname
    cases List.mem_append.mp hname with
    | inl hold =>
        cases h.columns name hold with
        | inl hheld =>
            exact Or.inl (hheld.grown hgrown)
        | inr hcomputed =>
            rcases hcomputed with ⟨e, he⟩
            exact Or.inr ⟨e, List.mem_append_left _ he⟩
    | inr hnew =>
        rw [List.mem_singleton.mp hnew]
        exact Or.inr ⟨q, List.mem_append_right _ (List.mem_singleton_self _)⟩
  · intro aliasName haliasName
    refine ⟨q, List.mem_append_right _ ?_⟩
    rw [haliasName]
    exact List.mem_singleton_self _

theorem Sourced.item (h : p.Sourced) {item : SelectItem} (hitem : item.Named)
    (hp : p.item item = .ok p') :
    p'.Sourced ∧ p.Continues p' ∧ forall aliasName, item.aliasName = some aliasName ->
      Sortable p.ctx p'.steps item aliasName := by
  rcases item_cases hp with ⟨hstar, scopes, rfl⟩ | ⟨c, b, hc, hb, rfl⟩ | hcompute
  · rcases h.wholeScopes scopes with ⟨hnext, hmore⟩
    refine ⟨hnext, hmore, fun aliasName haliasName => ?_⟩
    rw [hitem hstar] at haliasName
    cases haliasName
  · rcases h.retrieve (known_of_resolve hb) item.aliasName with ⟨hnext, hmore⟩
    exact ⟨hnext, hmore, fun _ _ => Or.inl ⟨c, b, hc, hb⟩⟩
  · rcases h.compute hcompute with ⟨hnext, hmore, houtput⟩
    exact ⟨hnext, hmore, fun aliasName haliasName => Or.inr (houtput aliasName haliasName)⟩

/-- Every item asks for what its steps read, and an item with an alias can be sorted by. -/
theorem Sourced.items (h : p.Sourced) {items : List SelectItem}
    (hitems : forall item, item ∈ items -> item.Named)
    (hp : items.foldlM Projection.item p = .ok p') :
    p'.Sourced ∧ p.Continues p' ∧ forall item, item ∈ items -> forall aliasName,
      item.aliasName = some aliasName -> Sortable p.ctx p'.steps item aliasName := by
  induction items generalizing p with
  | nil =>
      cases hp
      refine ⟨h, .refl _, fun item hitem => ?_⟩
      cases hitem
  | cons first rest ih =>
      rw [List.foldlM_cons, Outcome.bind_eq_ok] at hp
      rcases hp with ⟨next, hfirst, hrest⟩
      rcases h.item (hitems first List.mem_cons_self) hfirst with ⟨hnext, hmore, hsortable⟩
      rcases ih hnext (fun item hitem => hitems item (List.mem_cons_of_mem _ hitem)) hrest with
        ⟨hlast, hmore', hsortable'⟩
      refine ⟨hlast, hmore.trans hmore', fun item hitem aliasName haliasName => ?_⟩
      cases List.mem_cons.mp hitem with
      | inl heq =>
          rw [heq] at haliasName ⊢
          exact (hsortable aliasName haliasName).mono ⟨rfl, rfl⟩ hmore'.steps
      | inr hmem =>
          exact (hsortable' item hmem aliasName haliasName).mono hmore.ctx.names.symm
            (List.Subset.refl _)

/-- Without wildcards, every item can be sorted by under the column that shows it. -/
theorem sortable_of_zip {steps : List Step} {items : List SelectItem}
    (hstar : forall item, item ∈ items -> item.expr.isStar = false)
    (hp : ofItems ctx steps items = .ok p) {item : SelectItem} {output : String}
    (h : (item, output) ∈ items.zip p.columns) : Sortable ctx p.steps item output := by
  rcases foldlM_item_parted hstar hp with ⟨parts, hparts, hparted⟩
  have hcolumns : p.columns = parts.map (Part.output ctx.scopes) := hparted.columns
  rw [hcolumns, List.zip_map_right, List.mem_map] at h
  rcases h with ⟨⟨item', part⟩, hmem, heq⟩
  cases heq
  have hbecomes := (List.forall₂_iff_zip.mp hparts).2 hmem
  have hpart := (List.of_mem_zip hmem).2
  cases hbecomes with
  | @retrieved c b _ hb =>
      exact Or.inl ⟨c, b, rfl, hb⟩
  | @computed _ q name hq =>
      refine Or.inr ⟨q, ?_⟩
      rw [hparted.steps, Step.computing]
      refine List.mem_append_right _ (List.mem_map.mpr ⟨(q, name), ?_, rfl⟩)
      exact List.mem_filterMap.mpr ⟨_, hpart, rfl⟩

/-- Duplicates are told by columns that are there. -/
theorem Sourced.distinct (h : p.Sourced) (select : Select) :
    (applyDistinct select p).Sourced ∧ p.Continues (applyDistinct select p) ∧
      (applyDistinct select p).columns = p.columns := by
  cases hdistinct : select.distinct with
  | false =>
      rw [applyDistinct, hdistinct, if_neg Bool.false_ne_true]
      exact ⟨h, .refl p, rfl⟩
  | true =>
      rw [applyDistinct_eq hdistinct]
      have hgrown : Context.Grown p.ctx (p.ctx.withDistinct p.caseSensitive.isEmpty) :=
        .of_root ⟨rfl, rfl⟩ rfl
      have hsteps : Plan.Sourced (Held (p.ctx.withDistinct p.caseSensitive.isEmpty)) p.steps :=
        h.steps.mono fun _ hkey => hkey.grown hgrown
      have hcolumns : forall name, name ∈ p.columns ->
          Held (p.ctx.withDistinct p.caseSensitive.isEmpty) name ∨
            exists e, .compute e name ∈ p.steps :=
        fun name hname => (h.columns name hname).imp_left fun hkey => hkey.grown hgrown
      refine ⟨⟨h.anchored.grown hgrown, ?_, ?_⟩, ⟨hgrown, List.subset_append_left _ _⟩, rfl⟩
      · change Plan.Sourced _ (p.steps ++ p.distinctSteps)
        rw [distinctSteps]
        split
        · rw [List.append_nil]
          exact hsteps
        · refine hsteps.snoc fun key hkey => hcolumns key ?_
          rw [Step.reads, DistinctColumn.ofNames, List.map_map] at hkey
          rcases List.mem_map.mp hkey with ⟨name, hname, rfl⟩
          exact hname
      · intro name hname
        refine (hcolumns name hname).imp_right fun hcomputed => ?_
        rcases hcomputed with ⟨e, he⟩
        exact ⟨e, List.mem_append_left _ he⟩

end Projection

/-!
# Orders
-/

/-- What a sort reads for the target is in use, or was computed before. -/
structure SortTarget.Sourced (ctx : Context) (steps : List Step) (t : SortTarget) : Prop where
  known : forall b, b ∈ t.used -> Known ctx.scopes b
  reads : forall key, key ∈ (reads (t.expr ctx.scopes)).map Column.rowKey ->
    (exists b, b ∈ t.used ∧ key = ctx.scopes.rowKey b) ∨ exists e, .compute e key ∈ steps

variable {steps : List Step} {items : List SelectItem} {columns : List String} {target : SortTarget}

theorem sourced_native {c : Column} {b : Bound} (h : ctx.resolve c = .ok (some b)) :
    SortTarget.Sourced ctx steps (.native b) where
  known := by
    intro b' hb
    rw [List.mem_singleton.mp hb]
    exact known_of_resolve h
  reads := by
    intro key hkey
    exact Or.inl ⟨b, List.mem_singleton_self b, List.mem_singleton.mp hkey⟩

theorem sourced_output {output : String} (h : exists e, .compute e output ∈ steps) :
    SortTarget.Sourced ctx steps (.computed (.column (.ofName output)) []) where
  known := by
    intro b hb
    cases hb
  reads := by
    intro key hkey
    rw [List.mem_singleton.mp hkey]
    exact Or.inr h

theorem sourced_itemTarget {item : SelectItem} {output : String}
    (hitem : Sortable ctx steps item output) (h : itemTarget ctx item output = .ok target) :
    target.Sourced ctx steps := by
  rw [itemTarget] at h
  cases hitem with
  | inl hnative =>
      rcases hnative with ⟨c, b, hc, hb⟩
      simp only [hc, hb, Outcome.ok_bind] at h
      cases h
      exact sourced_native hb
  | inr hcomputed =>
      split at h
      · rename_i c hc
        rcases Outcome.bind_eq_ok.mp h with ⟨column, hcolumn, h⟩
        cases column with
        | some b =>
            cases h
            exact sourced_native hcolumn
        | none =>
            cases h
            exact sourced_output hcomputed
      · cases h
        exact sourced_output hcomputed

theorem sourced_exprTarget {e : Scalar} (h : exprTarget ctx e = .ok target) :
    target.Sourced ctx steps := by
  rw [exprTarget, Outcome.bind_eq_ok] at h
  rcases h with ⟨q, hq, h⟩
  split at h
  · rename_i b hb
    cases h
    unfold Context.plainColumn? at hb
    split at hb
    · exact sourced_native (bound?_eq_some_iff.mp hb)
    · cases hb
  · cases h
    constructor
    · intro b hb
      exact known_of_use hb
    · intro key hkey
      rcases List.mem_map.mp hkey with ⟨c, hc, rfl⟩
      rcases columns_of_qualify hq hc with ⟨b, hb, rfl⟩
      exact Or.inl ⟨b, hb, rfl⟩

theorem sourced_sortTarget (hitems : ItemsSortable ctx steps items columns) {e : Scalar}
    (h : sortTarget ctx items columns e = .ok target) : target.Sourced ctx steps := by
  unfold sortTarget at h
  split at h
  · rename_i name quoted
    split at h
    · rename_i item aliasName hfound
      rcases List.exists_of_findSome?_eq_some hfound with ⟨item', hmem, hitem⟩
      rcases Option.map_eq_some_iff.mp hitem with ⟨aliasName', halias, heq⟩
      cases heq
      have haliasName := (Option.filter_eq_some_iff.mp halias).1
      exact sourced_itemTarget (hitems.named item hmem aliasName haliasName) h
    · exact sourced_exprTarget h
  · split at h
    · cases h
    · rename_i hstar
      split at h
      · rename_i item output hfound
        refine sourced_itemTarget (hitems.listed ?_ item output ?_) h
        · intro other hother
          rw [List.any_eq_true] at hstar
          cases hwhole : other.expr.isStar with
          | false =>
              rfl
          | true =>
              exact absurd ⟨other, hother, hwhole⟩ hstar
        · unfold atOrdinal? at hfound
          split at hfound
          · exact List.mem_of_getElem? hfound
          · cases hfound
      · cases h
  · exact sourced_exprTarget h

theorem sourced_targets (hitems : ItemsSortable ctx steps items columns) {keys : List OrderKey}
    {targets : List (SortTarget × Bool)}
    (h : (keys.mapM fun key => sortTarget ctx items columns key.expr >>= fun target =>
      .ok (target, key.descending)) = .ok targets) {t : SortTarget × Bool} (ht : t ∈ targets) :
    t.1.Sourced ctx steps := by
  rcases Outcome.exists_of_forall₂ (Outcome.mapM_eq_ok.mp h) ht with ⟨key, _, hkey⟩
  rcases Outcome.bind_eq_ok.mp hkey with ⟨target, htarget, heq⟩
  cases heq
  exact sourced_sortTarget hitems htarget

theorem grown_addOrder (ctx : Context) (key : Bound × Bool) :
    Context.Grown ctx (addOrder ctx key) := by
  refine Context.grown_update (Fetch.Scope.Grows.comp (Fetch.Scope.grows_addOrder _) ?_) ctx _
  split
  · exact Fetch.Scope.grows_ensure _
  · exact ⟨fun _ => rfl, fun _ => ⟨List.Subset.refl _, id⟩⟩

theorem grown_orderedBy (ctx : Context) (targets : List (SortTarget × Bool)) :
    Context.Grown ctx (orderedBy ctx targets) := by
  have hnative := Context.grown_foldl grown_addOrder ctx (nativeKeys ctx.scopes none targets)
  rw [orderedBy]
  split
  · exact hnative
  · exact hnative.trans (Context.grown_ensureAll _ _)

/-- A local sort asks for the columns of all of its keys. -/
theorem sourced_sortSteps (h : Anchored ctx) (hsteps : Sourced (Held ctx) steps)
    {targets : List (SortTarget × Bool)}
    (htargets : forall t, t ∈ targets -> t.1.Sourced ctx steps) :
    Sourced (Held (orderedBy ctx targets)) (steps ++ sortSteps ctx.scopes targets) := by
  have hold := hsteps.mono fun _ hkey => hkey.grown (grown_orderedBy ctx targets)
  have hnative := Context.grown_foldl grown_addOrder ctx (nativeKeys ctx.scopes none targets)
  rw [sortSteps]
  split
  · rw [List.append_nil]
    exact hold
  · rename_i hlocal
    refine hold.snoc fun key hkey => ?_
    rcases List.mem_flatMap.mp hkey with ⟨orderKey, horderKey, hread⟩
    rcases List.mem_map.mp horderKey with ⟨t, ht, rfl⟩
    refine ((htargets t ht).reads key hread).imp_left fun hused => ?_
    rcases hused with ⟨b, hb, rfl⟩
    have hmem : b ∈ targets.flatMap (·.1.used) :=
      List.mem_flatMap.mpr ⟨t, ht, hb⟩
    have hknown : forall b, b ∈ targets.flatMap (·.1.used) -> Known ctx.scopes b := by
      intro b' hb'
      rcases List.mem_flatMap.mp hb' with ⟨t', ht', hused⟩
      exact (htargets t' ht').known b' hused
    rw [<- hnative.names.scopes] at hknown
    have hheld := held_ensureAll (h.grown hnative) hknown hmem
    rw [hnative.names.scopes] at hheld
    rw [orderedBy, if_neg hlocal]
    exact hheld

/-!
# Limits
-/

theorem Sourced.limit {held : String -> Prop} (h : Sourced held steps) (skip : Nat)
    (take : Option Nat) : Sourced held (steps ++ [.limit skip take]) := by
  refine h.snoc fun key hkey => ?_
  cases hkey

theorem sourced_applyLimits {held : String -> Prop} (h : Sourced held steps)
    {fetch fetch' : Fetch.Query} {steps' : List Step} {top : Option Int}
    {offset : Option Sql.Offset}
    (hlimits : applyLimits fetch steps top offset = .ok (fetch', steps')) :
    Sourced held steps' ∧ fetch'.root = fetch.root := by
  rw [applyLimits, Outcome.bind_eq_ok] at hlimits
  rcases hlimits with ⟨⟨fetch₁, steps₁⟩, htop, hoffset⟩
  have hfirst : Sourced held steps₁ ∧ fetch₁.root = fetch.root := by
    cases top with
    | none =>
        cases htop
        exact ⟨h, rfl⟩
    | some n =>
        rcases applyTop_cases htop with ⟨_, rfl, rfl⟩ | ⟨rfl, rfl⟩
        · exact ⟨h, rfl⟩
        · exact ⟨h.limit _ _, rfl⟩
  rw [<- hfirst.2]
  cases offset with
  | none =>
      cases hoffset
      exact ⟨hfirst.1, rfl⟩
  | some o =>
      rcases applyOffset_cases hoffset with ⟨_, _, _, rfl, rfl⟩ | ⟨_, rfl, rfl⟩
      · exact ⟨hfirst.1, rfl⟩
      · exact ⟨hfirst.1.limit _ _, rfl⟩

/-!
# Plans
-/

section

variable {clock : Clock} {criteria : Option Predicate} {residual : Residual}

theorem known_residual (h : ctx.applyWhere clock criteria = .ok (ctx', residual)) {b : Bound}
    (hb : b ∈ residual.used) : Known ctx'.scopes b := by
  rw [(sameNames_applyWhere h).scopes]
  cases criteria with
  | none =>
      cases h
      cases hb
  | some p =>
      rcases Context.applyWhere_some h with ⟨split, _, _, rfl⟩
      cases mem_foldl_use.mp hb with
      | inl hnone =>
          cases hnone
      | inr hsome =>
          rcases hsome with ⟨q, _, hq⟩
          exact known_of_use hq

/-- The local part of a condition reads what is there. -/
theorem sourced_filter {held : String -> Prop} {predicate : Option Predicate}
    (h : forall q, predicate = some q -> forall c, c ∈ readsOfPredicate q -> held c.rowKey) :
    Sourced held (predicate.map Step.filter).toList := by
  cases predicate with
  | none =>
      exact .nil
  | some q =>
      refine Sourced.snoc .nil fun key hkey => Or.inl ?_
      rcases List.mem_map.mp hkey with ⟨c, hc, rfl⟩
      exact h q rfl c hc

theorem held_residual (hanchored : Anchored ctx')
    (h : ctx.applyWhere clock criteria = .ok (ctx', residual)) {q : Predicate}
    (hq : residual.predicate = some q) {c : Column} (hc : c ∈ readsOfPredicate q) :
    Held (ctx'.ensureAll residual.used) c.rowKey := by
  rcases reads_residual h hq hc with ⟨b, hb, rfl⟩
  have hheld := held_ensureAll hanchored (fun _ hused => known_residual h hused) hb
  rw [(sameNames_applyWhere h).scopes] at hheld
  exact hheld

/-- The local steps of a selection read columns that it retrieves or computes. -/
theorem sourced_selectPlan (hready : Ready ctx) {select : Select}
    (hitems : forall item, item ∈ select.items -> item.Named)
    (hwhere : ctx.applyWhere clock select.criteria = .ok (ctx', residual)) {plan : Plan}
    (h : selectPlan ctx' select residual = .ok plan) :
    Sourced (Fetched ctx.scopes plan.fetch.root) plan.steps := by
  simp only [selectPlan, Outcome.bind_eq_ok, applyOrderBy_eq] at h
  rcases h with ⟨listed, hlisted, ⟨ordered, steps⟩, ⟨targets, htargets, horder⟩, ⟨fetch, steps'⟩,
    hlimits, h⟩
  cases horder
  cases h
  have hanchored := (hready.applyWhere hwhere).rooted.anchored
  have hensured := ctx'.grown_ensureAll residual.used
  have hstart : Projection.Sourced
      ⟨ctx'.ensureAll residual.used, [], (residual.predicate.map Step.filter).toList, 0⟩ := by
    constructor
    · exact hanchored.grown hensured
    · exact sourced_filter fun q hq c hc => held_residual hanchored hwhere hq hc
    · intro name hname
      cases hname
  rcases hstart.items hitems hlisted with ⟨hlist, hcontinues, hnamed⟩
  rcases hlist.distinct select with ⟨honce, hmore, hcolumns⟩
  have hnames := hcontinues.ctx.names.trans hmore.ctx.names
  have hsortable : ItemsSortable (ctx'.ensureAll residual.used) listed.steps select.items
      listed.columns :=
    ⟨hnamed, fun hstar _ _ hmem => Projection.sortable_of_zip hstar hlisted hmem⟩
  rw [hcolumns] at htargets
  have hsorted := sourced_sortSteps honce.anchored honce.steps fun t ht =>
    sourced_targets (hsortable.mono hnames hmore.steps) htargets ht
  rcases sourced_applyLimits hsorted hlimits with ⟨hlimited, hroot⟩
  have hscopes : (orderedBy (applyDistinct select listed).ctx targets).scopes = ctx.scopes := by
    rw [(grown_orderedBy _ targets).names.scopes, hnames.scopes, hensured.names.scopes,
      (sameNames_applyWhere hwhere).scopes]
  refine hlimited.mono fun key hkey => ?_
  rw [hroot, <- hscopes]
  exact hkey.fetched

end

/-!
# Changes
-/

namespace Selection

variable {s : Selection} {used : List Bound}

/-- A change retrieves the columns in use and the identifier. -/
theorem Provided.fetched (h : s.Provided used) {b : Bound} (hb : b ∈ s.columns used) :
    Fetched s.ctx.scopes (s.plan used).1.fetch.root (s.ctx.scopes.rowKey b) := by
  rcases placed_ensureAll h.ready.rooted h.ready.unnamed h.scopes with ⟨hunnamed, _, hreturns⟩
  rcases hreturns b hb with ⟨p, hp, hkey⟩
  have hplaced : p ∈ Fetch.placedAttributes "" (s.plan used).1.fetch.root := by
    rw [Fetch.placedAttributes_eq]
    exact hp
  refine .column hplaced ?_
  rw [Fetch.Placed.output, hunnamed p hp, Option.getD_none, hkey]

theorem Provided.sourced (h : s.Provided used) :
    Sourced (Fetched s.ctx.scopes (s.plan used).1.fetch.root) (s.plan used).1.steps := by
  refine sourced_filter fun q hq c hc => ?_
  rcases h.reads q hq c hc with ⟨b, hb, hkey⟩
  rw [hkey]
  exact h.fetched (mem_addBound.mpr (Or.inl hb))

theorem Provided.fetched_id (h : s.Provided used) :
    Fetched s.ctx.scopes (s.plan used).1.fetch.root (s.plan used).2 := by
  rw [plan_idColumn]
  exact h.fetched (mem_addBound.mpr (Or.inr rfl))

/-- The values of an update read columns in use. -/
theorem Provided.fetched_changes {u : Sql.Update} (h : s.Provided (s.usedBy u))
    {changes : List Change} (hchanges : u.assignments.mapM (changeOf s) = .ok changes)
    {change : Change} (hchange : change ∈ changes) {c : Column} (hc : c ∈ Plan.reads change.value) :
    Fetched s.ctx.scopes (s.plan (s.usedBy u)).1.fetch.root c.rowKey := by
  rcases Outcome.exists_of_forall₂ (Outcome.mapM_eq_ok.mp hchanges) hchange with ⟨a, ha, hof⟩
  rcases changeOf_eq_ok hof with ⟨_, _, _, hvalue⟩
  rcases columns_of_qualify hvalue hc with ⟨b, hb, rfl⟩
  exact h.fetched (mem_addBound.mpr (Or.inl (mem_usedBy.mpr (Or.inr ⟨a, ha, hb⟩))))

end Selection

/-!
# Statements
-/

section

variable {σ : Type} {lookup : Lookup σ} {options : Options} {clock : Clock} {v v' : σ}
  {task : Task}

/-- A selection without aggregates has a plan; if it reads virtual tables, that has no steps. -/
theorem planStatement_rows {select : Select} (haggregates : isAggregateQuery select = false)
    (h : (planStatement lookup options clock (.select select)).run v = .ok task v') :
    exists source ctx ctx' residual plan, select.sources = [source] ∧
      (contextOf lookup options source).run v = .ok ctx v' ∧
      ctx.applyWhere clock select.criteria = .ok (ctx', residual) ∧
      selectPlan ctx' select residual = .ok plan ∧
      task.fetch = plan.fetch ∧ task.steps = plan.steps ∧ task.reads = [] := by
  rcases planStatement_select_cases h with ⟨source, ctx, hsource, hctx, ⟨_, htask⟩ | ⟨_, hvirtual⟩⟩
  · rcases selectTask_of_rows haggregates htask with ⟨ctx', residual, plan, hwhere, hplan, rfl⟩
    exact ⟨source, ctx, ctx', residual, plan, hsource, hctx, hwhere, hplan, rfl, rfl, rfl⟩
  · rcases hvirtual with ⟨ctx', residual, plan, _, _, hwhere, hplan, hschema⟩
    refine ⟨source, ctx, ctx', residual, plan, hsource, hctx, hwhere, hplan, ?_⟩
    rw [schemaTask] at hschema
    split at hschema
    · cases hschema
    · rename_i hsteps
      cases hschema
      exact ⟨rfl, hsteps.symm, rfl⟩

/--
Local steps read no column that is not there.  Every name that a step of a selection without
aggregates, of an update or of a deletion looks up is that of an attribute of the native query, or
of an attribute of a table of which the query returns all, or the output of an earlier computation.
So is every name that an update looks up for its values, and the name of the identifiers.
-/
theorem local_reads_fetched {source : String} {ws : List Sql.Written}
    (hparsed : Sql.parseBatch source = .ok ws) {w : Sql.Written} (hw : w ∈ ws)
    (hrows : forall select, w.statement = .select select -> isAggregateQuery select = false)
    (h : (planStatement lookup options clock w.statement).run v = .ok task v') :
    exists tables ctx, w.statement.sources = [tables] ∧
      (contextOf lookup options tables).run v = .ok ctx v' ∧
      Sourced (Fetched ctx.scopes task.fetch.root) task.steps ∧
      forall key, key ∈ task.reads -> Fetched ctx.scopes task.fetch.root key := by
  have hitems := Sql.itemsNamed_of_parseBatch hparsed hw
  cases hstatement : w.statement with
  | select select =>
      rw [hstatement] at h hitems
      rcases planStatement_rows (hrows select hstatement) h with
        ⟨tables, ctx, ctx', residual, plan, hsources, hctx, hwhere, hplan, hfetch, hsteps, hreads⟩
      refine ⟨tables, ctx, hsources, hctx, ?_⟩
      rw [hfetch, hsteps, hreads]
      constructor
      · exact sourced_selectPlan (ready_contextOf hctx) hitems hwhere hplan
      · intro key hkey
        cases hkey
  | update u =>
      rw [hstatement] at h
      rcases planStatement_update h with ⟨ctx, s, changes, hctx, hs, hchanges, rfl⟩
      have hprovided := Selection.provided_update hctx hs u
      refine ⟨_, ctx, rfl, hctx, ?_⟩
      rw [<- Selection.scopes_eq hs]
      constructor
      · exact hprovided.sourced
      · intro key hkey
        cases List.mem_cons.mp hkey with
        | inl hid =>
            rw [hid]
            exact hprovided.fetched_id
        | inr hvalue =>
            rcases List.mem_flatMap.mp hvalue with ⟨change, hchange, hread⟩
            rcases List.mem_map.mp hread with ⟨c, hc, rfl⟩
            exact hprovided.fetched_changes hchanges hchange hc
  | delete d =>
      rw [hstatement] at h
      rcases planStatement_delete h with ⟨ctx, s, hctx, hs, rfl⟩
      have hprovided := Selection.provided_delete hctx hs
      refine ⟨_, ctx, rfl, hctx, ?_⟩
      rw [<- Selection.scopes_eq hs]
      constructor
      · exact hprovided.sourced
      · intro key hkey
        rw [List.mem_singleton.mp hkey]
        exact hprovided.fetched_id

end

/-!
# Kites
-/

def kiteLookup : Lookup Unit := fun name =>
  pure (((TableDef.ofKey name (name ++ "id")).withAttribute (.ofType "color" .string)).withAttribute
    (.ofType "maker" .string))

def kiteText : String :=
  "select distinct upper(color) shade from kite where color = maker order by 1 " ++
  "update kite set color = maker"

/-- What the task of a statement without aggregates reads, step by step and at last. -/
def kiteReads (statement : Statement) : Option (List (List String) × List String) :=
  match statement, (planStatement kiteLookup .standard TextQuery.letterClock statement).run () with
  | .select select, .ok task _ =>
      if isAggregateQuery select then none else some (task.steps.map Step.reads, task.reads)
  | _, .ok task _ => some (task.steps.map Step.reads, task.reads)
  | _, .error _ _ => none

/-- A statement whose reads are known has a task, and is no selection with aggregates. -/
theorem exists_task_of_kiteReads {statement : Statement}
    {reads : List (List String) × List String} (h : kiteReads statement = some reads) :
    (forall select, statement = .select select -> isAggregateQuery select = false) ∧
      exists task, (planStatement kiteLookup .standard TextQuery.letterClock statement).run () =
        .ok task () := by
  unfold kiteReads at h
  split at h
  · rename_i select task _ htask
    split at h
    · cases h
    · rename_i haggregates
      refine ⟨fun other heq => ?_, task, htask⟩
      cases heq
      exact Bool.not_eq_true _ ▸ haggregates
  · rename_i task _ hother htask
    refine ⟨fun select heq => ?_, task, htask⟩
    exact absurd heq (hother select)
  · cases h

/--
A local filter, a computed column, distinct rows and a sort by the computed column; and a change by
another column of the changed table.
-/
theorem kite_reads_fetched : exists ws, Sql.parseBatch kiteText = .ok ws ∧
    ws.map (fun w => kiteReads w.statement) =
      [some ([["color", "maker"], ["color"], ["shade"], ["shade"]], []),
        some ([], ["kiteid", "maker"])] ∧
    forall w, w ∈ ws -> exists task tables ctx,
      (planStatement kiteLookup .standard TextQuery.letterClock w.statement).run () = .ok task () ∧
      w.statement.sources = [tables] ∧
      (contextOf kiteLookup .standard tables).run () = .ok ctx () ∧
      Sourced (Fetched ctx.scopes task.fetch.root) task.steps ∧
      forall key, key ∈ task.reads -> Fetched ctx.scopes task.fetch.root key := by
  have hreads : (Sql.parseBatch kiteText).toOption.map
      (·.map fun w => kiteReads w.statement) =
        some [some ([["color", "maker"], ["color"], ["shade"], ["shade"]], []),
          some ([], ["kiteid", "maker"])] := by
    decide +kernel
  cases hws : Sql.parseBatch kiteText with
  | error failure =>
      rw [hws] at hreads
      cases hreads
  | ok ws =>
      rw [hws] at hreads
      have hlist : ws.map (fun w => kiteReads w.statement) = _ := Option.some.inj hreads
      refine ⟨ws, rfl, hlist, fun w hw => ?_⟩
      have hknown : exists reads, kiteReads w.statement = some reads := by
        have hmem := List.mem_map_of_mem (f := fun w : Sql.Written => kiteReads w.statement) hw
        rw [hlist] at hmem
        rcases List.mem_cons.mp hmem with heq | hmem
        · exact ⟨_, heq⟩
        · exact ⟨_, List.mem_singleton.mp hmem⟩
      rcases hknown with ⟨reads, hknown⟩
      rcases exists_task_of_kiteReads hknown with ⟨hrows, task, htask⟩
      rcases local_reads_fetched hws hw hrows htask with ⟨tables, ctx, hsources, hctx, hsafe⟩
      exact ⟨task, tables, ctx, htask, hsources, hctx, hsafe⟩

end Plan
end RecordSql
