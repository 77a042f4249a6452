import Mathlib.Logic.ExistsUnique
import RecordSql.Proofs.ScopeNames

/-!
# The places of scopes

Each scope of a `FROM` clause holds a path into the tree of the native query, and the tree goes on
growing after the path was found.  A link is always added at the end of the links of its parent, so
that a path keeps leading where it led; the new link gets the one path that led nowhere before, and
that path goes to the one new scope.
-/

namespace RecordSql
namespace Fetch
namespace Scope

/-!
# What a path leads to
-/

/-- The table at the end of a path and the link that the path ends with; the first argument is the
link in front of the path, if there is one. -/
def reach : Option Link -> List Nat -> Scope -> Option (Option Link × String)
  | link, [], s => some (link, s.table)
  | _, i :: path, s => s.links[i]?.bind fun (link, child) => reach (some link) path child

theorem map_table_at? (link : Option Link) (path : List Nat) (s : Scope) :
    (s.at? path).map (·.table) = (reach link path s).map (·.2) := by
  induction path generalizing link s with
  | nil =>
      rfl
  | cons i path ih =>
      rw [at?, reach]
      cases s.links[i]? with
      | none =>
          rfl
      | some entry =>
          exact ih (some entry.1) entry.2

theorem isSome_at? (link : Option Link) (path : List Nat) (s : Scope) :
    (s.at? path).isSome = (reach link path s).isSome := by
  have hsame := congrArg Option.isSome (map_table_at? link path s)
  rw [Option.isSome_map, Option.isSome_map] at hsame
  exact hsame

theorem isSome_reach {link last : Option Link} {path : List Nat} {s : Scope} {table : String}
    (h : reach link path s = some (last, table)) (hlink : link.isSome = true ∨ path ≠ []) :
    last.isSome = true := by
  induction path generalizing link s with
  | nil =>
      cases h
      exact hlink.resolve_right fun hne => hne rfl
  | cons i path ih =>
      rcases Option.bind_eq_some_iff.mp h with ⟨entry, _, hrest⟩
      exact ih hrest (Or.inl rfl)

/-- The change leaves the table of a scope and its links as they are. -/
structure KeepsPlaces (f : Scope -> Scope) : Prop where
  table : forall s, (f s).table = s.table
  links : forall s, (f s).links = s.links

theorem reach_update {f : Scope -> Scope} (hf : KeepsPlaces f) (link : Option Link)
    (path place : List Nat) (s : Scope) :
    reach link path (s.update f place) = reach link path s := by
  induction path generalizing link s place with
  | nil =>
      cases place with
      | nil =>
          rw [update, reach, reach, hf.table]
      | cons j place =>
          rfl
  | cons i path ih =>
      cases place with
      | nil =>
          rw [update, reach, reach, hf.links]
      | cons j place =>
          rw [update, reach, reach, getElem?_updateLink]
          cases s.links[i]? with
          | none =>
              rfl
          | some entry =>
              simp only [Option.map_some, Option.bind_some]
              split
              · exact ih (some entry.1) place entry.2
              · rfl

/-- Of all paths only the one behind the links of the parent leads to something else than before. -/
theorem reach_addLink {place : List Nat} {s parent : Scope} (hplace : s.at? place = some parent)
    (new : Link) (table : String) (link : Option Link) (path : List Nat) :
    reach link path (s.update (·.addLink new (.ofTable table)) place) =
      if path = place ++ [parent.links.length] then some (some new, table)
      else reach link path s := by
  induction place generalizing link s path with
  | nil =>
      rw [at?] at hplace
      cases hplace
      rw [update, List.nil_append]
      cases path with
      | nil =>
          rfl
      | cons i path =>
          rw [addLink, reach, reach]
          rcases Nat.lt_trichotomy i parent.links.length with hlt | rfl | hgt
          · have hne : ¬ i :: path = [parent.links.length] := by
              intro heq
              exact Nat.ne_of_lt hlt (List.cons.inj heq).1
            rw [List.getElem?_append_left hlt, if_neg hne]
          · rw [List.getElem?_concat_length, List.getElem?_eq_none (Nat.le_refl _)]
            cases path <;> simp [reach, ofTable]
          · have hne : ¬ i :: path = [parent.links.length] := by
              intro heq
              exact Nat.ne_of_gt hgt (List.cons.inj heq).1
            have hlength : (parent.links ++ [(new, ofTable table)]).length ≤ i := by
              rw [List.length_append, List.length_singleton]
              exact hgt
            rw [List.getElem?_eq_none hlength, List.getElem?_eq_none (Nat.le_of_lt hgt), if_neg hne]
  | cons j place ih =>
      rw [at?] at hplace
      rcases Option.bind_eq_some_iff.mp hplace with ⟨⟨next, child⟩, hlink, hchild⟩
      cases path with
      | nil =>
          rfl
      | cons i path =>
          rw [update, reach, reach, getElem?_updateLink, List.cons_append]
          by_cases hij : i = j
          · subst hij
            rw [hlink, Option.map_some, Option.bind_some, Option.bind_some]
            simp only [if_true, List.cons.injEq, true_and]
            exact ih hchild (some next) path
          · rw [if_neg fun heq => hij (List.cons.inj heq).1]
            cases s.links[i]? with
            | none =>
                rfl
            | some entry =>
                simp only [Option.map_some, Option.bind_some, if_neg hij]

/-- The path behind the links of the parent leads nowhere yet. -/
theorem reach_behind {place : List Nat} {s parent : Scope} (hplace : s.at? place = some parent)
    (link : Option Link) : reach link (place ++ [parent.links.length]) s = none := by
  induction place generalizing link s with
  | nil =>
      rw [at?] at hplace
      cases hplace
      rw [List.nil_append, reach, List.getElem?_eq_none (Nat.le_refl _)]
      rfl
  | cons j place ih =>
      rw [at?] at hplace
      rcases Option.bind_eq_some_iff.mp hplace with ⟨⟨next, child⟩, hlink, hchild⟩
      rw [List.cons_append, reach, hlink]
      exact ih hchild (some next)

end Scope
end Fetch

namespace Plan

open Fetch (Link Scope)
open Sql (Join Predicate Source)

/-!
# Scopes and tree
-/

/-- The link says of the scope what the scope says of itself; the first scope has none. -/
def TableScope.LinkedBy (s : TableScope) (i : Nat) : Option Link -> Prop
  | none => i = 0
  | some link => 0 < i ∧ link.aliasName = s.aliasName ∧ link.outer = s.outer

/-- Scopes and places in the tree of the native query belong to each other, one to one. -/
structure Aligned (ctx : Context) : Prop where
  /-- The path of a scope leads to its table, through its link. -/
  reached : forall (i : Nat) (s : TableScope), ctx.scopes[i]? = some s -> exists link,
    Scope.reach none s.path ctx.fetch.root = some (link, s.table.name) ∧ s.LinkedBy i link
  paths : (ctx.scopes.map (·.path)).Nodup
  aliases : ctx.scopes.Pairwise fun s t => Text.sameName s.aliasName t.aliasName = false
  /-- Whatever a path leads to has a scope. -/
  owned : forall path, (Scope.reach none path ctx.fetch.root).isSome = true ->
    path ∈ ctx.scopes.map (·.path)

/-- The scopes keep their numbers and paths, and paths lead where they led. -/
structure Grows (ctx ctx' : Context) : Prop where
  scopes : ctx.scopes <+: ctx'.scopes
  reached : forall path found, Scope.reach none path ctx.fetch.root = some found ->
    Scope.reach none path ctx'.fetch.root = some found

theorem Grows.refl (ctx : Context) : Grows ctx ctx :=
  ⟨List.prefix_refl _, fun _ _ h => h⟩

theorem Grows.trans {ctx ctx' ctx'' : Context} (h : Grows ctx ctx') (h' : Grows ctx' ctx'') :
    Grows ctx ctx'' :=
  ⟨h.scopes.trans h'.scopes, fun path found hfound =>
    h'.reached path found (h.reached path found hfound)⟩

theorem Scopes.getElem?_paths {scopes : Scopes} {i : Nat} (hi : i < scopes.length) :
    (scopes.map (·.path))[i]? = some (scopes.pathOf i) := by
  rw [Scopes.pathOf, List.getElem?_map, List.getElem?_eq_getElem hi]
  rfl

namespace Aligned

variable {ctx : Context}

/-- The path of a scope leads to a scope of the native query for the same table. -/
theorem found (h : Aligned ctx) {i : Nat} {s : TableScope} (hs : ctx.scopes[i]? = some s) :
    exists found, ctx.fetch.root.at? s.path = some found ∧ found.table = s.table.name := by
  rcases h.reached i s hs with ⟨link, hreach, _⟩
  have hfound := Scope.map_table_at? none s.path ctx.fetch.root
  rw [hreach] at hfound
  exact Option.map_eq_some_iff.mp hfound

theorem at? (h : Aligned ctx) {i : Nat} (hi : i < ctx.scopes.length) :
    exists found, ctx.fetch.root.at? (ctx.scopes.pathOf i) = some found := by
  have hs := List.getElem?_eq_getElem hi
  rcases h.found hs with ⟨found, hfound, _⟩
  rw [Scopes.pathOf, hs]
  exact ⟨found, hfound⟩

/-- Each place in the tree is that of one scope. -/
theorem existsUnique_path (h : Aligned ctx) {path : List Nat}
    (hpath : (ctx.fetch.root.at? path).isSome = true) :
    ∃! i, i < ctx.scopes.length ∧ ctx.scopes.pathOf i = path := by
  rw [Scope.isSome_at? none] at hpath
  rcases List.mem_iff_getElem?.mp (h.owned path hpath) with ⟨i, hi⟩
  have hlength : i < ctx.scopes.length := by
    have hlt := (List.getElem?_eq_some_iff.mp hi).1
    rwa [List.length_map] at hlt
  refine ⟨i, ⟨hlength, ?_⟩, ?_⟩
  · rw [Scopes.getElem?_paths hlength] at hi
    exact Option.some.inj hi
  · rintro j ⟨hj, hsame⟩
    refine (List.getElem?_inj (by rwa [List.length_map]) h.paths).mp ?_
    rw [Scopes.getElem?_paths hj, hsame, hi]

theorem isRoot_iff (h : Aligned ctx) {i : Nat} {s : TableScope} (hs : ctx.scopes[i]? = some s) :
    s.isRoot = true <-> i = 0 := by
  rcases h.reached i s hs with ⟨link, hreach, hlink⟩
  constructor
  · intro hroot
    rw [List.isEmpty_iff.mp hroot] at hreach
    have hnone : none = link := congrArg Prod.fst (Option.some.inj hreach)
    subst hnone
    exact hlink
  · rintro rfl
    by_contra hroot
    have hsome := Scope.isSome_reach hreach
      (Or.inr fun hnil => hroot (List.isEmpty_iff.mpr hnil))
    cases link with
    | none =>
        cases hsome
    | some last =>
        exact Nat.lt_irrefl 0 hlink.1

/-- A change that keeps tables and links keeps the scopes where they are. -/
theorem update (h : Aligned ctx) {f : Scope -> Scope} (hf : Scope.KeepsPlaces f) (i : Nat) :
    Aligned (ctx.update i f) := by
  refine ⟨fun j s hs => ?_, h.paths, h.aliases, fun path hpath => ?_⟩
  · rcases h.reached j s hs with ⟨link, hreach, hlink⟩
    exact ⟨link, (Scope.reach_update hf none s.path _ _).trans hreach, hlink⟩
  · refine h.owned path ?_
    rw [<- hpath]
    exact congrArg Option.isSome (Scope.reach_update hf none path _ _).symm

end Aligned

theorem Grows.update (ctx : Context) {f : Scope -> Scope} (hf : Scope.KeepsPlaces f) (i : Nat) :
    Grows ctx (ctx.update i f) :=
  ⟨List.prefix_refl _, fun path _ hfound => (Scope.reach_update hf none path _ _).trans hfound⟩

theorem alias_fresh {scopes added : Scopes} {s : TableScope} (h : scopes.add s = .ok added)
    {t : TableScope} (ht : t ∈ scopes) : Text.sameName t.aliasName s.aliasName = false := by
  unfold Scopes.add at h
  split at h
  · cases h
  · rename_i hfound
    rw [Bool.not_eq_true, Option.isSome_eq_false_iff, Option.isNone_iff_eq_none] at hfound
    exact List.findIdx?_eq_none_iff.mp hfound t ht

/-!
# Adding a join
-/

section

variable {ctx linked : Context} {link : LinkColumns} {scope : TableScope}

/-- The new scope gets the path of the new link, which led nowhere before. -/
theorem addLink_reach (h : Aligned ctx) (hprevious : link.previous.scope < ctx.scopes.length)
    (hlinked : addLink ctx link scope = .ok linked) :
    exists path, ctx.scopes.add { scope with path } = .ok linked.scopes ∧
      linked.scopes = ctx.scopes ++ [{ scope with path }] ∧
      Scope.reach none path ctx.fetch.root = none ∧
      forall other, Scope.reach none other linked.fetch.root =
        if other = path then some (some ⟨link.new.name, link.previous.name, scope.aliasName,
          scope.outer⟩, scope.table.name)
        else Scope.reach none other ctx.fetch.root := by
  simp only [Plan.addLink, Outcome.bind_eq_ok] at hlinked
  rcases hlinked with ⟨scopes, hscopes, hlinked⟩
  cases hlinked
  rcases h.at? hprevious with ⟨parent, hparent⟩
  rw [hparent] at hscopes
  exact ⟨_, hscopes, Scopes.add_eq hscopes, Scope.reach_behind hparent none, fun other =>
    Scope.reach_addLink hparent _ _ none other⟩

theorem Grows.addLink (h : Aligned ctx) (hprevious : link.previous.scope < ctx.scopes.length)
    (hlinked : addLink ctx link scope = .ok linked) : Grows ctx linked := by
  rcases addLink_reach h hprevious hlinked with ⟨path, _, hscopes, hbefore, hreach⟩
  refine ⟨hscopes ▸ List.prefix_append _ _, fun other found hfound => ?_⟩
  rw [hreach, if_neg, hfound]
  rintro rfl
  cases hbefore.symm.trans hfound

theorem Aligned.addLink (h : Aligned ctx) (hprevious : link.previous.scope < ctx.scopes.length)
    (hlinked : addLink ctx link scope = .ok linked) : Aligned linked := by
  rcases addLink_reach h hprevious hlinked with ⟨path, hadd, hscopes, hbefore, hreach⟩
  have hnew : path ∉ ctx.scopes.map (·.path) := by
    intro hmem
    rcases List.mem_map.mp hmem with ⟨s, hs, hpath⟩
    rcases List.mem_iff_getElem?.mp hs with ⟨i, hi⟩
    rcases h.reached i s hi with ⟨old, hold, _⟩
    rw [hpath, hbefore] at hold
    cases hold
  constructor
  · intro i s hs
    rw [hscopes] at hs
    rcases Nat.lt_or_ge i ctx.scopes.length with hi | hi
    · rw [List.getElem?_append_left hi] at hs
      rcases h.reached i s hs with ⟨old, hold, hlink⟩
      refine ⟨old, ?_, hlink⟩
      rw [hreach, if_neg, hold]
      intro hsame
      rw [hsame, hbefore] at hold
      cases hold
    · rw [List.getElem?_append_right hi] at hs
      rw [List.mem_singleton.mp (List.mem_of_getElem? hs)]
      exact ⟨_, (hreach path).trans (if_pos rfl), Nat.lt_of_le_of_lt (Nat.zero_le _)
        (Nat.lt_of_lt_of_le hprevious hi), rfl, rfl⟩
  · rw [hscopes, List.map_append, List.map_singleton]
    refine List.nodup_append.mpr ⟨h.paths, List.pairwise_singleton _ _, ?_⟩
    intro old hold last hlast
    rw [List.mem_singleton.mp hlast]
    exact fun (hsame : old = path) => hnew (hsame ▸ hold)
  · rw [hscopes]
    refine List.pairwise_append.mpr ⟨h.aliases, List.pairwise_singleton _ _, fun t ht s hs => ?_⟩
    rw [List.mem_singleton.mp hs]
    exact alias_fresh hadd ht
  · intro other hother
    rw [hscopes, List.map_append, List.map_singleton]
    rw [hreach] at hother
    split at hother
    · rename_i hsame
      exact List.mem_append_right _ (List.mem_singleton.mpr hsame)
    · exact List.mem_append_left _ (h.owned other hother)

end

theorem aligned_rootContext (options : Options) (source : Source) (table : TableDef) :
    Aligned (rootContext options source table) := by
  refine ⟨fun i s hs => ?_, List.pairwise_singleton _ _, List.pairwise_singleton _ _,
    fun path hpath => ?_⟩
  · match i, hs with
    | 0, rfl =>
        exact ⟨none, rfl, rfl⟩
  · cases path with
    | nil =>
        exact List.mem_singleton_self _
    | cons i path =>
        cases hpath

theorem keepsPlaces_addFilter (filter : Fetch.Filter) :
    Scope.KeepsPlaces (·.addFilter filter) :=
  ⟨fun _ => rfl, fun _ => rfl⟩

/-- A join adds one scope, and may filter it. -/
theorem addJoin_places {ctx joined : Context} (h : Aligned ctx) {join : Join} {outer : Bool}
    {table : TableDef} (hjoined : addJoin ctx join outer table = .ok joined) :
    Aligned joined ∧ Grows ctx joined := by
  rcases addJoin_cases hjoined with ⟨link, linked, hprevious, hlinked, hjoined⟩
  have haligned := h.addLink hprevious hlinked
  have hgrows := Grows.addLink h hprevious hlinked
  rcases hjoined with rfl | ⟨filter, rfl⟩
  · exact ⟨haligned, hgrows⟩
  · exact ⟨haligned.update (keepsPlaces_addFilter filter) _,
      hgrows.trans (Grows.update linked (keepsPlaces_addFilter filter) _)⟩

theorem joinAll_places {σ : Type} {lookup : Lookup σ} {ctx joined : Context} (h : Aligned ctx)
    {joins : List Join} {w w' : σ} (hjoined : (joinAll lookup ctx joins).run w = .ok joined w') :
    Aligned joined ∧ Grows ctx joined := by
  refine @joinAll_induction _ _ _ _ (fun next => Aligned next ∧ Grows ctx next) _ _ _
    ⟨h, Grows.refl ctx⟩ ?_ hjoined
  rintro join _ mid outer table next ⟨hmid, hgrows⟩ _ hnext
  rcases addJoin_places hmid hnext with ⟨hnext, hmore⟩
  exact ⟨hnext, hgrows.trans hmore⟩

theorem joinAll_append {σ : Type} (lookup : Lookup σ) (ctx : Context) (front back : List Join) :
    joinAll lookup ctx (front ++ back) =
      (joinAll lookup ctx front >>= fun mid => joinAll lookup mid back) := by
  induction front generalizing ctx with
  | nil =>
      rfl
  | cons join front ih =>
      simp only [List.cons_append, Plan.joinAll, bind_assoc, ih]

/-!
# Changing a scope that may be missing

A scope is looked up by its path each time it is changed.  That would fail if the path led nowhere.
-/

/-- Changes the part of the native query that belongs to a scope, if it is found at its path. -/
def Context.change (ctx : Context) (scope : Nat) (f : Scope -> Scope) : Except PlanError Context :=
  match ctx.fetch.root.at? (ctx.scopes.pathOf scope) with
  | some _ => .ok (ctx.update scope f)
  | none => .error (.invalidColumn ((ctx.scopes[scope]?.map (·.aliasName)).getD ""))

theorem Aligned.change {ctx : Context} (h : Aligned ctx) {i : Nat} (hi : i < ctx.scopes.length)
    (f : Scope -> Scope) : ctx.change i f = .ok (ctx.update i f) := by
  rcases h.at? hi with ⟨found, hfound⟩
  rw [Context.change, hfound]

/-- What the clauses after `FROM` change in a scope. -/
inductive Edit where
  | ensure (name : String)
  | addAttribute (a : Fetch.Attribute)
  | allAttributes
  | addFilter (f : Fetch.Filter)
  | addOrder (o : Fetch.Order)

def Edit.apply : Edit -> Scope -> Scope
  | ensure name, s => s.ensure name
  | addAttribute a, s => s.addAttribute a
  | allAttributes, s => { s with allAttributes := true }
  | addFilter f, s => s.addFilter f
  | addOrder o, s => s.addOrder o

theorem Edit.keepsPlaces (e : Edit) : Scope.KeepsPlaces e.apply := by
  cases e with
  | ensure name =>
      constructor <;>
        · intro s
          simp only [Edit.apply, Scope.ensure]
          split <;> rfl
  | _ =>
      exact ⟨fun _ => rfl, fun _ => rfl⟩

/-- The changes of scopes one after another, each of which looks its scope up again. -/
def Context.changeAll (ctx : Context) (edits : List (Nat × Edit)) : Except PlanError Context :=
  edits.foldlM (fun ctx entry => ctx.change entry.1 entry.2.apply) ctx

theorem Aligned.changeAll {ctx : Context} (h : Aligned ctx) {edits : List (Nat × Edit)}
    (hedits : forall entry, entry ∈ edits -> entry.1 < ctx.scopes.length) :
    ctx.changeAll edits = .ok (ctx.updateAll (·.1) (·.2.apply) edits) := by
  induction edits generalizing ctx with
  | nil =>
      rfl
  | cons entry rest ih =>
      rw [Context.changeAll, List.foldlM_cons, h.change (hedits entry List.mem_cons_self)]
      exact ih (h.update entry.2.keepsPlaces entry.1) fun other hother =>
        hedits other (List.mem_cons_of_mem _ hother)

/-!
# Planning a FROM clause that may miss a scope
-/

def addLinkChecked (ctx : Context) (link : LinkColumns) (scope : TableScope) :
    Except PlanError Context := do
  let parentPath := ctx.scopes.pathOf link.previous.scope
  let position := ((ctx.fetch.root.at? parentPath).map (·.links.length)).getD 0
  let linked <- ctx.change link.previous.scope fun parent =>
    parent.addLink ⟨link.new.name, link.previous.name, scope.aliasName, scope.outer⟩
      (.ofTable scope.table.name)
  let scopes <- ctx.scopes.add { scope with path := parentPath ++ [position] }
  return { linked with scopes }

def addJoinChecked (ctx : Context) (join : Join) (outer : Bool) (table : TableDef) :
    Except PlanError Context := do
  let scope := scopeOf join.table table [] outer
  let index := ctx.scopes.length
  let scopes <- ctx.scopes.add scope
  let on <- readOn scopes index ⟨none, []⟩ join.on.conjuncts
  match on.link with
  | none =>
      .error (.invalidJoin (join.on.text ++ " - no equality between " ++ scope.aliasName ++
        " and a previous table"))
  | some link =>
      let linked <- addLinkChecked ctx link scope
      if on.confined.isEmpty then return linked
      else
        let items <- confinedItems linked on.confined
        linked.change index (·.addFilter (groupItems items))

section

variable {σ : Type}

def joinAllChecked (lookup : Lookup σ) : Context -> List Join -> EStateM PlanError σ Context
  | ctx, [] => pure ctx
  | ctx, join :: rest => do
      let outer <- liftExcept (isOuterJoin join.kind)
      let table <- definition lookup join.table.name
      let joined <- liftExcept (addJoinChecked ctx join outer table)
      joinAllChecked lookup joined rest

/-- The scopes and the native query of a `FROM` clause, with a failure wherever a scope is not found
at its path. -/
def contextOfChecked (lookup : Lookup σ) (options : Options) (source : Source) :
    EStateM PlanError σ Context := do
  let normal <- liftExcept (normalizeRightJoin source)
  let table <- definition lookup normal.table.name
  joinAllChecked lookup (rootContext options normal table) normal.joins

end

theorem addLinkChecked_eq {ctx : Context} (h : Aligned ctx) {link : LinkColumns}
    (hprevious : link.previous.scope < ctx.scopes.length) (scope : TableScope) :
    addLinkChecked ctx link scope = addLink ctx link scope := by
  rw [addLinkChecked, h.change hprevious]
  rfl

theorem addJoinChecked_eq {ctx : Context} (h : Aligned ctx) (join : Join) (outer : Bool)
    (table : TableDef) : addJoinChecked ctx join outer table = addJoin ctx join outer table := by
  unfold addJoinChecked addJoin
  dsimp only
  cases hscopes : ctx.scopes.add (scopeOf join.table table [] outer) with
  | error e =>
      rfl
  | ok scopes =>
      simp only [Outcome.ok_bind]
      cases hread : readOn scopes ctx.scopes.length ⟨none, []⟩ join.on.conjuncts with
      | error e =>
          rfl
      | ok on =>
          simp only [Outcome.ok_bind]
          cases hon : on.link with
          | none =>
              rfl
          | some link =>
              have hlength : scopes.length = ctx.scopes.length + 1 := by
                rw [Scopes.add_eq hscopes, List.length_append]
                rfl
              have hprevious := readOn_link hlength hread (by rintro _ ⟨⟩) link hon
              simp only [addLinkChecked_eq h hprevious]
              cases hlinked : addLink ctx link (scopeOf join.table table [] outer) with
              | error e =>
                  rfl
              | ok linked =>
                  have hindex : ctx.scopes.length < linked.scopes.length := by
                    rcases addLink_scopes hlinked with ⟨position, _, hadded, _⟩
                    rw [hadded, List.length_append]
                    exact Nat.lt_succ_self _
                  simp only [Outcome.ok_bind, (h.addLink hprevious hlinked).change hindex]
                  rfl

theorem joinAllChecked_eq {σ : Type} (lookup : Lookup σ) {ctx : Context} (h : Aligned ctx)
    (joins : List Join) : joinAllChecked lookup ctx joins = joinAll lookup ctx joins := by
  induction joins generalizing ctx with
  | nil =>
      rfl
  | cons join rest ih =>
      rw [joinAllChecked, Plan.joinAll]
      refine bind_congr fun outer => bind_congr fun table => ?_
      rw [addJoinChecked_eq h]
      cases hjoined : addJoin ctx join outer table with
      | error e =>
          rfl
      | ok joined =>
          exact ih (addJoin_places h hjoined).1

/-- No scope is ever missed, whether the clause can be planned or not. -/
theorem contextOfChecked_eq {σ : Type} (lookup : Lookup σ) (options : Options) (source : Source) :
    contextOfChecked lookup options source = contextOf lookup options source := by
  refine bind_congr fun normal => bind_congr fun table => ?_
  exact joinAllChecked_eq lookup (aligned_rootContext options normal table) normal.joins

/-!
# Keys of rows
-/

/-- The attributes of the first scope keep their names, those of others get the alias in front. -/
theorem Aligned.rowKey_eq {ctx : Context} (h : Aligned ctx) {b : Bound} {s : TableScope}
    (hs : ctx.scopes[b.scope]? = some s) :
    ctx.scopes.rowKey b = if b.scope = 0 then b.name else s.aliasName ++ "." ++ b.name := by
  rw [Scopes.rowKey_eq, Scopes.front_eq hs, TableScope.front]
  simp only [h.isRoot_iff hs]
  split
  · exact String.empty_append
  · rfl

/-- A row key tells both the scope and the attribute, unless dots in names blur their border. -/
theorem Tabled.rowKey_injective {ctx : Context} (h : Tabled ctx) {b b' : Bound}
    (hb : b.scope < ctx.scopes.length) (hb' : b'.scope < ctx.scopes.length)
    (hdot : '.' ∉ b.name.toList) (hdot' : '.' ∉ b'.name.toList)
    (hkey : ctx.scopes.rowKey b = ctx.scopes.rowKey b') : b = b' := by
  have hdotless : forall {name : String}, '.' ∉ name.toList -> name.toList.contains '.' = false :=
    fun hname => Bool.eq_false_iff.mpr fun hc => hname (List.contains_iff_mem.mp hc)
  have hs := List.getElem?_eq_getElem hb
  have hs' := List.getElem?_eq_getElem hb'
  rw [Scopes.rowKey_eq, Scopes.rowKey_eq, Scopes.front_eq hs, Scopes.front_eq hs'] at hkey
  have hfront := front_eq_of_key_eq (hdotless hdot) (hdotless hdot') hkey
  have hscope := h.eq_of_front hs hs' hfront
  rw [hfront] at hkey
  have hname := (String.append_right_inj _).mp hkey
  cases b
  cases b'
  cases hscope
  cases hname
  rfl

/-- The context after the first joins of a clause, from which the other joins lead to the end. -/
theorem exists_stage {σ : Type} {lookup : Lookup σ} {options : Options} {source normal : Source}
    {ctx : Context} {w w' : σ} (h : (contextOf lookup options source).run w = .ok ctx w')
    (hnormal : normalizeRightJoin source = .ok normal) {front back : List Join}
    (hjoins : normal.joins = front ++ back) :
    exists table mid w₁ w₂, (definition lookup normal.table.name).run w = .ok table w₁ ∧
      (joinAll lookup (rootContext options normal table) front).run w₁ = .ok mid w₂ ∧
      (joinAll lookup mid back).run w₂ = .ok ctx w' := by
  rcases contextOf_eq_ok h with ⟨found, table, w₁, hsame, htable, h⟩
  cases hnormal.symm.trans hsame
  rw [hjoins, joinAll_append] at h
  rcases Outcome.run_bind_eq_ok.mp h with ⟨mid, w₂, hfront, hback⟩
  exact ⟨table, mid, w₁, w₂, htable, hfront, hback⟩

/--
The scopes of a `FROM` clause and the tree of its native query stay aligned: every scope has its own
place, every place its own scope, no lookup of a scope by its path can fail, neither while the
clause is planned nor when later clauses change the tree, and what joins add leaves earlier paths
valid.  Rows keep each attribute of each scope under a key of its own.
-/
theorem scopes_stay_aligned {σ : Type} {lookup : Lookup σ} {options : Options} {source : Source}
    {ctx : Context} {w w' : σ} (h : (contextOf lookup options source).run w = .ok ctx w') :
    Aligned ctx ∧
    (forall (i : Nat) (s : TableScope), ctx.scopes[i]? = some s ->
      exists found, ctx.fetch.root.at? s.path = some found ∧ found.table = s.table.name) ∧
    (forall path, (ctx.fetch.root.at? path).isSome = true ->
      ∃! i, i < ctx.scopes.length ∧ ctx.scopes.pathOf i = path) ∧
    contextOfChecked lookup options source = contextOf lookup options source ∧
    (forall edits : List (Nat × Edit),
      (forall entry, entry ∈ edits -> entry.1 < ctx.scopes.length) ->
        ctx.changeAll edits = .ok (ctx.updateAll (·.1) (·.2.apply) edits)) ∧
    (forall normal front back, normalizeRightJoin source = .ok normal ->
      normal.joins = front ++ back ->
        exists table mid w₁ w₂, (definition lookup normal.table.name).run w = .ok table w₁ ∧
          (joinAll lookup (rootContext options normal table) front).run w₁ = .ok mid w₂ ∧
          (joinAll lookup mid back).run w₂ = .ok ctx w' ∧ Aligned mid ∧ Grows mid ctx) ∧
    (forall b s, ctx.scopes[b.scope]? = some s ->
      ctx.scopes.rowKey b = (if b.scope = 0 then b.name else s.aliasName ++ "." ++ b.name) ∧
        ctx.scopes.rowKey b = (ctx.scopes.qualified b).rowKey) ∧
    (forall b b', b.scope < ctx.scopes.length -> b'.scope < ctx.scopes.length ->
      '.' ∉ b.name.toList -> '.' ∉ b'.name.toList ->
        ctx.scopes.rowKey b = ctx.scopes.rowKey b' -> b = b') := by
  have hstage : forall normal front back, normalizeRightJoin source = .ok normal ->
      normal.joins = front ++ back ->
        exists table mid w₁ w₂, (definition lookup normal.table.name).run w = .ok table w₁ ∧
          (joinAll lookup (rootContext options normal table) front).run w₁ = .ok mid w₂ ∧
          (joinAll lookup mid back).run w₂ = .ok ctx w' ∧ Aligned mid ∧ Grows mid ctx := by
    intro normal front back hnormal hjoins
    rcases exists_stage h hnormal hjoins with ⟨table, mid, w₁, w₂, htable, hfront, hback⟩
    have hmid := (joinAll_places (aligned_rootContext options normal table) hfront).1
    exact ⟨table, mid, w₁, w₂, htable, hfront, hback, hmid, (joinAll_places hmid hback).2⟩
  have haligned : Aligned ctx := by
    rcases contextOf_eq_ok h with ⟨normal, table, w₁, _, _, h⟩
    exact (joinAll_places (aligned_rootContext options normal table) h).1
  have htabled := tabled_contextOf h
  exact ⟨haligned, fun i s => haligned.found, fun path => haligned.existsUnique_path,
    contextOfChecked_eq lookup options source, fun edits => haligned.changeAll, hstage,
    fun b s hs => ⟨haligned.rowKey_eq hs, rfl⟩, fun b b' => htabled.rowKey_injective⟩

/-!
# Birds in nests on trees
-/

def nestTable (name : String) : TableDef :=
  { TableDef.ofKey name (name ++ "id") with
    attributes := [.ofType (name ++ "id") .uniqueIdentifier, .ofType "tree" .lookup,
      .ofType "nest" .lookup, .ofType "song" .string] }

def equalColumns (left leftName right rightName : String) : Predicate :=
  .compare (.column (.inCollection left leftName)) .eq (.column (.inCollection right rightName))

/-- Trees with their nests, with the loud birds of the nests and once more with any nests. -/
def nestSource : Source :=
  ⟨⟨"nest", none, false⟩,
    [⟨.rightOuter, ⟨"tree", none, false⟩, equalColumns "nest" "tree" "tree" "treeid"⟩,
      ⟨.inner, ⟨"bird", some "b", false⟩, .and [equalColumns "nest" "nestid" "b" "nest",
        .compare (.column (.inCollection "b" "song")) .eq (.literal (.str "loud"))]⟩,
      ⟨.leftOuter, ⟨"nest", some "other", false⟩, equalColumns "other" "tree" "tree" "treeid"⟩]⟩

def nestLookup : Lookup Unit := fun name =>
  pure (nestTable name)

theorem nests_aligned : exists ctx,
    (contextOf nestLookup .standard nestSource).run () = .ok ctx () ∧
    ctx.scopes.map (fun s => (s.aliasName, s.path)) =
      [("tree", []), ("nest", [0]), ("b", [0, 0]), ("other", [1])] ∧
    Aligned ctx ∧
    (∃! i, i < 4 ∧ ctx.scopes.pathOf i = [0, 0]) ∧
    ctx.changeAll [(2, .ensure "song"), (3, .allAttributes)] =
      .ok ((ctx.update 2 (·.ensure "song")).update 3 fun s => { s with allAttributes := true }) ∧
    ctx.scopes.rowKey ⟨1, "tree"⟩ ≠ ctx.scopes.rowKey ⟨3, "tree"⟩ := by
  have hcontext : exists ctx,
      (contextOf nestLookup .standard nestSource).run () = .ok ctx () ∧
        ctx.scopes.map (fun s => (s.aliasName, s.path)) =
          [("tree", []), ("nest", [0]), ("b", [0, 0]), ("other", [1])] ∧
        (ctx.fetch.root.at? [0, 0]).isSome = true := by
    exact ⟨_, rfl, rfl, rfl⟩
  rcases hcontext with ⟨ctx, hctx, hscopes, hplace⟩
  have hlength : ctx.scopes.length = 4 := by
    have hmap := congrArg List.length hscopes
    rwa [List.length_map] at hmap
  rcases scopes_stay_aligned hctx with ⟨haligned, _, hunique, _, hedits, _, _, hkeys⟩
  refine ⟨ctx, hctx, hscopes, haligned, hlength ▸ hunique [0, 0] hplace, hedits _ ?_, ?_⟩
  · intro entry hentry
    rw [hlength]
    revert entry
    simp
  · intro hsame
    have hbound := hkeys ⟨1, "tree"⟩ ⟨3, "tree"⟩ (by rw [hlength]; decide) (by rw [hlength]; decide)
      (by decide) (by decide) hsame
    cases hbound

end Plan
end RecordSql
