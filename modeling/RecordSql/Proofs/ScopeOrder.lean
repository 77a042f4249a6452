import RecordSql.Proofs.DistinctPlans

/-!
# Native orders follow the keys

The platform reads the orders of a query scope by scope: those of a scope come before those of its
links, and those of a link before those of the next one.  So the scopes are read in the
lexicographic order of their paths, and an order is read last if no scope after its own has any.
Planning adds orders only while the paths of their scopes do not decrease.
-/

namespace RecordSql
namespace Fetch

/-- The keys by which the platform sorts the rows of a query. -/
def Query.sortOrder (q : Query) : List SortKey :=
  scopeSortKeys q.aggregate (placedAttributes "" q.root) "" q.root

namespace Scope

variable {β : Type} {held : String -> Scope -> List β} {front after : String} {path : List Nat}
  {s found : Scope} {f : Scope -> Scope}

/-!
# What comes after a scope
-/

/-- What the scopes hold that are read after the one at a path. -/
def gatherAfter (held : String -> Scope -> List β) : List Nat -> Scope -> List β
  | [], s => gatherLinks held s.links
  | i :: path, s => (s.links[i]?.map fun entry => gatherAfter held path entry.2).getD [] ++
      gatherLinks held (s.links.drop (i + 1))

theorem gatherLinks_eq_nil {links : List (Link × Scope)} : gatherLinks held links = [] <->
    forall link child, (link, child) ∈ links -> gather held link.front child = [] := by
  induction links with
  | nil =>
      exact iff_of_true rfl fun link child h => by cases h
  | cons entry rest ih =>
      rcases entry with ⟨link, child⟩
      rw [gatherLinks, List.append_eq_nil_iff, ih]
      constructor
      · rintro ⟨hfirst, hrest⟩ link' child' h
        rcases List.mem_cons.mp h with heq | h
        · cases heq
          exact hfirst
        · exact hrest link' child' h
      · intro h
        exact ⟨h link child List.mem_cons_self,
          fun link' child' hmem => h link' child' (List.mem_cons_of_mem _ hmem)⟩

theorem links_of_gather_eq_nil (h : gather held front s = []) : gatherLinks held s.links = [] := by
  rcases s with ⟨table, all, attributes, filters, links, orders⟩
  rw [gather] at h
  exact (List.append_eq_nil_iff.mp h).2

theorem gatherLinks_subset_nil {links links' : List (Link × Scope)}
    (h : gatherLinks held links = []) (hsubset : links' ⊆ links) : gatherLinks held links' = [] :=
  gatherLinks_eq_nil.mpr fun link child hmem => gatherLinks_eq_nil.mp h link child (hsubset hmem)

/-- Nothing is held after a scope if no link of the root holds anything. -/
theorem gatherAfter_of_links (h : gatherLinks held s.links = []) (path : List Nat) :
    gatherAfter held path s = [] := by
  induction path generalizing s with
  | nil =>
      exact h
  | cons i path ih =>
      rw [gatherAfter, gatherLinks_subset_nil h (List.drop_subset _ _), List.append_nil]
      cases hlink : s.links[i]? with
      | none =>
          rfl
      | some entry =>
          rcases entry with ⟨link, child⟩
          have hchild := gatherLinks_eq_nil.mp h link child (List.mem_of_getElem? hlink)
          exact ih (links_of_gather_eq_nil hchild)

/-- What comes after a later scope comes after an earlier one, too. -/
theorem gatherAfter_of_le {path later : List Nat} (hle : ¬ later < path)
    (h : gatherAfter held path s = []) : gatherAfter held later s = [] := by
  induction path generalizing s later with
  | nil =>
      exact gatherAfter_of_links h later
  | cons i path ih =>
      rw [gatherAfter, List.append_eq_nil_iff] at h
      rcases h with ⟨hinside, hbehind⟩
      cases later with
      | nil =>
          exact absurd (List.nil_lt_cons i path) hle
      | cons j later =>
          rw [List.cons_lt_cons_iff, not_or, not_and] at hle
          rcases hle with ⟨hnot, hsame⟩
          rw [gatherAfter, List.append_eq_nil_iff]
          rcases Nat.lt_or_eq_of_le (Nat.le_of_not_lt hnot) with hlt | rfl
          · -- The whole link is behind the one of the earlier scope.
            constructor
            · cases hlink : s.links[j]? with
              | none =>
                  rfl
              | some entry =>
                  rcases entry with ⟨link, child⟩
                  have hmem : (link, child) ∈ s.links.drop (i + 1) := by
                    refine List.mem_of_getElem? (i := j - (i + 1)) ?_
                    rw [List.getElem?_drop, <- hlink]
                    congr 1
                    omega
                  exact gatherAfter_of_links
                    (links_of_gather_eq_nil (gatherLinks_eq_nil.mp hbehind link child hmem)) later
            · refine gatherLinks_subset_nil hbehind ?_
              rw [show j + 1 = (i + 1) + (j - i) by omega, <- List.drop_drop]
              exact List.drop_subset _ _
          · refine ⟨?_, hbehind⟩
            cases hlink : s.links[i]? with
            | none =>
                rfl
            | some entry =>
                rw [hlink] at hinside
                exact ih (hsame rfl) hinside

theorem links_of_gatherAfter (hplace : s.place front path = some (after, found))
    (h : gatherAfter held path s = []) : gatherLinks held found.links = [] := by
  induction path generalizing front s with
  | nil =>
      cases hplace
      exact h
  | cons i path ih =>
      rw [place, Option.bind_eq_some_iff] at hplace
      rcases hplace with ⟨⟨link, child⟩, hlink, hchild⟩
      rw [gatherAfter, hlink, List.append_eq_nil_iff] at h
      exact ih hchild h.1

/-!
# Changing a scope
-/

theorem drop_updateLink (f : Scope -> Scope) (links : List (Link × Scope)) (i : Nat) :
    (updateLink f links i).drop (i + 1) = links.drop (i + 1) := by
  refine List.ext_getElem? fun j => ?_
  have hne : i + 1 + j ≠ i := by omega
  rw [List.getElem?_drop, List.getElem?_drop, getElem?_updateLink]
  simp only [hne, if_false]
  exact Option.map_id'

/-- A scope whose links stay the same is changed: what comes after it stays the same. -/
theorem gatherAfter_update_self (hf : forall s, (f s).links = s.links) (path : List Nat)
    (s : Scope) : gatherAfter held path (s.update f path) = gatherAfter held path s := by
  induction path generalizing s with
  | nil =>
      rw [update, gatherAfter, gatherAfter, hf]
  | cons i path ih =>
      rw [update, gatherAfter, gatherAfter]
      simp only [drop_updateLink, getElem?_updateLink]
      congr 1
      cases s.links[i]? with
      | none =>
          rfl
      | some entry =>
          simp only [Option.map_some, Option.getD_some, if_true]
          exact ih entry.2

theorem gatherLinks_updateLink_append {links : List (Link × Scope)} {i : Nat} {link : Link}
    {child : Scope} (hlink : links[i]? = some (link, child)) {new : List β}
    (hnew : gather held link.front (f child) = gather held link.front child ++ new)
    (h : gatherLinks held (links.drop (i + 1)) = []) :
    gatherLinks held (updateLink f links i) = gatherLinks held links ++ new := by
  induction links generalizing i with
  | nil =>
      cases hlink
  | cons entry rest ih =>
      rcases entry with ⟨l, c⟩
      cases i with
      | zero =>
          cases hlink
          rw [List.drop_succ_cons, List.drop_zero] at h
          rw [updateLink, gatherLinks, gatherLinks, hnew, h, List.append_nil, List.append_nil]
      | succ i =>
          rw [updateLink, gatherLinks, gatherLinks, ih hlink h, List.append_assoc]

/-- What a scope gets that nothing comes after is read last. -/
theorem gather_update_append (hplace : s.place front path = some (after, found))
    (h : gatherAfter held path s = []) {new : List β}
    (hnew : gather held after (f found) = gather held after found ++ new) :
    gather held front (s.update f path) = gather held front s ++ new := by
  induction path generalizing front s with
  | nil =>
      cases hplace
      exact hnew
  | cons i path ih =>
      rw [place, Option.bind_eq_some_iff] at hplace
      rcases hplace with ⟨⟨link, child⟩, hlink, hchild⟩
      rw [gatherAfter, hlink, List.append_eq_nil_iff] at h
      rcases s with ⟨table, all, attributes, filters, links, orders⟩
      rw [update, gather, gather, gatherLinks_updateLink_append hlink (ih hchild h.1) h.2,
        List.append_assoc]

theorem gatherLinks_updateLink_eq
    (hf : forall front s, gather held front (f s) = gather held front s)
    (links : List (Link × Scope)) (i : Nat) :
    gatherLinks held (updateLink f links i) = gatherLinks held links := by
  induction links generalizing i with
  | nil =>
      rfl
  | cons entry rest ih =>
      rcases entry with ⟨link, child⟩
      cases i with
      | zero =>
          rw [updateLink, gatherLinks, gatherLinks, hf]
      | succ i =>
          rw [updateLink, gatherLinks, gatherLinks, ih]

/-- A change of scopes that hold the same afterwards leaves what the tree holds. -/
theorem gather_update_eq
    (hf : forall front s, gather held front (f s) = gather held front s) (front : String)
    (path : List Nat) (s : Scope) :
    gather held front (s.update f path) = gather held front s := by
  induction path generalizing front s with
  | nil =>
      exact hf front s
  | cons i path ih =>
      rcases s with ⟨table, all, attributes, filters, links, orders⟩
      rw [update, gather, gather, gatherLinks_updateLink_eq ih]

/-!
# Adding an order
-/

theorem gather_addOrder_append (aggregate : Bool) (attributes : List Placed)
    (h : gatherLinks (heldKeys aggregate attributes) s.links = []) (front name : String)
    (descending : Bool) :
    gather (heldKeys aggregate attributes) front (s.addOrder (.byColumn name descending)) =
      gather (heldKeys aggregate attributes) front s ++ [⟨front ++ name, descending⟩] := by
  rcases s with ⟨table, all, placed, filters, links, orders⟩
  rw [addOrder, gather, gather, h, List.append_nil, List.append_nil, heldKeys, heldKeys, sortKeys,
    sortKeys, List.filterMap_append]
  rfl

theorem links_ensure (name : String) (s : Scope) : (s.ensure name).links = s.links := by
  unfold ensure
  split <;> rfl

end Scope

end Fetch

namespace Plan

open Fetch (Order Placed Scope SortKey heldKeys)
open Sql (OrderKey SelectItem)

/-!
# Adding the native keys
-/

/-- The key that the platform sorts by for a native key. -/
def Scopes.sortKey (scopes : Scopes) (key : Bound × Bool) : SortKey :=
  ⟨scopes.rowKey key.1, key.2⟩

/-- No scope after the one that got the last order holds any; before the first, none at all does. -/
def OrdersEnd (ctx : Context) : Option (List Nat) -> Prop
  | none => forall aggregate attributes,
      Scope.gather (heldKeys aggregate attributes) "" ctx.fetch.root = []
  | some path => forall aggregate attributes,
      Scope.gatherAfter (heldKeys aggregate attributes) path ctx.fetch.root = []

variable {ctx : Context} {last : Option (List Nat)}

theorem OrdersEnd.after (h : OrdersEnd ctx last) {path : List Nat}
    (hpath : last.any (path < ·) = false) (aggregate : Bool) (attributes : List Placed) :
    Scope.gatherAfter (heldKeys aggregate attributes) path ctx.fetch.root = [] := by
  cases last with
  | none =>
      exact Scope.gatherAfter_of_links (Scope.links_of_gather_eq_nil (h aggregate attributes)) path
  | some earlier =>
      exact Scope.gatherAfter_of_le (of_decide_eq_false hpath) (h aggregate attributes)

/-- What a scope becomes that gets an order. -/
def orderChange (ctx : Context) (key : Bound × Bool) (s : Scope) : Scope :=
  (if (ctx.scopes.pathOf key.1.scope).isEmpty then s.ensure key.1.name else s).addOrder
    (.byColumn key.1.name key.2)

theorem addOrder_eq (ctx : Context) (key : Bound × Bool) :
    addOrder ctx key = ctx.update key.1.scope (orderChange ctx key) :=
  rfl

theorem links_orderChange (ctx : Context) (key : Bound × Bool) (s : Scope) :
    (orderChange ctx key s).links = s.links := by
  unfold orderChange
  split
  · exact Scope.links_ensure key.1.name s
  · rfl

theorem extends_orderChange (ctx : Context) (key : Bound × Bool) :
    Scope.Extends (orderChange ctx key) := by
  refine ⟨fun s => ⟨[], ?_⟩, fun s => ?_⟩
  · rw [links_orderChange, List.append_nil]
  · unfold orderChange
    split
    · exact (Scope.extends_ensure key.1.name).all s
    · rfl

theorem gather_orderChange (key : Bound × Bool) (aggregate : Bool) (attributes : List Placed)
    {s : Scope} (h : Scope.gatherLinks (heldKeys aggregate attributes) s.links = [])
    (front : String) : Scope.gather (heldKeys aggregate attributes) front (orderChange ctx key s) =
      Scope.gather (heldKeys aggregate attributes) front s ++ [⟨front ++ key.1.name, key.2⟩] := by
  unfold orderChange
  split
  · rw [Scope.gather_addOrder_append aggregate attributes (by rw [Scope.links_ensure, h]),
      Scope.gather_ensure]
  · exact Scope.gather_addOrder_append aggregate attributes h front key.1.name key.2

/-- An order is read last if its scope is not before the one that got the order before. -/
theorem sortKeys_addOrder (hrooted : Rooted ctx) (hlast : OrdersEnd ctx last) {key : Bound × Bool}
    (hkey : key.1.scope < ctx.scopes.length)
    (hpath : last.any (ctx.scopes.pathOf key.1.scope < ·) = false) :
    (forall aggregate attributes,
      Scope.gather (heldKeys aggregate attributes) "" (addOrder ctx key).fetch.root =
        Scope.gather (heldKeys aggregate attributes) "" ctx.fetch.root ++
          [ctx.scopes.sortKey key]) ∧
      OrdersEnd (addOrder ctx key) (some (ctx.scopes.pathOf key.1.scope)) := by
  rcases hrooted.place hkey with ⟨found, hplace, _⟩
  rw [addOrder_eq]
  constructor
  · intro aggregate attributes
    have hafter := hlast.after hpath aggregate attributes
    rw [Scopes.sortKey, Scopes.rowKey_eq]
    exact Scope.gather_update_append hplace hafter
      (gather_orderChange key aggregate attributes (Scope.links_of_gatherAfter hplace hafter) _)
  · intro aggregate attributes
    exact (Scope.gatherAfter_update_self (links_orderChange ctx key) _ _).trans
      (hlast.after hpath aggregate attributes)

/-- A native key as one of the keys to sort by. -/
def nativeTarget (key : Bound × Bool) : SortTarget × Bool :=
  (.native key.1, key.2)

/-- The native keys are the first ones. -/
theorem nativeKeys_prefix (scopes : Scopes) (last : Option (List Nat))
    (targets : List (SortTarget × Bool)) :
    (nativeKeys scopes last targets).map nativeTarget <+: targets := by
  induction targets generalizing last with
  | nil =>
      exact List.prefix_refl []
  | cons target rest ih =>
      rcases target with ⟨target, descending⟩
      cases target with
      | computed e used =>
          exact List.nil_prefix
      | native b =>
          rw [nativeKeys]
          split
          · exact List.nil_prefix
          · exact (List.prefix_cons_inj _).mpr (ih (some (scopes.pathOf b.scope)))

/-- The native keys are read in the order in which they were added, after those before them. -/
theorem sortKeys_nativeKeys {scopes : Scopes} (hscopes : ctx.scopes = scopes)
    (hrooted : Rooted ctx) (hlast : OrdersEnd ctx last) {targets : List (SortTarget × Bool)}
    (htargets : forall b descending, (.native b, descending) ∈ targets -> b.scope < scopes.length)
    (aggregate : Bool) (attributes : List Placed) :
    Scope.gather (heldKeys aggregate attributes) ""
        ((nativeKeys scopes last targets).foldl addOrder ctx).fetch.root =
      Scope.gather (heldKeys aggregate attributes) "" ctx.fetch.root ++
        (nativeKeys scopes last targets).map scopes.sortKey := by
  induction targets generalizing ctx last with
  | nil =>
      exact (List.append_nil _).symm
  | cons target rest ih =>
      rcases target with ⟨target, descending⟩
      cases target with
      | computed e used =>
          exact (List.append_nil _).symm
      | native b =>
          rw [nativeKeys]
          split
          · exact (List.append_nil _).symm
          · rename_i hpath
            subst hscopes
            have hadded := @sortKeys_addOrder ctx last hrooted hlast (b, descending)
              (htargets b descending List.mem_cons_self) (Bool.eq_false_iff.mpr hpath)
            have hrest := @ih (addOrder ctx (b, descending)) (some (ctx.scopes.pathOf b.scope)) rfl
              (hrooted.update (extends_orderChange ctx (b, descending)) b.scope) hadded.2
              fun b' descending' hmem => htargets b' descending' (List.mem_cons_of_mem _ hmem)
            rw [List.foldl_cons, hrest, hadded.1, List.append_assoc]
            rfl

theorem sortKeys_ensureAll_eq (ctx : Context) (columns : List Bound) (aggregate : Bool)
    (attributes : List Placed) :
    Scope.gather (heldKeys aggregate attributes) "" (ctx.ensureAll columns).fetch.root =
      Scope.gather (heldKeys aggregate attributes) "" ctx.fetch.root := by
  induction columns generalizing ctx with
  | nil =>
      rfl
  | cons b rest ih =>
      refine (ih (ctx.ensure b)).trans ?_
      exact Scope.gather_update_eq (fun front s => Scope.gather_ensure _ _ front b.name s) "" _ _

/-!
# Sorting by keys
-/

theorem resolve_scope_lt {c : Sql.Column} {b : Bound} (h : ctx.resolve c = .ok (some b)) :
    b.scope < ctx.scopes.length :=
  Scopes.resolve_lt (Context.resolve_eq h)

theorem itemTarget_lt {item : SelectItem} {output : String} {b : Bound}
    (h : itemTarget ctx item output = .ok (.native b)) : b.scope < ctx.scopes.length := by
  unfold itemTarget at h
  split at h
  · rcases Outcome.bind_eq_ok.mp h with ⟨column, hcolumn, h⟩
    cases column with
    | none =>
        cases h
    | some b' =>
        cases h
        exact resolve_scope_lt hcolumn
  · cases h

theorem exprTarget_lt {e : Sql.Scalar} {b : Bound} (h : exprTarget ctx e = .ok (.native b)) :
    b.scope < ctx.scopes.length := by
  simp only [exprTarget, Outcome.bind_eq_ok] at h
  rcases h with ⟨qualified, _, h⟩
  cases hplain : ctx.plainColumn? e with
  | none =>
      rw [hplain] at h
      cases h
  | some b' =>
      rw [hplain] at h
      cases h
      cases e with
      | column c =>
          exact resolve_scope_lt (bound?_eq_some_iff.mp hplain)
      | _ =>
          cases hplain

/-- A key that is a column of the scopes is one of them. -/
theorem sortTarget_lt {items : List SelectItem} {columns : List String} {e : Sql.Scalar} {b : Bound}
    (h : sortTarget ctx items columns e = .ok (.native b)) : b.scope < ctx.scopes.length := by
  unfold sortTarget at h
  split at h
  · split at h
    · exact itemTarget_lt h
    · exact exprTarget_lt h
  · split at h
    · cases h
    · split at h
      · exact itemTarget_lt h
      · cases h
  · exact exprTarget_lt h

/-- What the keys are sorted by, and in which direction. -/
def TargetsOf (ctx : Context) (items : List SelectItem) (columns : List String) :
    List OrderKey -> List (SortTarget × Bool) -> Prop :=
  List.Forall₂ fun key target =>
    sortTarget ctx items columns key.expr = .ok target.1 ∧ target.2 = key.descending

theorem TargetsOf.unique {items : List SelectItem} {columns : List String} {keys : List OrderKey}
    {targets targets' : List (SortTarget × Bool)} (h : TargetsOf ctx items columns keys targets)
    (h' : TargetsOf ctx items columns keys targets') : targets = targets' := by
  refine List.right_unique_forall₂' ?_ h h'
  rintro key target target' ⟨htarget, hdirection⟩ ⟨htarget', hdirection'⟩
  exact Prod.ext (Except.ok.inj (htarget.symm.trans htarget')) (hdirection.trans hdirection'.symm)

variable {σ : Type} {lookup : Lookup σ} {options : Options} {source : Sql.Source} {w w' : σ}

/--
Either the platform sorts by all keys, in their order, or it sorts by the first ones, in their
order, and one local step sorts by all keys.
-/
theorem order_by_keeps_keys {ctx' : Context} {keys : List OrderKey} {items : List SelectItem}
    {columns : List String} {steps steps' : List Step}
    (hfrom : (contextOf lookup options source).run w = .ok ctx w')
    (h : applyOrderBy ctx keys items columns steps = .ok (ctx', steps')) :
    exists (targets : List (SortTarget × Bool)) (native : List (Bound × Bool))
        (rest : List (SortTarget × Bool)),
      TargetsOf ctx items columns keys targets ∧ targets = native.map nativeTarget ++ rest ∧
      ctx'.fetch.sortOrder = native.map ctx.scopes.sortKey ∧
      ((rest = [] ∧ steps' = steps) ∨ (rest ≠ [] ∧ steps' = steps ++
        [.sort (targets.map fun (target, descending) => ⟨target.expr ctx.scopes, descending⟩)])) := by
  have hready := ready_contextOf hfrom
  rw [applyOrderBy_eq, Outcome.bind_eq_ok] at h
  rcases h with ⟨targets, htargets, h⟩
  cases h
  have hkeys : TargetsOf ctx items columns keys targets := by
    refine (Outcome.mapM_eq_ok.mp htargets).imp fun key target h => ?_
    rcases Outcome.bind_eq_ok.mp h with ⟨found, hfound, h⟩
    cases h
    exact ⟨hfound, rfl⟩
  rcases nativeKeys_prefix ctx.scopes none targets with ⟨rest, hrest⟩
  have hlt : forall b descending, (.native b, descending) ∈ targets ->
      b.scope < ctx.scopes.length := by
    intro b descending hmem
    rcases Outcome.exists_of_forall₂ hkeys hmem with ⟨key, _, htarget, _⟩
    exact sortTarget_lt htarget
  have hend : OrdersEnd ctx none := hready.bare.orders
  have horder := fun aggregate attributes =>
    sortKeys_nativeKeys rfl hready.rooted hend hlt aggregate attributes
  simp only [hready.bare.orders, List.nil_append] at horder
  have hlength : (nativeKeys ctx.scopes none targets).length = targets.length <-> rest = [] := by
    rw [<- congrArg List.length hrest, List.length_append, List.length_map, Nat.left_eq_add,
      List.length_eq_zero_iff]
  refine ⟨targets, nativeKeys ctx.scopes none targets, rest, hkeys, hrest.symm, ?_, ?_⟩
  · rw [Fetch.Query.sortOrder, Fetch.scopeSortKeys_eq, orderedBy]
    split
    · exact horder _ _
    · rw [sortKeys_ensureAll_eq]
      exact horder _ _
  · rw [sortSteps]
    split
    · rename_i h
      exact .inl ⟨hlength.mp (beq_iff_eq.mp h), List.append_nil _⟩
    · rename_i h
      exact .inr ⟨fun hnil => h (beq_iff_eq.mpr (hlength.mpr hnil)), rfl⟩

/-!
# Desks and people of firms

An office is linked to its firm and a desk to its office; a person is linked to the firm, too.
-/

def linkedTable (name parent : String) : TableDef :=
  { TableDef.ofKey name (name ++ "id") with
    attributes := [.ofType (name ++ "id") .uniqueIdentifier, .ofType parent .lookup,
      .ofType (name ++ "name") .string] }

def linkedJoin (name parent : String) : Sql.Join :=
  ⟨.leftOuter, ⟨name, none, false⟩, .compare (.column (.inCollection name parent)) .eq
    (.column (.inCollection parent (parent ++ "id")))⟩

def firmSource : Sql.Source :=
  ⟨⟨"firm", none, false⟩,
    [linkedJoin "office" "firm", linkedJoin "person" "firm", linkedJoin "desk" "office"]⟩

def firmLookup : Lookup Unit := fun name =>
  pure (linkedTable name (if name = "desk" then "office" else "firm"))

def nameKey (table : String) (descending : Bool) : OrderKey :=
  ⟨.column (.ofName (table ++ "name")), descending⟩

def firmContext : Context where
  options := .standard
  scopes := [⟨"firm", linkedTable "firm" "firm", [], false⟩,
    ⟨"office", linkedTable "office" "firm", [0], true⟩,
    ⟨"person", linkedTable "person" "firm", [1], true⟩,
    ⟨"desk", linkedTable "desk" "office", [0, 0], true⟩]
  fetch :=
    let desk : Fetch.Link × Scope := (⟨"office", "officeid", "desk", true⟩, .ofTable "desk")
    let office : Fetch.Link × Scope :=
      (⟨"firm", "firmid", "office", true⟩, { Scope.ofTable "office" with links := [desk] })
    let person : Fetch.Link × Scope := (⟨"firm", "firmid", "person", true⟩, .ofTable "person")
    { Fetch.Query.ofTable "firm" with
      root := { Scope.ofTable "firm" with links := [office, person] } }

/-- The name of a target that is a column. -/
def targetKey (target : SortTarget × Bool) : SortKey :=
  ⟨((target.1.used.map firmContext.scopes.rowKey).head?).getD "", target.2⟩

theorem map_sortKey (native : List (Bound × Bool)) :
    native.map firmContext.scopes.sortKey = (native.map nativeTarget).map targetKey := by
  rw [List.map_map]
  rfl

/-- By firm, desk and person the platform sorts, but persons come before the desks of others. -/
theorem firm_orders :
    (contextOf firmLookup .standard firmSource).run () = .ok firmContext () ∧
    (exists ctx', applyOrderBy firmContext
        [nameKey "firm" false, nameKey "desk" true, nameKey "person" false] [] [] [] =
          .ok (ctx', []) ∧
      ctx'.fetch.sortOrder =
        [⟨"firmname", false⟩, ⟨"desk.deskname", true⟩, ⟨"person.personname", false⟩]) ∧
    exists ctx', applyOrderBy firmContext
        [nameKey "office" false, nameKey "person" false, nameKey "desk" true] [] [] [] =
          .ok (ctx', [.sort [⟨.column (.inCollection "office" "officename"), false⟩,
            ⟨.column (.inCollection "person" "personname"), false⟩,
            ⟨.column (.inCollection "desk" "deskname"), true⟩]]) ∧
      ctx'.fetch.sortOrder <+: [⟨"office.officename", false⟩, ⟨"person.personname", false⟩,
        ⟨"desk.deskname", true⟩] := by
  have hfrom : (contextOf firmLookup .standard firmSource).run () = .ok firmContext () := by
    rfl
  have hnative : exists ctx', applyOrderBy firmContext
      [nameKey "firm" false, nameKey "desk" true, nameKey "person" false] [] [] [] =
        .ok (ctx', []) := by
    exact ⟨_, rfl⟩
  have hlocal : exists ctx', applyOrderBy firmContext
      [nameKey "office" false, nameKey "person" false, nameKey "desk" true] [] [] [] =
        .ok (ctx', [.sort [⟨.column (.inCollection "office" "officename"), false⟩,
          ⟨.column (.inCollection "person" "personname"), false⟩,
          ⟨.column (.inCollection "desk" "deskname"), true⟩]]) := by
    exact ⟨_, rfl⟩
  refine ⟨hfrom, ?_, ?_⟩
  · rcases hnative with ⟨ctx', hnative⟩
    refine ⟨ctx', hnative, ?_⟩
    rcases order_by_keeps_keys hfrom hnative with
      ⟨targets, native, rest, htargets, hsplit, horder, ⟨rfl, _⟩ | ⟨_, hsteps⟩⟩
    · have hexpected : targets = [(.native ⟨0, "firmname"⟩, false), (.native ⟨3, "deskname"⟩, true),
          (.native ⟨2, "personname"⟩, false)] :=
        htargets.unique (.cons ⟨rfl, rfl⟩ (.cons ⟨rfl, rfl⟩ (.cons ⟨rfl, rfl⟩ .nil)))
      rw [List.append_nil, hexpected] at hsplit
      rw [horder, map_sortKey, <- hsplit]
      rfl
    · cases hsteps
  · rcases hlocal with ⟨ctx', hlocal⟩
    refine ⟨ctx', hlocal, ?_⟩
    rcases order_by_keeps_keys hfrom hlocal with
      ⟨targets, native, rest, htargets, hsplit, horder, ⟨rfl, hsteps⟩ | ⟨_, hsteps⟩⟩
    · cases hsteps
    · have hexpected : targets = [(.native ⟨1, "officename"⟩, false),
          (.native ⟨2, "personname"⟩, false), (.native ⟨3, "deskname"⟩, true)] :=
        htargets.unique (.cons ⟨rfl, rfl⟩ (.cons ⟨rfl, rfl⟩ (.cons ⟨rfl, rfl⟩ .nil)))
      rw [hexpected] at hsplit
      have hprefix : native.map nativeTarget <+: _ := ⟨rest, hsplit.symm⟩
      rw [horder, map_sortKey]
      exact hprefix.map targetKey

end Plan

end RecordSql
