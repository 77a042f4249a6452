import RecordSql.Proofs.ScopeTree

/-!
# What a native query retrieves

Planning adds attributes and orders to the scopes of a native query one after the other.  Together
they are what the query returns and sorts by, and the rows that it joins stay the same.
-/

namespace RecordSql
namespace Fetch

namespace Scope

/-!
# One addition
-/

theorem gather_addAttribute (front : String) (s : Scope) (a : Attribute) :
    (gather heldAttributes front (s.addAttribute a)).Perm
      ([⟨front, a⟩] ++ gather heldAttributes front s) := by
  rcases s with ⟨table, all, attributes, filters, links, orders⟩
  rw [addAttribute, gather, gather, heldAttributes, heldAttributes, List.map_append,
    <- List.append_assoc]
  exact List.perm_append_comm.append_right _

theorem gather_addOrder {β : Type} {held : String -> Scope -> List β} {o : Order} {front : String}
    (hsame : forall s, held front (s.addOrder o) = held front s) (s : Scope) :
    gather held front (s.addOrder o) = gather held front s := by
  rcases s with ⟨table, all, attributes, filters, links, orders⟩
  rw [addOrder, gather, gather]
  exact congrArg (· ++ _) (hsame ⟨table, all, attributes, filters, [], orders⟩)

/-- An order by a column of a scope is one by the name of that column in rows. -/
theorem gather_addOrder_byColumn (aggregate : Bool) (attributes : List Placed) (front : String)
    (s : Scope) (name : String) (descending : Bool) :
    (gather (heldKeys aggregate attributes) front (s.addOrder (.byColumn name descending))).Perm
      ([⟨front ++ name, descending⟩] ++ gather (heldKeys aggregate attributes) front s) := by
  rcases s with ⟨table, all, placed, filters, links, orders⟩
  rw [addOrder, gather, gather, heldKeys, heldKeys, sortKeys, sortKeys, List.filterMap_append,
    <- List.append_assoc]
  exact List.perm_append_comm.append_right _

/-- A column that is returned does not change what a tree sorts by. -/
theorem gather_ensure (aggregate : Bool) (attributes : List Placed) (front name : String)
    (s : Scope) : gather (heldKeys aggregate attributes) front (s.ensure name) =
      gather (heldKeys aggregate attributes) front s := by
  rcases s with ⟨table, all, placed, filters, links, orders⟩
  unfold ensure
  split
  · rfl
  · rw [gather, gather]
    rfl

theorem mem_gather_self {front : String} {s : Scope} {a : Attribute} (h : a ∈ s.attributes) :
    ⟨front, a⟩ ∈ gather heldAttributes front s := by
  rcases s with ⟨table, all, attributes, filters, links, orders⟩
  rw [gather]
  exact List.mem_append_left _ (List.mem_map_of_mem h)

theorem gather_subset_gatherLinks {β : Type} {held : String -> Scope -> List β}
    {links : List (Link × Scope)} {link : Link} {child : Scope} (h : (link, child) ∈ links) :
    gather held link.front child ⊆ gatherLinks held links := by
  induction links with
  | nil =>
      cases h
  | cons entry rest ih =>
      rw [gatherLinks]
      rcases List.mem_cons.mp h with heq | hrest
      · cases heq
        exact List.subset_append_left _ _
      · exact List.Subset.trans (ih hrest) (List.subset_append_right _ _)

/-- What the scope at a place holds is held by the tree. -/
theorem gather_subset_of_place {β : Type} {held : String -> Scope -> List β} {front after : String}
    {path : List Nat} {s found : Scope} (h : s.place front path = some (after, found)) :
    gather held after found ⊆ gather held front s := by
  induction path generalizing front s with
  | nil =>
      cases h
      exact List.Subset.refl _
  | cons i path ih =>
      rw [place, Option.bind_eq_some_iff] at h
      rcases h with ⟨⟨link, child⟩, hlink, hchild⟩
      rcases s with ⟨table, all, attributes, filters, links, orders⟩
      have hlinks := @gather_subset_gatherLinks _ held _ _ _ (List.mem_of_getElem? hlink)
      rw [gather]
      exact List.Subset.trans (ih hchild)
        (List.Subset.trans hlinks (List.subset_append_right _ _))

end Scope

end Fetch

namespace Plan

open Fetch (Attribute Database Order Placed Scope heldAttributes heldKeys scopeRows)

/-!
# Many additions
-/

section

variable {β γ : Type} (scope : β -> Nat) (change : β -> Scope -> Scope)

/-- The context after changes of its scopes, each to the scope that it is about. -/
def Context.updateAll (ctx : Context) (changes : List β) : Context :=
  changes.foldl (fun ctx b => ctx.update (scope b) (change b)) ctx

theorem updateAll_scopes (ctx : Context) (changes : List β) :
    (ctx.updateAll scope change changes).scopes = ctx.scopes := by
  induction changes generalizing ctx with
  | nil =>
      rfl
  | cons b rest ih =>
      exact ih (ctx.update (scope b) (change b))

theorem updateAll_fetch (ctx : Context) (changes : List β) :
    (ctx.updateAll scope change changes).fetch =
      { ctx.fetch with root := (ctx.updateAll scope change changes).fetch.root } := by
  induction changes generalizing ctx with
  | nil =>
      rfl
  | cons b rest ih =>
      exact ih (ctx.update (scope b) (change b))

variable {scope change}

theorem Rooted.updateAll {ctx : Context} (h : Rooted ctx)
    (hchange : forall b, Scope.Extends (change b)) (changes : List β) :
    Rooted (ctx.updateAll scope change changes) := by
  induction changes generalizing ctx with
  | nil =>
      exact h
  | cons b rest ih =>
      exact ih (h.update (hchange b) (scope b))

theorem scopeRows_updateAll {db : Database}
    (hchange : forall b front s, scopeRows db front (change b s) = scopeRows db front s)
    (ctx : Context) (changes : List β) :
    scopeRows db "" (ctx.updateAll scope change changes).fetch.root =
      scopeRows db "" ctx.fetch.root := by
  induction changes generalizing ctx with
  | nil =>
      rfl
  | cons b rest ih =>
      exact (ih (ctx.update (scope b) (change b))).trans
        (Fetch.scopeRows_update (hchange b) "" (ctx.scopes.pathOf (scope b)) ctx.fetch.root)

/-- The tree holds in the end what it held at first and what the changes add. -/
theorem Rooted.gather_updateAll {ctx : Context} (h : Rooted ctx)
    (hchange : forall b, Scope.Extends (change b)) {held : String -> Scope -> List γ}
    {new : β -> String -> List γ}
    (hnew : forall b front s, (Scope.gather held front (change b s)).Perm
      (new b front ++ Scope.gather held front s))
    {changes : List β} (hscopes : forall b, b ∈ changes -> scope b < ctx.scopes.length) :
    (Scope.gather held "" (ctx.updateAll scope change changes).fetch.root).Perm
      (changes.flatMap (fun b => new b (ctx.scopes.front (scope b))) ++
        Scope.gather held "" ctx.fetch.root) := by
  induction changes generalizing ctx with
  | nil =>
      exact List.Perm.refl _
  | cons b rest ih =>
      rcases h.place (hscopes b List.mem_cons_self) with ⟨found, hplace, _⟩
      have hfirst := Scope.gather_update hplace (hnew b (ctx.scopes.front (scope b)) found)
      have hrest := ih (h.update (hchange b) (scope b))
        fun c hc => hscopes c (List.mem_cons_of_mem _ hc)
      refine (hrest.trans (hfirst.append_left _)).trans ?_
      rw [List.flatMap_cons, <- List.append_assoc]
      exact List.perm_append_comm.append_right _

end

/-!
# Attributes under their own names

A column that is made part of the retrieved rows is returned under the name that rows have for it.
-/

/-- What the native query of a context returns. -/
def Context.placed (ctx : Context) : List Placed :=
  Scope.gather heldAttributes "" ctx.fetch.root

/-- A value is returned under a name of rows. -/
def Returns (ctx : Context) (key : String) : Prop :=
  exists p, p ∈ ctx.placed ∧ p.key = key

/-- Nothing is returned under an alias. -/
def Unnamed (ctx : Context) : Prop :=
  forall p, p ∈ ctx.placed -> p.attr.aliasName = none

theorem Ready.unnamed {ctx : Context} (h : Ready ctx) : Unnamed ctx := by
  intro p hp
  rw [Context.placed, h.bare.attributes] at hp
  cases hp

theorem placed_ensure {ctx : Context} (h : Rooted ctx) {b : Bound}
    (hb : b.scope < ctx.scopes.length) :
    (forall p, p ∈ (ctx.ensure b).placed -> p ∈ ctx.placed ∨ p.attr = .ofName b.name) ∧
      ctx.placed ⊆ (ctx.ensure b).placed ∧ Returns (ctx.ensure b) (ctx.scopes.rowKey b) := by
  rcases h.place hb with ⟨found, hplace, hall⟩
  rw [Scopes.rowKey_eq]
  by_cases hany : found.attributes.any (fun a => a.name == b.name && a.isPlain) = true
  · have hsame : found.ensure b.name = found := by
      rw [Scope.ensure, hany, Bool.or_true, if_pos rfl]
    have hperm := @Scope.gather_update _ heldAttributes (·.ensure b.name) _ _ _ _ _ hplace []
      (by rw [hsame]; exact List.Perm.refl _)
    refine ⟨fun p hp => Or.inl (hperm.mem_iff.mp hp), fun p hp => hperm.mem_iff.mpr hp, ?_⟩
    rcases List.any_eq_true.mp hany with ⟨a, ha, hname⟩
    rw [Bool.and_eq_true, beq_iff_eq] at hname
    refine ⟨⟨_, a⟩, hperm.mem_iff.mpr
      (Scope.gather_subset_of_place hplace (Scope.mem_gather_self ha)), ?_⟩
    rw [Placed.key, hname.1]
  · have hadded : found.ensure b.name = found.addAttribute (.ofName b.name) := by
      rw [Scope.ensure, if_neg]
      · rfl
      · rw [hall, Bool.false_or]
        exact hany
    have hperm := @Scope.gather_update _ heldAttributes (·.ensure b.name) _ _ _ _ _ hplace _
      (by rw [hadded]; exact Scope.gather_addAttribute _ found (.ofName b.name))
    refine ⟨?_, fun p hp => hperm.mem_iff.mpr (List.mem_append_right _ hp), ?_⟩
    · intro p hp
      rcases List.mem_append.mp (hperm.mem_iff.mp hp) with hnew | hold
      · rw [List.mem_singleton.mp hnew]
        exact Or.inr rfl
      · exact Or.inl hold
    · exact ⟨_, hperm.mem_iff.mpr (List.mem_append_left _ (List.mem_singleton_self _)), rfl⟩

theorem placed_ensureAll {ctx : Context} (h : Rooted ctx) (hunnamed : Unnamed ctx)
    {columns : List Bound} (hcolumns : forall b, b ∈ columns -> b.scope < ctx.scopes.length) :
    Unnamed (ctx.ensureAll columns) ∧ ctx.placed ⊆ (ctx.ensureAll columns).placed ∧
      forall b, b ∈ columns -> Returns (ctx.ensureAll columns) (ctx.scopes.rowKey b) := by
  induction columns generalizing ctx with
  | nil =>
      refine ⟨hunnamed, List.Subset.refl _, ?_⟩
      intro b hb
      cases hb
  | cons first rest ih =>
      rcases placed_ensure h (hcolumns first List.mem_cons_self) with ⟨hnew, hold, hreturns⟩
      have hfirst : Unnamed (ctx.ensure first) := by
        intro p hp
        rcases hnew p hp with hp | hname
        · exact hunnamed p hp
        · rw [hname]
          rfl
      rcases ih (h.update (Scope.extends_ensure first.name) first.scope) hfirst
        fun b hb => hcolumns b (List.mem_cons_of_mem _ hb) with ⟨hall, hkept, hrest⟩
      refine ⟨hall, List.Subset.trans hold hkept, ?_⟩
      intro b hb
      rcases List.mem_cons.mp hb with rfl | hb
      · rcases hreturns with ⟨p, hp, hkey⟩
        exact ⟨p, hkept hp, hkey⟩
      · exact hrest b hb

end Plan

/-!
# Projected rows
-/

theorem Dict.get?_insertAll_of_forall {α : Type} {value : String -> α}
    {entries : List (String × α)} (h : forall entry, entry ∈ entries -> entry.2 = value entry.1)
    {name : String} {d : Dict α}
    (hname : name ∈ entries.map (·.1) ∨ d.get? name = some (value name)) :
    (d.insertAll entries).get? name = some (value name) := by
  induction entries generalizing d with
  | nil =>
      rcases hname with hname | hname
      · cases hname
      · exact hname
  | cons entry rest ih =>
      refine @ih (fun other hother => h other (List.mem_cons_of_mem _ hother))
        (d.insert entry.1 entry.2) ?_
      rw [Dict.get?_insert]
      by_cases heq : name = entry.1
      · rw [if_pos heq, h entry List.mem_cons_self, heq]
        exact Or.inr rfl
      · rw [if_neg heq]
        rcases hname with hname | hname
        · rcases List.mem_cons.mp hname with hfirst | hrest
          · exact absurd hfirst heq
          · exact Or.inl hrest
        · exact Or.inr hname

namespace Fetch

mutual

theorem mem_wholeScopes {row : Joined} {front : String} {entry : String × Value} :
    forall s, entry ∈ wholeScopes row front s -> entry.2 = row.get entry.1
  | ⟨_, all, _, _, links, _⟩ => by
      intro h
      rw [wholeScopes] at h
      rcases List.mem_append.mp h with h | h
      · cases all with
        | false =>
            cases h
        | true =>
            have hentry : entry ∈ row.values.entries := List.mem_of_mem_filter h
            rw [Joined.get, (Dict.get?_eq_some_iff row.values).mpr hentry]
            rfl
      · exact mem_wholeLinked links h

theorem mem_wholeLinked {row : Joined} {entry : String × Value} :
    forall links, entry ∈ wholeLinked row links -> entry.2 = row.get entry.1
  | [] => by
      intro h
      rw [wholeLinked] at h
      cases h
  | (link, scope) :: rest => by
      intro h
      rw [wholeLinked] at h
      rcases List.mem_append.mp h with h | h
      · exact mem_wholeScopes scope h
      · exact mem_wholeLinked rest h

end

/-- A projected row reads like the row itself where a value is returned. -/
theorem get_project {root : Scope} {attributes : List Placed}
    (hunnamed : forall p, p ∈ attributes -> p.attr.aliasName = none) {key : String}
    (hkey : exists p, p ∈ attributes ∧ p.key = key) (row : Joined) :
    (project root attributes row).get key = row.get key := by
  have houtput : forall p, p ∈ attributes -> p.output = p.key := by
    intro p hp
    rw [Placed.output, hunnamed p hp]
    rfl
  rw [Record.get, project]
  simp only [Dict.ofList]
  rw [@Dict.get?_insertAll_of_forall _ row.get]
  · rfl
  · intro entry hentry
    rcases List.mem_append.mp hentry with hentry | hentry
    · exact mem_wholeScopes root hentry
    · rcases List.mem_map.mp hentry with ⟨p, hp, rfl⟩
      rw [houtput p hp]
  · rcases hkey with ⟨p, hp, rfl⟩
    refine Or.inl ?_
    rw [List.map_append, List.map_map]
    refine List.mem_append_right _ (List.mem_map.mpr ⟨p, hp, ?_⟩)
    exact houtput p hp

end Fetch
end RecordSql
