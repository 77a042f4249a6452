import RecordSql.Fetch.Evaluate
import RecordSql.Plan.From
import RecordSql.Proofs.Binding
import RecordSql.Proofs.NativeForms
import RecordSql.Proofs.Outcome

/-!
# Changing a scope of a native query

The scopes of a native query form a tree, and planning changes them one by one.  A change at a path
leaves the places of all scopes alone, adds to the attributes and orders of the tree what it adds to
the scope, and does not change the joined rows unless it changes those of the scope.
-/

namespace RecordSql
namespace Fetch

namespace Scope

/-!
# Places
-/

/-- The scope at a path with the text in front of its names. -/
def place (front : String) : List Nat -> Scope -> Option (String × Scope)
  | [], s => some (front, s)
  | i :: path, s => s.links[i]?.bind fun (link, child) => place link.front path child

theorem getElem?_updateLink (f : Scope -> Scope) (links : List (Link × Scope)) (i j : Nat) :
    (updateLink f links i)[j]? =
      links[j]?.map fun (link, child) => (link, if j = i then f child else child) := by
  induction links generalizing i j with
  | nil =>
      rfl
  | cons entry rest ih =>
      cases i with
      | zero =>
          cases j with
          | zero =>
              rfl
          | succ j =>
              rw [updateLink, List.getElem?_cons_succ, List.getElem?_cons_succ]
              cases rest[j]? <;> rfl
      | succ i =>
          cases j with
          | zero =>
              rfl
          | succ j =>
              rw [updateLink, List.getElem?_cons_succ, List.getElem?_cons_succ, ih]
              simp only [Nat.add_right_cancel_iff]

/-- The change keeps all links of a scope with their positions, and asks for no more at once. -/
structure Extends (f : Scope -> Scope) : Prop where
  links : forall s, exists more, (f s).links = s.links ++ more
  all : forall s, (f s).allAttributes = s.allAttributes

/-- What a change and every change of links do to a scope is done to the scope at a path. -/
theorem place_update_of {r : Scope -> Scope -> Prop} {f : Scope -> Scope}
    (hlinks : forall s, exists more, (f s).links = s.links ++ more) (hf : forall s, r s (f s))
    (hr : forall s links, r s { s with links }) {front after : String} {path : List Nat}
    {s found : Scope} (h : s.place front path = some (after, found)) (other : List Nat) :
    exists found', (s.update f other).place front path = some (after, found') ∧ r found found' := by
  have hself : r found found := by
    cases found
    exact hr _ _
  induction path generalizing front s other with
  | nil =>
      cases h
      refine ⟨_, rfl, ?_⟩
      cases other with
      | nil =>
          exact hf _
      | cons j other =>
          exact hr _ _
  | cons i path ih =>
      rw [place, Option.bind_eq_some_iff] at h
      rcases h with ⟨⟨link, child⟩, hlink, hchild⟩
      cases other with
      | nil =>
          rcases hlinks s with ⟨more, hmore⟩
          refine ⟨found, ?_, hself⟩
          rw [update, place, hmore, List.getElem?_append_left (List.getElem?_eq_some_iff.mp hlink).1,
            hlink]
          exact hchild
      | cons j other =>
          rw [update, place, getElem?_updateLink, hlink, Option.map_some, Option.bind_some]
          simp only
          split
          · exact ih hchild other
          · exact ⟨found, hchild, hself⟩

theorem place_update {f : Scope -> Scope} (hf : Extends f) {front after : String}
    {path : List Nat} {s found : Scope} (h : s.place front path = some (after, found))
    (other : List Nat) : exists found', (s.update f other).place front path = some (after, found') ∧
      found'.allAttributes = found.allAttributes :=
  @place_update_of (fun s s' => s'.allAttributes = s.allAttributes) f hf.links hf.all
    (fun _ _ => rfl) _ _ _ _ _ h other

theorem place_update_self (f : Scope -> Scope) {front after : String} {path : List Nat}
    {s found : Scope} (h : s.place front path = some (after, found)) :
    (s.update f path).place front path = some (after, f found) := by
  induction path generalizing front s with
  | nil =>
      cases h
      rfl
  | cons i path ih =>
      rw [place, Option.bind_eq_some_iff] at h
      rcases h with ⟨⟨link, child⟩, hlink, hchild⟩
      rw [update, place, getElem?_updateLink, hlink, Option.map_some, Option.bind_some]
      simp only [if_true]
      exact ih hchild

theorem place_snoc {front after : String} {path : List Nat} {s found child : Scope} {link : Link}
    {i : Nat} (h : s.place front path = some (after, found))
    (hlink : found.links[i]? = some (link, child)) :
    s.place front (path ++ [i]) = some (link.front, child) := by
  induction path generalizing front s with
  | nil =>
      cases h
      rw [List.nil_append, place, hlink]
      rfl
  | cons j path ih =>
      rw [place, Option.bind_eq_some_iff] at h
      rcases h with ⟨entry, hentry, hchild⟩
      rw [List.cons_append, place, hentry]
      exact ih hchild

theorem at?_of_place {front after : String} {path : List Nat} {s found : Scope}
    (h : s.place front path = some (after, found)) : s.at? path = some found := by
  induction path generalizing front s with
  | nil =>
      cases h
      rw [at?]
  | cons i path ih =>
      rw [place, Option.bind_eq_some_iff] at h
      rcases h with ⟨⟨link, child⟩, hlink, hchild⟩
      rw [at?, hlink]
      exact ih hchild

/-!
# What the scopes of a tree hold together
-/

mutual

/-- What each scope holds, those of the root first. -/
def gather {β : Type} (held : String -> Scope -> List β) (front : String) : Scope -> List β
  | ⟨table, all, attributes, filters, links, orders⟩ =>
      held front ⟨table, all, attributes, filters, [], orders⟩ ++ gatherLinks held links

def gatherLinks {β : Type} (held : String -> Scope -> List β) : List (Link × Scope) -> List β
  | [] => []
  | (link, scope) :: rest => gather held link.front scope ++ gatherLinks held rest

end

variable {β : Type} {held : String -> Scope -> List β}

theorem gatherLinks_updateLink {f : Scope -> Scope} {links : List (Link × Scope)} {i : Nat}
    {link : Link} {child : Scope} (hlink : links[i]? = some (link, child)) {new : List β}
    (h : (gather held link.front (f child)).Perm (new ++ gather held link.front child)) :
    (gatherLinks held (updateLink f links i)).Perm (new ++ gatherLinks held links) := by
  induction links generalizing i with
  | nil =>
      cases hlink
  | cons entry rest ih =>
      rcases entry with ⟨l, c⟩
      cases i with
      | zero =>
          cases hlink
          rw [updateLink, gatherLinks, gatherLinks, <- List.append_assoc]
          exact h.append_right _
      | succ i =>
          rw [updateLink, gatherLinks, gatherLinks]
          refine ((ih hlink).append_left _).trans ?_
          rw [<- List.append_assoc, <- List.append_assoc]
          exact List.perm_append_comm.append_right _

theorem gather_update {f : Scope -> Scope} {front after : String} {path : List Nat}
    {s found : Scope} (hplace : s.place front path = some (after, found)) {new : List β}
    (h : (gather held after (f found)).Perm (new ++ gather held after found)) :
    (gather held front (s.update f path)).Perm (new ++ gather held front s) := by
  induction path generalizing front s with
  | nil =>
      cases hplace
      exact h
  | cons i path ih =>
      rw [place, Option.bind_eq_some_iff] at hplace
      rcases hplace with ⟨⟨link, child⟩, hlink, hchild⟩
      rcases s with ⟨table, all, attributes, filters, links, orders⟩
      rw [update, gather, gather]
      refine ((gatherLinks_updateLink hlink (ih hchild)).append_left _).trans ?_
      rw [<- List.append_assoc, <- List.append_assoc]
      exact List.perm_append_comm.append_right _

end Scope

/-!
# Attributes and orders
-/

def heldAttributes (front : String) (s : Scope) : List Placed :=
  s.attributes.map (⟨front, ·⟩)

mutual

theorem placedAttributes_eq (front : String) :
    forall s, placedAttributes front s = Scope.gather heldAttributes front s
  | ⟨_, _, _, _, links, _⟩ => by
      rw [placedAttributes, Scope.gather, linkedAttributes_eq links]
      rfl

theorem linkedAttributes_eq :
    forall links, linkedAttributes links = Scope.gatherLinks heldAttributes links
  | [] => by
      rw [linkedAttributes, Scope.gatherLinks]
  | (link, scope) :: rest => by
      rw [linkedAttributes, Scope.gatherLinks, placedAttributes_eq link.front scope,
        linkedAttributes_eq rest]

end

def heldKeys (aggregate : Bool) (attributes : List Placed) (front : String) (s : Scope) :
    List SortKey :=
  sortKeys aggregate attributes front s.orders

mutual

theorem scopeSortKeys_eq (aggregate : Bool) (attributes : List Placed) (front : String) :
    forall s, scopeSortKeys aggregate attributes front s =
      Scope.gather (heldKeys aggregate attributes) front s
  | ⟨_, _, _, _, links, _⟩ => by
      rw [scopeSortKeys, Scope.gather, linkedSortKeys_eq aggregate attributes links]
      rfl

theorem linkedSortKeys_eq (aggregate : Bool) (attributes : List Placed) :
    forall links, linkedSortKeys aggregate attributes links =
      Scope.gatherLinks (heldKeys aggregate attributes) links
  | [] => by
      rw [linkedSortKeys, Scope.gatherLinks]
  | (link, scope) :: rest => by
      rw [linkedSortKeys, Scope.gatherLinks,
        scopeSortKeys_eq aggregate attributes link.front scope,
        linkedSortKeys_eq aggregate attributes rest]

end

/-!
# Joined rows
-/

theorem joinLinks_updateLink {db : Database} {f : Scope -> Scope}
    (hf : forall front s, scopeRows db front (f s) = scopeRows db front s) (front : String)
    (links : List (Link × Scope)) (i : Nat) (rows : List Joined) :
    joinLinks db front (Scope.updateLink f links i) rows = joinLinks db front links rows := by
  induction links generalizing i rows with
  | nil =>
      rfl
  | cons entry rest ih =>
      rcases entry with ⟨link, child⟩
      cases i with
      | zero =>
          rw [Scope.updateLink, joinLinks, joinLinks, hf]
      | succ i =>
          rw [Scope.updateLink, joinLinks, joinLinks]
          refine congrArg _ ?_
          funext children
          exact ih i _

/-- A change that leaves the rows of any scope alone leaves those of the tree alone. -/
theorem scopeRows_update {db : Database} {f : Scope -> Scope}
    (hf : forall front s, scopeRows db front (f s) = scopeRows db front s) (front : String)
    (path : List Nat) (s : Scope) :
    scopeRows db front (s.update f path) = scopeRows db front s := by
  induction path generalizing front s with
  | nil =>
      exact hf front s
  | cons i path ih =>
      rcases s with ⟨table, all, attributes, filters, links, orders⟩
      rw [Scope.update, scopeRows, scopeRows]
      simp only [joinLinks_updateLink ih]

namespace Scope

/-!
# The changes that planning makes
-/

theorem extends_addAttribute (a : Attribute) : Extends (·.addAttribute a) :=
  ⟨fun s => ⟨[], (List.append_nil s.links).symm⟩, fun _ => rfl⟩

theorem extends_addFilter (f : Filter) : Extends (·.addFilter f) :=
  ⟨fun s => ⟨[], (List.append_nil s.links).symm⟩, fun _ => rfl⟩

theorem extends_addOrder (o : Order) : Extends (·.addOrder o) :=
  ⟨fun s => ⟨[], (List.append_nil s.links).symm⟩, fun _ => rfl⟩

theorem extends_addLink (link : Link) (child : Scope) : Extends (·.addLink link child) :=
  ⟨fun _ => ⟨[(link, child)], rfl⟩, fun _ => rfl⟩

theorem extends_ensure (name : String) : Extends (·.ensure name) := by
  constructor
  · intro s
    refine ⟨[], ?_⟩
    unfold ensure
    split <;> simp
  · intro s
    unfold ensure
    split <;> rfl

theorem scopeRows_addAttribute (db : Database) (a : Attribute) (front : String) (s : Scope) :
    scopeRows db front (s.addAttribute a) = scopeRows db front s := by
  rcases s with ⟨table, all, attributes, filters, links, orders⟩
  rw [addAttribute, scopeRows, scopeRows]

theorem scopeRows_addOrder (db : Database) (o : Order) (front : String) (s : Scope) :
    scopeRows db front (s.addOrder o) = scopeRows db front s := by
  rcases s with ⟨table, all, attributes, filters, links, orders⟩
  rw [addOrder, scopeRows, scopeRows]

theorem scopeRows_ensure (db : Database) (name front : String) (s : Scope) :
    scopeRows db front (s.ensure name) = scopeRows db front s := by
  unfold ensure
  split
  · rfl
  · exact scopeRows_addAttribute db (.ofName name) front s

variable {β : Type} {held : String -> Scope -> List β}

theorem gatherLinks_append (first second : List (Link × Scope)) :
    gatherLinks held (first ++ second) = gatherLinks held first ++ gatherLinks held second := by
  induction first with
  | nil =>
      rw [List.nil_append, gatherLinks, List.nil_append]
  | cons entry rest ih =>
      rw [List.cons_append, gatherLinks, gatherLinks, ih, List.append_assoc]

/-- A table that is linked without attributes and orders adds nothing. -/
theorem gather_addLink {link : Link} {table : String}
    (hnone : held link.front (ofTable table) = []) (front : String) (s : Scope) :
    gather held front (s.addLink link (.ofTable table)) = gather held front s := by
  have hchild : gather held link.front (ofTable table) = [] := by
    rw [ofTable, gather, gatherLinks, List.append_nil]
    exact hnone
  rcases s with ⟨name, all, attributes, filters, links, orders⟩
  rw [addLink, gather, gather, gatherLinks_append, gatherLinks, gatherLinks, hchild,
    List.append_nil, List.append_nil]

theorem gather_addFilter {filter : Filter} {front : String} {s : Scope}
    (hsame : forall s, held front (s.addFilter filter) = held front s) :
    gather held front (s.addFilter filter) = gather held front s := by
  rcases s with ⟨name, all, attributes, filters, links, orders⟩
  rw [addFilter, gather, gather]
  exact congrArg (· ++ _) (hsame ⟨name, all, attributes, filters, [], orders⟩)

end Scope

end Fetch

/-!
# Contexts

Every scope of a statement has its place in the native query.
-/

namespace Plan

open Fetch (Attribute Order Placed Scope heldAttributes heldKeys)

/-- The scopes know their places in the native query. -/
def Rooted (ctx : Context) : Prop :=
  forall i s, ctx.scopes[i]? = some s -> exists found,
    ctx.fetch.root.place "" s.path = some (ctx.scopes.front i, found) ∧
      found.allAttributes = false

/-- The native query returns nothing yet. -/
structure Bare (ctx : Context) : Prop where
  attributes : Scope.gather heldAttributes "" ctx.fetch.root = []
  orders : forall aggregate attributes,
    Scope.gather (heldKeys aggregate attributes) "" ctx.fetch.root = []
  distinct : ctx.fetch.distinct = false
  aggregate : ctx.fetch.aggregate = false

theorem Rooted.place {ctx : Context} (h : Rooted ctx) {i : Nat} (hi : i < ctx.scopes.length) :
    exists found, ctx.fetch.root.place "" (ctx.scopes.pathOf i) =
      some (ctx.scopes.front i, found) ∧ found.allAttributes = false := by
  have hs := List.getElem?_eq_getElem hi
  rw [Scopes.pathOf, hs, Option.map_some, Option.getD_some]
  exact h i _ hs

theorem Rooted.update {ctx : Context} (h : Rooted ctx) {f : Scope -> Scope}
    (hf : Scope.Extends f) (i : Nat) : Rooted (ctx.update i f) := by
  intro j s hs
  rcases h j s hs with ⟨found, hplace, hall⟩
  rcases Scope.place_update hf hplace (ctx.scopes.pathOf i) with ⟨found', hplace', hall'⟩
  exact ⟨found', hplace', hall'.trans hall⟩

theorem Scopes.front_append {scopes : Scopes} {i : Nat} (h : i < scopes.length) (more : Scopes) :
    Scopes.front (scopes ++ more) i = scopes.front i := by
  rw [front, front, List.getElem?_append_left h]

theorem Scopes.add_eq {scopes added : Scopes} {s : TableScope} (h : scopes.add s = .ok added) :
    added = scopes ++ [s] := by
  unfold Scopes.add at h
  split at h
  · cases h
  · cases h
    rfl

theorem Rooted.addLink {ctx linked : Context} (h : Rooted ctx) {link : LinkColumns}
    {scope : TableScope} (hprevious : link.previous.scope < ctx.scopes.length)
    (hlinked : addLink ctx link scope = .ok linked) : Rooted linked := by
  simp only [Plan.addLink, Outcome.bind_eq_ok] at hlinked
  rcases hlinked with ⟨scopes, hscopes, hlinked⟩
  cases hlinked
  rcases h.place hprevious with ⟨found, hplace, hall⟩
  have hposition : ((ctx.fetch.root.at? (ctx.scopes.pathOf link.previous.scope)).map
      (·.links.length)).getD 0 = found.links.length := by
    rw [Scope.at?_of_place hplace]
    rfl
  have hadded := Scopes.add_eq hscopes
  rw [hposition] at hadded
  subst hadded
  intro i s hs
  by_cases hi : i < ctx.scopes.length
  · have hold : ctx.scopes[i]? = some s := by
      rw [<- hs, List.getElem?_append_left hi]
    rcases (h.update (Scope.extends_addLink _ _) link.previous.scope) i s hold with
      ⟨found', hplace', hall'⟩
    refine ⟨found', ?_, hall'⟩
    rw [Scopes.front_append hi]
    exact hplace'
  · have hlast : i = ctx.scopes.length := by
      have hlt := (List.getElem?_eq_some_iff.mp hs).1
      rw [List.length_append, List.length_singleton] at hlt
      omega
    subst hlast
    rw [List.getElem?_append_right (Nat.le_refl _), Nat.sub_self] at hs
    cases hs
    have hparent := Scope.place_update_self (·.addLink ⟨link.new.name, link.previous.name,
      scope.aliasName, scope.outer⟩ (.ofTable scope.table.name)) hplace
    have hchild := Scope.place_snoc hparent List.getElem?_concat_length
    refine ⟨.ofTable scope.table.name, hchild.trans ?_, rfl⟩
    rw [Scopes.front, List.getElem?_append_right (Nat.le_refl _), Nat.sub_self]
    simp [TableScope.isRoot, Fetch.Link.front]

/-- A change that adds no attributes and orders leaves the native query bare. -/
theorem Bare.update {ctx : Context} (h : Bare ctx) (hrooted : Rooted ctx) {i : Nat}
    (hi : i < ctx.scopes.length) {f : Scope -> Scope}
    (hattributes : forall front s,
      Scope.gather heldAttributes front (f s) = Scope.gather heldAttributes front s)
    (horders : forall aggregate attributes front s,
      Scope.gather (heldKeys aggregate attributes) front (f s) =
        Scope.gather (heldKeys aggregate attributes) front s) : Bare (ctx.update i f) := by
  rcases hrooted.place hi with ⟨found, hplace, _⟩
  refine ⟨?_, ?_, h.distinct, h.aggregate⟩
  · have hperm := @Scope.gather_update _ _ f _ _ _ _ _ hplace [] (List.Perm.of_eq (hattributes _ _))
    rw [h.attributes] at hperm
    exact hperm.eq_nil
  · intro aggregate attributes
    have hperm := @Scope.gather_update _ _ f _ _ _ _ _ hplace []
      (List.Perm.of_eq (horders aggregate attributes _ _))
    rw [h.orders] at hperm
    exact hperm.eq_nil

theorem Bare.addFilter {ctx : Context} (h : Bare ctx) (hrooted : Rooted ctx) {i : Nat}
    (hi : i < ctx.scopes.length) (filter : Fetch.Filter) :
    Bare (ctx.update i (·.addFilter filter)) :=
  h.update hrooted hi (fun _ _ => Scope.gather_addFilter fun _ => rfl)
    (fun _ _ _ _ => Scope.gather_addFilter fun _ => rfl)

theorem Bare.addLink {ctx linked : Context} (h : Bare ctx) (hrooted : Rooted ctx)
    {link : LinkColumns} {scope : TableScope}
    (hprevious : link.previous.scope < ctx.scopes.length)
    (hlinked : addLink ctx link scope = .ok linked) : Bare linked := by
  simp only [Plan.addLink, Outcome.bind_eq_ok] at hlinked
  rcases hlinked with ⟨scopes, _, hlinked⟩
  cases hlinked
  have hupdated := @Bare.update ctx h hrooted _ hprevious
    (·.addLink ⟨link.new.name, link.previous.name, scope.aliasName, scope.outer⟩
      (.ofTable scope.table.name))
    (fun front s => Scope.gather_addLink rfl front s)
    (fun aggregate attributes front s => Scope.gather_addLink rfl front s)
  exact ⟨hupdated.attributes, hupdated.orders, hupdated.distinct, hupdated.aggregate⟩

/-!
# The context of a statement
-/

open Sql (Join Predicate)

theorem previous_lt {scopes : Scopes} {n : Nat} {p : Predicate} {link : LinkColumns}
    (hlength : scopes.length = n + 1) (h : linkColumns? scopes n p = .ok (some link)) :
    link.previous.scope < n := by
  unfold linkColumns? at h
  split at h
  · simp only [Outcome.bind_eq_ok] at h
    rcases h with ⟨l, hl, r, hr, h⟩
    have hllt := Scopes.resolve_lt hl
    have hrlt := Scopes.resolve_lt hr
    cases hln : l.scope == n with
    | true =>
        cases hrn : r.scope == n with
        | true =>
            rw [hln, hrn] at h
            cases h
        | false =>
            rw [hln, hrn] at h
            cases h
            have hne : r.scope ≠ n := by
              simpa using hrn
            change r.scope < n
            omega
    | false =>
        cases hrn : r.scope == n with
        | true =>
            rw [hln, hrn] at h
            cases h
            have hne : l.scope ≠ n := by
              simpa using hln
            change l.scope < n
            omega
        | false =>
            rw [hln, hrn] at h
            cases h
  · cases h

/-- A condition of a join makes its link, or is one on the new table. -/
theorem readOn_cons {scopes : Scopes} {n : Nat} {on on' : OnClause} {p : Predicate}
    {rest : List Predicate} (h : readOn scopes n on (p :: rest) = .ok on') :
    (exists link, linkColumns? scopes n p = .ok (some link) ∧
      readOn scopes n { on with link := some link } rest = .ok on') ∨
    readOn scopes n { on with confined := on.confined ++ [p] } rest = .ok on' := by
  have hconfined : forall next, (isConfined scopes n p >>= fun confined =>
      if confined then next else .error (asWhere p)) = .ok on' -> next = .ok on' := by
    intro next hnext
    rcases Outcome.bind_eq_ok.mp hnext with ⟨confined, _, hnext⟩
    cases confined with
    | false =>
        cases hnext
    | true =>
        exact hnext
  rw [readOn] at h
  split at h
  · rcases Outcome.bind_eq_ok.mp h with ⟨found, hfound, h⟩
    cases found with
    | some link =>
        exact Or.inl ⟨link, hfound, h⟩
    | none =>
        exact Or.inr (hconfined _ h)
  · exact Or.inr (hconfined _ h)

theorem readOn_link {scopes : Scopes} {n : Nat} (hlength : scopes.length = n + 1) {on on' : OnClause}
    {conditions : List Predicate} (h : readOn scopes n on conditions = .ok on')
    (hon : forall link, on.link = some link -> link.previous.scope < n) :
    forall link, on'.link = some link -> link.previous.scope < n := by
  induction conditions generalizing on with
  | nil =>
      cases h
      exact hon
  | cons p rest ih =>
      rcases readOn_cons h with ⟨link, hlink, h⟩ | h
      · refine ih h ?_
        intro link' hlink'
        cases hlink'
        exact previous_lt hlength hlink
      · exact ih h hon

/-- A context that is ready for the clauses after `FROM`. -/
structure Ready (ctx : Context) : Prop where
  rooted : Rooted ctx
  bare : Bare ctx
  nonempty : 0 < ctx.scopes.length

theorem Ready.addFilter {ctx : Context} (h : Ready ctx) {i : Nat} (hi : i < ctx.scopes.length)
    (filter : Fetch.Filter) : Ready (ctx.update i (·.addFilter filter)) :=
  ⟨h.rooted.update (Scope.extends_addFilter filter) i, h.bare.addFilter h.rooted hi filter,
    h.nonempty⟩

/-- A join links its table to an earlier one, and may filter it. -/
theorem addJoin_cases {ctx joined : Context} {join : Join} {outer : Bool} {table : TableDef}
    (h : addJoin ctx join outer table = .ok joined) :
    exists link linked, link.previous.scope < ctx.scopes.length ∧
      addLink ctx link (scopeOf join.table table [] outer) = .ok linked ∧
      (joined = linked ∨
        exists filter, joined = linked.update ctx.scopes.length (·.addFilter filter)) := by
  simp only [Plan.addJoin, Outcome.bind_eq_ok] at h
  rcases h with ⟨scopes, hscopes, on, hread, h⟩
  have hadded := Scopes.add_eq hscopes
  have hlink := readOn_link (by rw [hadded, List.length_append]; rfl) hread
    (fun link hlink => by cases hlink)
  cases hon : on.link with
  | none =>
      rw [hon] at h
      cases h
  | some link =>
      rw [hon] at h
      simp only [Outcome.bind_eq_ok] at h
      rcases h with ⟨linked, hlinked, h⟩
      refine ⟨link, linked, hlink link hon, hlinked, ?_⟩
      split at h
      · cases h
        exact Or.inl rfl
      · rcases Outcome.bind_eq_ok.mp h with ⟨items, _, h⟩
        cases h
        exact Or.inr ⟨_, rfl⟩

theorem addLink_scopes {ctx linked : Context} {link : LinkColumns} {scope : TableScope}
    (h : addLink ctx link scope = .ok linked) :
    exists position, ctx.scopes.add { scope with
        path := ctx.scopes.pathOf link.previous.scope ++ [position] } = .ok linked.scopes ∧
      linked.scopes = ctx.scopes ++ [{ scope with
        path := ctx.scopes.pathOf link.previous.scope ++ [position] }] ∧
      linked.fetch = (ctx.update link.previous.scope fun parent => parent.addLink
        ⟨link.new.name, link.previous.name, scope.aliasName, scope.outer⟩
          (.ofTable scope.table.name)).fetch := by
  simp only [Plan.addLink, Outcome.bind_eq_ok] at h
  rcases h with ⟨scopes, hscopes, h⟩
  cases h
  exact ⟨_, hscopes, Scopes.add_eq hscopes, rfl⟩

theorem Ready.addJoin {ctx joined : Context} (h : Ready ctx) {join : Join} {outer : Bool}
    {table : TableDef} (hjoined : addJoin ctx join outer table = .ok joined) : Ready joined := by
  rcases addJoin_cases hjoined with ⟨link, linked, hprevious, hlinked, hjoined⟩
  have hlength : ctx.scopes.length < linked.scopes.length := by
    rcases addLink_scopes hlinked with ⟨position, _, hscopes, _⟩
    rw [hscopes, List.length_append]
    exact Nat.lt_succ_self _
  have hready : Ready linked := ⟨h.rooted.addLink hprevious hlinked,
    h.bare.addLink h.rooted hprevious hlinked, Nat.lt_trans h.nonempty hlength⟩
  rcases hjoined with rfl | ⟨filter, rfl⟩
  · exact hready
  · exact hready.addFilter hlength filter

theorem ready_rootContext (options : Options) (source : Sql.Source) (table : TableDef) :
    Ready (rootContext options source table) := by
  refine ⟨?_, ⟨rfl, fun _ _ => rfl, rfl, rfl⟩, Nat.one_pos⟩
  intro i s hs
  match i, hs with
  | 0, rfl =>
      exact ⟨_, rfl, rfl⟩

/-!
# Joining tables

A `FROM` clause starts with the scope of its first table, and its joins are added one after the
other.  What holds of that scope and is kept by a join holds of the whole clause.
-/

section

variable {σ : Type} {lookup : Lookup σ} {options : Options} {source : Sql.Source} {w w' : σ}

theorem joinAll_cons {ctx joined : Context} {join : Join} {rest : List Join}
    (h : (joinAll lookup ctx (join :: rest)).run w = .ok joined w') :
    exists outer table next w₁, isOuterJoin join.kind = .ok outer ∧
      addJoin ctx join outer table = .ok next ∧
      (joinAll lookup next rest).run w₁ = .ok joined w' := by
  rw [joinAll] at h
  rcases Outcome.run_bind_eq_ok.mp h with ⟨outer, w₁, houter, h⟩
  rcases Outcome.run_bind_eq_ok.mp h with ⟨table, w₂, _, h⟩
  rcases Outcome.run_bind_eq_ok.mp h with ⟨next, w₃, hnext, h⟩
  exact ⟨outer, table, next, w₃, (Outcome.run_liftExcept_eq_ok.mp houter).1,
    (Outcome.run_liftExcept_eq_ok.mp hnext).1, h⟩

theorem joinAll_induction {p : Context -> Prop} {start joined : Context} {joins : List Join}
    (hstart : p start)
    (hjoin : forall join, join ∈ joins -> forall ctx outer table next, p ctx ->
      isOuterJoin join.kind = .ok outer -> addJoin ctx join outer table = .ok next -> p next)
    (h : (joinAll lookup start joins).run w = .ok joined w') : p joined := by
  induction joins generalizing start w with
  | nil =>
      cases h
      exact hstart
  | cons join rest ih =>
      rcases joinAll_cons h with ⟨outer, table, next, w₁, houter, hnext, h⟩
      exact ih (hjoin join List.mem_cons_self start outer table next hstart houter hnext)
        (fun other hother => hjoin other (List.mem_cons_of_mem _ hother)) h

theorem contextOf_eq_ok {ctx : Context}
    (h : (contextOf lookup options source).run w = .ok ctx w') :
    exists normal table w₁, normalizeRightJoin source = .ok normal ∧
      (definition lookup normal.table.name).run w = .ok table w₁ ∧
      (joinAll lookup (rootContext options normal table) normal.joins).run w₁ = .ok ctx w' := by
  rw [contextOf] at h
  rcases Outcome.run_bind_eq_ok.mp h with ⟨normal, w₁, hsource, hrest⟩
  rcases Outcome.run_liftExcept_eq_ok.mp hsource with ⟨hnormal, rfl⟩
  rcases Outcome.run_bind_eq_ok.mp hrest with ⟨table, w₂, htable, hjoins⟩
  exact ⟨normal, table, w₂, hnormal, htable, hjoins⟩

/-- The context of a `FROM` clause is ready for the clauses after it. -/
theorem ready_contextOf {ctx : Context}
    (h : (contextOf lookup options source).run w = .ok ctx w') : Ready ctx := by
  rcases contextOf_eq_ok h with ⟨normal, table, w₁, _, _, h⟩
  exact joinAll_induction (ready_rootContext options normal table)
    (fun _ _ _ _ _ _ hctx _ hnext => hctx.addJoin hnext) h

/-- What holds of the root and is kept by every join holds of a `FROM` clause. -/
theorem contextOf_induction {p : Context -> Prop}
    (hroot : forall source t, p (rootContext options source t))
    {ctx : Context} (h : (contextOf lookup options source).run w = .ok ctx w')
    (hjoin : forall normal, normalizeRightJoin source = .ok normal ->
      forall join, join ∈ normal.joins -> forall ctx outer table joined, Ready ctx -> p ctx ->
        isOuterJoin join.kind = .ok outer -> addJoin ctx join outer table = .ok joined ->
          p joined) : p ctx := by
  rcases contextOf_eq_ok h with ⟨normal, table, w₁, hnormal, _, h⟩
  refine (@joinAll_induction _ _ _ _ (fun ctx => Ready ctx ∧ p ctx) _ _ _
    ⟨ready_rootContext options normal table, hroot normal table⟩ ?_ h).2
  rintro join hmem ctx outer table next ⟨hready, hctx⟩ houter hnext
  exact ⟨hready.addJoin hnext,
    hjoin normal hnormal join hmem ctx outer table next hready hctx houter hnext⟩

/-- Without a right join a clause is planned as it stands. -/
theorem normalizeRightJoin_eq_self
    (h : forall join, join ∈ source.joins -> join.kind ≠ .rightOuter) :
    normalizeRightJoin source = .ok source := by
  have hany : (source.joins.drop 1).any (·.kind == .rightOuter) = false := by
    rw [List.any_eq_false]
    intro join hjoin
    simpa using h join (List.mem_of_mem_drop hjoin)
  rw [normalizeRightJoin, hany, if_neg Bool.false_ne_true]
  split
  · rename_i hjoins
    exact absurd rfl (h _ (hjoins ▸ List.mem_cons_self))
  · rfl

end

theorem Ready.attachAll {ctx : Context} (h : Ready ctx) (found : List Native) :
    Ready (ctx.attachAll found) := by
  have hall : forall (indices : List Nat) (start : Context), Ready start ->
      (forall i, i ∈ indices -> i < start.scopes.length) ->
      Ready (indices.foldl (fun ctx scope => ctx.attach found scope) start) := by
    intro indices
    induction indices with
    | nil =>
        intro start hstart _
        exact hstart
    | cons i rest ih =>
        intro start hstart hindices
        refine ih _ (hstart.addFilter (hindices i List.mem_cons_self) _) ?_
        intro j hj
        exact hindices j (List.mem_cons_of_mem _ hj)
  refine hall _ ctx h ?_
  intro i hi
  exact List.mem_range.mp (List.mem_of_mem_filter hi)

theorem Ready.applyWhere {ctx ctx' : Context} (h : Ready ctx) {clock : Clock}
    {criteria : Option Predicate} {residual : Residual}
    (hwhere : ctx.applyWhere clock criteria = .ok (ctx', residual)) : Ready ctx' := by
  cases criteria with
  | none =>
      cases hwhere
      exact h
  | some p =>
      rcases Context.applyWhere_some hwhere with ⟨split, _, rfl, _⟩
      exact h.attachAll split.native

end Plan
end RecordSql
