import RecordSql.Plan.From
import RecordSql.Proofs.Join.Rows
import RecordSql.Proofs.ScopeTree

/-!
# The tree of a FROM clause

Each joined table is linked below the table that its condition names.  The tree that comes about
this way has every table once, below the table that it is joined to.
-/

namespace RecordSql
namespace Join

open Fetch (Link Scope)

/-!
# Places in a forest
-/

namespace Forest

/-- A further table below the place of a path. -/
def insert (new : Nat) : List Nat -> Forest -> Forest
  | [], nil => cons new nil nil
  | [], cons n below rest => cons n below (insert new [] rest)
  | 0 :: path, cons n below rest => cons n (insert new path below) rest
  | (i + 1) :: path, cons n below rest => cons n below (insert new (i :: path) rest)
  | _ :: _, nil => nil

/-- The tables below the place of a path. -/
def below? : List Nat -> Forest -> Option Forest
  | [], F => some F
  | 0 :: path, cons _ below _ => below? path below
  | (i + 1) :: path, cons _ _ rest => below? (i :: path) rest
  | _ :: _, nil => none

/-- The table at the place of a path; the empty path is the place of no table of the forest. -/
def table? : List Nat -> Forest -> Option Nat
  | 0 :: i :: path, cons _ below _ => table? (i :: path) below
  | [0], cons n _ _ => some n
  | (i + 1) :: path, cons _ _ rest => table? (i :: path) rest
  | _, _ => none

def width : Forest -> Nat
  | nil => 0
  | cons _ _ rest => rest.width + 1

theorem below?_nil (F : Forest) : F.below? [] = some F := by
  cases F <;> rfl

theorem below?_of_table? {F : Forest} {path : List Nat} {n : Nat} (h : F.table? path = some n) :
    exists G, F.below? path = some G := by
  induction F generalizing path with
  | nil =>
      simp [table?] at h
  | cons m below rest ihbelow ihrest =>
      match path with
      | [] =>
          simp [table?] at h
      | [0] =>
          exact ⟨below, below?_nil below⟩
      | 0 :: i :: path =>
          exact ihbelow h
      | (i + 1) :: path =>
          exact ihrest h

theorem table?_insert {F : Forest} {path place : List Nat} {new n : Nat}
    (h : F.table? place = some n) : (F.insert new path).table? place = some n := by
  induction F generalizing path place with
  | nil =>
      simp [table?] at h
  | cons m below rest ihbelow ihrest =>
      match place with
      | [] =>
          simp [table?] at h
      | [0] =>
          match path with
          | [] => exact h
          | 0 :: path => exact h
          | (k + 1) :: path => exact h
      | 0 :: i :: place =>
          match path with
          | [] => exact h
          | 0 :: path => exact ihbelow h
          | (k + 1) :: path => exact h
      | (i + 1) :: place =>
          match path with
          | [] => exact ihrest h
          | 0 :: path => exact h
          | (k + 1) :: path => exact ihrest h

theorem table?_insert_self {F G : Forest} {path : List Nat} {new : Nat}
    (h : F.below? path = some G) :
    (F.insert new path).table? (path ++ [G.width]) = some new := by
  induction F generalizing path G with
  | nil =>
      match path with
      | [] =>
          cases h
          rfl
      | i :: path =>
          simp [below?] at h
  | cons m below rest ihbelow ihrest =>
      match path with
      | [] =>
          cases h
          exact ihrest (below?_nil rest)
      | [0] =>
          exact @ihbelow G [] h
      | 0 :: i :: path =>
          exact @ihbelow G (i :: path) h
      | (i + 1) :: path =>
          exact @ihrest G (i :: path) h

theorem tables_insert {F G : Forest} {path : List Nat} {new : Nat} (h : F.below? path = some G) :
    (F.insert new path).tables.Perm (new :: F.tables) := by
  induction F generalizing path G with
  | nil =>
      match path with
      | [] =>
          exact List.Perm.refl _
      | i :: path =>
          simp [below?] at h
  | cons m below rest ihbelow ihrest =>
      have hrest : forall H place, rest.below? place = some H ->
          (m :: (below.tables ++ (rest.insert new place).tables)).Perm
            (new :: m :: (below.tables ++ rest.tables)) := by
        intro H place hplace
        refine (List.Perm.cons m ((ihrest hplace).append_left below.tables)).trans ?_
        refine (List.Perm.cons m List.perm_middle).trans ?_
        exact List.Perm.swap new m _
      match path with
      | [] =>
          exact hrest rest [] (below?_nil rest)
      | 0 :: path =>
          refine (List.Perm.cons m ((@ihbelow G path h).append_right rest.tables)).trans ?_
          exact List.Perm.swap new m _
      | (i + 1) :: path =>
          exact hrest G (i :: path) h

end Forest

/-!
# Linking a table
-/

namespace Chain

variable {c : Chain}

theorem length_links (F : Forest) : (c.links F).length = F.width := by
  induction F with
  | nil =>
      rfl
  | cons n below rest _ ihrest =>
      rw [links, List.length_cons, ihrest, Forest.width]

theorem links_congr {d : Chain} {F : Forest}
    (h : forall n, n ∈ F.tables -> c.link n = d.link n ∧ c.table n = d.table n) :
    c.links F = d.links F := by
  induction F with
  | nil =>
      rfl
  | cons n below rest ihbelow ihrest =>
      have hn := h n (by simp [Forest.tables])
      rw [links, links, hn.1, hn.2, ihbelow fun m hm => h m (by simp [Forest.tables, hm]),
        ihrest fun m hm => h m (by simp [Forest.tables, hm])]

theorem links_insert_nil (F : Forest) (new : Nat) :
    c.links (F.insert new []) = c.links F ++ [(c.link new, .ofTable (c.table new))] := by
  induction F with
  | nil =>
      rfl
  | cons n below rest _ ihrest =>
      rw [Forest.insert, links, ihrest]
      rfl

theorem update_scope (F : Forest) (table : String) (new : Nat) (path : List Nat) :
    Scope.update (·.addLink (c.link new) (.ofTable (c.table new))) path
        ⟨table, false, [], [], c.links F, []⟩ =
      ⟨table, false, [], [], c.links (F.insert new path), []⟩ := by
  induction F generalizing table path with
  | nil =>
      cases path with
      | nil =>
          rfl
      | cons i path =>
          simp [Scope.update, links, Scope.updateLink, Forest.insert]
  | cons n below rest ihbelow ihrest =>
      cases path with
      | nil =>
          rw [links_insert_nil]
          rfl
      | cons i path =>
          cases i with
          | zero =>
              rw [Scope.update, Forest.insert, links, links, Scope.updateLink, ihbelow]
          | succ i =>
              have hrest := congrArg Scope.links (ihrest table (i :: path))
              rw [Scope.update, Forest.insert, links, links, Scope.updateLink]
              rw [Scope.update] at hrest
              simp only at hrest ⊢
              rw [hrest]

theorem at?_scope (F : Forest) (table : String) (path : List Nat) :
    ((⟨table, false, [], [], c.links F, []⟩ : Scope).at? path).map (·.links.length) =
      (F.below? path).map Forest.width := by
  induction F generalizing table path with
  | nil =>
      cases path with
      | nil =>
          rfl
      | cons i path =>
          simp [Scope.at?, links, Forest.below?]
  | cons n below rest ihbelow ihrest =>
      cases path with
      | nil =>
          rw [Scope.at?, Forest.below?_nil, Option.map_some, Option.map_some, length_links]
      | cons i path =>
          cases i with
          | zero =>
              exact ihbelow (c.table n) path
          | succ i =>
              exact ihrest table (i :: path)

end Chain

/-!
# The chain of a FROM clause

The condition of each join equates a column of its table with one of an earlier table.  Its columns
are bound among the tables up to its own.
-/

open Plan (Bound Context LinkColumns Scopes TableScope linkColumns?)

def jointOf (scopes : Scopes) (n : Nat) (join : Sql.Join) : Option Joint :=
  match scopes[n]?, linkColumns? (scopes.take (n + 1)) n join.on with
  | some s, .ok (some link) =>
      some ⟨s.table.name, s.aliasName, join.kind == .leftOuter, link.previous, link.new.name⟩
  | _, _ => none

def jointsOf (scopes : Scopes) : Nat -> List Sql.Join -> Option (List Joint)
  | _, [] => some []
  | n, join :: rest => do
      let j <- jointOf scopes n join
      let more <- jointsOf scopes (n + 1) rest
      some (j :: more)

/-- The tables of a FROM clause with their bound join conditions. -/
def chainOf (scopes : Scopes) (joins : List Sql.Join) : Option Chain := do
  let s <- scopes.head?
  let joints <- jointsOf scopes 1 joins
  some ⟨s.table.name, joints⟩

/-!
# The native query under construction
-/

/-- The native query is the tree of the tables so far, and their scopes know their places in it. -/
structure Built (ctx : Context) (c : Chain) (F : Forest) : Prop where
  root : ctx.fetch.root = c.scope F
  spans : c.Spans F
  length : ctx.scopes.length = c.joints.length + 1
  first : exists s, ctx.scopes[0]? = some s ∧ s.path = [] ∧ s.table.name = c.root
  joined : forall n j, c.joint? n = some j -> exists s, ctx.scopes[n]? = some s ∧
    s.table.name = j.table ∧ s.aliasName = j.aliasName ∧ s.outer = j.outer ∧
    F.table? s.path = some n

namespace Chain

variable {c : Chain}

def snoc (c : Chain) (j : Joint) : Chain :=
  ⟨c.root, c.joints ++ [j]⟩

theorem joint?_snoc_of_le {n : Nat} (h : n ≤ c.joints.length) (j : Joint) :
    (c.snoc j).joint? n = c.joint? n := by
  cases n with
  | zero =>
      rfl
  | succ k =>
      exact List.getElem?_append_left h

theorem joint?_snoc_self (j : Joint) : (c.snoc j).joint? (c.joints.length + 1) = some j := by
  change (c.joints ++ [j])[c.joints.length]? = some j
  simp

theorem joint?_lt {n : Nat} {j : Joint} (h : c.joint? n = some j) : n ≤ c.joints.length := by
  cases n with
  | zero =>
      exact Nat.zero_le _
  | succ k =>
      exact (List.getElem?_eq_some_iff.mp h).1

theorem joint?_snoc {n : Nat} {i j : Joint} (h : (c.snoc j).joint? n = some i) :
    c.joint? n = some i ∨ n = c.joints.length + 1 ∧ i = j := by
  by_cases hn : n ≤ c.joints.length
  · rw [joint?_snoc_of_le hn] at h
    exact Or.inl h
  · have hle := joint?_lt h
    have hlength : (c.snoc j).joints.length = c.joints.length + 1 := by
      simp [snoc]
    have hself : n = c.joints.length + 1 := by omega
    subst hself
    rw [joint?_snoc_self] at h
    cases h
    exact Or.inr ⟨rfl, rfl⟩

theorem fits_congr {d : Chain} {F : Forest} {p : Nat}
    (h : forall n, n ∈ F.tables -> c.joint? n = d.joint? n) (hfits : c.Fits p F) : d.Fits p F := by
  induction F generalizing p with
  | nil =>
      exact trivial
  | cons n below rest ihbelow ihrest =>
      rcases hfits with ⟨hn, hbelow, hrest⟩
      rw [h n (by simp [Forest.tables])] at hn
      exact ⟨hn, ihbelow (fun m hm => h m (by simp [Forest.tables, hm])) hbelow,
        ihrest (fun m hm => h m (by simp [Forest.tables, hm])) hrest⟩

/-- A table fits below the one that it is joined to. -/
theorem fits_insert {F : Forest} {p q new : Nat} {path : List Nat} {j : Joint}
    (hfits : c.Fits p F) (hnew : c.joint? new = some j) (hq : j.earlier.scope = q)
    (hpath : path = [] ∧ q = p ∨ F.table? path = some q) : c.Fits p (F.insert new path) := by
  induction F generalizing p path with
  | nil =>
      match path with
      | [] =>
          rcases hpath with ⟨_, rfl⟩ | hpath
          · exact ⟨⟨j, hnew, hq⟩, trivial, trivial⟩
          · simp [Forest.table?] at hpath
      | i :: path =>
          simp [Forest.insert, Fits]
  | cons n below rest ihbelow ihrest =>
      rcases hfits with ⟨hn, hbelow, hrest⟩
      match path with
      | [] =>
          rcases hpath with ⟨_, hqp⟩ | hpath
          · exact ⟨hn, hbelow, ihrest hrest (Or.inl ⟨rfl, hqp⟩)⟩
          · simp [Forest.table?] at hpath
      | [0] =>
          have hqn : q = n := by
            rcases hpath with ⟨hnil, _⟩ | hpath
            · cases hnil
            · exact (Option.some.inj hpath).symm
          exact ⟨hn, ihbelow hbelow (Or.inl ⟨rfl, hqn⟩), hrest⟩
      | 0 :: i :: path =>
          rcases hpath with ⟨hnil, _⟩ | hpath
          · cases hnil
          · exact ⟨hn, ihbelow hbelow (Or.inr hpath), hrest⟩
      | (i + 1) :: path =>
          rcases hpath with ⟨hnil, _⟩ | hpath
          · cases hnil
          · exact ⟨hn, hbelow, ihrest hrest (Or.inr hpath)⟩

end Chain

/-- The table that a scope is linked below has a place in the tree. -/
theorem Built.place {ctx : Context} {c : Chain} {F : Forest} (h : Built ctx c F) {p : Nat}
    (hp : p ≤ c.joints.length) :
    ctx.scopes.pathOf p = [] ∧ p = 0 ∨ F.table? (ctx.scopes.pathOf p) = some p := by
  cases p with
  | zero =>
      rcases h.first with ⟨s, hs, hpath, _⟩
      exact Or.inl ⟨by rw [Scopes.pathOf, hs, Option.map_some, Option.getD_some, hpath], rfl⟩
  | succ k =>
      have hk : c.joint? (k + 1) = some c.joints[k] := List.getElem?_eq_getElem hp
      rcases h.joined (k + 1) _ hk with ⟨s, hs, _, _, _, hplace⟩
      exact Or.inr (by rw [Scopes.pathOf, hs, Option.map_some, Option.getD_some, hplace])

section

variable {ctx linked : Context} {c : Chain} {F G : Forest} {path : List Nat}

/-- The place below which a table is linked. -/
theorem Built.below (h : Built ctx c F) {p : Nat} (hp : p ≤ c.joints.length) :
    exists G, F.below? (ctx.scopes.pathOf p) = some G := by
  rcases h.place hp with ⟨hnil, _⟩ | htable
  · exact ⟨F, by rw [hnil, Forest.below?_nil]⟩
  · exact Forest.below?_of_table? htable

theorem Chain.Spans.links_snoc (h : c.Spans F) (j : Joint) : c.links F = (c.snoc j).links F := by
  refine Chain.links_congr ?_
  intro n hn
  unfold Chain.link Chain.table
  rw [Chain.joint?_snoc_of_le (h.le hn) j]
  exact ⟨rfl, rfl⟩

/-- The tree of one more table. -/
theorem Chain.Spans.snoc (h : c.Spans F) {j : Joint} (hj : j.earlier.scope ≤ c.joints.length)
    (hG : F.below? path = some G)
    (hpath : path = [] ∧ j.earlier.scope = 0 ∨ F.table? path = some j.earlier.scope) :
    (c.snoc j).Spans (F.insert (c.joints.length + 1) path) where
  fits := by
    refine Chain.fits_insert (Chain.fits_congr ?_ h.fits) (Chain.joint?_snoc_self j) rfl hpath
    intro n hn
    exact (Chain.joint?_snoc_of_le (h.le hn) j).symm
  tables := by
    refine (Forest.tables_insert hG).trans ?_
    rw [show (c.snoc j).joints.length = c.joints.length + 1 by simp [Chain.snoc],
      List.range'_1_concat, Nat.add_comm 1 c.joints.length]
    refine (List.Perm.cons _ h.tables).trans ?_
    exact (List.perm_append_singleton _ _).symm
  earlier := by
    intro n i hi
    rcases Chain.joint?_snoc hi with hi | ⟨rfl, rfl⟩
    · exact h.earlier n i hi
    · exact Nat.lt_succ_of_le hj

/-- Linking a scope to an earlier one makes the tree of one more table. -/
theorem Built.addLink (h : Built ctx c F) {link : LinkColumns} {scope : TableScope}
    (hprevious : link.previous.scope ≤ c.joints.length)
    (hlinked : Plan.addLink ctx link scope = .ok linked) :
    exists path G, linked.scopes = ctx.scopes ++ [{ scope with path }] ∧
      Built linked (c.snoc ⟨scope.table.name, scope.aliasName, scope.outer, link.previous,
        link.new.name⟩) G := by
  let j : Joint := ⟨scope.table.name, scope.aliasName, scope.outer, link.previous, link.new.name⟩
  let path := ctx.scopes.pathOf link.previous.scope
  have hplace := h.place hprevious
  rcases h.below hprevious with ⟨G, hG⟩
  have hnew : (c.snoc j).joint? (c.joints.length + 1) = some j := Chain.joint?_snoc_self j
  have hnewlink : (c.snoc j).link (c.joints.length + 1) =
      ⟨link.new.name, link.previous.name, scope.aliasName, scope.outer⟩ := by
    rw [Chain.link, hnew]
    rfl
  have hroot : ctx.fetch.root = (c.snoc j).scope F := by
    rw [h.root, Chain.scope, Chain.scope, h.spans.links_snoc j]
    rfl
  have hposition : ((ctx.fetch.root.at? path).map (·.links.length)).getD 0 = G.width := by
    rw [hroot, Chain.scope, Chain.at?_scope, hG]
    rfl
  simp only [Plan.addLink, Outcome.bind_eq_ok] at hlinked
  rcases hlinked with ⟨scopes, hscopes, hlinked⟩
  cases hlinked
  have hadded := Scopes.add_eq hscopes
  rw [hposition] at hadded
  refine ⟨path ++ [G.width], F.insert (c.joints.length + 1) path, hadded, ?_,
    h.spans.snoc hprevious hG hplace, ?_, ?_, ?_⟩
  · have hupdate := @Chain.update_scope (c.snoc j) F c.root (c.joints.length + 1) path
    rw [hnewlink, Chain.table_of_joint hnew] at hupdate
    change Scope.update _ path ctx.fetch.root = (c.snoc j).scope _
    rw [hroot]
    exact hupdate
  · change scopes.length = (c.joints ++ [j]).length + 1
    rw [hadded, List.length_append, List.length_append, h.length]
    rfl
  · rcases h.first with ⟨s, hs, hpath, hname⟩
    refine ⟨s, ?_, hpath, hname⟩
    change scopes[0]? = some s
    rw [hadded, List.getElem?_append_left (by rw [h.length]; omega), hs]
  · intro n i hi
    change exists s, scopes[n]? = some s ∧ _
    rcases Chain.joint?_snoc hi with hi | ⟨rfl, rfl⟩
    · rcases h.joined n i hi with ⟨s, hs, htable, halias, houter, hplace⟩
      have hn : n < ctx.scopes.length := (List.getElem?_eq_some_iff.mp hs).1
      refine ⟨s, ?_, htable, halias, houter, Forest.table?_insert hplace⟩
      rw [hadded, List.getElem?_append_left hn, hs]
    · refine ⟨{ scope with path := path ++ [G.width] }, ?_, rfl, rfl, rfl,
        Forest.table?_insert_self hG⟩
      rw [hadded, <- h.length, List.getElem?_append_right (Nat.le_refl _), Nat.sub_self]
      rfl

end

/-!
# Join conditions
-/

open Plan (addJoin contextOf isConfined joinAll previous_lt readOn rootContext scopeOf)
open Sql (Column Predicate)

/-- The condition equates two columns. -/
def Equates (p : Predicate) : Prop :=
  exists l r : Column, p = .compare (.column l) .eq (.column r)

theorem linkColumns?_congr {a b : Scopes} (h : a.unplaced = b.unplaced) (n : Nat) (p : Predicate) :
    linkColumns? a n p = linkColumns? b n p := by
  unfold linkColumns?
  split
  · rw [Scopes.resolve_congr h, Scopes.resolve_congr h]
  · rfl

/-- A join on an equality succeeds only by linking its table. -/
theorem addJoin_eq {ctx joined : Context} {join : Sql.Join} {outer : Bool} {table : TableDef}
    (hon : Equates join.on) (h : addJoin ctx join outer table = .ok joined) :
    exists link, linkColumns? (ctx.scopes ++ [scopeOf join.table table [] outer])
        ctx.scopes.length join.on = .ok (some link) ∧
      Plan.addLink ctx link (scopeOf join.table table [] outer) = .ok joined := by
  rcases hon with ⟨l, r, hon⟩
  have hconjuncts : join.on.conjuncts = [join.on] := by
    rw [hon, Predicate.conjuncts]
    intro items hitems
    cases hitems
  simp only [addJoin, Outcome.bind_eq_ok, hconjuncts] at h
  rcases h with ⟨scopes, hscopes, on, hread, h⟩
  rw [Scopes.add_eq hscopes] at hread
  simp only [readOn, Option.isNone_none, if_true, Outcome.bind_eq_ok] at hread
  rcases hread with ⟨found, hfound, hread⟩
  cases found with
  | some link =>
      cases hread
      simp only [List.isEmpty_nil, if_true, Outcome.bind_eq_ok] at h
      rcases h with ⟨linked, hlinked, h⟩
      cases h
      exact ⟨link, hfound, hlinked⟩
  | none =>
      simp only [Outcome.bind_eq_ok] at hread
      rcases hread with ⟨confined, _, hread⟩
      cases confined with
      | false =>
          cases hread
      | true =>
          cases hread
          cases h

theorem Built.addJoin {ctx joined : Context} {c : Chain} {F : Forest} (h : Built ctx c F)
    {join : Sql.Join} {table : TableDef} (hon : Equates join.on)
    (hjoined : addJoin ctx join (join.kind == .leftOuter) table = .ok joined) :
    exists s j G, joined.scopes = ctx.scopes ++ [s] ∧
      jointOf joined.scopes ctx.scopes.length join = some j ∧ Built joined (c.snoc j) G := by
  rcases addJoin_eq hon hjoined with ⟨link, hlink, hlinked⟩
  have hprevious : link.previous.scope < ctx.scopes.length := by
    refine previous_lt ?_ hlink
    simp
  rw [h.length] at hprevious
  rcases h.addLink (Nat.le_of_lt_succ hprevious) hlinked with ⟨path, G, hscopes, hbuilt⟩
  refine ⟨_, _, G, hscopes, ?_, hbuilt⟩
  have hunplaced : Scopes.unplaced (joined.scopes.take (ctx.scopes.length + 1)) =
      Scopes.unplaced (ctx.scopes ++ [scopeOf join.table table [] (join.kind == .leftOuter)]) := by
    rw [hscopes, List.take_of_length_le (by simp)]
    simp [Scopes.unplaced]
  have hlast : joined.scopes[ctx.scopes.length]? =
      some { scopeOf join.table table [] (join.kind == .leftOuter) with path } := by
    rw [hscopes, List.getElem?_append_right (Nat.le_refl _), Nat.sub_self]
    rfl
  rw [jointOf, hlast, linkColumns?_congr hunplaced, hlink]
  rfl

/-- Further scopes do not change how an earlier join is bound. -/
theorem jointOf_append {scopes : Scopes} {n : Nat} (hn : n < scopes.length) (more : Scopes)
    (join : Sql.Join) : jointOf (scopes ++ more) n join = jointOf scopes n join := by
  unfold jointOf
  rw [List.getElem?_append_left hn, List.take_append_of_le_length (by omega)]

theorem Built.joinAll {σ : Type} {lookup : Lookup σ} {ctx joined : Context} {c : Chain} {F : Forest}
    (h : Built ctx c F) {joins : List Sql.Join} {w w' : σ}
    (hkinds : forall join, join ∈ joins -> join.kind = .inner ∨ join.kind = .leftOuter)
    (hon : forall join, join ∈ joins -> Equates join.on)
    (hjoined : (joinAll lookup ctx joins).run w = .ok joined w') :
    exists more js G, joined.scopes = ctx.scopes ++ more ∧
      jointsOf joined.scopes ctx.scopes.length joins = some js ∧
      Built joined ⟨c.root, c.joints ++ js⟩ G := by
  induction joins generalizing ctx c F w with
  | nil =>
      cases hjoined
      refine ⟨[], [], F, by simp, rfl, ?_⟩
      rw [List.append_nil]
      exact h
  | cons join rest ih =>
      rcases Plan.joinAll_cons hjoined with ⟨outer, table, next, w₁, houter, hnext, hrest⟩
      have hkind : outer = (join.kind == .leftOuter) := by
        rcases hkinds join (List.mem_cons_self ..) with hkind | hkind
        · rw [hkind] at houter ⊢
          cases houter
          rfl
        · rw [hkind] at houter ⊢
          cases houter
          rfl
      subst hkind
      rcases h.addJoin (hon join (List.mem_cons_self ..)) hnext with
        ⟨s, j, G, hscopes, hjoint, hbuilt⟩
      rcases ih hbuilt (fun i hi => hkinds i (List.mem_cons_of_mem _ hi))
        (fun i hi => hon i (List.mem_cons_of_mem _ hi)) hrest with
        ⟨more, js, G', hmore, hjs, hfinal⟩
      refine ⟨s :: more, j :: js, G', ?_, ?_, ?_⟩
      · rw [hmore, hscopes, List.append_assoc]
        rfl
      · have hlength : next.scopes.length = ctx.scopes.length + 1 := by
          rw [hscopes]
          simp
        have hfirst : jointOf joined.scopes ctx.scopes.length join = some j := by
          rw [hmore, jointOf_append (by omega), hjoint]
        rw [hlength] at hjs
        rw [jointsOf, hfirst]
        change (jointsOf joined.scopes (ctx.scopes.length + 1) rest).bind _ = _
        rw [hjs]
        rfl
      · rw [Chain.snoc, List.append_assoc] at hfinal
        exact hfinal

theorem built_rootContext (options : Plan.Options) (source : Sql.Source) (table : TableDef) :
    Built (rootContext options source table) ⟨table.name, []⟩ .nil where
  root := rfl
  spans := ⟨trivial, List.Perm.refl _, fun n j hj => by cases n <;> simp [Chain.joint?] at hj⟩
  length := rfl
  first := ⟨_, rfl, rfl, rfl⟩
  joined := fun n j hj => by cases n <;> simp [Chain.joint?] at hj

/-- The native query of a FROM clause is the tree of its chain of joins. -/
theorem built_contextOf {σ : Type} {lookup : Lookup σ} {options : Plan.Options}
    {source : Sql.Source} {ctx : Context} {w w' : σ}
    (hkinds : forall join, join ∈ source.joins -> join.kind = .inner ∨ join.kind = .leftOuter)
    (hon : forall join, join ∈ source.joins -> Equates join.on)
    (h : (contextOf lookup options source).run w = .ok ctx w') :
    exists c F, chainOf ctx.scopes source.joins = some c ∧ Built ctx c F := by
  have hsame : Plan.normalizeRightJoin source = .ok source := by
    refine Plan.normalizeRightJoin_eq_self fun join hjoin hright => ?_
    rcases hkinds join hjoin with hkind | hkind
    · cases hkind.symm.trans hright
    · cases hkind.symm.trans hright
  rcases Plan.contextOf_eq_ok h with ⟨normal, table, w₁, hnormal, _, h⟩
  cases hnormal.symm.trans hsame
  rcases (built_rootContext options source table).joinAll hkinds hon h with
    ⟨more, js, G, hscopes, hjs, hbuilt⟩
  refine ⟨⟨table.name, js⟩, G, ?_, hbuilt⟩
  have hhead : ctx.scopes.head? = some (scopeOf source.table table [] false) := by
    rw [hscopes]
    rfl
  rw [chainOf, hhead]
  change (jointsOf ctx.scopes 1 source.joins).bind _ = _
  rw [show jointsOf ctx.scopes 1 source.joins = some js from hjs]
  rfl

end Join
end RecordSql
