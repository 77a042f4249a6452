import RecordSql.Proofs.Stored

/-!
# The tables of a context

The tree of a `FROM` clause reads the tables of its scopes, each of them once.  The aliases of the
scopes differ, so that the text in front of the names of a scope tells it from the others.
-/

namespace RecordSql
namespace Plan

open Fetch (Scope)
open Sql (Join)

/-- The text in front of the names of a scope. -/
def TableScope.front (s : TableScope) : String :=
  if s.isRoot then "" else s.aliasName ++ "."

theorem Scopes.front_eq {scopes : Scopes} {i : Nat} {s : TableScope}
    (h : scopes[i]? = some s) : scopes.front i = s.front := by
  rw [Scopes.front, h]
  rfl

structure Tabled (ctx : Context) : Prop where
  tables : (ctx.fetch.root.tables "").Perm (ctx.scopes.map fun s => (s.front, s.table.name))
  fronts : (ctx.scopes.map TableScope.front).Nodup

theorem Tabled.nodup {ctx : Context} (h : Tabled ctx) :
    ((ctx.fetch.root.tables "").map (·.1)).Nodup := by
  have hfronts : (ctx.scopes.map fun s => (s.front, s.table.name)).map (·.1) =
      ctx.scopes.map TableScope.front := by
    rw [List.map_map]
    rfl
  refine (h.tables.map (·.1)).nodup_iff.mpr ?_
  rw [hfronts]
  exact h.fronts

/-- The text in front of its names tells a scope. -/
theorem Tabled.eq_of_front {ctx : Context} (h : Tabled ctx) {i j : Nat} {s t : TableScope}
    (hs : ctx.scopes[i]? = some s) (ht : ctx.scopes[j]? = some t) (heq : s.front = t.front) :
    i = j := by
  rcases List.getElem?_eq_some_iff.mp hs with ⟨hi, _⟩
  refine (List.getElem?_inj (by rwa [List.length_map]) h.fronts).mp ?_
  rw [List.getElem?_map, List.getElem?_map, hs, ht]
  exact congrArg some heq

theorem tables_update {f : Scope -> Scope} {front after : String} {path : List Nat}
    {s found : Scope} (hplace : s.place front path = some (after, found))
    {new : List (String × String)}
    (h : ((f found).tables after).Perm (new ++ found.tables after)) :
    ((s.update f path).tables front).Perm (new ++ s.tables front) :=
  Scope.gather_update hplace h

theorem tables_addFilter {ctx : Context} (hrooted : Rooted ctx) {i : Nat}
    (hi : i < ctx.scopes.length) (filter : Fetch.Filter) :
    ((ctx.update i (·.addFilter filter)).fetch.root.tables "").Perm
      (ctx.fetch.root.tables "") := by
  rcases hrooted.place hi with ⟨found, hplace, _⟩
  exact @tables_update (·.addFilter filter) _ _ _ _ _ hplace []
    (List.Perm.of_eq (Scope.gather_addFilter fun _ => rfl))

theorem Tabled.addFilter {ctx : Context} (h : Tabled ctx) (hrooted : Rooted ctx) {i : Nat}
    (hi : i < ctx.scopes.length) (filter : Fetch.Filter) :
    Tabled (ctx.update i (·.addFilter filter)) :=
  ⟨(tables_addFilter hrooted hi filter).trans h.tables, h.fronts⟩

/-- A scope with a new alias has a new text in front of its names. -/
theorem front_not_mem {scopes added : Scopes} {s : TableScope} (hpath : s.isRoot = false)
    (h : scopes.add s = .ok added) : s.front ∉ scopes.map TableScope.front := by
  intro hmem
  rcases List.mem_map.mp hmem with ⟨t, ht, heq⟩
  rw [TableScope.front, TableScope.front, hpath] at heq
  have hsame : (Scopes.findAlias scopes s.aliasName).isSome = true := by
    rw [Scopes.findAlias, List.findIdx?_isSome, List.any_eq_true]
    refine ⟨t, ht, ?_⟩
    cases hroot : t.isRoot with
    | true =>
        rw [hroot] at heq
        have hlength : ("" : String).length = (s.aliasName ++ ".").length :=
          congrArg String.length heq
        rw [String.length_append] at hlength
        exact absurd hlength (Nat.succ_ne_zero _).symm
    | false =>
        rw [hroot] at heq
        have halias : t.aliasName = s.aliasName := (String.append_left_inj ".").mp heq
        rw [halias]
        exact Text.sameName_refl _
  rw [Scopes.add, if_pos hsame] at h
  cases h

theorem tables_addLink (link : Fetch.Link) (table front : String) (s : Scope) :
    ((s.addLink link (.ofTable table)).tables front).Perm
      ([(link.front, table)] ++ s.tables front) := by
  rcases s with ⟨name, all, attributes, filters, links, orders⟩
  have hone : Scope.gather (fun front s => [(front, s.table)]) link.front (.ofTable table) =
      [(link.front, table)] := rfl
  rw [Scope.tables, Scope.tables, Scope.addLink, Scope.gather, Scope.gather,
    Scope.gatherLinks_append, Scope.gatherLinks, Scope.gatherLinks, hone, List.append_nil,
    <- List.append_assoc]
  exact List.perm_append_comm

theorem Tabled.addLink {ctx linked : Context} (h : Tabled ctx) (hrooted : Rooted ctx)
    {link : LinkColumns} {scope : TableScope}
    (hprevious : link.previous.scope < ctx.scopes.length)
    (hlinked : addLink ctx link scope = .ok linked) : Tabled linked := by
  rcases addLink_scopes hlinked with ⟨position, hadd, hscopes, hfetch⟩
  have hroot : ({ scope with
      path := ctx.scopes.pathOf link.previous.scope ++ [position] } : TableScope).isRoot = false := by
    simp [TableScope.isRoot]
  have hfront : ({ scope with
      path := ctx.scopes.pathOf link.previous.scope ++ [position] } : TableScope).front =
      scope.aliasName ++ "." := by
    rw [TableScope.front, hroot]
    rfl
  rcases hrooted.place hprevious with ⟨found, hplace, _⟩
  constructor
  · rw [hfetch, hscopes, List.map_append]
    refine (tables_update hplace (tables_addLink _ _ _ found)).trans ?_
    refine List.perm_append_comm.trans (h.tables.append (List.Perm.of_eq ?_))
    rw [List.map_singleton, hfront]
    rfl
  · rw [hscopes, List.map_append, List.map_singleton]
    refine List.nodup_append.mpr ⟨h.fronts, List.pairwise_singleton _ _, ?_⟩
    intro a ha b hb
    rw [List.mem_singleton] at hb
    subst hb
    exact fun heq => front_not_mem hroot hadd (heq ▸ ha)

theorem Tabled.addJoin {ctx joined : Context} (h : Tabled ctx) (hready : Ready ctx) {join : Join}
    {outer : Bool} {table : TableDef} (hjoined : addJoin ctx join outer table = .ok joined) :
    Tabled joined := by
  rcases addJoin_cases hjoined with ⟨link, linked, hprevious, hlinked, hjoined⟩
  have htabled := h.addLink hready.rooted hprevious hlinked
  rcases hjoined with rfl | ⟨filter, rfl⟩
  · exact htabled
  · rcases addLink_scopes hlinked with ⟨position, _, hscopes, _⟩
    refine htabled.addFilter (hready.rooted.addLink hprevious hlinked) ?_ filter
    rw [hscopes, List.length_append]
    exact Nat.lt_succ_self _

/-- The tree of a `FROM` clause reads the tables of its scopes. -/
theorem tabled_contextOf {σ : Type} {lookup : Lookup σ} {options : Options} {source : Sql.Source}
    {ctx : Context} {w w' : σ} (h : (contextOf lookup options source).run w = .ok ctx w') :
    Tabled ctx :=
  contextOf_induction (fun _ _ => ⟨List.Perm.refl _, List.pairwise_singleton _ _⟩) h
    fun _ _ _ _ _ _ _ _ hready hctx _ hnext => hctx.addJoin hready hnext

/-!
# Names without dots

The text in front of a name is empty or ends with a dot, and can be read off if the name has none.
-/

theorem eq_of_dotless_append {x y c : List Char} (hy : y = [] ∨ exists z, y = z ++ ['.'])
    (h : y = x ++ c) (hdot : '.' ∉ c) : x = y := by
  rcases List.eq_nil_or_concat c with rfl | ⟨front, last, rfl⟩
  · rw [h, List.append_nil]
  · rcases hy with rfl | ⟨z, rfl⟩
    · exact (List.append_eq_nil_iff.mp h.symm).1
    · rw [List.concat_eq_append, <- List.append_assoc] at h
      have hlast : ['.'] = [last] := (List.append_inj' h rfl).2
      cases hlast
      rw [List.concat_eq_append] at hdot
      exact absurd (List.mem_append_right front (List.mem_singleton_self _)) hdot

theorem toList_front (s : TableScope) :
    s.front.toList = [] ∨ exists z, s.front.toList = z ++ ['.'] := by
  rw [TableScope.front]
  split
  · exact Or.inl rfl
  · exact Or.inr ⟨s.aliasName.toList, String.toList_append⟩

theorem front_eq_of_key_eq {s t : TableScope} {a b : String} (ha : a.toList.contains '.' = false)
    (hb : b.toList.contains '.' = false) (h : s.front ++ a = t.front ++ b) : s.front = t.front := by
  have hlists := congrArg String.toList h
  rw [String.toList_append, String.toList_append] at hlists
  refine String.toList_inj.mp ?_
  rcases List.append_eq_append_iff.mp hlists with ⟨c, hfront, hname⟩ | ⟨c, hfront, hname⟩
  · refine eq_of_dotless_append (toList_front t) hfront fun hc => ?_
    have hmem : a.toList.contains '.' = true :=
      List.contains_iff_mem.mpr (hname ▸ List.mem_append_left _ hc)
    rw [ha] at hmem
    cases hmem
  · refine (eq_of_dotless_append (toList_front s) hfront fun hc => ?_).symm
    have hmem : b.toList.contains '.' = true :=
      List.contains_iff_mem.mpr (hname ▸ List.mem_append_left _ hc)
    rw [hb] at hmem
    cases hmem

end Plan
end RecordSql
