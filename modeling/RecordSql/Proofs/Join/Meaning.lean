import RecordSql.Proofs.Join.Tree

/-!
# What a FROM clause means

The tables of a FROM clause are joined from left to right: an inner join drops every row without a
match, an outer join keeps it without a record.  The native query joins a tree instead.  It returns
the same rows and, besides, rows that lack a record of an inner join; such rows come about only if
an inner join is made to a table of an outer one.
-/

namespace RecordSql
namespace Join

open Fetch (Database scopeRows)
open Plan (Context contextOf)

section

variable {ctx : Context} {c : Chain} {F : Forest}

theorem Built.known (h : Built ctx c F) {tables : String -> Option (List Record)}
    (hknown : forall s, s ∈ ctx.scopes -> exists records, tables s.table.name = some records) :
    forall n, n ≤ c.joints.length -> exists records, tables (c.table n) = some records := by
  intro n hn
  cases n with
  | zero =>
      rcases h.first with ⟨s, hs, _, hname⟩
      rw [show c.table 0 = c.root from rfl, <- hname]
      exact hknown s (List.mem_of_getElem? hs)
  | succ k =>
      have hk : c.joint? (k + 1) = some c.joints[k] := List.getElem?_eq_getElem hn
      rcases h.joined (k + 1) _ hk with ⟨s, hs, htable, _⟩
      rw [Chain.table_of_joint hk, <- htable]
      exact hknown s (List.mem_of_getElem? hs)

end

theorem perm_filter_iff {α : Type} {items kept : List α} {p : α -> Bool}
    (h : kept.Perm (items.filter p)) :
    items.Perm kept <-> forall a, a ∈ items -> p a = true := by
  constructor
  · intro hitems
    have hlength : (items.filter p).length = items.length := (hitems.trans h).length_eq.symm
    exact List.length_filter_eq_length_iff.mp hlength
  · intro hall
    rw [List.filter_eq_self.mpr hall] at h
    exact h.symm

/--
The native query returns the joined rows exactly if none of its rows lacks a record of an inner
join, and so always if no inner join is made to a table of an outer one.
-/
theorem linked_rows_perm_iff {σ : Type} {lookup : Lookup σ} {options : Plan.Options}
    {source : Sql.Source} {ctx : Context} {w w' : σ} {db : Database}
    (hkinds : forall join, join ∈ source.joins -> join.kind = .inner ∨ join.kind = .leftOuter)
    (hon : forall join, join ∈ source.joins -> Equates join.on)
    (hctx : (contextOf lookup options source).run w = .ok ctx w')
    (hknown : forall s, s ∈ ctx.scopes -> exists records, db.tables s.table.name = some records)
    (hseparate : forall c, chainOf ctx.scopes source.joins = some c -> c.Separate db.tables) :
    exists c rows combinations joined,
      chainOf ctx.scopes source.joins = some c ∧
      scopeRows db "" ctx.fetch.root = .ok rows ∧
      List.Forall₂ c.Shows rows combinations ∧
      c.rows db.tables = some joined ∧
      joined.Perm (combinations.filter c.isComplete) ∧
      (combinations.Perm joined <->
        forall row, row ∈ combinations -> c.isComplete row = true) ∧
      (c.InnerOnInner -> combinations.Perm joined) := by
  rcases built_contextOf hkinds hon hctx with ⟨c, F, hchain, hbuilt⟩
  have htables := hbuilt.known hknown
  rcases Chain.scopeRows_scope hbuilt.spans (hseparate c hchain) htables with ⟨rows, hrows, hshows⟩
  have hperm := Chain.treeCombinations_perm hbuilt.spans db.tables
  refine ⟨c, rows, _, _, hchain, ?_, hshows, Chain.rows_eq htables, hperm,
    perm_filter_iff hperm, ?_⟩
  · rw [hbuilt.root]
    exact hrows
  · intro hinner
    refine (perm_filter_iff hperm).mpr ?_
    intro row hrow
    exact Chain.isComplete_of_innerOnInner hbuilt.spans hinner hrow

/-!
# An inner join below an outer one

A parcel has no depot, and so no town.  Joined from left to right it is dropped for want of a town;
the native query keeps it.
-/

def textTable (name : String) (names : List String) : TableDef :=
  { TableDef.ofKey name "id" with attributes := names.map fun n => .ofType n .string }

def parcelTables : Lookup Unit
  | "parcel" => pure (textTable "parcel" ["depot"])
  | "depot" => pure (textTable "depot" ["name", "town"])
  | name => pure (textTable name ["name"])

/-- `parcel LEFT JOIN depot AS d ON d.name = parcel.depot INNER JOIN town AS t ON t.name = d.town` -/
def parcelSource : Sql.Source :=
  let equation (a b c d : String) : Sql.Predicate :=
    .compare (.column (.inCollection a b)) .eq (.column (.inCollection c d))
  ⟨⟨"parcel", none, false⟩,
    [⟨.leftOuter, ⟨"depot", some "d", false⟩, equation "d" "name" "parcel" "depot"⟩,
      ⟨.inner, ⟨"town", some "t", false⟩, equation "t" "name" "d" "town"⟩]⟩

def parcelChain : Chain :=
  ⟨"parcel", [⟨"depot", "d", true, ⟨0, "depot"⟩, "name"⟩, ⟨"town", "t", false, ⟨1, "town"⟩, "name"⟩]⟩

def parcelScopes : Plan.Scopes :=
  [⟨"parcel", textTable "parcel" ["depot"], [], false⟩,
    ⟨"d", textTable "depot" ["name", "town"], [0], true⟩,
    ⟨"t", textTable "town" ["name"], [0, 0], false⟩]

def parcelDatabase : Database where
  tables := fun name =>
    if name = "parcel" then
      some [⟨"parcel", none, .ofList [("depot", .str "north")]⟩]
    else some []
  pageSize := 10
  aggregateLimit := none
  now := .midnight ⟨2024, 1, 1, by decide⟩

def parcelContext : Context :=
  ⟨.standard, parcelScopes, ⟨none, none, none, none, false, false, false,
    parcelChain.scope (.cons 1 (.cons 2 .nil .nil) .nil)⟩⟩

theorem parcel_named {n : Nat} {name : String}
    (h : parcelChain.Named parcelDatabase.tables n name) :
    (n, name) ∈ [(0, "depot"), (1, "name"), (1, "town"), (2, "name")] := by
  rcases h with ⟨hn, h⟩
  rcases h with ⟨r, v, hr, hv⟩ | ⟨j, hj, hname⟩ | ⟨m, j, hj, hearlier⟩
  · match n, hn, hr with
    | 0, _, hr =>
        rcases List.mem_singleton.mp hr with rfl
        have hentry := (Dict.get?_eq_some_iff _).mp hv
        rcases List.mem_singleton.mp hentry with heq
        cases heq
        simp
    | 1, _, hr => cases hr
    | 2, _, hr => cases hr
  · match n, hn, hj with
    | 1, _, rfl => subst hname; simp
    | 2, _, rfl => subst hname; simp
  · match m, hj with
    | 1, rfl => cases hearlier; simp
    | 2, rfl => cases hearlier; simp

theorem parcel_separate : parcelChain.Separate parcelDatabase.tables := by
  have hkeys : forall p, p ∈ [(0, "depot"), (1, "name"), (1, "town"), (2, "name")] ->
      forall q, q ∈ [(0, "depot"), (1, "name"), (1, "town"), (2, "name")] ->
        parcelChain.front p.1 ++ p.2 = parcelChain.front q.1 ++ q.2 -> p.1 = q.1 := by
    decide
  intro n m name name' hn hm hkey
  exact hkeys _ (parcel_named hn) _ (parcel_named hm) hkey

theorem parcel_linked_rows :
    exists rows combinations, scopeRows parcelDatabase "" parcelContext.fetch.root = .ok rows ∧
      rows.length = 1 ∧ List.Forall₂ parcelChain.Shows rows combinations ∧
      parcelChain.rows parcelDatabase.tables = some [] ∧
      Not (forall row, row ∈ combinations -> parcelChain.isComplete row = true) := by
  have hon : forall join, join ∈ parcelSource.joins -> Equates join.on := by
    intro join hjoin
    rcases List.mem_cons.mp hjoin with rfl | hjoin
    · exact ⟨_, _, rfl⟩
    · rcases List.mem_singleton.mp hjoin with rfl
      exact ⟨_, _, rfl⟩
  have hknown : forall s, s ∈ parcelContext.scopes ->
      exists records, parcelDatabase.tables s.table.name = some records := by
    intro s _
    by_cases h : s.table.name = "parcel"
    · exact ⟨_, if_pos h⟩
    · exact ⟨_, if_neg h⟩
  have hseparate : forall c, chainOf parcelContext.scopes parcelSource.joins = some c ->
      c.Separate parcelDatabase.tables := by
    intro c hc
    cases hc
    exact parcel_separate
  rcases @linked_rows_perm_iff Unit parcelTables .standard parcelSource parcelContext () ()
    parcelDatabase (by decide) hon rfl hknown hseparate with
    ⟨c, rows, combinations, joined, hc, hrows, hshows, hjoined, _, hperm, _⟩
  cases hc
  have hone : rows.length = 1 := by
    cases hrows
    rfl
  refine ⟨rows, combinations, hrows, hone, hshows, rfl, ?_⟩
  intro hcomplete
  cases hjoined
  have hnone := (hperm.mpr hcomplete).length_eq
  rw [<- hshows.length_eq, hone] at hnone
  cases hnone

end Join
end RecordSql
