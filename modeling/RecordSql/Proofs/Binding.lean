import RecordSql.Plan.Qualify

/-!
# Bound columns

A column is bound to an attribute of one scope, under the name that the attribute itself has.  The
rows of the native query hold its value under that name, with the alias of the scope in front
unless the scope is the root.
-/

namespace RecordSql

theorem TableDef.attribute?_self {t : TableDef} {name : String} {a : AttributeDef}
    (h : t.attribute? name = some a) : t.attribute? a.name = some a := by
  unfold attribute? at h ⊢
  have hname : Text.sameName a.name name = true := by
    have hfound := List.find?_some h
    exact hfound
  have hlower := Text.sameName_iff.mp hname
  have hsame : (fun b : AttributeDef => Text.sameName b.name a.name) =
      fun b => Text.sameName b.name name := by
    funext b
    rw [Bool.eq_iff_iff, Text.sameName_iff, Text.sameName_iff, hlower]
  rw [hsame]
  exact h

namespace Plan

open Sql (Column Predicate)

namespace Scopes

/-- The text in front of the names of a scope. -/
def front (scopes : Scopes) (scope : Nat) : String :=
  match scopes[scope]? with
  | some s => if s.isRoot then "" else s.aliasName ++ "."
  | none => ""

theorem rowKey_eq (scopes : Scopes) (b : Bound) :
    scopes.rowKey b = scopes.front b.scope ++ b.name := by
  unfold rowKey qualified front
  cases h : scopes[b.scope]? with
  | none =>
      simp [Column.rowKey, Column.ofName]
  | some s =>
      cases hroot : s.isRoot with
      | true =>
          simp [hroot, Column.rowKey, Column.ofName]
      | false =>
          simp [hroot, Column.rowKey, Column.inCollection]

theorem attributeIn_self {scopes : Scopes} {scope : Nat} {name : String} {a : AttributeDef}
    (h : attributeIn scopes scope name = some a) : attributeIn scopes scope a.name = some a := by
  unfold attributeIn at h ⊢
  rw [Option.bind_eq_some_iff] at h ⊢
  rcases h with ⟨s, hs, ha⟩
  exact ⟨s, hs, TableDef.attribute?_self ha⟩

theorem mem_matching {scopes : Scopes} {name : String} {entry : Nat × TableScope × AttributeDef}
    (h : entry ∈ matching scopes name) : attributeIn scopes entry.1 name = some entry.2.2 := by
  unfold matching at h
  rw [List.mem_filterMap] at h
  rcases h with ⟨⟨s, i⟩, hs, hentry⟩
  rw [Option.map_eq_some_iff] at hentry
  rcases hentry with ⟨a, ha, rfl⟩
  have hat : scopes[i]? = some s := List.mk_mem_zipIdx_iff_getElem?.mp hs
  simp [attributeIn, hat, ha]

/-- A column is bound to an attribute of its scope, and by the name of that attribute. -/
theorem attributeOf_resolve {scopes : Scopes} {c : Column} {b : Bound}
    (h : scopes.resolve c = .ok b) :
    exists a, scopes.attributeOf b = some a ∧ a.name = b.name ∧
      scopes.attributeIn b.scope c.name = some a := by
  unfold resolve at h
  cases hcollection : c.collection with
  | some collection =>
      simp only [hcollection, resolveIn] at h
      cases hscope : findAlias scopes collection with
      | none =>
          simp [hscope] at h
      | some scope =>
          cases ha : attributeIn scopes scope c.name with
          | none =>
              simp [hscope, ha] at h
          | some a =>
              simp only [hscope, ha, Except.ok.injEq] at h
              subst h
              exact ⟨a, attributeIn_self ha, rfl, ha⟩
  | none =>
      simp only [hcollection] at h
      split at h
      · rename_i scope s a hfound
        cases h
        have ha : attributeIn scopes scope c.name = some a :=
          @mem_matching scopes c.name (scope, s, a) (by rw [hfound]; exact List.mem_singleton_self _)
        exact ⟨a, attributeIn_self ha, rfl, ha⟩
      · split at h <;> cases h
      · cases h

/-- A column is bound to one of the scopes. -/
theorem resolve_lt {scopes : Scopes} {c : Column} {b : Bound} (h : scopes.resolve c = .ok b) :
    b.scope < scopes.length := by
  rcases attributeOf_resolve h with ⟨a, ha, _⟩
  rcases Option.bind_eq_some_iff.mp ha with ⟨s, hs, _⟩
  exact (List.getElem?_eq_some_iff.mp hs).1

/-!
# Places do not matter

Where a scope stands in the native query has no part in binding columns.
-/

/-- The scopes without their places. -/
def unplaced (scopes : Scopes) : Scopes :=
  scopes.map fun s => { s with path := [] }

theorem findAlias_unplaced (scopes : Scopes) (name : String) :
    findAlias (unplaced scopes) name = findAlias scopes name := by
  unfold findAlias unplaced
  rw [List.findIdx?_map]
  rfl

theorem getElem?_unplaced (scopes : Scopes) (scope : Nat) :
    (unplaced scopes)[scope]? = scopes[scope]?.map fun s => { s with path := [] } :=
  List.getElem?_map

theorem attributeIn_unplaced (scopes : Scopes) (scope : Nat) (name : String) :
    attributeIn (unplaced scopes) scope name = attributeIn scopes scope name := by
  unfold attributeIn
  rw [getElem?_unplaced]
  cases scopes[scope]? <;> rfl

theorem matching_unplaced (scopes : Scopes) (name : String) :
    matching (unplaced scopes) name =
      (matching scopes name).map fun (i, s, a) => (i, { s with path := [] }, a) := by
  unfold matching unplaced
  rw [List.zipIdx_map, List.filterMap_map, List.map_filterMap]
  refine congrArg (fun f => List.filterMap f scopes.zipIdx) ?_
  funext ⟨s, i⟩
  simp only [Function.comp_apply, Prod.map]
  cases s.table.attribute? name <;> rfl

theorem resolve_unplaced (scopes : Scopes) (c : Column) :
    (unplaced scopes).resolve c = scopes.resolve c := by
  unfold resolve
  cases c.collection with
  | some collection =>
      simp only [resolveIn, findAlias_unplaced]
      cases findAlias scopes collection with
      | none =>
          rfl
      | some scope =>
          simp only [attributeIn_unplaced, getElem?_unplaced]
          cases attributeIn scopes scope c.name with
          | some a =>
              rfl
          | none =>
              cases scopes[scope]? <;> rfl
  | none =>
      have hroot : rootName (unplaced scopes) = rootName scopes := by
        cases scopes <;> rfl
      simp only [matching_unplaced, hroot]
      cases matching scopes c.name with
      | nil =>
          rfl
      | cons first rest =>
          cases rest with
          | nil =>
              rfl
          | cons second more =>
              simp [Function.comp_def]

theorem resolve_congr {a b : Scopes} (h : unplaced a = unplaced b) (c : Column) :
    a.resolve c = b.resolve c := by
  rw [<- resolve_unplaced a, <- resolve_unplaced b, h]

end Scopes

theorem Context.resolve_eq {ctx : Context} {c : Column} {b : Bound}
    (h : ctx.resolve c = .ok (some b)) : ctx.scopes.resolve c = .ok b := by
  unfold resolve at h
  split at h
  · rename_i b' hb
    cases h
    exact hb
  · split at h <;> cases h
  · cases h

/-!
# Columns in use
-/

theorem bound?_eq_some_iff {ctx : Context} {c : Column} {b : Bound} :
    ctx.bound? c = some b <-> ctx.resolve c = .ok (some b) := by
  unfold Context.bound?
  cases ctx.resolve c with
  | error e =>
      constructor
      · intro h
        cases h
      · intro h
        cases h
  | ok found =>
      constructor
      · intro h
        exact congrArg Except.ok h
      · intro h
        exact Except.ok.inj h

theorem mem_addBound {used : List Bound} {a b : Bound} :
    b ∈ addBound used a <-> b ∈ used ∨ b = a := by
  unfold addBound
  split
  · rename_i hmem
    constructor
    · exact Or.inl
    · rintro (hb | rfl)
      · exact hb
      · exact List.contains_iff_mem.mp hmem
  · rw [List.mem_append, List.mem_singleton]

theorem mem_foldl_addBound {used found : List Bound} {b : Bound} :
    b ∈ found.foldl addBound used <-> b ∈ used ∨ b ∈ found := by
  induction found generalizing used with
  | nil =>
      simp
  | cons a rest ih =>
      rw [List.foldl_cons, ih, mem_addBound, List.mem_cons, or_assoc]

theorem mem_use {ctx : Context} {used : List Bound} {columns : List Column} {b : Bound} :
    b ∈ ctx.use used columns <->
      b ∈ used ∨ exists c, c ∈ columns ∧ ctx.resolve c = .ok (some b) := by
  rw [Context.use, mem_foldl_addBound, List.mem_filterMap]
  simp only [bound?_eq_some_iff]

theorem mem_foldl_use {ctx : Context} {used : List Bound} {residual : List Predicate} {b : Bound} :
    b ∈ residual.foldl (fun used p => ctx.use used (readsOfPredicate p)) used <->
      b ∈ used ∨ exists p, p ∈ residual ∧ b ∈ ctx.use [] (readsOfPredicate p) := by
  induction residual generalizing used with
  | nil =>
      simp
  | cons p rest ih =>
      rw [List.foldl_cons, ih, mem_use]
      simp only [List.mem_cons, exists_eq_or_imp, mem_use, List.not_mem_nil, false_or, or_assoc]

end Plan
end RecordSql
