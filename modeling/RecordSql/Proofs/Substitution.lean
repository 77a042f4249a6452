import RecordSql.Eval.Expr
import RecordSql.Proofs.Outcome
import RecordSql.Sql.Substitution

/-!
# Expressions read from columns

A substitution puts columns in the place of expressions that have been evaluated.  On a row in which
these columns hold the values, an expression means the same as before, failures included, if every
comparison that is left heeds case as it did: a column asks for no collation, whatever the
expression asked for that it stands for.
-/

namespace RecordSql

open Sql (Column Predicate Scalar Substitution Truth)

namespace Sql
namespace Substitution

/-!
# Looking up
-/

section Lookup

variable {β : Type} {s : Substitution} {key : β -> Scalar} {output : β -> String} {e : Scalar}

theorem column?_add (s : Substitution) (e other : Scalar) (name : String) :
    (s.add e name).column? other = if other.text = e.text then some name else s.column? other :=
  Dict.get?_insert s.columns e.text other.text name

/-- What stands for an expression was added last under its text, or stood for it before. -/
theorem column?_foldl_add {l : List β} {name : String}
    (h : (l.foldl (fun s b => s.add (key b) (output b)) s).column? e = some name) :
    (exists b, b ∈ l ∧ (key b).text = e.text ∧ output b = name) ∨ s.column? e = some name := by
  induction l generalizing s with
  | nil =>
      exact Or.inr h
  | cons b rest ih =>
      rcases ih h with ⟨b', hb', hfound⟩ | hbefore
      · exact Or.inl ⟨b', List.mem_cons_of_mem _ hb', hfound⟩
      · rw [column?_add] at hbefore
        split at hbefore
        · rename_i htext
          exact Or.inl ⟨b, List.mem_cons_self, htext.symm, Option.some.inj hbefore⟩
        · exact Or.inr hbefore

theorem column?_foldl_add_none {l : List β}
    (h : (l.foldl (fun s b => s.add (key b) (output b)) s).column? e = none) :
    s.column? e = none ∧ forall b, b ∈ l -> (key b).text ≠ e.text := by
  induction l generalizing s with
  | nil =>
      exact ⟨h, fun b hb => by cases hb⟩
  | cons b rest ih =>
      rcases ih h with ⟨hbefore, hrest⟩
      rw [column?_add] at hbefore
      split at hbefore
      · cases hbefore
      · rename_i htext
        refine ⟨hbefore, fun b' hb' => ?_⟩
        rcases List.mem_cons.mp hb' with rfl | hb'
        · exact Ne.symm htext
        · exact hrest b' hb'

end Lookup

/-- The substitution of each expression by the column beside it. -/
def ofList (mappings : List (Scalar × String)) : Substitution :=
  mappings.foldl (fun s m => s.add m.1 m.2) .empty

theorem column?_ofList {mappings : List (Scalar × String)} {e : Scalar} {name : String}
    (h : (ofList mappings).column? e = some name) :
    exists m, m ∈ mappings ∧ m.1.text = e.text ∧ m.2 = name := by
  rcases column?_foldl_add h with hfound | h
  · exact hfound
  · cases h

/-!
# Comparisons that are left

What is replaced as a whole is not looked into.
-/

/-- The comparison heeds case after the substitution exactly if it did before. -/
def heedsAlike (s : Substitution) (l r : Scalar) : Bool :=
  ((s.scalar l).isCaseSensitive || (s.scalar r).isCaseSensitive) ==
    (l.isCaseSensitive || r.isCaseSensitive)

mutual

/-- Every comparison that is left of the expression heeds case as before. -/
def scalarAlike (s : Substitution) : Scalar -> Bool
  | .call name distinct args =>
      (s.column? (.call name distinct args)).isSome || s.scalarsAlike args
  | .binary l op r =>
      (s.column? (.binary l op r)).isSome || (s.scalarAlike l && s.scalarAlike r)
  | .negate e => (s.column? (.negate e)).isSome || s.scalarAlike e
  | .searchedCase whens otherwise =>
      (s.column? (.searchedCase whens otherwise)).isSome ||
        (s.branchesAlike whens && s.otherwiseAlike otherwise)
  | .simpleCase input whens otherwise =>
      (s.column? (.simpleCase input whens otherwise)).isSome ||
        (s.scalarAlike input && s.pairsAlike whens && s.otherwiseAlike otherwise)
  | .collate e name => (s.column? (.collate e name)).isSome || s.scalarAlike e
  | _ => true

def predicateAlike (s : Substitution) : Predicate -> Bool
  | .and items => s.predicatesAlike items
  | .or items => s.predicatesAlike items
  | .not p => s.predicateAlike p
  | .compare l _ r => s.heedsAlike l r && s.scalarAlike l && s.scalarAlike r
  | .isNull e _ => s.scalarAlike e
  | .inList e items _ => s.scalarAlike e && s.scalarsAlike items
  | .like e pattern _ => s.scalarAlike e && s.scalarAlike pattern
  | .contains _ wanted => s.scalarAlike wanted
  | .const _ => true

def scalarsAlike (s : Substitution) : List Scalar -> Bool
  | [] => true
  | e :: rest => s.scalarAlike e && s.scalarsAlike rest

def predicatesAlike (s : Substitution) : List Predicate -> Bool
  | [] => true
  | p :: rest => s.predicateAlike p && s.predicatesAlike rest

def branchesAlike (s : Substitution) : List (Predicate × Scalar) -> Bool
  | [] => true
  | (p, e) :: rest => s.predicateAlike p && s.scalarAlike e && s.branchesAlike rest

def pairsAlike (s : Substitution) : List (Scalar × Scalar) -> Bool
  | [] => true
  | (w, e) :: rest => s.scalarAlike w && s.scalarAlike e && s.pairsAlike rest

def otherwiseAlike (s : Substitution) : Option Scalar -> Bool
  | none => true
  | some e => s.scalarAlike e

end

end Substitution
end Sql

namespace Eval

variable {clock : Clock} {read read' : String -> Value} {s : Substitution}

/-!
# Two rows
-/

/-- The second row holds the values of the mapped expressions and is otherwise the first. -/
structure HoldsMapped (clock : Clock) (mappings : List (Scalar × String))
    (read read' : String -> Value) : Prop where
  held : forall m, m ∈ mappings -> scalar clock read m.1 = .ok (read' m.2)
  others : forall name, (forall m, m ∈ mappings -> name ≠ m.2) -> read' name = read name

/--
None of the parts is a column of a mapped name, and a part with the text of a mapped expression is
that expression.
-/
structure Unmistaken (mappings : List (Scalar × String)) (parts : List Scalar) : Prop where
  fresh : forall c, Scalar.column c ∈ parts -> forall m, m ∈ mappings -> c.rowKey ≠ m.2
  itself : forall part, part ∈ parts -> forall m, m ∈ mappings ->
    part.text = m.1.text -> part = m.1

/-- What the two rows have to agree on for the parts of an expression. -/
structure ReadsAlike (s : Substitution) (clock : Clock) (read read' : String -> Value)
    (parts : List Scalar) : Prop where
  replaced : forall part, part ∈ parts -> forall name, s.column? part = some name ->
    scalar clock read part = .ok (read' name)
  kept : forall c, Scalar.column c ∈ parts -> read' c.rowKey = read c.rowKey

theorem HoldsMapped.readsAlike {mappings : List (Scalar × String)} {parts : List Scalar}
    (hrows : HoldsMapped clock mappings read read') (h : Unmistaken mappings parts) :
    ReadsAlike (.ofList mappings) clock read read' parts := by
  constructor
  · intro part hpart name hname
    rcases Substitution.column?_ofList hname with ⟨m, hm, htext, rfl⟩
    rw [h.itself part hpart m hm htext.symm]
    exact hrows.held m hm
  · intro c hc
    exact hrows.others c.rowKey (h.fresh c hc)

namespace ReadsAlike

theorem mono {parts parts' : List Scalar} (h : ReadsAlike s clock read read' parts)
    (hsubset : parts' ⊆ parts) : ReadsAlike s clock read read' parts' :=
  ⟨fun part hpart => h.replaced part (hsubset hpart), fun c hc => h.kept c (hsubset hc)⟩

theorem append {front back : List Scalar} (h : ReadsAlike s clock read read' (front ++ back)) :
    ReadsAlike s clock read read' front ∧ ReadsAlike s clock read read' back :=
  ⟨h.mono (List.subset_append_left _ _), h.mono (List.subset_append_right _ _)⟩

theorem tail {part : Scalar} {parts : List Scalar}
    (h : ReadsAlike s clock read read' (part :: parts)) : ReadsAlike s clock read read' parts :=
  h.mono (List.subset_cons_self _ _)

/-- An expression is read from its column, or evaluated from its parts. -/
theorem scalar_columnOr {parts : List Scalar} (h : ReadsAlike s clock read read' parts)
    {e otherwise : Scalar} (hpart : e ∈ parts)
    (hotherwise : s.column? e = none -> scalar clock read' otherwise = scalar clock read e) :
    scalar clock read' (s.columnOr e otherwise) = scalar clock read e := by
  unfold Substitution.columnOr
  split
  · rename_i name hname
    exact (h.replaced e hpart name hname).symm
  · rename_i hnone
    exact hotherwise hnone

/-- What is not replaced has parts in which comparisons are alike. -/
theorem alike_of_none {e : Scalar} {b : Bool} (h : ((s.column? e).isSome || b) = true)
    (hnone : s.column? e = none) : b = true := by
  rw [hnone] at h
  exact h

mutual

theorem scalar_eq : forall e : Scalar, ReadsAlike s clock read read' e.parts ->
    s.scalarAlike e = true -> scalar clock read' (s.scalar e) = scalar clock read e
  | .literal l => by
      intro h _
      exact h.scalar_columnOr List.mem_cons_self fun _ => rfl
  | .column c => by
      intro h _
      refine h.scalar_columnOr List.mem_cons_self fun _ => ?_
      rw [scalar, scalar, h.kept c List.mem_cons_self]
  | .call name distinct args => by
      intro h halike
      refine h.scalar_columnOr List.mem_cons_self fun hnone => ?_
      rw [scalar, scalar, scalars_eq args h.tail (alike_of_none halike hnone)]
  | .binary l op r => by
      intro h halike
      refine h.scalar_columnOr List.mem_cons_self fun hnone => ?_
      rcases h.tail.append with ⟨hl, hr⟩
      rcases Bool.and_eq_true_iff.mp (alike_of_none halike hnone) with ⟨hleft, hright⟩
      rw [scalar, scalar, scalar_eq l hl hleft, scalar_eq r hr hright]
  | .negate e => by
      intro h halike
      refine h.scalar_columnOr List.mem_cons_self fun hnone => ?_
      rw [scalar, scalar, scalar_eq e h.tail (alike_of_none halike hnone)]
  | .searchedCase whens otherwise => by
      intro h halike
      refine h.scalar_columnOr List.mem_cons_self fun hnone => ?_
      rcases h.tail.append with ⟨hwhens, hotherwise⟩
      rcases Bool.and_eq_true_iff.mp (alike_of_none halike hnone) with ⟨hbranches, helse⟩
      rw [scalar, scalar, branches_eq whens hwhens hbranches,
        elseValue_eq otherwise hotherwise helse]
  | .simpleCase input whens otherwise => by
      intro h halike
      refine h.scalar_columnOr List.mem_cons_self fun hnone => ?_
      rcases h.tail.append with ⟨hfront, hotherwise⟩
      rcases hfront.append with ⟨hinput, hwhens⟩
      have halike := alike_of_none halike hnone
      rw [Bool.and_eq_true, Bool.and_eq_true] at halike
      rw [scalar, scalar, scalar_eq input hinput halike.1.1]
      simp only [matching_eq whens hwhens halike.1.2,
        elseValue_eq otherwise hotherwise halike.2]
  | .collate e collation => by
      intro h halike
      refine h.scalar_columnOr List.mem_cons_self fun hnone => ?_
      rw [scalar, scalar, scalar_eq e h.tail (alike_of_none halike hnone)]
  | .star => by
      intro h _
      exact h.scalar_columnOr List.mem_cons_self fun _ => rfl
  | .starOf table => by
      intro h _
      exact h.scalar_columnOr List.mem_cons_self fun _ => rfl

theorem predicate_eq : forall p : Predicate, ReadsAlike s clock read read' p.parts ->
    s.predicateAlike p = true -> predicate clock read' (s.predicate p) = predicate clock read p
  | .and items => fun h halike => allOf_eq items h halike .isTrue
  | .or items => fun h halike => anyOf_eq items h halike .isFalse
  | .not p => by
      intro h halike
      rw [Substitution.predicate, predicate, predicate, predicate_eq p h halike]
  | .compare l op r => by
      intro h halike
      rcases h.append with ⟨hl, hr⟩
      rw [Substitution.predicateAlike, Bool.and_eq_true, Bool.and_eq_true] at halike
      have hcase := beq_iff_eq.mp halike.1.1
      rw [Substitution.predicate, predicate, predicate, scalar_eq l hl halike.1.2,
        scalar_eq r hr halike.2, hcase]
  | .isNull e negated => by
      intro h halike
      rw [Substitution.predicate, predicate, predicate, scalar_eq e h halike]
  | .inList e items negated => by
      intro h halike
      rcases h.append with ⟨he, hitems⟩
      rcases Bool.and_eq_true_iff.mp halike with ⟨hleft, hright⟩
      rw [Substitution.predicate, predicate, predicate, scalar_eq e he hleft]
      simp only [memberOf_eq items hitems hright]
  | .like e pattern negated => by
      intro h halike
      rcases h.append with ⟨he, hpattern⟩
      rcases Bool.and_eq_true_iff.mp halike with ⟨hleft, hright⟩
      rw [Substitution.predicate, predicate, predicate, scalar_eq e he hleft,
        scalar_eq pattern hpattern hright]
  -- The column that is searched stays as it is.
  | .contains c wanted => by
      intro h halike
      rw [Substitution.predicate, predicate, predicate, scalar_eq wanted h.tail halike,
        h.kept c List.mem_cons_self]
  | .const _ => fun _ _ => rfl

theorem scalars_eq : forall es : List Scalar,
    ReadsAlike s clock read read' (Sql.partsOfAll es) -> s.scalarsAlike es = true ->
      scalars clock read' (s.scalars es) = scalars clock read es
  | [] => fun _ _ => rfl
  | e :: rest => by
      intro h halike
      rcases h.append with ⟨he, hrest⟩
      rcases Bool.and_eq_true_iff.mp halike with ⟨hfirst, hothers⟩
      rw [Substitution.scalars, scalars, scalars, scalar_eq e he hfirst,
        scalars_eq rest hrest hothers]

theorem branches_eq : forall whens : List (Predicate × Scalar),
    ReadsAlike s clock read read' (Sql.partsOfBranches whens) -> s.branchesAlike whens = true ->
      branches clock read' (s.branches whens) = branches clock read whens
  | [] => fun _ _ => rfl
  | (p, e) :: rest => by
      intro h halike
      rcases h.append with ⟨hfirst, hrest⟩
      rcases hfirst.append with ⟨hp, he⟩
      rw [Substitution.branchesAlike, Bool.and_eq_true, Bool.and_eq_true] at halike
      rw [Substitution.branches, branches, branches, predicate_eq p hp halike.1.1,
        scalar_eq e he halike.1.2, branches_eq rest hrest halike.2]

theorem matching_eq : forall whens : List (Scalar × Scalar),
    ReadsAlike s clock read read' (Sql.partsOfPairs whens) -> s.pairsAlike whens = true ->
      forall input, matching clock read' input (s.pairs whens) = matching clock read input whens
  | [] => fun _ _ _ => rfl
  | (w, e) :: rest => by
      intro h halike input
      rcases h.append with ⟨hfirst, hrest⟩
      rcases hfirst.append with ⟨hw, he⟩
      rw [Substitution.pairsAlike, Bool.and_eq_true, Bool.and_eq_true] at halike
      rw [Substitution.pairs, matching, matching, scalar_eq w hw halike.1.1,
        scalar_eq e he halike.1.2, matching_eq rest hrest halike.2]

theorem elseValue_eq : forall otherwise : Option Scalar,
    ReadsAlike s clock read read' (Sql.partsOfOption otherwise) ->
      s.otherwiseAlike otherwise = true ->
        elseValue clock read' (s.otherwise otherwise) = elseValue clock read otherwise
  | none => fun _ _ => rfl
  | some e => fun h halike => scalar_eq e h halike

theorem allOf_eq : forall items : List Predicate,
    ReadsAlike s clock read read' (Sql.partsOfPredicates items) ->
      s.predicatesAlike items = true -> forall sofar,
        allOf clock read' sofar (s.predicates items) = allOf clock read sofar items
  | [] => fun _ _ _ => rfl
  | p :: rest => by
      intro h halike sofar
      rcases h.append with ⟨hp, hrest⟩
      rcases Bool.and_eq_true_iff.mp halike with ⟨hfirst, hothers⟩
      rw [Substitution.predicates, allOf, allOf, predicate_eq p hp hfirst]
      simp only [allOf_eq rest hrest hothers]

theorem anyOf_eq : forall items : List Predicate,
    ReadsAlike s clock read read' (Sql.partsOfPredicates items) ->
      s.predicatesAlike items = true -> forall sofar,
        anyOf clock read' sofar (s.predicates items) = anyOf clock read sofar items
  | [] => fun _ _ _ => rfl
  | p :: rest => by
      intro h halike sofar
      rcases h.append with ⟨hp, hrest⟩
      rcases Bool.and_eq_true_iff.mp halike with ⟨hfirst, hothers⟩
      rw [Substitution.predicates, anyOf, anyOf, predicate_eq p hp hfirst]
      simp only [anyOf_eq rest hrest hothers]

theorem memberOf_eq : forall items : List Scalar,
    ReadsAlike s clock read read' (Sql.partsOfAll items) -> s.scalarsAlike items = true ->
      forall v sofar,
        memberOf clock read' v sofar (s.scalars items) = memberOf clock read v sofar items
  | [] => fun _ _ _ _ => rfl
  | e :: rest => by
      intro h halike v sofar
      rcases h.append with ⟨he, hrest⟩
      rcases Bool.and_eq_true_iff.mp halike with ⟨hfirst, hothers⟩
      rw [Substitution.scalars, memberOf, memberOf, scalar_eq e he hfirst]
      simp only [memberOf_eq rest hrest hothers]

end

end ReadsAlike

/--
An expression and a condition mean the same on the two rows, failures included, if the comparisons
that are left of them heed case as before.
-/
theorem substitution_keeps_meaning (clock : Clock) (mappings : List (Scalar × String))
    (read read' : String -> Value) (hrows : HoldsMapped clock mappings read read')
    (e : Scalar) (p : Predicate) :
    (Unmistaken mappings e.parts -> (Substitution.ofList mappings).scalarAlike e = true ->
      scalar clock read' ((Substitution.ofList mappings).scalar e) = scalar clock read e) ∧
    (Unmistaken mappings p.parts -> (Substitution.ofList mappings).predicateAlike p = true ->
      predicate clock read' ((Substitution.ofList mappings).predicate p) =
        predicate clock read p) :=
  ⟨fun h => (hrows.readsAlike h).scalar_eq e, fun h => (hrows.readsAlike h).predicate_eq p⟩

theorem isDay_nameDay : Calendar.IsDay 2001 1 1 := by
  decide

def nameDay : Clock :=
  ⟨.midnight ⟨2001, 1, 1, isDay_nameDay⟩, .midnight ⟨2001, 1, 1, isDay_nameDay⟩⟩

/-- `name + '!'` -/
def loudName : Scalar :=
  .binary (.column (.ofName "name")) .add (.literal (.str "!"))

/-- `name COLLATE Latin1_General_CS_AS` -/
def exactName : Scalar :=
  .collate (.column (.ofName "name")) "Latin1_General_CS_AS"

/-- `name + '!' = 'BOB!' AND name COLLATE Latin1_General_CS_AS = 'Bob'` -/
def loudBob : Predicate :=
  .and [.compare loudName .eq (.literal (.str "BOB!")),
    .compare exactName .eq (.literal (.str "Bob"))]

/-- `name COLLATE Latin1_General_CS_AS = 'bob'` -/
def exactBob : Predicate :=
  .compare exactName .eq (.literal (.str "bob"))

/-- A row with the name `Bob`, and a value in one more column. -/
def bobWith (extra : String) (v : Value) (column : String) : Value :=
  if column = extra then v else if column = "name" then .str "Bob" else .null

theorem holdsMapped_bobWith {e : Scalar} {extra : String} {v : Value}
    (h : scalar nameDay (bobWith extra .null) e = .ok v) :
    HoldsMapped nameDay [(e, extra)] (bobWith extra .null) (bobWith extra v) := by
  constructor
  · intro m hm
    cases List.mem_singleton.mp hm
    rw [h, bobWith, if_pos rfl]
  · intro column hcolumn
    have hother : column ≠ extra := hcolumn (e, extra) (List.mem_singleton_self _)
    rw [bobWith, bobWith, if_neg hother, if_neg hother]

theorem unmistaken_loudBob : Unmistaken [(loudName, "loud")] loudBob.parts := by
  have hparts : loudBob.parts = [loudName, .column (.ofName "name"), .literal (.str "!"),
      .literal (.str "BOB!"), exactName, .column (.ofName "name"), .literal (.str "Bob")] := rfl
  constructor
  · intro c hc m hm
    cases List.mem_singleton.mp hm
    have hname : c = .ofName "name" := by
      simpa [hparts, loudName, exactName] using hc
    rw [hname]
    decide
  · intro part hpart m hm htext
    cases List.mem_singleton.mp hm
    rw [hparts] at hpart
    -- Only the first of the parts has the text of the mapped expression.
    simp only [List.mem_cons, List.not_mem_nil, or_false] at hpart
    rcases hpart with rfl | rfl | rfl | rfl | rfl | rfl | rfl
    · rfl
    all_goals exact absurd htext (by decide)

/--
A column that holds the name with a mark is compared as the name with a mark was.  One that holds
the name itself is compared without regard to case, though the collation asked for it.
-/
theorem substitution_loudBob :
    predicate nameDay (bobWith "loud" (.str "Bob!"))
        ((Substitution.ofList [(loudName, "loud")]).predicate loudBob) = .ok .isTrue ∧
    HoldsMapped nameDay [(exactName, "exact")] (bobWith "exact" .null)
        (bobWith "exact" (.str "Bob")) ∧
      predicate nameDay (bobWith "exact" (.str "Bob"))
          ((Substitution.ofList [(exactName, "exact")]).predicate exactBob) ≠
        predicate nameDay (bobWith "exact" .null) exactBob := by
  have htheorem := substitution_keeps_meaning nameDay [(loudName, "loud")] (bobWith "loud" .null)
    (bobWith "loud" (.str "Bob!")) (holdsMapped_bobWith rfl) loudName loudBob
  refine ⟨(htheorem.2 unmistaken_loudBob rfl).trans rfl, holdsMapped_bobWith rfl, ?_⟩
  decide

end Eval

end RecordSql
