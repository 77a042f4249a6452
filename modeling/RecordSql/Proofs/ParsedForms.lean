import RecordSql.Sql.ExprParser

/-!
# The forms that parsing gives

A parsed expression holds no truth value and no constant condition, a sign in front of a number has
become part of the number, and a conjunction or disjunction joins at least two conditions.
-/

namespace RecordSql
namespace Sql

def Scalar.isNumber : Scalar -> Bool
  | .literal (.int _) => true
  | .literal (.float _) => true
  | _ => false

mutual

def Scalar.wellFormed : Scalar -> Bool
  | .literal (.bool _) => false
  | .literal _ => true
  | .column _ => true
  | .call _ _ args => wellFormedAll args
  | .binary l _ r => l.wellFormed && r.wellFormed
  | .negate e => !e.isNumber && e.wellFormed
  | .searchedCase whens otherwise => wellFormedBranches whens && wellFormedElse otherwise
  | .simpleCase input whens otherwise =>
      input.wellFormed && wellFormedPairs whens && wellFormedElse otherwise
  | .collate e _ => e.wellFormed
  | .star => true
  | .starOf _ => true

def Predicate.wellFormed : Predicate -> Bool
  | .and items => 2 ≤ items.length && wellFormedMembers items
  | .or items => 2 ≤ items.length && wellFormedMembers items
  | .not p => p.wellFormed
  | .compare l _ r => l.wellFormed && r.wellFormed
  | .isNull e _ => e.wellFormed
  | .inList e items _ => e.wellFormed && wellFormedAll items
  | .like e pattern _ => e.wellFormed && pattern.wellFormed
  | .contains _ wanted => wanted.wellFormed
  | .const _ => false

def wellFormedAll : List Scalar -> Bool
  | [] => true
  | e :: rest => e.wellFormed && wellFormedAll rest

def wellFormedMembers : List Predicate -> Bool
  | [] => true
  | p :: rest => p.wellFormed && wellFormedMembers rest

def wellFormedBranches : List (Predicate × Scalar) -> Bool
  | [] => true
  | (p, e) :: rest => p.wellFormed && e.wellFormed && wellFormedBranches rest

def wellFormedPairs : List (Scalar × Scalar) -> Bool
  | [] => true
  | (w, e) :: rest => w.wellFormed && e.wellFormed && wellFormedPairs rest

def wellFormedElse : Option Scalar -> Bool
  | none => true
  | some e => e.wellFormed

end

theorem wellFormedAll_iff {items : List Scalar} :
    wellFormedAll items = true <-> forall e, e ∈ items -> e.wellFormed = true := by
  induction items with
  | nil =>
      simp [wellFormedAll]
  | cons e rest ih =>
      simp [wellFormedAll, ih]

theorem wellFormedMembers_iff {items : List Predicate} :
    wellFormedMembers items = true <-> forall p, p ∈ items -> p.wellFormed = true := by
  induction items with
  | nil =>
      simp [wellFormedMembers]
  | cons p rest ih =>
      simp [wellFormedMembers, ih]

theorem wellFormedBranches_iff {whens : List (Predicate × Scalar)} :
    wellFormedBranches whens = true <->
      forall w, w ∈ whens -> w.1.wellFormed = true ∧ w.2.wellFormed = true := by
  induction whens with
  | nil =>
      simp [wellFormedBranches]
  | cons w rest ih =>
      simp [wellFormedBranches, ih]

theorem wellFormedPairs_iff {whens : List (Scalar × Scalar)} :
    wellFormedPairs whens = true <->
      forall w, w ∈ whens -> w.1.wellFormed = true ∧ w.2.wellFormed = true := by
  induction whens with
  | nil =>
      simp [wellFormedPairs]
  | cons w rest ih =>
      simp [wellFormedPairs, ih]

namespace Parser

/-!
# What a parser yields
-/

/-- Every value that the parser returns has the property. -/
def Yields {α : Type} (p : Parser α) (good : α -> Prop) : Prop :=
  forall c a rest, p c = .ok a rest -> good a

namespace Yields

variable {α β : Type} {good : α -> Prop} {fine : β -> Prop}

theorem any (p : Parser α) : Yields p (fun _ => True) :=
  fun _ _ _ _ => trivial

theorem bind {p : Parser α} {f : α -> Parser β} (hp : Yields p good)
    (hf : forall a, good a -> Yields (f a) fine) : Yields (p >>= f) fine := by
  intro c b rest h
  change EStateM.bind p f c = _ at h
  cases ha : p c with
  | ok a middle =>
      rw [EStateM.bind, ha] at h
      exact hf a (hp c a middle ha) middle b rest h
  | error failure middle =>
      rw [EStateM.bind, ha] at h
      cases h

/-- A step whose value does not matter. -/
theorem after {p : Parser α} {f : α -> Parser β} (hf : forall a, Yields (f a) fine) :
    Yields (p >>= f) fine :=
  bind (any p) fun a _ => hf a

theorem pure {a : α} (h : good a) : Yields (Pure.pure a) good := by
  intro c b rest hb
  cases hb
  exact h

theorem ofPure {a : α} {f : α -> Parser β} (h : Yields (f a) fine) :
    Yields (Pure.pure a >>= f) fine :=
  h

theorem map {p : Parser α} {f : α -> β} (h : Yields p good) :
    Yields (f <$> p) (fun b => exists a, b = f a ∧ good a) := by
  intro c b rest hb
  change EStateM.map f p c = _ at hb
  cases ha : p c with
  | ok a middle =>
      rw [EStateM.map, ha] at hb
      cases hb
      exact ⟨a, rfl, h c a _ ha⟩
  | error failure middle =>
      rw [EStateM.map, ha] at hb
      cases hb

theorem fail {cause : ParseCause} {pivot : Nat} : Yields (Parser.fail cause pivot) good := by
  intro c a rest h
  cases h

theorem failHere {cause : ParseCause} : Yields (Parser.failHere cause) good := by
  intro c a rest h
  cases h

theorem repeated {more : Parser Bool} {item : Parser α} (h : Yields item good)
    (tokens : List Token) :
    Yields (Parser.repeated more item tokens) (fun items => forall a, a ∈ items -> good a) := by
  induction tokens with
  | nil =>
      exact pure (by simp)
  | cons t tokens ih =>
      refine after fun again => ?_
      cases again with
      | true =>
          refine bind h fun first hfirst => ?_
          refine bind ih fun others hothers => ?_
          exact pure (List.forall_mem_cons.mpr ⟨hfirst, hothers⟩)
      | false =>
          exact pure (by simp)

theorem many {more : Parser Bool} {item : Parser α} (h : Yields item good) :
    Yields (Parser.many more item) (fun items => forall a, a ∈ items -> good a) :=
  after fun c => repeated h c.ahead

theorem commaList {item : Parser α} (h : Yields item good) :
    Yields (Parser.commaList item) (fun items => forall a, a ∈ items -> good a) := by
  refine bind h fun first hfirst => ?_
  refine bind (many h) fun others hothers => ?_
  exact pure (List.forall_mem_cons.mpr ⟨hfirst, hothers⟩)

theorem attempt {p : Parser α} (h : Yields p good) :
    Yields (Parser.attempt p) (fun found => forall a, found = some a -> good a) := by
  intro c found rest hfound
  cases ha : p c with
  | ok a middle =>
      rw [Parser.attempt, ha] at hfound
      cases hfound
      intro b hb
      cases hb
      exact h c a _ ha
  | error failure middle =>
      rw [Parser.attempt, ha] at hfound
      cases hfound
      intro b hb
      cases hb

end Yields

/-!
# Operands
-/

/-- The parsers for what stands inside an operand yield well-formed values. -/
structure Sound (inner : Inner) : Prop where
  scalar : Yields inner.scalar (fun e => e.wellFormed = true)
  predicate : Yields inner.predicate (fun p => p.wellFormed = true)

theorem wellFormed_ofFloat (x : Float) : (Scalar.literal (.ofFloat x)).wellFormed = true := by
  rw [Literal.ofFloat]
  split <;> rfl

theorem wellFormed_negative {e : Scalar} (h : e.wellFormed = true) :
    (negative e).wellFormed = true := by
  cases e with
  | literal l =>
      cases l with
      | float x =>
          exact wellFormed_ofFloat (-x)
      | bool b =>
          cases h
      | _ =>
          rfl
  | _ =>
      exact h

theorem yields_numberLiteral (text : String) (pivot : Nat) :
    Yields (numberLiteral text pivot) (fun e => e.wellFormed = true) := by
  simp only [numberLiteral]
  split
  · split
    · exact Yields.pure (wellFormed_ofFloat _)
    · exact Yields.fail
  · split
    · exact Yields.pure rfl
    · exact Yields.fail

theorem yields_columnReference : Yields columnReference (fun e => e.wellFormed = true) := by
  refine Yields.after fun first => ?_
  refine Yields.after fun dotted => ?_
  cases dotted with
  | true =>
      refine Yields.after fun all => ?_
      cases all with
      | true =>
          exact Yields.pure rfl
      | false =>
          refine Yields.after fun second => ?_
          refine Yields.after fun others => ?_
          split <;> exact Yields.pure rfl
  | false =>
      exact Yields.pure rfl

theorem wellFormed_withDatePart {function : String} {args : List Scalar}
    (h : forall e, e ∈ args -> e.wellFormed = true) :
    forall e, e ∈ withDatePart function args -> e.wellFormed = true := by
  unfold withDatePart
  split
  · split
    · rw [List.forall_mem_cons] at h ⊢
      exact ⟨rfl, h.2⟩
    · exact h
  · exact h

theorem wellFormed_signs {e : Scalar} (minuses : List Unit) (h : e.wellFormed = true) :
    (minuses.foldl (fun e _ => negative e) e).wellFormed = true := by
  induction minuses generalizing e with
  | nil =>
      exact h
  | cons _ minuses ih =>
      exact ih (wellFormed_negative h)

theorem yields_chain {known : String -> Option Arithmetic} {operand : Parser Scalar}
    (h : Yields operand (fun e => e.wellFormed = true)) (tokens : List Token) {left : Scalar}
    (hleft : left.wellFormed = true) :
    Yields (chain known operand tokens left) (fun e => e.wellFormed = true) := by
  induction tokens generalizing left with
  | nil =>
      exact Yields.pure hleft
  | cons t tokens ih =>
      rw [chain]
      refine Yields.after fun found => ?_
      cases found with
      | some op =>
          refine Yields.bind h fun right hright => ?_
          exact ih (by rw [Scalar.wellFormed, hleft, hright]; rfl)
      | none =>
          exact Yields.pure hleft

/-- What a condition adds to a list of joined ones: what it joins itself, if by the same word. -/
def lifted (isAnd : Bool) (p : Predicate) : List Predicate :=
  match p with
  | .and inner => if isAnd then inner else [p]
  | .or inner => if isAnd then [p] else inner
  | p => [p]

theorem lifted_cases (isAnd : Bool) {p : Predicate} (h : p.wellFormed = true) :
    1 ≤ (lifted isAnd p).length ∧ forall q, q ∈ lifted isAnd p -> q.wellFormed = true := by
  have hself : 1 ≤ [p].length ∧ forall q, q ∈ [p] -> q.wellFormed = true := by
    simp [h]
  have hinner : forall {inner : List Predicate},
      (decide (2 ≤ inner.length) && wellFormedMembers inner) = true ->
      1 ≤ inner.length ∧ forall q, q ∈ inner -> q.wellFormed = true := by
    intro inner hinner
    rw [Bool.and_eq_true, decide_eq_true_eq, wellFormedMembers_iff] at hinner
    exact ⟨by omega, hinner.2⟩
  cases p with
  | and inner =>
      cases isAnd with
      | true =>
          exact hinner h
      | false =>
          exact hself
  | or inner =>
      cases isAnd with
      | true =>
          exact hself
      | false =>
          exact hinner h
  | _ =>
      exact hself

theorem length_le_length_lifted (isAnd : Bool) {items : List Predicate}
    (h : forall p, p ∈ items -> p.wellFormed = true) :
    items.length ≤ (items.flatMap (lifted isAnd)).length := by
  induction items with
  | nil =>
      exact Nat.zero_le _
  | cons p rest ih =>
      rw [List.forall_mem_cons] at h
      have hfirst := (lifted_cases isAnd h.1).1
      have hrest := ih h.2
      rw [List.flatMap_cons, List.length_append, List.length_cons]
      omega

theorem wellFormed_joined {items : List Predicate} (isAnd : Bool)
    (h : forall p, p ∈ items -> p.wellFormed = true) (hitems : items ≠ []) :
    (joined items isAnd).wellFormed = true := by
  cases items with
  | nil =>
      exact absurd rfl hitems
  | cons p others =>
      cases others with
      | nil =>
          exact h p List.mem_cons_self
      | cons q rest =>
          have hlength := length_le_length_lifted isAnd h
          have hmembers : wellFormedMembers ((p :: q :: rest).flatMap (lifted isAnd)) = true := by
            rw [wellFormedMembers_iff]
            intro r hr
            rcases List.mem_flatMap.mp hr with ⟨s, hs, hr⟩
            exact (lifted_cases isAnd (h s hs)).2 r hr
          have hjoined : (decide (2 ≤ ((p :: q :: rest).flatMap (lifted isAnd)).length) &&
              wellFormedMembers ((p :: q :: rest).flatMap (lifted isAnd))) = true := by
            rw [List.length_cons, List.length_cons] at hlength
            rw [hmembers, Bool.and_true, decide_eq_true_eq]
            omega
          cases isAnd with
          | true =>
              exact hjoined
          | false =>
              exact hjoined

section Operands

variable {inner : Inner} (hinner : Sound inner)
include hinner

theorem yields_argument : Yields (argument inner) (fun e => e.wellFormed = true) := by
  refine Yields.after fun star => ?_
  cases star with
  | true =>
      exact Yields.pure rfl
  | false =>
      exact hinner.scalar

theorem yields_callArguments (function : String) :
    Yields (callArguments inner function) (fun e => e.wellFormed = true) := by
  have hcall : forall distinct args, (forall e, e ∈ args -> e.wellFormed = true) ->
      (Scalar.call function distinct (withDatePart function args)).wellFormed = true := by
    intro distinct args hargs
    rw [Scalar.wellFormed, wellFormedAll_iff]
    exact wellFormed_withDatePart hargs
  refine Yields.after fun _ => ?_
  refine Yields.after fun distinct => ?_
  refine Yields.after fun c => ?_
  simp only
  split
  · refine Yields.ofPure ?_
    exact Yields.after fun _ => Yields.pure (hcall distinct [] (by simp))
  · refine Yields.bind (Yields.commaList (yields_argument hinner)) fun args hargs => ?_
    exact Yields.after fun _ => Yields.pure (hcall distinct args hargs)

theorem yields_caseElse :
    Yields (caseElse inner) (fun otherwise => wellFormedElse otherwise = true) := by
  refine Yields.after fun found => ?_
  cases found with
  | true =>
      refine Yields.bind (Yields.map hinner.scalar) fun otherwise hotherwise => ?_
      refine Yields.after fun _ => Yields.pure ?_
      rcases hotherwise with ⟨e, rfl, he⟩
      exact he
  | false =>
      exact Yields.ofPure (Yields.after fun _ => Yields.pure rfl)

theorem yields_caseBranch {α : Type} {good : α -> Prop} {p : Parser α} (hp : Yields p good) :
    Yields (caseBranch inner p) (fun w => good w.1 ∧ w.2.wellFormed = true) := by
  refine Yields.bind hp fun a ha => ?_
  refine Yields.after fun _ => ?_
  exact Yields.bind hinner.scalar fun e he => Yields.pure ⟨ha, he⟩

theorem yields_caseExpression :
    Yields (caseExpression inner) (fun e => e.wellFormed = true) := by
  refine Yields.after fun _ => ?_
  refine Yields.after fun c => ?_
  split
  · refine Yields.bind (Yields.many (yields_caseBranch hinner hinner.predicate))
      fun whens hwhens => ?_
    refine Yields.bind (yields_caseElse hinner) fun otherwise hotherwise => Yields.pure ?_
    rw [Scalar.wellFormed, wellFormedBranches_iff.mpr hwhens, hotherwise]
    rfl
  · refine Yields.bind hinner.scalar fun input hinput => ?_
    refine Yields.bind (Yields.many (yields_caseBranch hinner hinner.scalar))
      fun whens hwhens => ?_
    split
    · exact Yields.failHere
    · refine Yields.bind (yields_caseElse hinner) fun otherwise hotherwise => Yields.pure ?_
      rw [Scalar.wellFormed, hinput, wellFormedPairs_iff.mpr hwhens, hotherwise]
      rfl

theorem yields_wordOperand (t : Token) (pivot : Nat) :
    Yields (wordOperand inner t pivot) (fun e => e.wellFormed = true) := by
  rw [wordOperand]
  split
  · exact Yields.after fun _ => Yields.pure rfl
  · split
    · exact yields_caseExpression hinner
    · refine Yields.after fun c => ?_
      split
      · exact Yields.after fun _ => yields_callArguments hinner _
      · split
        · exact yields_columnReference
        · exact Yields.fail

theorem yields_parenthesized : Yields (parenthesized inner) (fun e => e.wellFormed = true) := by
  refine Yields.after fun _ => ?_
  refine Yields.bind hinner.scalar fun e he => ?_
  exact Yields.after fun _ => Yields.pure he

theorem yields_primary : Yields (primary inner) (fun e => e.wellFormed = true) := by
  refine Yields.after fun start => ?_
  refine Yields.after fun c => ?_
  split
  · exact Yields.fail
  · rename_i t _
    split
    · exact Yields.after fun _ => yields_numberLiteral _ _
    · exact Yields.after fun _ => Yields.pure rfl
    · split
      · exact yields_parenthesized hinner
      · split
        · exact Yields.after fun _ => Yields.pure rfl
        · exact Yields.fail
    · exact yields_wordOperand hinner t _
    · exact yields_columnReference

/-!
# Signs, products and sums
-/

theorem yields_signedOperand : Yields (signedOperand inner) (fun e => e.wellFormed = true) := by
  refine Yields.after fun minuses => ?_
  refine Yields.after fun _ => ?_
  refine Yields.bind (yields_primary hinner) fun e he => ?_
  refine Yields.after fun collated => ?_
  cases collated with
  | true =>
      refine Yields.after fun collation => ?_
      have hcollated : (Scalar.collate e collation).wellFormed = true := he
      exact Yields.ofPure (Yields.pure (wellFormed_signs minuses hcollated))
  | false =>
      exact Yields.ofPure (Yields.pure (wellFormed_signs minuses he))

theorem yields_product : Yields (product inner) (fun e => e.wellFormed = true) := by
  refine Yields.bind (yields_signedOperand hinner) fun left hleft => ?_
  exact Yields.after fun c => yields_chain (yields_signedOperand hinner) c.ahead hleft

theorem yields_sum : Yields (sum inner) (fun e => e.wellFormed = true) := by
  refine Yields.bind (yields_product hinner) fun left hleft => ?_
  exact Yields.after fun c => yields_chain (yields_product hinner) c.ahead hleft

/-!
# Conditions
-/

theorem yields_enclosed :
    Yields (enclosed inner) (fun found => forall p, found = some p -> p.wellFormed = true) := by
  have hnone : forall p, (none : Option Predicate) = some p -> p.wellFormed = true := by
    intro p hp
    cases hp
  refine Yields.after fun start => ?_
  split
  · refine Yields.after fun _ => ?_
    refine Yields.bind (Yields.attempt hinner.predicate) fun found hfound => ?_
    cases found with
    | some p =>
        refine Yields.after fun closed => ?_
        refine Yields.after fun c => ?_
        split
        · exact Yields.pure hfound
        · exact Yields.after fun _ => Yields.pure hnone
    | none =>
        exact Yields.after fun _ => Yields.pure hnone
  · exact Yields.pure hnone

theorem yields_containsCondition :
    Yields (containsCondition inner) (fun p => p.wellFormed = true) := by
  refine Yields.after fun c => ?_
  refine Yields.after fun _ => ?_
  refine Yields.after fun _ => ?_
  refine Yields.after fun e => ?_
  split
  · refine Yields.after fun _ => ?_
    refine Yields.bind (yields_sum hinner) fun wanted hwanted => ?_
    exact Yields.after fun _ => Yields.pure hwanted
  · exact Yields.fail

theorem yields_conditionTail {left : Scalar} (hleft : left.wellFormed = true) :
    Yields (conditionTail inner left) (fun p => p.wellFormed = true) := by
  refine Yields.after fun c => ?_
  refine Yields.after fun found => ?_
  cases found with
  | some op =>
      refine Yields.bind (yields_sum hinner) fun right hright => ?_
      exact Yields.pure (by rw [Predicate.wellFormed, hleft, hright]; rfl)
  | none =>
      refine Yields.after fun is => ?_
      cases is with
      | true =>
          refine Yields.after fun negated => ?_
          exact Yields.after fun _ => Yields.pure hleft
      | false =>
          refine Yields.after fun negated => ?_
          refine Yields.after fun isIn => ?_
          cases isIn with
          | true =>
              refine Yields.after fun _ => ?_
              refine Yields.bind (Yields.commaList (yields_sum hinner)) fun items hitems => ?_
              refine Yields.after fun _ => Yields.pure ?_
              rw [Predicate.wellFormed, hleft, wellFormedAll_iff.mpr hitems]
              rfl
          | false =>
              refine Yields.after fun isLike => ?_
              cases isLike with
              | true =>
                  refine Yields.bind (yields_sum hinner) fun pattern hpattern => ?_
                  exact Yields.pure (by rw [Predicate.wellFormed, hleft, hpattern]; rfl)
              | false =>
                  refine Yields.after fun isBetween => ?_
                  cases isBetween with
                  | true =>
                      refine Yields.bind (yields_sum hinner) fun low hlow => ?_
                      refine Yields.after fun _ => ?_
                      refine Yields.bind (yields_sum hinner) fun high hhigh => ?_
                      refine Yields.pure ?_
                      cases negated <;>
                        simp [Predicate.wellFormed, wellFormedMembers, hleft, hlow, hhigh]
                  | false =>
                      exact Yields.fail

theorem yields_condition : Yields (condition inner) (fun p => p.wellFormed = true) := by
  refine Yields.bind (yields_enclosed hinner) fun found hfound => ?_
  cases found with
  | some p =>
      exact Yields.pure (hfound p rfl)
  | none =>
      refine Yields.after fun c => ?_
      split
      · exact yields_containsCondition hinner
      · exact Yields.bind (yields_sum hinner) fun left hleft => yields_conditionTail hinner hleft

theorem yields_negation : Yields (negation inner) (fun p => p.wellFormed = true) := by
  refine Yields.after fun nots => ?_
  refine Yields.bind (yields_condition hinner) fun p hp => Yields.pure ?_
  induction nots generalizing p with
  | nil =>
      exact hp
  | cons _ nots ih =>
      exact ih (.not p) hp

theorem yields_conjunction : Yields (conjunction inner) (fun p => p.wellFormed = true) := by
  refine Yields.bind (yields_negation hinner) fun first hfirst => ?_
  refine Yields.bind (Yields.many (yields_negation hinner)) fun others hothers => ?_
  exact Yields.pure (wellFormed_joined true (List.forall_mem_cons.mpr ⟨hfirst, hothers⟩)
    (List.cons_ne_nil _ _))

theorem yields_disjunction : Yields (disjunction inner) (fun p => p.wellFormed = true) := by
  refine Yields.bind (yields_conjunction hinner) fun first hfirst => ?_
  refine Yields.bind (Yields.many (yields_conjunction hinner)) fun others hothers => ?_
  exact Yields.pure (wellFormed_joined false (List.forall_mem_cons.mpr ⟨hfirst, hothers⟩)
    (List.cons_ne_nil _ _))

end Operands

theorem sound_innerAt (tokens : List Token) : Sound (innerAt tokens) := by
  induction tokens with
  | nil =>
      exact ⟨Yields.failHere, Yields.failHere⟩
  | cons t tokens ih =>
      exact ⟨yields_sum ih, yields_disjunction ih⟩

/-- A parsed expression is well formed. -/
theorem wellFormed_scalar {c rest : Cursor} {e : Scalar} (h : scalar c = .ok e rest) :
    e.wellFormed = true :=
  Yields.after (fun start : Cursor => (sound_innerAt start.ahead).scalar) c e rest h

end Parser

end Sql
end RecordSql
