import RecordSql.Proofs.FilterAgreement
import RecordSql.Proofs.WholeDoubles

/-!
# Native tests of whole numbers

A native condition holds its number as a text, and a whole number is compared with a text as a
double.  So the platform decides a test with the doubles of both numbers, where local evaluation
decides it with the numbers themselves.
-/

namespace RecordSql

open Number (fits intText nearestInt)
open Sql (Column Comparison Predicate Scalar Truth)

namespace Value

theorem compare_int_str (v : Int) (s : String) :
    Value.compare false (.int v) (.str s) = compareNumbers (.int v) (.str s) :=
  rfl

theorem compare_int_intText {v i : Int} (hv : fits v = true) (hi : fits i = true) :
    Value.compare false (.int v) (.str (intText i)) =
      some (Ord.compare (nearestInt v) (nearestInt i)) := by
  rcases Number.readFloat_intText hi with ⟨y, hread, hy⟩
  rw [compare_int_str, compareNumbers, asFloat, asFloat, Number.trim_intText, hread]
  exact Number.compareFloat_of_shows (Number.shows_floatOfInt hv) hy

theorem compare_beq_eq (i j : Int) : (Ord.compare i j == .eq) = (i == j) := by
  rw [Bool.eq_iff_iff, beq_iff_eq, beq_iff_eq]
  exact Int.compare_eq_eq

/-- A value that is compared as a number is searched for as that number. -/
theorem any_equals {v : Value} {n : Int} {items : List Int} {written : Int -> Value}
    {near : Int -> Int}
    (h : forall i, i ∈ items -> v.compare false (written i) = some (Ord.compare n (near i))) :
    (items.any fun i => v.equals false (written i) == some true) =
      items.any fun i => n == near i := by
  rw [Bool.eq_iff_iff, List.any_eq_true, List.any_eq_true]
  refine exists_congr fun i => and_congr_right fun hi => ?_
  rw [equals, h i hi, Option.map_some, compare_beq_eq]
  cases n == near i <;> decide

end Value

/-- A test of a column with whole numbers; the number of a comparison stands on either side. -/
inductive IntegerTest where
  | compare (op : Comparison) (i : Int)
  | compareFrom (i : Int) (op : Comparison)
  | oneOf (items : List Int) (negated : Bool)

namespace IntegerTest

def predicate (c : Column) : IntegerTest -> Predicate
  | .compare op i => .compare (.column c) op (.literal (.int i))
  | .compareFrom i op => .compare (.literal (.int i)) op (.column c)
  | .oneOf items negated => .inList (.column c) (items.map fun i => .literal (.int i)) negated

def condition (name : String) : IntegerTest -> Fetch.Condition
  | .compare op i => .single name (.compare op) (some (intText i))
  | .compareFrom i op => .single name (.compare op.swapped) (some (intText i))
  | .oneOf items negated => .multiple name (.oneOf negated) (items.map intText)

def numbers : IntegerTest -> List Int
  | .compare _ i => [i]
  | .compareFrom i _ => [i]
  | .oneOf items _ => items

/-- What a test decides about a number, when every number is replaced. -/
def accepts (near : Int -> Int) (v : Int) : IntegerTest -> Bool
  | .compare op i => op.accepts (Ord.compare (near v) (near i))
  | .compareFrom i op => op.accepts (Ord.compare (near i) (near v))
  | .oneOf items negated => items.any (fun i => near v == near i) != negated

/-- No number of the test has the double of the given one, unless it is that number. -/
def Separates (t : IntegerTest) (v : Int) : Prop :=
  forall i, i ∈ t.numbers -> v = i ∨ nearestInt v ≠ nearestInt i

theorem separates_of_small {t : IntegerTest} {v : Int} (hv : v.natAbs ≤ 2 ^ 53)
    (ht : forall i, i ∈ t.numbers -> i.natAbs ≤ 2 ^ 53) : t.Separates v := by
  intro i hi
  rw [Number.nearestInt_of_natAbs_le hv, Number.nearestInt_of_natAbs_le (ht i hi)]
  exact Decidable.em (v = i)

theorem accepts_nearestInt {t : IntegerTest} {v : Int} (h : t.Separates v) :
    t.accepts nearestInt v = t.accepts id v := by
  cases t with
  | compare op i =>
      rw [accepts, Number.compare_nearestInt (h i (List.mem_singleton_self i))]
      rfl
  | compareFrom i op =>
      have hswapped : i = v ∨ nearestInt i ≠ nearestInt v :=
        (h i (List.mem_singleton_self i)).imp Eq.symm Ne.symm
      rw [accepts, Number.compare_nearestInt hswapped]
      rfl
  | oneOf items negated =>
      have hsame : forall i, i ∈ items -> (nearestInt v == nearestInt i) = (v == i) := by
        intro i hi
        rcases h i hi with rfl | hne
        · rw [BEq.rfl, BEq.rfl]
        · rw [beq_eq_false_iff_ne.mpr hne, beq_eq_false_iff_ne.mpr fun heq => hne (congrArg _ heq)]
      have hany : items.any (fun i => nearestInt v == nearestInt i) = items.any (v == ·) := by
        rw [Bool.eq_iff_iff, List.any_eq_true, List.any_eq_true]
        exact exists_congr fun i => and_congr_right fun hi => by rw [hsame i hi]
      rw [accepts, hany]
      rfl

end IntegerTest

/-!
# Deciding a test
-/

namespace IntegerTest

open Fetch (Joined)

variable {now : Calendar.DateTime} {clock : Clock} {v : Int}

theorem accepts_swapped_compare (op : Comparison) (i j : Int) :
    op.swapped.accepts (Ord.compare i j) = op.accepts (Ord.compare j i) := by
  rw [<- Comparison.accepts_swapped op (Ord.compare j i)]
  congr 1
  exact Std.OrientedCmp.eq_swap

/-- The platform decides a test of a column with the doubles. -/
theorem holds_condition {front name : String} {row : Joined}
    (hrow : row.get (front ++ name) = .int v) (hv : fits v = true) (t : IntegerTest)
    (ht : forall i, i ∈ t.numbers -> fits i = true) :
    Fetch.conditionHolds now front row (t.condition name) = .ok (t.accepts nearestInt v) := by
  have hcompare : forall (op : Comparison) i, fits i = true ->
      Fetch.conditionHolds now front row (.single name (.compare op) (some (intText i))) =
        .ok (op.accepts (Ord.compare (nearestInt v) (nearestInt i))) := by
    intro op i hi
    have hother : Fetch.operand front row (.single name (.compare op) (some (intText i))) =
        .str (intText i) := rfl
    rw [Fetch.conditionHolds_compare rfl, hother]
    simp only [Fetch.Condition.single, hrow, Value.compare_int_intText hv hi, Option.any_some]
  cases t with
  | compare op i =>
      exact hcompare op i (ht i (List.mem_singleton_self i))
  | compareFrom i op =>
      rw [accepts, <- accepts_swapped_compare]
      exact hcompare op.swapped i (ht i (List.mem_singleton_self i))
  | oneOf items negated =>
      have hany : (items.map intText).any (fun s => Value.equals false (.int v) (.str s) == some true) =
          items.any fun i => nearestInt v == nearestInt i := by
        rw [List.any_map]
        exact Value.any_equals fun i hi => Value.compare_int_intText hv (ht i hi)
      simp only [Fetch.conditionHolds, condition, Fetch.Condition.multiple, hrow, Value.isNull,
        Bool.false_eq_true, if_false, Fetch.accepts, hany, accepts]

/-- Local evaluation decides a test of a column with the numbers. -/
theorem predicate_eq {read : String -> Value} {c : Column}
    (hc : Eval.scalar clock read (.column c) = .ok (.int v)) (t : IntegerTest) :
    Eval.predicate clock read (t.predicate c) = .ok (.ofBool (t.accepts id v)) := by
  cases t with
  | compare op i =>
      rw [predicate, Eval.predicate, hc]
      rfl
  | compareFrom i op =>
      rw [predicate, Eval.predicate, hc]
      rfl
  | oneOf items negated =>
      have hcompare : forall l, l ∈ items.map Sql.Literal.int ->
          exists o, Value.compare false (.int v) (.ofLiteral l) = some o := by
        intro l hl
        rcases List.mem_map.mp hl with ⟨i, _, rfl⟩
        exact ⟨_, rfl⟩
      have hany : (items.map Sql.Literal.int).any (fun l =>
          Value.equals false (.int v) (.ofLiteral l) == some true) = items.any (v == ·) := by
        rw [List.any_map]
        exact Value.any_equals fun i _ => rfl
      have hmember : Eval.memberOf clock read (.int v) .isFalse
          ((items.map Sql.Literal.int).map .literal) = _ := Eval.memberOf_map_literal hcompare
      rw [List.map_map, hany] at hmember
      simp only [predicate, Eval.predicate, hc, Outcome.ok_bind]
      rw [show (fun i => Scalar.literal (.int i)) = Scalar.literal ∘ Sql.Literal.int from rfl, hmember]
      change Except.ok (Truth.negateIf negated (.ofBool (items.any (v == ·)))) =
        .ok (.ofBool (items.any (v == ·) != negated))
      cases negated <;> cases items.any (v == ·) <;> rfl

end IntegerTest

/-!
# Native forms of tests
-/

namespace Plan

open Fetch (Joined itemHolds)

namespace Context

variable {ctx : Context} {c : Column} {b : Bound} {found : Native}

theorem literalTexts_numbers {accept : Sql.Literal -> Bool} {items : List Int} {texts : List String}
    (h : ctx.literalTexts accept (items.map fun i => .literal (.int i)) = .ok (some texts)) :
    texts = items.map intText := by
  have hforall := List.forall₂_map_left_iff.mp (literalTexts_forall₂ h)
  have htexts : List.Forall₂ (fun i text => intText i = text) items texts := by
    refine hforall.imp fun i text hitem => ?_
    rcases hitem with ⟨l, ⟨⟩, _, htext⟩
    exact Option.some.inj htext
  rw [<- List.forall₂_map_left_iff, List.forall₂_eq_eq_eq] at htexts
  exact htexts.symm

/-- The native form of a test is a condition on the column. -/
theorem native_test {t : IntegerTest} (h : ctx.native (t.predicate c) = .ok (some found)) :
    exists b, ctx.resolve c = .ok (some b) ∧ found = ⟨b.scope, .inl (t.condition b.name)⟩ := by
  have hresolve : forall b, ctx.operand (.column c) = .ok (.column b) ->
      ctx.resolve c = .ok (some b) := by
    intro b hb
    rcases resolve_of_operand hb with ⟨_, ⟨⟩, hfound⟩
    exact hfound
  cases t with
  | compare op i =>
      cases native_form h with
      | @columnLiteral _ _ _ b _ text hb hl htext _ =>
          cases hl
          cases htext
          exact ⟨b, hresolve b hb, rfl⟩
      | literalColumn _ hr _ _ | columns _ hr _ =>
          cases hr
  | compareFrom i op =>
      cases native_form h with
      | @literalColumn _ _ _ b _ text hl hb htext _ =>
          cases hl
          cases htext
          exact ⟨b, hresolve b hb, rfl⟩
      | columnLiteral hl _ _ _ | columns hl _ _ =>
          cases hl
  | oneOf items negated =>
      cases native_form h with
      | @inList _ _ _ b _ hb htexts =>
          cases literalTexts_numbers htexts
          exact ⟨b, hresolve b hb, rfl⟩

theorem qualifyList_numbers (items : List Int) :
    ctx.qualifyList (items.map fun i => .literal (.int i)) =
      .ok (items.map fun i => .literal (.int i)) := by
  refine qualifyList_eq_ok.mpr (List.forall₂_same.mpr fun e he => ?_)
  rcases List.mem_map.mp he with ⟨i, _, rfl⟩
  rfl

theorem qualifyPredicate_test (h : ctx.resolve c = .ok (some b)) (t : IntegerTest) :
    ctx.qualifyPredicate (t.predicate c) = .ok (t.predicate (ctx.scopes.qualified b)) := by
  have hcolumn := qualify_eq_ok.mpr (.column h)
  cases t with
  | compare op i =>
      exact qualifyPredicate_eq_ok.mpr (.compare hcolumn rfl)
  | compareFrom i op =>
      exact qualifyPredicate_eq_ok.mpr (.compare rfl hcolumn)
  | oneOf items negated =>
      exact qualifyPredicate_eq_ok.mpr (.inList hcolumn (qualifyList_numbers items))

/-- A native test holds on a row when the double of its number passes, and the test itself is true
when the number does.  The two agree unless a number of the test has the double of another number. -/
theorem integer_test_decided (now : Calendar.DateTime) (clock : Clock) {t : IntegerTest}
    (ht : forall i, i ∈ t.numbers -> fits i = true)
    (h : ctx.native (t.predicate c) = .ok (some found)) :
    exists b q, ctx.resolve c = .ok (some b) ∧ ctx.qualifyPredicate (t.predicate c) = .ok q ∧
      forall (row : Joined) v, row.get (ctx.scopes.rowKey b) = .int v -> fits v = true ->
        itemHolds now (ctx.scopes.front found.scope) row found.item =
          .ok (t.accepts nearestInt v) ∧
        Eval.predicate clock row.get q = .ok (.ofBool (t.accepts id v)) ∧
        (t.Separates v ->
          (itemHolds now (ctx.scopes.front found.scope) row found.item = .ok true <->
            Eval.predicate clock row.get q = .ok .isTrue)) := by
  rcases native_test h with ⟨b, hb, rfl⟩
  refine ⟨b, _, hb, qualifyPredicate_test hb t, ?_⟩
  intro row v hrow hv
  have hholds : itemHolds now (ctx.scopes.front b.scope) row (.inl (t.condition b.name)) =
      .ok (t.accepts nearestInt v) :=
    IntegerTest.holds_condition (by rw [get_front, hrow]) hv t ht
  have heval : Eval.predicate clock row.get (t.predicate (ctx.scopes.qualified b)) =
      .ok (.ofBool (t.accepts id v)) :=
    IntegerTest.predicate_eq (congrArg Except.ok hrow) t
  refine ⟨hholds, heval, ?_⟩
  intro hseparates
  rw [hholds, heval, IntegerTest.accepts_nearestInt hseparates]
  cases t.accepts id v <;> decide

end Context

/-!
# Meters

A meter has counted to the first number after which only every other one is a double.
-/

def meter : TableDef :=
  (TableDef.ofKey "meter" "meterid").withAttribute (.ofType "count" .bigInt)

def meterContext : Context where
  options := ⟨true, true⟩
  scopes := [⟨"meter", meter, [], false⟩]
  fetch := .ofTable "meter"

def meterRow (count : Int) : Joined :=
  ⟨none, .ofList [("count", .int count)]⟩

def countColumn : Column :=
  .inCollection "meter" "count"

/-- The number after that of the meter passes for it, but not in a test of the numbers before. -/
theorem meter_tests_decided :
    (exists found q, meterContext.native
        (IntegerTest.predicate countColumn (.compare .eq 9007199254740993)) = .ok (some found) ∧
      meterContext.qualifyPredicate
        (IntegerTest.predicate countColumn (.compare .eq 9007199254740993)) = .ok q ∧
      itemHolds newYear (meterContext.scopes.front found.scope) (meterRow 9007199254740992)
        found.item = .ok true ∧
      Eval.predicate ⟨newYear, newYear⟩ (meterRow 9007199254740992).get q = .ok .isFalse) ∧
    exists found q, meterContext.native
        (IntegerTest.predicate countColumn (.oneOf [7, 9007199254740991] true)) =
          .ok (some found) ∧
      meterContext.qualifyPredicate
        (IntegerTest.predicate countColumn (.oneOf [7, 9007199254740991] true)) = .ok q ∧
      (itemHolds newYear (meterContext.scopes.front found.scope) (meterRow 9007199254740992)
          found.item = .ok true <->
        Eval.predicate ⟨newYear, newYear⟩ (meterRow 9007199254740992).get q = .ok .isTrue) := by
  constructor
  · have hnative : meterContext.native
        (IntegerTest.predicate countColumn (.compare .eq 9007199254740993)) =
          .ok (some ⟨0, .inl (.single "count" (.compare .eq) (some "9007199254740993"))⟩) := rfl
    rcases Context.integer_test_decided newYear ⟨newYear, newYear⟩ (by decide) hnative with
      ⟨b, q, hb, hq, hrows⟩
    cases hb
    rcases hrows (meterRow 9007199254740992) 9007199254740992 rfl (by decide) with
      ⟨hholds, heval, _⟩
    refine ⟨_, q, hnative, hq, ?_, ?_⟩
    · rw [hholds]
      decide +kernel
    · rw [heval]
      decide
  · have hnative : meterContext.native
        (IntegerTest.predicate countColumn (.oneOf [7, 9007199254740991] true)) =
          .ok (some ⟨0, .inl (.multiple "count" (.oneOf true) ["7", "9007199254740991"])⟩) := rfl
    rcases Context.integer_test_decided newYear ⟨newYear, newYear⟩ (by decide) hnative with
      ⟨b, q, hb, hq, hrows⟩
    cases hb
    rcases hrows (meterRow 9007199254740992) 9007199254740992 rfl (by decide) with ⟨_, _, hagree⟩
    exact ⟨_, q, hnative, hq, hagree (IntegerTest.separates_of_small (by decide) (by decide))⟩

end Plan

end RecordSql
