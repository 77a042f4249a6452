import RecordSql.Eval.Fold
import RecordSql.Proofs.Outcome

/-!
# Folded constants

Folding writes the value of an operation on literals as a literal again.  Times, identifiers and
doubles that are not numbers have no literal of their own; every other value comes back as it was.
Hence an expression means the same before and after, failures included, if no operation on constants
has a value without a literal.
-/

namespace RecordSql

open Sql (Predicate Scalar Truth)

namespace Value

/-- A literal can hold the value. -/
def hasLiteral : Value -> Bool
  | .float x => !x.isNaN
  | .dateTime _ => false
  | .guid _ => false
  | .ref _ => false
  | _ => true

theorem ofLiteral_toLiteral_iff (v : Value) :
    ofLiteral v.toLiteral = v <-> v.hasLiteral = true := by
  cases v with
  | float x =>
      rw [toLiteral, Sql.Literal.ofFloat, hasLiteral]
      cases x.isNaN <;> simp [ofLiteral]
  | _ =>
      simp [toLiteral, ofLiteral, hasLiteral, text]

end Value

namespace Sql

/-!
# Operations

Folding looks at calls, arithmetic and signs.  It does not look into a `CASE`, a collation or an
aggregate.
-/

mutual

/-- The expression is built of literals by operations alone. -/
def Scalar.isConstant : Scalar -> Bool
  | .literal _ => true
  | .call name distinct args =>
      !(Scalar.call name distinct args).isAggregate && areConstant args
  | .binary l _ r => l.isConstant && r.isConstant
  | .negate e => e.isConstant
  | _ => false

def areConstant : List Scalar -> Bool
  | [] => true
  | e :: rest => e.isConstant && areConstant rest

end

mutual

def Scalar.operations : Scalar -> List Scalar
  | .call name distinct args =>
      if (Scalar.call name distinct args).isAggregate then []
      else .call name distinct args :: operationsOfAll args
  | .binary l op r => .binary l op r :: (l.operations ++ r.operations)
  | .negate e => .negate e :: e.operations
  | _ => []

def operationsOfAll : List Scalar -> List Scalar
  | [] => []
  | e :: rest => e.operations ++ operationsOfAll rest

end

mutual

def Predicate.operations : Predicate -> List Scalar
  | .and items => operationsOfPredicates items
  | .or items => operationsOfPredicates items
  | .not p => p.operations
  | .compare l _ r => l.operations ++ r.operations
  | .isNull e _ => e.operations
  | .inList e items _ => e.operations ++ operationsOfAll items
  | .like e pattern _ => e.operations ++ pattern.operations
  | .contains _ wanted => wanted.operations
  | .const _ => []

def operationsOfPredicates : List Predicate -> List Scalar
  | [] => []
  | p :: rest => p.operations ++ operationsOfPredicates rest

end

end Sql

namespace Eval

variable {clock : Clock} {read : String -> Value}

/-- Whatever an operation on constants amounts to, a literal can hold it. -/
def LiteralValues (clock : Clock) (operations : List Scalar) : Prop :=
  forall e, e ∈ operations -> e.isConstant = true ->
    forall v, constant clock e = .ok v -> v.hasLiteral = true

theorem literalValues_cons {e : Scalar} {rest : List Scalar} :
    LiteralValues clock (e :: rest) <->
      (e.isConstant = true -> forall v, constant clock e = .ok v -> v.hasLiteral = true) ∧
        LiteralValues clock rest :=
  List.forall_mem_cons

theorem literalValues_append {front back : List Scalar} :
    LiteralValues clock (front ++ back) <->
      LiteralValues clock front ∧ LiteralValues clock back :=
  List.forall_mem_append

/-!
# Constants
-/

theorem fold_aggregate {name : String} {distinct : Bool} {args : List Scalar}
    (h : (Scalar.call name distinct args).isAggregate = true) :
    fold clock (.call name distinct args) = .call name distinct args := by
  rw [fold, if_pos h]

theorem fold_call {name : String} {distinct : Bool} {args : List Scalar}
    (h : (Scalar.call name distinct args).isAggregate = false) :
    fold clock (.call name distinct args) =
      if (foldAll clock args).all Scalar.isLiteral then
        literalOr clock (.call name distinct (foldAll clock args))
      else .call name distinct (foldAll clock args) := by
  rw [fold, h, if_neg Bool.false_ne_true]

mutual

/-- Only constants are folded to literals. -/
theorem isConstant_of_isLiteral_fold :
    forall e : Scalar, (fold clock e).isLiteral = true -> e.isConstant = true
  | .literal _ => fun _ => rfl
  | .column _ => fun h => h
  | .call name distinct args => by
      intro h
      cases haggregate : (Scalar.call name distinct args).isAggregate with
      | true =>
          rw [fold_aggregate haggregate] at h
          cases h
      | false =>
          rw [fold_call haggregate] at h
          split at h
          · rename_i hall
            rw [Scalar.isConstant, haggregate, areConstant_of_isLiteral_foldAll args hall]
            rfl
          · cases h
  | .binary l op r => by
      intro h
      rw [fold] at h
      split at h
      · rename_i hboth
        rw [Bool.and_eq_true] at hboth
        rw [Scalar.isConstant, isConstant_of_isLiteral_fold l hboth.1,
          isConstant_of_isLiteral_fold r hboth.2, Bool.and_true]
      · cases h
  | .negate e => by
      intro h
      rw [fold] at h
      split at h
      · rename_i hliteral
        exact isConstant_of_isLiteral_fold e hliteral
      · cases h
  | .searchedCase _ _ => fun h => h
  | .simpleCase _ _ _ => fun h => h
  | .collate _ _ => fun h => h
  | .star => fun h => h
  | .starOf _ => fun h => h

theorem areConstant_of_isLiteral_foldAll : forall args : List Scalar,
    (foldAll clock args).all Scalar.isLiteral = true -> Sql.areConstant args = true
  | [] => fun _ => rfl
  | e :: rest => by
      intro h
      rw [foldAll, List.all_cons, Bool.and_eq_true] at h
      rw [Sql.areConstant, isConstant_of_isLiteral_fold e h.1,
        areConstant_of_isLiteral_foldAll rest h.2, Bool.and_true]

end

theorem fold_of_isLiteral {e : Scalar} (h : e.isLiteral = true) : fold clock e = e := by
  cases e with
  | literal l =>
      rfl
  | _ =>
      cases h

theorem scalar_of_isLiteral {e : Scalar} (h : e.isLiteral = true) (read read' : String -> Value) :
    scalar clock read e = scalar clock read' e := by
  cases e with
  | literal l =>
      rfl
  | _ =>
      cases h

theorem scalars_of_isLiteral {args : List Scalar} (h : args.all Scalar.isLiteral = true)
    (read read' : String -> Value) : scalars clock read args = scalars clock read' args := by
  induction args with
  | nil =>
      rfl
  | cons e rest ih =>
      rw [List.all_cons, Bool.and_eq_true] at h
      rw [scalars, scalars, scalar_of_isLiteral h.1 read read', ih h.2]

/-- Exactly the values that have a literal are not changed by writing them as one. -/
theorem scalar_literalOr_iff {e : Scalar}
    (hread : forall read, scalar clock read e = constant clock e) :
    scalar clock read (literalOr clock e) = scalar clock read e <->
      forall v, constant clock e = .ok v -> v.hasLiteral = true := by
  unfold literalOr
  split
  · rename_i v hv
    rw [hread, hv, scalar, Except.ok.injEq, Value.ofLiteral_toLiteral_iff]
    constructor
    · intro h w hw
      cases hw
      exact h
    · intro h
      exact h v rfl
  · rename_i error herror
    constructor
    · intro _ v hv
      rw [herror] at hv
      cases hv
    · intro _
      rfl

/-!
# Values before and after
-/

theorem isCaseSensitive_literalOr (e : Scalar) (h : e.isCaseSensitive = false) :
    (literalOr clock e).isCaseSensitive = false := by
  unfold literalOr
  split
  · rfl
  · exact h

theorem isCaseSensitive_fold (e : Scalar) :
    (fold clock e).isCaseSensitive = e.isCaseSensitive := by
  cases e with
  | call name distinct args =>
      cases haggregate : (Scalar.call name distinct args).isAggregate with
      | true =>
          rw [fold_aggregate haggregate]
      | false =>
          rw [fold_call haggregate]
          split
          · exact isCaseSensitive_literalOr _ rfl
          · rfl
  | binary l op r =>
      rw [fold]
      split
      · exact isCaseSensitive_literalOr _ rfl
      · rfl
  | negate e =>
      rw [fold]
      split
      · exact isCaseSensitive_literalOr _ rfl
      · rfl
  | _ =>
      rw [fold]
      all_goals intros; contradiction

mutual

theorem scalar_fold : forall e : Scalar, LiteralValues clock e.operations ->
    forall read, scalar clock read (fold clock e) = scalar clock read e
  | .literal _ => fun _ _ => rfl
  | .column _ => fun _ _ => rfl
  | .call name distinct args => by
      intro h read
      cases haggregate : (Scalar.call name distinct args).isAggregate with
      | true =>
          rw [fold_aggregate haggregate]
      | false =>
          rw [Scalar.operations, haggregate, if_neg Bool.false_ne_true, literalValues_cons] at h
          have hargs : forall read, scalar clock read (.call name distinct (foldAll clock args)) =
              scalar clock read (.call name distinct args) := by
            intro read
            rw [scalar, scalar, scalars_foldAll args h.2 read]
          rw [fold_call haggregate]
          split
          · rename_i hall
            have hconstant : (Scalar.call name distinct args).isConstant = true := by
              rw [Scalar.isConstant, haggregate, areConstant_of_isLiteral_foldAll args hall]
              rfl
            rw [<- hargs read]
            refine (scalar_literalOr_iff fun read => ?_).mpr fun v hv => h.1 hconstant v ?_
            · rw [constant, scalar, scalar, scalars_of_isLiteral hall]
            · rw [constant, <- hargs]
              exact hv
          · exact hargs read
  | .binary l op r => by
      intro h read
      rw [Scalar.operations, literalValues_cons, literalValues_append] at h
      have hparts : forall read, scalar clock read (.binary (fold clock l) op (fold clock r)) =
          scalar clock read (.binary l op r) := by
        intro read
        rw [scalar, scalar, scalar_fold l h.2.1 read, scalar_fold r h.2.2 read]
      rw [fold]
      split
      · rename_i hboth
        rw [Bool.and_eq_true] at hboth
        have hconstant : (Scalar.binary l op r).isConstant = true := by
          rw [Scalar.isConstant, isConstant_of_isLiteral_fold l hboth.1,
            isConstant_of_isLiteral_fold r hboth.2, Bool.and_true]
        rw [<- hparts read]
        refine (scalar_literalOr_iff fun read => ?_).mpr fun v hv => h.1 hconstant v ?_
        · rw [constant, scalar, scalar, scalar_of_isLiteral hboth.1 read (fun _ => .null),
            scalar_of_isLiteral hboth.2 read (fun _ => .null)]
        · rw [constant, <- hparts]
          exact hv
      · exact hparts read
  | .negate e => by
      intro h read
      rw [Scalar.operations, literalValues_cons] at h
      have hpart : forall read, scalar clock read (.negate (fold clock e)) =
          scalar clock read (.negate e) := by
        intro read
        rw [scalar, scalar, scalar_fold e h.2 read]
      rw [fold]
      split
      · rename_i hliteral
        rw [<- hpart read]
        refine (scalar_literalOr_iff fun read => ?_).mpr fun v hv =>
          h.1 (isConstant_of_isLiteral_fold e hliteral) v ?_
        · rw [constant, scalar, scalar, scalar_of_isLiteral hliteral read (fun _ => .null)]
        · rw [constant, <- hpart]
          exact hv
      · exact hpart read
  | .searchedCase _ _ => fun _ _ => rfl
  | .simpleCase _ _ _ => fun _ _ => rfl
  | .collate _ _ => fun _ _ => rfl
  | .star => fun _ _ => rfl
  | .starOf _ => fun _ _ => rfl

theorem scalars_foldAll : forall args : List Scalar,
    LiteralValues clock (Sql.operationsOfAll args) ->
      forall read, scalars clock read (foldAll clock args) = scalars clock read args
  | [] => fun _ _ => rfl
  | e :: rest => by
      intro h read
      rw [Sql.operationsOfAll, literalValues_append] at h
      rw [foldAll, scalars, scalars, scalar_fold e h.1 read, scalars_foldAll rest h.2 read]

end

/-!
# Operations on literals alone
-/

theorem isLiteral_of_operations {e : Scalar} (hconstant : e.isConstant = true)
    (h : e.operations = []) : e.isLiteral = true := by
  cases e with
  | literal l =>
      rfl
  | call name distinct args =>
      rw [Scalar.isConstant, Bool.and_eq_true, Bool.not_eq_true'] at hconstant
      rw [Scalar.operations, hconstant.1, if_neg Bool.false_ne_true] at h
      cases h
  | binary l op r =>
      cases h
  | negate e =>
      cases h
  | _ =>
      cases hconstant

theorem foldAll_of_operations {args : List Scalar} (hconstant : Sql.areConstant args = true)
    (h : Sql.operationsOfAll args = []) :
    foldAll clock args = args ∧ args.all Scalar.isLiteral = true := by
  induction args with
  | nil =>
      exact ⟨rfl, rfl⟩
  | cons e rest ih =>
      rw [Sql.areConstant, Bool.and_eq_true] at hconstant
      rw [Sql.operationsOfAll, List.append_eq_nil_iff] at h
      rcases ih hconstant.2 h.2 with ⟨hrest, hall⟩
      have hliteral := isLiteral_of_operations hconstant.1 h.1
      rw [foldAll, hrest, List.all_cons, hliteral, hall, fold_of_isLiteral hliteral]
      exact ⟨rfl, rfl⟩

/-- An operation on literals alone keeps its value exactly if this has a literal. -/
theorem scalar_fold_iff {e : Scalar} (hconstant : e.isConstant = true) (h : e.operations = [e]) :
    scalar clock read (fold clock e) = scalar clock read e <->
      forall v, constant clock e = .ok v -> v.hasLiteral = true := by
  cases e with
  | call name distinct args =>
      rw [Scalar.isConstant, Bool.and_eq_true, Bool.not_eq_true'] at hconstant
      rw [Scalar.operations, hconstant.1, if_neg Bool.false_ne_true] at h
      rcases @foldAll_of_operations clock args hconstant.2 (List.cons.inj h).2 with ⟨hfold, hall⟩
      rw [fold_call hconstant.1, hfold, if_pos hall]
      refine scalar_literalOr_iff fun read => ?_
      rw [constant, scalar, scalar, scalars_of_isLiteral hall]
  | binary l op r =>
      rw [Scalar.isConstant, Bool.and_eq_true] at hconstant
      rw [Scalar.operations, List.cons.injEq, List.append_eq_nil_iff] at h
      have hl := isLiteral_of_operations hconstant.1 h.2.1
      have hr := isLiteral_of_operations hconstant.2 h.2.2
      rw [fold, fold_of_isLiteral hl, fold_of_isLiteral hr, hl, hr]
      refine scalar_literalOr_iff fun read => ?_
      rw [constant, scalar, scalar, scalar_of_isLiteral hl read (fun _ => .null),
        scalar_of_isLiteral hr read (fun _ => .null)]
  | negate e =>
      have hoperand : e.isConstant = true := hconstant
      have hliteral := isLiteral_of_operations hoperand (List.cons.inj h).2
      rw [fold, fold_of_isLiteral hliteral, hliteral]
      refine scalar_literalOr_iff fun read => ?_
      rw [constant, scalar, scalar, scalar_of_isLiteral hliteral read (fun _ => .null)]
  | _ =>
      cases h

/-!
# Conditions before and after
-/

theorem memberOf_foldAll (v : Value) (items : List Scalar) (sofar : Truth)
    (h : LiteralValues clock (Sql.operationsOfAll items)) :
    memberOf clock read v sofar (foldAll clock items) = memberOf clock read v sofar items := by
  induction items generalizing sofar with
  | nil =>
      rfl
  | cons e rest ih =>
      rw [Sql.operationsOfAll, literalValues_append] at h
      rw [foldAll, memberOf, memberOf, scalar_fold e h.1 read]
      simp only [ih _ h.2]

mutual

theorem predicate_foldPredicate : forall p : Predicate, LiteralValues clock p.operations ->
    predicate clock read (foldPredicate clock p) = predicate clock read p
  | .and items => fun h => allOf_foldPredicates items .isTrue h
  | .or items => fun h => anyOf_foldPredicates items .isFalse h
  | .not p => by
      intro h
      rw [foldPredicate, predicate, predicate, predicate_foldPredicate p h]
  | .compare l op r => by
      intro h
      rw [Predicate.operations, literalValues_append] at h
      rw [foldPredicate, predicate, predicate, scalar_fold l h.1, scalar_fold r h.2,
        isCaseSensitive_fold, isCaseSensitive_fold]
  | .isNull e negated => by
      intro h
      rw [foldPredicate, predicate, predicate, scalar_fold e h]
  | .inList e items negated => by
      intro h
      rw [Predicate.operations, literalValues_append] at h
      rw [foldPredicate, predicate, predicate, scalar_fold e h.1]
      simp only [memberOf_foldAll _ items _ h.2]
  | .like e pattern negated => by
      intro h
      rw [Predicate.operations, literalValues_append] at h
      rw [foldPredicate, predicate, predicate, scalar_fold e h.1, scalar_fold pattern h.2]
  | .contains c wanted => by
      intro h
      rw [foldPredicate, predicate, predicate, scalar_fold wanted h]
  | .const _ => fun _ => rfl

theorem allOf_foldPredicates : forall (items : List Predicate) (sofar : Truth),
    LiteralValues clock (Sql.operationsOfPredicates items) ->
      allOf clock read sofar (foldPredicates clock items) = allOf clock read sofar items
  | [] => fun _ _ => rfl
  | p :: rest => by
      intro sofar h
      rw [Sql.operationsOfPredicates, literalValues_append] at h
      rw [foldPredicates, allOf, allOf, predicate_foldPredicate p h.1]
      simp only [allOf_foldPredicates rest _ h.2]

theorem anyOf_foldPredicates : forall (items : List Predicate) (sofar : Truth),
    LiteralValues clock (Sql.operationsOfPredicates items) ->
      anyOf clock read sofar (foldPredicates clock items) = anyOf clock read sofar items
  | [] => fun _ _ => rfl
  | p :: rest => by
      intro sofar h
      rw [Sql.operationsOfPredicates, literalValues_append] at h
      rw [foldPredicates, anyOf, anyOf, predicate_foldPredicate p h.1]
      simp only [anyOf_foldPredicates rest _ h.2]

end

/--
Expressions and conditions whose constant operations have values with literals mean the same after
folding, failures included; for an operation on literals alone this is also needed.
-/
theorem folding_keeps_meaning (clock : Clock) (read : String -> Value) (e : Scalar) (p : Predicate) :
    (LiteralValues clock e.operations ->
      scalar clock read (fold clock e) = scalar clock read e) ∧
    (LiteralValues clock p.operations ->
      predicate clock read (foldPredicate clock p) = predicate clock read p) ∧
    (e.isConstant = true -> e.operations = [e] ->
      scalar clock read (fold clock e) = scalar clock read e ->
        LiteralValues clock e.operations) := by
  refine ⟨fun h => scalar_fold e h read, fun h => predicate_foldPredicate p h, ?_⟩
  intro hconstant honly hkept
  rw [honly, literalValues_cons]
  exact ⟨fun _ => (scalar_fold_iff hconstant honly).mp hkept, fun _ h => by cases h⟩

theorem isDay_millennium : Calendar.IsDay 2000 1 1 := by
  decide

def millennium : Clock :=
  ⟨.midnight ⟨2000, 1, 1, isDay_millennium⟩, .midnight ⟨2000, 1, 1, isDay_millennium⟩⟩

/-- `name + ('Ma' + 'rk')` -/
def nameMark : Scalar :=
  .binary (.column (.ofName "name")) .add
    (.binary (.literal (.str "Ma")) .add (.literal (.str "rk")))

/-- `DATEADD(day, 1, '2020-01-01')` -/
def nextDay : Scalar :=
  .call "DATEADD" false
    [.literal (.str "day"), .literal (.int 1), .literal (.str "2020-01-01")]

/-- Joined texts are folded without a change of meaning; a time becomes a text. -/
theorem folding_nameMark :
    LiteralValues millennium nameMark.operations ∧
    scalar millennium (fun _ => .str "Dr ") (fold millennium nameMark) = .ok (.str "Dr Mark") ∧
    predicate millennium (fun _ => .str "Dr ") (foldPredicate millennium (.isNull nameMark true)) =
      .ok .isTrue ∧
    scalar millennium (fun _ => .null) (fold millennium nextDay) ≠
      scalar millennium (fun _ => .null) nextDay := by
  have hmark : LiteralValues millennium nameMark.operations := by
    rw [nameMark, Scalar.operations, literalValues_cons]
    constructor
    · intro h
      cases h
    · intro e he _ v hv
      rcases List.mem_singleton.mp he with rfl
      cases hv
      rfl
  have hday : (constant millennium nextDay).toOption.any Value.isDateTime = true := by
    decide +kernel
  have htheorem := folding_keeps_meaning millennium (fun _ => .str "Dr ") nameMark
    (.isNull nameMark true)
  refine ⟨hmark, (htheorem.1 hmark).trans rfl, (htheorem.2.1 hmark).trans rfl, ?_⟩
  intro hkept
  have hvalues := (folding_keeps_meaning millennium (fun _ => .null) nextDay (.const .isTrue)).2.2
    rfl rfl hkept
  cases hv : constant millennium nextDay with
  | error e =>
      rw [hv] at hday
      cases hday
  | ok v =>
      have hliteral := hvalues nextDay (List.mem_singleton_self _) rfl v hv
      rw [hv] at hday
      cases v with
      | dateTime t =>
          cases hliteral
      | _ =>
          cases hday

end Eval

end RecordSql
