import Mathlib.Data.List.Forall2
import RecordSql.Fetch.Evaluate
import RecordSql.Plan.Filter
import RecordSql.Proofs.Binding
import RecordSql.Proofs.GuidText
import RecordSql.Proofs.NativeForms
import RecordSql.Proofs.Qualification
import RecordSql.Proofs.ValueOrder

/-!
# Native and local conditions agree

A condition is decided in two ways.  The platform decides its native form with two truth values; a
local step evaluates the condition itself with three.  On columns of texts, times and identifiers
both ways keep the same rows: the native form holds exactly when the condition is true.
-/

namespace RecordSql

open Sql (Column Comparison Literal Predicate Scalar Truth)

/-!
# Values of a type

Texts, times and identifiers are compared as what they are, by the platform as well as locally.
-/

namespace AttributeType

def isExact (t : AttributeType) : Bool :=
  t.isString || t == .dateTime || t.isIdentifier

/-- The value is missing or of the kind that attributes of the type hold. -/
def Holds (t : AttributeType) : Value -> Prop
  | .null => True
  | .str _ => t.isString = true
  | .dateTime _ => t = .dateTime
  | .guid _ => t.isIdentifier = true
  | .ref _ => t.isIdentifier = true
  | _ => False

end AttributeType

namespace Value

open AttributeType (Holds)

theorem compareText_swap {caseSensitive : Bool} (a b : String) :
    compareText caseSensitive a b = (compareText caseSensitive b a).swap := by
  unfold compareText
  split <;> exact Std.OrientedCmp.eq_swap

theorem compareDateTimes_swap (a b : Value) :
    compareDateTimes a b = (compareDateTimes b a).map Ordering.swap := by
  unfold compareDateTimes
  cases a.asDateTime with
  | none =>
      cases b.asDateTime <;> rfl
  | some s =>
      cases b.asDateTime with
      | none =>
          rfl
      | some t =>
          exact congrArg some Std.OrientedCmp.eq_swap

theorem compareGuids_swap (a b : Value) :
    compareGuids a b = (compareGuids b a).map Ordering.swap := by
  unfold compareGuids
  cases a.asGuid with
  | none =>
      cases b.asGuid <;> rfl
  | some g =>
      cases b.asGuid with
      | none =>
          rfl
      | some h =>
          exact congrArg some Std.OrientedCmp.eq_swap

/-- With the operands of a comparison swapped, its outcome is swapped. -/
theorem compare_str_swap {type : AttributeType} {v : Value} (h : type.Holds v) (s : String) :
    (Value.str s).compare false v = (v.compare false (.str s)).map Ordering.swap := by
  cases v with
  | null =>
      rfl
  | str t =>
      exact congrArg some (compareText_swap s t)
  | dateTime t =>
      exact compareDateTimes_swap (.str s) (.dateTime t)
  | guid g =>
      exact compareGuids_swap (.str s) (.guid g)
  | ref r =>
      exact compareGuids_swap (.str s) (.ref r)
  | bool b =>
      exact absurd h id
  | int i =>
      exact absurd h id
  | float x =>
      exact absurd h id

end Value

namespace Plan

open AttributeType (Holds)

theorem guid_of_acceptsLiteral {type : AttributeType} {s : String}
    (htype : type.isIdentifier = true) (h : acceptsLiteral type (.str s) = true) :
    exists g, (Value.str s).asGuid = some g := by
  have hother : type.isNumeric = false ∧ type.isOption = false ∧ (type == .dateTime) = false := by
    cases type <;> first | exact ⟨rfl, rfl, rfl⟩ | cases htype
  have hread : (Guid.read s).isSome = true := by
    simpa [acceptsLiteral, hother, htype] using h
  rcases Option.isSome_iff_exists.mp hread with ⟨g, hg⟩
  refine ⟨g, ?_⟩
  change Guid.read (Text.trim s) = some g
  rw [Guid.trim_of_read hg, hg]

/-- A text that the platform accepts for a type can be compared with every value of the type. -/
theorem compare_isSome {type : AttributeType} {v : Value} {s : String} (h : type.Holds v)
    (hv : v.isNull = false) (haccepts : acceptsLiteral type (.str s) = true) :
    exists o, v.compare false (.str s) = some o := by
  cases v with
  | null =>
      cases hv
  | str t =>
      exact ⟨_, rfl⟩
  | dateTime t =>
      have htype : type = .dateTime := h
      subst htype
      have hread : (Calendar.DateTime.read s).isSome = true := haccepts
      rcases Option.isSome_iff_exists.mp hread with ⟨u, hu⟩
      refine ⟨t.compare u, ?_⟩
      change Value.compareDateTimes (.dateTime t) (.str s) = _
      simp [Value.compareDateTimes, Value.asDateTime, hu]
  | guid g =>
      rcases guid_of_acceptsLiteral h haccepts with ⟨k, hk⟩
      refine ⟨g.compare k, ?_⟩
      change Value.compareGuids (.guid g) (.str s) = _
      rw [Value.compareGuids, hk]
      rfl
  | ref r =>
      rcases guid_of_acceptsLiteral h haccepts with ⟨k, hk⟩
      refine ⟨r.id.compare k, ?_⟩
      change Value.compareGuids (.ref r) (.str s) = _
      rw [Value.compareGuids, hk]
      rfl
  | bool b =>
      exact absurd h id
  | int i =>
      exact absurd h id
  | float x =>
      exact absurd h id

end Plan

/-!
# Deciding an item of a filter
-/

namespace Fetch

open Calendar (DateTime)

def itemHolds (now : DateTime) (front : String) (row : Joined) :
    Condition ⊕ Filter -> Except PlatformError Bool
  | .inl c => conditionHolds now front row c
  | .inr f => filterHolds now front row f

variable {now : DateTime} {front : String} {row : Joined}

theorem allHold_cons (item : Condition ⊕ Filter) (rest : List (Condition ⊕ Filter)) :
    allHold now front row (item :: rest) = (do
      if <- itemHolds now front row item then allHold now front row rest else return false) := by
  cases item <;> rfl

theorem anyHolds_cons (item : Condition ⊕ Filter) (rest : List (Condition ⊕ Filter)) :
    anyHolds now front row (item :: rest) = (do
      if <- itemHolds now front row item then return true else anyHolds now front row rest) := by
  cases item <;> rfl

theorem filterHolds_all (items : List (Condition ⊕ Filter)) :
    filterHolds now front row ⟨.all, items⟩ = allHold now front row items := by
  rw [filterHolds]

theorem filterHolds_any {items : List (Condition ⊕ Filter)} (h : items ≠ []) :
    filterHolds now front row ⟨.any, items⟩ = anyHolds now front row items := by
  cases items with
  | nil =>
      exact absurd rfl h
  | cons item rest =>
      rw [filterHolds]
      simp

theorem conditionHolds_compare {c : Condition} {op : Comparison} (h : c.operator = .compare op) :
    conditionHolds now front row c =
      .ok (((row.get (front ++ c.column)).compare false (operand front row c)).any op.accepts) := by
  cases hv : row.get (front ++ c.column) with
  | null =>
      simp [conditionHolds, h, hv, Value.isNull, Value.compare]
  | _ =>
      simp [conditionHolds, h, hv, Value.isNull, accepts]

end Fetch

/-!
# Evaluating leaves

On a missing value every comparison is unknown, and so are membership and likeness.
-/

namespace Eval

variable {clock : Clock} {read : String -> Value}

theorem holds_compareTruth (a b : Value) (op : Comparison) :
    (compareTruth false a op b).holds = (a.compare false b).any op.accepts := by
  unfold compareTruth
  cases a.compare false b with
  | none =>
      rfl
  | some o =>
      cases h : op.accepts o <;> simp [h, Truth.ofBool, Truth.holds]

theorem memberOf_map_literal {v : Value} {ls : List Literal}
    (h : forall l, l ∈ ls -> exists o, v.compare false (.ofLiteral l) = some o) :
    memberOf clock read v .isFalse (ls.map .literal) =
      .ok (.ofBool (ls.any fun l => v.equals false (.ofLiteral l) == some true)) := by
  induction ls with
  | nil =>
      rfl
  | cons l rest ih =>
      rcases h l (List.mem_cons_self ..) with ⟨o, ho⟩
      have hrest := ih fun l' hl' => h l' (List.mem_cons_of_mem _ hl')
      simp only [List.map_cons, memberOf, scalar, Outcome.ok_bind, compareTruth, ho, List.any_cons,
        Value.equals, Option.map_some]
      cases o with
      | eq =>
          rfl
      | lt =>
          exact hrest
      | gt =>
          exact hrest

/-- The literals of texts. -/
def literals (texts : List String) : List Scalar :=
  texts.map fun s => .literal (.str s)

theorem memberOf_literals {v : Value} {texts : List String}
    (h : forall s, s ∈ texts -> exists o, v.compare false (.str s) = some o) :
    memberOf clock read v .isFalse (literals texts) =
      .ok (.ofBool (texts.any fun s => v.equals false (.str s) == some true)) := by
  have hliterals : literals texts = (texts.map Literal.str).map .literal := by
    rw [literals, List.map_map]
    rfl
  rw [hliterals, memberOf_map_literal, List.any_map]
  · rfl
  · intro l hl
    rcases List.mem_map.mp hl with ⟨s, hs, rfl⟩
    exact h s hs

theorem memberOf_null_unknown (texts : List String) :
    memberOf clock read .null .unknown (literals texts) = .ok .unknown := by
  induction texts with
  | nil =>
      rfl
  | cons s rest ih =>
      exact ih

theorem memberOf_null {texts : List String} (h : texts ≠ []) :
    memberOf clock read .null .isFalse (literals texts) = .ok .unknown := by
  cases texts with
  | nil =>
      exact absurd rfl h
  | cons s rest =>
      exact memberOf_null_unknown rest

theorem likeTruth_str (engine : Regex.Engine) {v : Value} (h : v.isNull = false)
    (pattern : String) :
    likeTruth engine v (.str pattern) =
      match Like.compile engine pattern with
      | some accepts => .ok (.ofBool (accepts v.text))
      | none => .error (.invalidPattern pattern) := by
  rw [likeTruth, h]
  rfl

theorem likeTruth_total {engine : Regex.Engine} {text : String}
    (h : (Like.compile engine text).isSome = true) (v : Value) :
    exists t, likeTruth engine v (.str text) = .ok t := by
  cases hnull : v.isNull with
  | true =>
      rw [likeTruth, hnull]
      exact ⟨_, rfl⟩
  | false =>
      rcases Option.isSome_iff_exists.mp h with ⟨accepts, haccepts⟩
      rw [likeTruth_str engine hnull, haccepts]
      exact ⟨_, rfl⟩

theorem holds_negateIf_ofBool (negated b : Bool) :
    (Truth.negateIf negated (.ofBool b)).holds = (b != negated) := by
  cases negated <;> cases b <;> rfl

theorem holds_negateIf_unknown (negated : Bool) :
    (Truth.negateIf negated .unknown).holds = false := by
  cases negated <;> rfl

end Eval

/-!
# Conditions on exact columns

The operands are columns of a given class, texts and missing values.  Every other operand may stand
there too, except the call of a function: the platform has no form for it.  The class says of which
columns it is known that rows hold values of their type.
-/

namespace Plan

open Calendar (DateTime)
open Fetch (Joined itemHolds)

theorem filterHolds_groupItems (now : DateTime) (front : String) (row : Joined)
    (items : List FilterItem) :
    Fetch.filterHolds now front row (groupItems items) =
      Fetch.allHold now front row items := by
  unfold groupItems
  split
  · rename_i f
    rw [Fetch.allHold, Fetch.allHold]
    cases Fetch.filterHolds now front row f with
    | error e =>
        rfl
    | ok b =>
        cases b <;> rfl
  · exact Fetch.filterHolds_all _

inductive Plain (ctx : Context) (known : Bound -> Prop) : Scalar -> Prop where
  | text (s : String) : Plain ctx known (.literal (.str s))
  | missing : Plain ctx known (.literal .null)
  | column (c : Column) (h : forall b, ctx.resolve c = .ok (some b) -> known b) :
      Plain ctx known (.column c)
  | computed (e : Scalar) (h : ctx.operand e = .ok .other)
      (hcall : forall name distinct args, e ≠ .call name distinct args) : Plain ctx known e

/--
A native comparison names its second column without the alias of the scope.  The row is then read
under the right name if the scope is the root or the name has no dot of its own.
-/
def Comparable (ctx : Context) (right : Scalar) : Prop :=
  forall b, ctx.operand right = .ok (.column b) ->
    ctx.scopes.front b.scope = "" ∨ b.name.toList.contains '.' = false

inductive Simple (ctx : Context) (known : Bound -> Prop) : Predicate -> Prop where
  | and {items : List Predicate} (h : forall p, p ∈ items -> Simple ctx known p) :
      Simple ctx known (.and items)
  | or {items : List Predicate} (h : forall p, p ∈ items -> Simple ctx known p) :
      Simple ctx known (.or items)
  | compare {left right : Scalar} {op : Comparison} (hleft : Plain ctx known left)
      (hright : Plain ctx known right) (h : Comparable ctx right) :
      Simple ctx known (.compare left op right)
  | isNull {e : Scalar} {negated : Bool} (h : Plain ctx known e) :
      Simple ctx known (.isNull e negated)
  | inList {e : Scalar} {items : List Scalar} {negated : Bool} (h : Plain ctx known e)
      (hitems : forall item, item ∈ items -> Plain ctx known item) (hsome : items ≠ []) :
      Simple ctx known (.inList e items negated)
  | like {e pattern : Scalar} {negated : Bool} (h : Plain ctx known e)
      (hpattern : Plain ctx known pattern) : Simple ctx known (.like e pattern negated)
  | const (t : Truth) : Simple ctx known (.const t)
  /-- Apart from searches, a negated condition has no native form. -/
  | not {p : Predicate} (h : forall c wanted, p ≠ .contains c wanted) : Simple ctx known (.not p)

def Context.IsExact (ctx : Context) (b : Bound) : Prop :=
  (ctx.typeOf? b).any (·.isExact) = true

/-- Every attribute of an exact type is missing from the row or has a value of its type. -/
def WellTyped (ctx : Context) (row : Joined) : Prop :=
  forall scope a, ctx.scopes.attributeIn scope a.name = some a -> a.type.isExact = true ->
    a.type.Holds (row.get (ctx.scopes.rowKey ⟨scope, a.name⟩))

/-- The native form of a condition holds on a row whenever local evaluation calls it true. -/
def Agrees (now : DateTime) (clock : Clock) (front : String) (row : Joined) (q : Predicate)
    (item : FilterItem) : Prop :=
  forall t, Eval.predicate clock row.get q = .ok t ->
    itemHolds now front row item = .ok t.holds

namespace Context

variable {ctx : Context} {known : Bound -> Prop} {now : DateTime} {clock : Clock} {row : Joined}

/-!
# Operands
-/

/-- A column with a type whose values the row holds for it. -/
structure Exact (ctx : Context) (row : Joined) (b : Bound) (type : AttributeType) : Prop where
  typed : ctx.typeOf? b = some type
  holds : type.Holds (row.get (ctx.scopes.rowKey b))

/-- Every column of the class that the row is read by has a type, and a value of that type. -/
def Readable (ctx : Context) (known : Bound -> Prop) (row : Joined) : Prop :=
  forall c b, ctx.resolve c = .ok (some b) -> known b -> exists type, Exact ctx row b type

theorem readable_of_wellTyped (hrow : WellTyped ctx row) : Readable ctx ctx.IsExact row := by
  intro c b h hexact
  rcases Scopes.attributeOf_resolve (resolve_eq h) with ⟨a, ha, hname, _⟩
  have htype : ctx.typeOf? b = some a.type := by
    rw [typeOf?, ha, Option.map_some]
  rw [IsExact, htype] at hexact
  refine ⟨a.type, htype, ?_⟩
  have hb : b = ⟨b.scope, a.name⟩ := by
    rw [hname]
  rw [Scopes.attributeOf, <- hname] at ha
  rw [hb]
  exact hrow b.scope a ha hexact

theorem exact_of_operand (hrow : Readable ctx known row) {e : Scalar} (he : Plain ctx known e)
    {b : Bound} (h : ctx.operand e = .ok (.column b)) : exists type, Exact ctx row b type := by
  rcases resolve_of_operand h with ⟨c, rfl, hfound⟩
  cases he with
  | column _ hexact =>
      exact hrow c b hfound (hexact b hfound)
  | computed _ hother _ =>
      cases hother.symm.trans h

/-- A literal with a text for the platform is that text. -/
theorem qualify_of_operand_text {e : Scalar} (he : Plain ctx known e) {l : Literal}
    (h : ctx.operand e = .ok (.literal l)) {text : String} (htext : l.platformText = some text) :
    l = .str text ∧ ctx.qualify e = .ok (.literal (.str text)) := by
  have hqualified := qualify_of_literal_operand h
  have hl : l = .str text := by
    cases he with
    | text s =>
        cases h
        cases htext
        rfl
    | missing =>
        cases h
        cases htext
    | computed _ hother _ =>
        cases hother.symm.trans h
    | column c _ =>
        cases qualify_eq_ok.mp hqualified with
        | text _ =>
            cases htext
            rfl
  subst hl
  exact ⟨rfl, hqualified⟩

theorem not_call_of_plain {name : String} {distinct : Bool} {args : List Scalar} :
    ¬ Plain ctx known (.call name distinct args) := by
  intro h
  cases h with
  | computed _ _ hcall =>
      exact hcall _ _ _ rfl

/-!
# Leaves
-/

/-- The value of a bound column, as a native condition of its scope reads it. -/
theorem get_front (row : Joined) (b : Bound) :
    row.get (ctx.scopes.front b.scope ++ b.name) = row.get (ctx.scopes.rowKey b) := by
  rw [Scopes.rowKey_eq]

theorem agrees_compare {front : String} {l r : Scalar} {op op' : Comparison} {x y : Value}
    {c : Fetch.Condition} (hl : Eval.scalar clock row.get l = .ok x)
    (hr : Eval.scalar clock row.get r = .ok y)
    (hcase : (l.isCaseSensitive || r.isCaseSensitive) = false) (hop : c.operator = .compare op')
    (h : ((row.get (front ++ c.column)).compare false (Fetch.operand front row c)).any op'.accepts =
      (x.compare false y).any op.accepts) :
    Agrees now clock front row (.compare l op r) (.inl c) := by
  intro t ht
  simp only [Eval.predicate, hl, hr, Outcome.ok_bind, hcase, Except.ok.injEq] at ht
  subst ht
  rw [itemHolds, Fetch.conditionHolds_compare hop, Eval.holds_compareTruth, h]

theorem agrees_column_literal (b : Bound) (op : Comparison) (s : String) :
    Agrees now clock (ctx.scopes.front b.scope) row
      (.compare (.column (ctx.scopes.qualified b)) op (.literal (.str s)))
      (.inl (.single b.name (.compare op) (some s))) := by
  refine agrees_compare rfl rfl rfl rfl ?_
  change Option.any _ (Value.compare false (row.get (_ ++ b.name)) (.str s)) = _
  rw [get_front]
  rfl

theorem agrees_literal_column {b : Bound} {type : AttributeType} (hb : Exact ctx row b type)
    (op : Comparison) (s : String) :
    Agrees now clock (ctx.scopes.front b.scope) row
      (.compare (.literal (.str s)) op (.column (ctx.scopes.qualified b)))
      (.inl (.single b.name (.compare op.swapped) (some s))) := by
  refine agrees_compare rfl rfl rfl rfl ?_
  change Option.any _ (Value.compare false (row.get (_ ++ b.name)) (.str s)) =
    Option.any _ (Value.compare false (.str s) (row.get (ctx.scopes.rowKey b)))
  rw [get_front, Value.compare_str_swap hb.holds]
  cases (row.get (ctx.scopes.rowKey b)).compare false (.str s) with
  | none =>
      rfl
  | some o =>
      have hswap := op.accepts_swapped o.swap
      rw [Ordering.swap_swap] at hswap
      exact hswap

theorem agrees_column_column {a b : Bound} (hscope : a.scope = b.scope)
    (hname : ctx.scopes.front b.scope = "" ∨ b.name.toList.contains '.' = false)
    (op : Comparison) :
    Agrees now clock (ctx.scopes.front a.scope) row
      (.compare (.column (ctx.scopes.qualified a)) op (.column (ctx.scopes.qualified b)))
      (.inl (.between a.name (.compare op) b.name)) := by
  have hother : Fetch.operand (ctx.scopes.front a.scope) row
      (.between a.name (.compare op) b.name) = row.get (ctx.scopes.rowKey b) := by
    rw [<- get_front, hscope]
    simp only [Fetch.operand, Fetch.Condition.between]
    rcases hname with hroot | hdot
    · rw [hroot, String.empty_append, ite_self]
    · rw [hdot]
      rfl
  refine agrees_compare rfl rfl rfl rfl ?_
  rw [hother]
  change Option.any _ (Value.compare false (row.get (_ ++ a.name)) _) = _
  rw [get_front]
  rfl

theorem compare_agrees (hrow : Readable ctx known row) {left right : Scalar} {op : Comparison}
    (hleft : Plain ctx known left) (hright : Plain ctx known right)
    (hcomparable : Comparable ctx right) {found : Native}
    (h : NativeForm ctx (.compare left op right) found) :
    exists q, ctx.qualifyPredicate (.compare left op right) = .ok q ∧
      Agrees now clock (ctx.scopes.front found.scope) row q found.item := by
  cases h with
  | columnLiteral hl hr htext _ =>
      have hleft' := qualify_of_column_operand hl
      have hright' := (qualify_of_operand_text hright hr htext).2
      exact ⟨_, qualifyPredicate_eq_ok.mpr (.compare hleft' hright'), agrees_column_literal _ op _⟩
  | literalColumn hl hr htext _ =>
      rcases exact_of_operand hrow hright hr with ⟨type, hb⟩
      have hleft' := (qualify_of_operand_text hleft hl htext).2
      have hright' := qualify_of_column_operand hr
      exact ⟨_, qualifyPredicate_eq_ok.mpr (.compare hleft' hright'), agrees_literal_column hb op _⟩
  | columns hl hr hscope =>
      have hleft' := qualify_of_column_operand hl
      have hright' := qualify_of_column_operand hr
      exact ⟨_, qualifyPredicate_eq_ok.mpr (.compare hleft' hright'),
        agrees_column_column hscope (hcomparable _ hr) op⟩
  | function _ _ =>
      exact absurd hright not_call_of_plain

theorem isNull_agrees {e : Scalar} {negated : Bool} {b : Bound}
    (hb : ctx.operand e = .ok (.column b)) :
    exists q, ctx.qualifyPredicate (.isNull e negated) = .ok q ∧
      Agrees now clock (ctx.scopes.front b.scope) row q
        (.inl (.single b.name (.isNull negated) none)) := by
  have hqualified := qualify_of_column_operand hb
  refine ⟨_, qualifyPredicate_eq_ok.mpr (.isNull hqualified), fun t ht => ?_⟩
  cases ht
  rw [itemHolds, Eval.holds_negateIf_ofBool]
  change Except.ok (Value.isNull (row.get (_ ++ b.name)) != negated) = _
  rw [get_front]
  rfl

theorem literalTexts_eq {accept : Literal -> Bool} {items : List Scalar} {values : List String}
    (hitems : forall item, item ∈ items -> Plain ctx known item)
    (h : ctx.literalTexts accept items = .ok (some values)) :
    ctx.qualifyList items = .ok (Eval.literals values) ∧ values.length = items.length ∧
      forall s, s ∈ values -> accept (.str s) = true := by
  have hforall := literalTexts_forall₂ h
  clear h
  induction hforall with
  | nil =>
      exact ⟨rfl, rfl, fun s hs => by cases hs⟩
  | @cons item text rest more hfirst _ ih =>
      rcases hfirst with ⟨l, ho, haccept, htext⟩
      rcases ih fun i hi => hitems i (List.mem_cons_of_mem _ hi) with ⟨hrest, hlength, haccepted⟩
      rcases qualify_of_operand_text (hitems item List.mem_cons_self) ho htext with ⟨rfl, hitem⟩
      refine ⟨?_, congrArg (· + 1) hlength, fun s hs => ?_⟩
      · exact qualifyList_eq_ok.mpr (.cons hitem (qualifyList_eq_ok.mp hrest))
      · rcases List.mem_cons.mp hs with rfl | hs
        · exact haccept
        · exact haccepted s hs

theorem agrees_inList {b : Bound} {type : AttributeType} (hb : Exact ctx row b type)
    {values : List String} (hsome : values ≠ [])
    (haccepted : forall s, s ∈ values -> ctx.compatible b (.str s) = true) (negated : Bool) :
    Agrees now clock (ctx.scopes.front b.scope) row
      (.inList (.column (ctx.scopes.qualified b)) (Eval.literals values) negated)
      (.inl (.multiple b.name (.oneOf negated) values)) := by
  intro t ht
  have hget : row.get (ctx.scopes.front b.scope ++ b.name) = row.get (ctx.scopes.rowKey b) :=
    get_front row b
  simp only [Eval.predicate, Eval.scalar, Outcome.ok_bind] at ht
  change (Eval.memberOf clock row.get (row.get (ctx.scopes.rowKey b)) _ _ >>= _) = _ at ht
  simp only [itemHolds, Fetch.conditionHolds, Fetch.Condition.multiple, hget]
  cases hnull : (row.get (ctx.scopes.rowKey b)).isNull with
  | true =>
      have hv : row.get (ctx.scopes.rowKey b) = .null := by
        cases hv : row.get (ctx.scopes.rowKey b) with
        | null => rfl
        | _ => rw [hv] at hnull; cases hnull
      rw [hv, Eval.memberOf_null hsome] at ht
      cases ht
      rw [Eval.holds_negateIf_unknown]
      rfl
  | false =>
      have hcompare : forall s, s ∈ values ->
          exists o, (row.get (ctx.scopes.rowKey b)).compare false (.str s) = some o := by
        intro s hs
        have haccept := haccepted s hs
        rw [compatible, hb.typed, Option.any_some] at haccept
        exact compare_isSome hb.holds hnull haccept
      rw [Eval.memberOf_literals hcompare] at ht
      cases ht
      rw [Eval.holds_negateIf_ofBool]
      rfl

theorem inList_agrees (hrow : Readable ctx known row) {e : Scalar} {items : List Scalar}
    {negated : Bool} (he : Plain ctx known e)
    (hitems : forall item, item ∈ items -> Plain ctx known item) (hsome : items ≠ []) {b : Bound}
    (hb : ctx.operand e = .ok (.column b)) {texts : List String}
    (htexts : ctx.literalTexts (ctx.compatible b) items = .ok (some texts)) :
    exists q, ctx.qualifyPredicate (.inList e items negated) = .ok q ∧
      Agrees now clock (ctx.scopes.front b.scope) row q
        (.inl (.multiple b.name (.oneOf negated) texts)) := by
  rcases exact_of_operand hrow he hb with ⟨type, hexact⟩
  rcases literalTexts_eq hitems htexts with ⟨hqualified, hlength, haccepted⟩
  have he' := qualify_of_column_operand hb
  refine ⟨_, qualifyPredicate_eq_ok.mpr (.inList he' hqualified), ?_⟩
  refine agrees_inList hexact ?_ haccepted negated
  intro hempty
  rw [hempty] at hlength
  exact hsome (List.length_eq_zero_iff.mp hlength.symm)

theorem agrees_like (b : Bound) (pattern : String) (negated : Bool) :
    Agrees now clock (ctx.scopes.front b.scope) row
      (.like (.column (ctx.scopes.qualified b)) (.literal (.str pattern)) negated)
      (.inl (.single b.name (.like negated) (some pattern))) := by
  intro t ht
  have hget : row.get (ctx.scopes.front b.scope ++ b.name) = row.get (ctx.scopes.rowKey b) :=
    get_front row b
  simp only [Eval.predicate, Eval.scalar, Outcome.ok_bind] at ht
  change (Eval.likeTruth .standard (row.get (ctx.scopes.rowKey b)) (.str pattern) >>= _) = _ at ht
  simp only [itemHolds, Fetch.conditionHolds, Fetch.Condition.single, hget]
  cases hnull : (row.get (ctx.scopes.rowKey b)).isNull with
  | true =>
      rw [Eval.likeTruth, hnull] at ht
      cases ht
      rw [Eval.holds_negateIf_unknown]
      rfl
  | false =>
      rw [Eval.likeTruth_str _ hnull] at ht
      simp only [Bool.false_eq_true, if_false, Fetch.accepts, Fetch.likeMatches, Option.getD_some]
      cases hcompile : Like.compile .standard pattern with
      | none =>
          rw [hcompile] at ht
          cases ht
      | some accepts =>
          rw [hcompile] at ht
          cases ht
          rw [Eval.holds_negateIf_ofBool]
          rfl

theorem like_agrees {e pattern : Scalar} {negated : Bool} {b : Bound} {text : String}
    (hb : ctx.operand e = .ok (.column b))
    (htext : ctx.operand pattern = .ok (.literal (.str text))) :
    exists q, ctx.qualifyPredicate (.like e pattern negated) = .ok q ∧
      Agrees now clock (ctx.scopes.front b.scope) row q
        (.inl (.single b.name (.like negated) (some text))) := by
  have he' := qualify_of_column_operand hb
  have hpattern' := qualify_of_literal_operand htext
  exact ⟨_, qualifyPredicate_eq_ok.mpr (.like he' hpattern'), agrees_like b text negated⟩

/-!
# Trees

A conjunction that is evaluated past an unknown member can no longer become true, and a disjunction
goes on exactly as long as the platform does.
-/

theorem holds_allOf_of_not_holds {read : String -> Value} {sofar t : Truth} {qs : List Predicate}
    (hsofar : sofar.holds = false) (h : Eval.allOf clock read sofar qs = .ok t) :
    t.holds = false := by
  induction qs generalizing sofar with
  | nil =>
      cases h
      exact hsofar
  | cons q rest ih =>
      simp only [Eval.allOf, Outcome.bind_eq_ok] at h
      rcases h with ⟨u, hu, h⟩
      have hnow : (sofar.and u).holds = false := by
        cases sofar <;> cases u <;> first | rfl | cases hsofar
      split at h
      · cases h
        exact hnow
      · exact ih hnow h

theorem allHold_agrees {front : String} {qs : List Predicate} {items : List FilterItem}
    (hitems : List.Forall₂ (Agrees now clock front row) qs items) {t : Truth}
    (h : Eval.allOf clock row.get .isTrue qs = .ok t) :
    Fetch.allHold now front row items = .ok t.holds := by
  induction hitems with
  | nil =>
      cases h
      rfl
  | cons hitem _ ih =>
      simp only [Eval.allOf, Outcome.bind_eq_ok] at h
      rcases h with ⟨u, hu, h⟩
      rw [Fetch.allHold_cons, hitem u hu]
      cases u with
      | isTrue =>
          exact ih h
      | isFalse =>
          cases h
          rfl
      | unknown =>
          rw [holds_allOf_of_not_holds rfl h]
          rfl

theorem anyHolds_agrees {front : String} {qs : List Predicate} {items : List FilterItem}
    (hitems : List.Forall₂ (Agrees now clock front row) qs items) {sofar t : Truth}
    (hsofar : sofar.holds = false) (h : Eval.anyOf clock row.get sofar qs = .ok t) :
    Fetch.anyHolds now front row items = .ok t.holds := by
  induction hitems generalizing sofar with
  | nil =>
      cases h
      rw [hsofar]
      rfl
  | cons hitem _ ih =>
      simp only [Eval.anyOf, Outcome.bind_eq_ok] at h
      rcases h with ⟨u, hu, h⟩
      rw [Fetch.anyHolds_cons, hitem u hu]
      cases u with
      | isTrue =>
          cases sofar <;> cases h <;> rfl
      | isFalse =>
          cases sofar with
          | isTrue =>
              cases hsofar
          | isFalse =>
              exact ih rfl h
          | unknown =>
              exact ih rfl h
      | unknown =>
          cases sofar with
          | isTrue =>
              cases hsofar
          | isFalse =>
              exact ih rfl h
          | unknown =>
              exact ih rfl h

/-- Conditions agree with the items that are their native forms one by one. -/
theorem members_agree {items : List Predicate} {scope : Nat} {found : List FilterItem}
    (hmembers : List.Forall₂ (fun p item => ctx.native p = .ok (some ⟨scope, item⟩)) items found)
    (hitems : forall p, p ∈ items -> forall n, ctx.native p = .ok (some n) ->
      exists q, ctx.qualifyPredicate p = .ok q ∧
        Agrees now clock (ctx.scopes.front n.scope) row q n.item) :
    exists qs, ctx.qualifyPredicates items = .ok qs ∧
      List.Forall₂ (Agrees now clock (ctx.scopes.front scope) row) qs found := by
  induction hmembers with
  | nil =>
      exact ⟨[], rfl, .nil⟩
  | cons hfirst _ ih =>
      rcases hitems _ List.mem_cons_self _ hfirst with ⟨q, hq, hagree⟩
      rcases ih fun p hp => hitems p (List.mem_cons_of_mem _ hp) with ⟨qs, hqs, hrest⟩
      refine ⟨q :: qs, ?_, .cons hagree hrest⟩
      exact qualifyPredicates_eq_ok.mpr (.cons hq (qualifyPredicates_eq_ok.mp hqs))

theorem agrees_of_simple (hrow : Readable ctx known row) {p : Predicate} (hp : Simple ctx known p)
    {found : Native} (h : ctx.native p = .ok (some found)) :
    exists q, ctx.qualifyPredicate p = .ok q ∧
      Agrees now clock (ctx.scopes.front found.scope) row q found.item := by
  induction hp generalizing found with
  | and _ ih =>
      cases native_form h with
      | and hmembers =>
          rcases members_agree hmembers.each fun p hp _ hn => ih p hp hn with ⟨qs, hqs, hagree⟩
          refine ⟨.and qs, qualifyPredicate_eq_ok.mpr (.and hqs), fun t ht => ?_⟩
          rw [Eval.predicate] at ht
          rw [itemHolds, Fetch.filterHolds_all]
          exact allHold_agrees hagree ht
  | or _ ih =>
      cases native_form h with
      | or hmembers =>
          rcases members_agree hmembers.each fun p hp _ hn => ih p hp hn with ⟨qs, hqs, hagree⟩
          refine ⟨.or qs, qualifyPredicate_eq_ok.mpr (.or hqs), fun t ht => ?_⟩
          rw [Eval.predicate] at ht
          rw [itemHolds, Fetch.filterHolds_any hmembers.found_ne_nil]
          exact anyHolds_agrees hagree rfl ht
  | compare hleft hright hcomparable =>
      exact compare_agrees hrow hleft hright hcomparable (native_form h)
  | isNull _ =>
      cases native_form h with
      | isNull hb =>
          exact isNull_agrees hb
  | inList he hitems hsome =>
      cases native_form h with
      | inList hb htexts =>
          exact inList_agrees hrow he hitems hsome hb htexts
  | like _ _ =>
      cases native_form h with
      | like hb htext =>
          exact like_agrees hb htext
  | const t =>
      cases native_form h
  | not hp =>
      cases native_form h with
      | notContains _ _ =>
          exact absurd rfl (hp _ _)

/-!
# Scopes of native forms
-/

theorem operand_scope_lt {e : Scalar} {b : Bound} (h : ctx.operand e = .ok (.column b)) :
    b.scope < ctx.scopes.length := by
  rcases resolve_of_operand h with ⟨c, _, hfound⟩
  exact Scopes.resolve_lt (resolve_eq hfound)

/-- A native form filters one of the scopes. -/
theorem native_scope_lt {p : Predicate} (hp : Simple ctx known p) {found : Native}
    (h : ctx.native p = .ok (some found)) : found.scope < ctx.scopes.length := by
  induction hp generalizing found with
  | and _ ih =>
      cases native_form h with
      | and hmembers =>
          rcases hmembers.exists_native with ⟨p, item, hp, hitem⟩
          have hscope := ih p hp hitem
          exact hscope
  | or _ ih =>
      cases native_form h with
      | or hmembers =>
          rcases hmembers.exists_native with ⟨p, item, hp, hitem⟩
          have hscope := ih p hp hitem
          exact hscope
  | compare _ hright _ =>
      cases native_form h with
      | columnLiteral hleft _ _ _ =>
          exact operand_scope_lt hleft
      | literalColumn _ hright _ _ =>
          exact operand_scope_lt hright
      | columns hleft _ _ =>
          exact operand_scope_lt hleft
      | function _ _ =>
          exact absurd hright not_call_of_plain
  | isNull _ =>
      cases native_form h with
      | isNull hb =>
          exact operand_scope_lt hb
  | inList _ _ _ =>
      cases native_form h with
      | inList hb _ =>
          exact operand_scope_lt hb
  | like _ _ =>
      cases native_form h with
      | like hb _ =>
          exact operand_scope_lt hb
  | const u =>
      cases native_form h
  | not hp =>
      cases native_form h with
      | notContains _ _ =>
          exact absurd rfl (hp _ _)

/-!
# Agreement

If a condition has a native form, it can be evaluated locally as well, and every row on which that
evaluation succeeds is treated alike: the platform decides without a fault, and keeps the row
exactly when the condition is true.
-/

theorem native_holds_iff_true (now : DateTime) (clock : Clock) (hrow : WellTyped ctx row)
    {p : Predicate} (hp : Simple ctx ctx.IsExact p) {found : Native}
    (h : ctx.native p = .ok (some found)) :
    exists q, ctx.qualifyPredicate p = .ok q ∧
      forall t, Eval.predicate clock row.get q = .ok t ->
        itemHolds now (ctx.scopes.front found.scope) row found.item =
          .ok (decide (t = .isTrue)) := by
  rcases agrees_of_simple (readable_of_wellTyped hrow) hp h with ⟨q, hq, hagree⟩
  refine ⟨q, hq, ?_⟩
  intro t ht
  have hholds : t.holds = decide (t = .isTrue) := by
    cases t <;> rfl
  rw [<- hholds]
  exact hagree t ht

end Context

/-!
# Parcels in depots

A linked table of parcels, one attribute of which has a dot in its name.
-/

def parcel : TableDef :=
  { TableDef.ofKey "parcel" "id" with
    attributes := [.ofType "name" .string, .ofType "label" .string, .ofType "tag.name" .string] }

def parcelContext : Context where
  options := ⟨true, true⟩
  scopes := [⟨"depot", .ofKey "depot" "id", [], false⟩, ⟨"p", parcel, [0], false⟩]
  fetch := .ofTable "depot"

def parcelRow : Joined :=
  ⟨none, .ofList [("id", .guid .zero), ("p.name", .str "v"), ("p.tag.name", .str "v")]⟩

def parcelColumn (name : String) : Scalar :=
  .column (.inCollection "p" name)

theorem isDay_newYear : Calendar.IsDay 2024 1 1 := by
  decide

def newYear : DateTime :=
  .midnight ⟨2024, 1, 1, isDay_newYear⟩

theorem parcelRow_wellTyped : WellTyped parcelContext parcelRow := by
  intro scope a ha _
  rcases Option.bind_eq_some_iff.mp ha with ⟨s, hs, hfound⟩
  have hmem : a ∈ s.table.attributes := List.mem_of_find?_eq_some hfound
  match scope, hs with
  | 0, rfl =>
      rcases List.mem_singleton.mp hmem with rfl
      exact rfl
  | 1, rfl =>
      simp only [parcel, List.mem_cons, List.not_mem_nil, or_false] at hmem
      rcases hmem with rfl | rfl | rfl
      · exact rfl
      · exact trivial
      · exact rfl

/-- Parcels that are named after their label, or not named `w`. -/
def parcelCondition : Predicate :=
  .or [.compare (parcelColumn "name") .eq (parcelColumn "label"),
    .inList (parcelColumn "name") [.literal (.str "w")] true]

theorem parcelCondition_simple : Simple parcelContext parcelContext.IsExact parcelCondition := by
  have hplain : forall name, name ∈ ["name", "label"] ->
      Plain parcelContext parcelContext.IsExact (parcelColumn name) := by
    intro name hname
    simp only [List.mem_cons, List.not_mem_nil, or_false] at hname
    rcases hname with rfl | rfl
    · exact .column _ fun b hb => by cases hb; rfl
    · exact .column _ fun b hb => by cases hb; rfl
  refine .or ?_
  intro p hp
  simp only [List.mem_cons, List.not_mem_nil, or_false] at hp
  rcases hp with rfl | rfl
  · refine .compare (hplain _ (by simp)) (hplain _ (by simp)) ?_
    intro b hb
    cases hb
    exact Or.inr rfl
  · refine .inList (hplain _ (by simp)) ?_ (by simp)
    intro item hitem
    rcases List.mem_singleton.mp hitem with rfl
    exact .text "w"

theorem parcelCondition_native_holds :
    exists found, parcelContext.native parcelCondition = .ok (some found) ∧
      itemHolds newYear (parcelContext.scopes.front found.scope) parcelRow found.item =
        .ok true := by
  refine ⟨⟨1, .inr ⟨.any, [.inl (.between "name" (.compare .eq) "label"),
    .inl (.multiple "name" (.oneOf true) ["w"])]⟩⟩, rfl, ?_⟩
  rcases Context.native_holds_iff_true newYear ⟨newYear, newYear⟩ parcelRow_wellTyped
    parcelCondition_simple rfl with ⟨q, hq, hholds⟩
  cases hq
  exact hholds .isTrue rfl

/-!
# Names with dots

A native comparison of two columns takes a name with a dot for one that has its scope in front.  Of
a linked table it then misses the attribute, which the evaluation of the comparison finds.
-/

theorem native_dotted_comparison_differs :
    exists found q, parcelContext.native
        (.compare (parcelColumn "name") .eq (parcelColumn "tag.name")) = .ok (some found) ∧
      parcelContext.qualifyPredicate
        (.compare (parcelColumn "name") .eq (parcelColumn "tag.name")) = .ok q ∧
      WellTyped parcelContext parcelRow ∧
      Eval.predicate ⟨newYear, newYear⟩ parcelRow.get q = .ok .isTrue ∧
      itemHolds newYear (parcelContext.scopes.front found.scope) parcelRow found.item =
        .ok false :=
  ⟨⟨1, .inl (.between "name" (.compare .eq) "tag.name")⟩,
    .compare (.column (.inCollection "p" "name")) .eq (.column (.inCollection "p" "tag.name")),
    rfl, rfl, parcelRow_wellTyped, rfl, rfl⟩

end Plan

end RecordSql
