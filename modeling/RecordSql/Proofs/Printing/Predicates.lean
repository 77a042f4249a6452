import RecordSql.Proofs.ParsedForms
import RecordSql.Proofs.Printing.Scalars

/-!
# Reading conditions

A parenthesis opens a condition if a condition fits between it and the parenthesis that closes it,
and no operator stands behind that one.  A canonical expression in parentheses is no condition, for
behind it there is no comparison, and so the parenthesis is taken for what it is.
-/

namespace RecordSql

/-!
# Names in upper case
-/

namespace Text

theorem toNat_lt_of_toLower {c : Char} (h : c.toLower.toNat < 128) : c.toNat < 128 := by
  unfold Char.toLower at h
  split at h
  · rename_i hupper
    have hle : c.toNat ≤ 90 := hupper.2
    omega
  · exact h

/-- Names in upper case are the same only if they are equal. -/
theorem eq_of_sameName_of_upper {s t : String} (hs : upper s = s) (ht : upper t = t)
    (hascii : isAscii t = true) (h : sameName s t = true) : s = t := by
  rw [sameName, beq_iff_eq] at h
  have hlower : forall {c : Char}, c.toNat < 128 -> c.toLower.toNat < 128 :=
    ascii_cases (fun c => c.toLower.toNat < 128) (by decide)
  have hupper : forall {c : Char}, c.toNat < 128 -> c.toLower.toUpper = c.toUpper :=
    ascii_cases (fun c => c.toLower.toUpper = c.toUpper) (by decide)
  have hletters : forall {s : String}, isAscii s = true -> forall c, c ∈ s.toList -> c.toNat < 128 := by
    intro s hs c hc
    rw [isAscii, List.all_eq_true] at hs
    simpa using hs c hc
  have hascii' : isAscii s = true := by
    rw [isAscii, List.all_eq_true]
    intro c hc
    have hmem : c.toLower ∈ t.toList.map Char.toLower := by
      rw [<- h]
      exact List.mem_map_of_mem hc
    rcases List.mem_map.mp hmem with ⟨d, hd, heq⟩
    have hlt := hlower (hletters hascii d hd)
    rw [heq] at hlt
    exact decide_eq_true (toNat_lt_of_toLower hlt)
  have hback : forall {s : String}, isAscii s = true -> upper s = s ->
      (s.toList.map Char.toLower).map Char.toUpper = s.toList := by
    intro s hascii hs
    rw [List.map_map]
    conv => rhs; rw [<- hs, toList_upper hascii]
    apply List.map_congr_left
    intro c hc
    exact hupper (hletters hascii c hc)
  apply String.toList_injective
  rw [<- hback hascii' hs, h, hback hascii ht]

end Text

namespace Sql
namespace Parser

variable {rest : List Mark} {inner : Inner} {n : Nat}

/-!
# The word CONTAINS
-/

/-- The marks begin with the word `CONTAINS` and a parenthesis. -/
def opensContains : List Mark -> Bool
  | k :: k' :: _ => k.isWord "CONTAINS" && k'.isSymbol "("
  | _ => false

theorem opensContains_eq (c : Cursor) :
    (c.isKeyword "CONTAINS" && c.isSymbolAt 1 "(") = opensContains c.marks := by
  rw [Cursor.isKeyword_eq, Cursor.isSymbolAt_eq]
  match c.marks with
  | [] =>
      rfl
  | [k] =>
      exact Bool.and_false _
  | k :: k' :: _ =>
      rfl

theorem opensContains_of_first {k : Mark} {marks : List Mark}
    (h : k.isWord "CONTAINS" = false) : opensContains (k :: marks) = false := by
  cases marks with
  | nil =>
      rfl
  | cons k' marks =>
      rw [opensContains, h, Bool.false_and]

theorem opensContains_of_second {k : Mark} {marks : List Mark}
    (h : Stops (·.isSymbol "(") marks) : opensContains (k :: marks) = false := by
  cases marks with
  | nil =>
      rfl
  | cons k' marks =>
      have hk : k'.isSymbol "(" = false := h
      rw [opensContains, hk, Bool.and_false]

theorem isWord_contains {name : String} (h : isFunctionName name = true) :
    (wordMark name).isWord "CONTAINS" = false := by
  simp only [isFunctionName, isPlainName, Bool.or_eq_true, Bool.and_eq_true, beq_iff_eq, bne_iff_ne]
    at h
  rcases h with (⟨⟨_, hupper⟩, hname⟩ | rfl) | rfl
  · apply Bool.eq_false_iff.mpr
    intro hcontains
    exact hname (Text.eq_of_sameName_of_upper hupper (by decide +kernel) (by decide) hcontains)
  · decide
  · decide

section

variable {e : Scalar}

theorem not_opensContains_collatable (he : e.isCanonical = true) (hitem : e.isCollatable = true)
    (hrest : Stops continuesName rest) : opensContains (e.marks ++ rest) = false := by
  have hopening := hrest.symbol (Or.inl rfl)
  cases e with
  | literal l =>
      cases l with
      | str s =>
          exact opensContains_of_first rfl
      | null =>
          exact opensContains_of_first (by decide)
      | int i =>
          rw [Scalar.isCollatable, decide_eq_true_iff] at hitem
          rw [Scalar.marks, Literal.marks, intMarks, if_neg (by omega)]
          exact opensContains_of_first rfl
      | _ =>
          cases hitem
  | column c =>
      rcases c with ⟨collection, name, quoted⟩
      cases collection with
      | none =>
          exact opensContains_of_second hopening
      | some collection =>
          exact opensContains_of_second (Stops.cons rfl)
  | call name distinct args =>
      simp only [Scalar.isCanonical, Bool.and_eq_true] at he
      exact opensContains_of_first (isWord_contains he.1.1)
  | searchedCase whens otherwise =>
      exact opensContains_of_first (by decide)
  | simpleCase input whens otherwise =>
      exact opensContains_of_first (by decide)
  | _ =>
      cases hitem

theorem not_opensContains_factor (he : e.isCanonical = true) (hrest : Stops continuesFactor rest) :
    opensContains (e.factorMarks ++ rest) = false := by
  rcases Scalar.unsigned_cases he with hunsigned | ⟨f, rfl⟩ | ⟨i, rfl, hneg⟩
  · cases e with
    | collate f collation =>
        simp only [Scalar.isCanonical, Bool.and_eq_true] at he
        change opensContains (f.marks ++ [wordMark "COLLATE", wordMark collation] ++ rest) = false
        rw [List.append_assoc]
        exact not_opensContains_collatable he.1.1 hunsigned (Stops.cons (by decide))
    | binary l op r =>
        exact opensContains_of_first rfl
    | starOf table =>
        cases he
    | _ =>
        exact not_opensContains_collatable he hunsigned hrest.name
  · exact opensContains_of_first rfl
  · change opensContains (intMarks i ++ rest) = false
    rw [intMarks, if_pos hneg]
    exact opensContains_of_first rfl

theorem not_opensContains (he : e.isCanonical = true) (hrest : Stops continuesFactor rest) :
    opensContains (e.marks ++ rest) = false := by
  rw [Scalar.marks_eq, List.append_assoc]
  exact not_opensContains_factor (Scalar.canonical_terms he).1 (stops_tailMarks _ hrest)

end

/-!
# Tests without operands
-/

theorem Stops.scalar (hrest : Stops continuesMember rest) : Stops continuesScalar rest :=
  hrest.mono fun k hk => by simp only [continuesMember, hk, Bool.true_or]

theorem accepts_isNullTail {left : Scalar} {negated : Bool} :
    Accepts (conditionTail inner left) (wordMark "IS" :: (notMarks negated ++ [wordMark "NULL"]))
      rest (.isNull left negated) := by
  unfold conditionTail
  apply Accepts.look
  intro _ _
  refine Accepts.pass (Accepts.miss spots_comparisonSign rfl) ?_
  refine Accepts.one (Accepts.eat (eats_keyword "IS") (by decide)) ?_
  refine Accepts.flag (eats_keyword "NOT") (by decide) negated (fun _ => Stops.cons (by decide)) ?_
  exact Accepts.one (Accepts.keyword (by decide)) Accepts.pure

theorem stops_notMarks {test : Mark -> Bool} {k : Mark} {marks : List Mark} (negated : Bool)
    (hnot : test (wordMark "NOT") = false) (hk : test k = false) :
    Stops test (notMarks negated ++ k :: marks) := by
  cases negated with
  | true =>
      exact Stops.cons hnot
  | false =>
      exact Stops.cons hk

/-!
# Parentheses
-/

theorem accepts_open {p : Predicate} {used : List Mark}
    (hopen : Accepts (openCondition inner) used rest p)
    (hnone : forall c, c.marks = used ++ rest -> forall q c', ¬ Encloses inner c q c') :
    Accepts (condition inner) used rest p := by
  intro c hc
  rcases hopen c hc with ⟨c', hc', hmarks⟩
  exact ⟨c', condition_eq_ok.mpr (Or.inr ⟨hnone c hc, hc'⟩), hmarks⟩

section

variable (h : Knows n inner)

include h

/-- The parenthesis of an operand does not enclose a condition. -/
theorem not_encloses {e : Scalar} (he : e.isCanonical = true)
    (hlength : e.marks.length + rest.length ≤ n + 1) {c c' : Cursor} {p : Predicate}
    (hc : c.marks = e.marks ++ rest) : ¬ Encloses inner c p c' := by
  rintro ⟨hopening, _, closing, hpredicate, _, _⟩
  have hother : forall marks, Begins (·.isSymbol "(") marks -> c.marks = marks -> False := by
    rintro _ ⟨k, more, rfl, hk⟩ hmarks
    rw [hmarks] at hopening
    cases hopening
    cases hk
  rw [Scalar.marks_eq, List.append_assoc] at hc
  rw [Scalar.marks_eq, List.length_append] at hlength
  have hfirst := (Scalar.canonical_terms he).1
  generalize e.terms.1 = f at hc hlength hfirst
  rcases Scalar.unsigned_cases hfirst with hunsigned | ⟨g, rfl⟩ | ⟨i, rfl, hneg⟩
  · cases f with
    | binary l op r =>
        change c.marks = .opening :: (((Scalar.binary l op r).marks ++ [.closing]) ++ _) at hc
        change (enclosedMarks (Scalar.binary l op r).marks).length + _ + _ ≤ _ at hlength
        rw [enclosedMarks, List.length_cons, List.length_append, List.length_singleton] at hlength
        refine h.refuses _ (Scalar.tailMarks e.terms.2 ++ rest) hfirst ?_ c.advance ?_ p closing
          hpredicate
        · rw [List.length_append]
          omega
        · rw [Accepts.marks_advance hc, List.append_assoc]
          rfl
    | collate g collation =>
        simp only [Scalar.isCanonical, Bool.and_eq_true] at hfirst
        exact hother _ (((Scalar.begins_collatable hfirst.1.1 hunsigned).notOpening.append _).append _) hc
    | starOf table =>
        cases hfirst
    | _ =>
        exact hother _ ((Scalar.begins_collatable hfirst hunsigned).notOpening.append _) hc
  · exact hother _ ⟨_, _, rfl, rfl⟩ hc
  · change c.marks = intMarks i ++ _ at hc
    rw [intMarks, if_pos hneg] at hc
    exact hother _ ⟨_, _, rfl, rfl⟩ hc

/-- A condition in parentheses is read as such. -/
theorem accepts_enclosedCondition {p : Predicate} (hp : p.isCanonical = true)
    (hrest : Stops continuesMember rest)
    (hlength : (enclosedMarks p.marks).length + rest.length ≤ n + 1) :
    Accepts (condition inner) (enclosedMarks p.marks) rest p := by
  intro c hc
  rw [enclosedMarks, List.length_cons, List.length_append, List.length_singleton] at hlength
  rw [enclosedMarks, List.cons_append, List.append_assoc] at hc
  rcases h.predicate p ([.closing] ++ rest) hp (Stops.cons (by decide))
    (by rw [List.length_append, List.length_singleton]; omega) c.advance (Accepts.marks_advance hc)
    with ⟨closing, hpredicate, hclosing⟩
  have hmarks : closing.advance.marks = rest := Accepts.marks_advance hclosing
  refine ⟨closing.advance, condition_eq_ok.mpr (Or.inl ?_), hmarks⟩
  refine ⟨by rw [hc]; rfl, ?_, closing, hpredicate, by rw [hclosing]; rfl, rfl⟩
  rw [continuesOperand_eq, hmarks]
  refine hrest.mono fun k hk => ?_
  split at hk
  · rename_i hsymbol
    have hvalue : forall {α : Type} (known : String -> Option α), symbolValue known k = known k.2 :=
      fun _ => if_pos hsymbol
    rw [Bool.or_eq_true, Bool.or_eq_true] at hk
    rw [continuesMember, continuesScalar, hvalue, hvalue, hvalue]
    rcases hk with (hk | hk) | hk <;> simp only [hk, Bool.or_true, Bool.true_or]
  · simp only [Bool.or_eq_true, Bool.and_eq_true] at hk
    rw [continuesMember]
    rcases hk with (((hk | hk) | hk) | hk) | ⟨hk, _⟩ <;>
      simp only [hk, Bool.or_true, Bool.true_or]

/-!
# Comparisons and tests
-/

theorem accepts_openCondition {e : Scalar} {p : Predicate} {after : List Mark}
    (he : e.isCanonical = true) (hafter : Stops continuesScalar (after ++ rest))
    (hlength : (e.marks ++ after).length + rest.length ≤ n + 1)
    (htail : Accepts (conditionTail inner e) after rest p) :
    Accepts (condition inner) (e.marks ++ after) rest p := by
  rw [List.length_append] at hlength
  have hrow : e.marks.length + (after ++ rest).length ≤ n + 1 := by
    rw [List.length_append]
    omega
  apply accepts_open
  · apply Accepts.lookFalse
    · intro c hc
      rw [opensContains_eq, hc, List.append_assoc]
      exact not_opensContains he hafter.factor
    · intro _
      exact Accepts.bind (accepts_canonicalSum h he hafter hrow) htail
  · intro c hc q c'
    rw [List.append_assoc] at hc
    exact not_encloses h he hrow hc

theorem accepts_compareTail {left right : Scalar} {op : Comparison} (hright : right.isCanonical = true)
    (hrest : Stops continuesScalar rest) (hlength : right.marks.length + rest.length ≤ n + 1) :
    Accepts (conditionTail inner left) (symbolMark op.sign :: right.marks) rest
      (.compare left op right) := by
  unfold conditionTail
  apply Accepts.look
  intro _ _
  refine Accepts.one (Accepts.spot spots_comparisonSign (Comparison.ofSign?_sign op)) ?_
  exact Accepts.last (accepts_canonicalSum h hright hrest hlength) Accepts.pure

theorem accepts_inTail {left : Scalar} {items : List Scalar} {negated : Bool}
    (hitems : canonicalAll items = true) (hsome : items.isEmpty = false)
    (hlength : (marksOfAll items).length + rest.length < n + 1) :
    Accepts (conditionTail inner left)
      (notMarks negated ++ wordMark "IN" :: enclosedMarks (marksOfAll items)) rest
      (.inList left items negated) := by
  rw [canonicalAll_iff] at hitems
  unfold conditionTail
  apply Accepts.look
  intro _ _
  refine Accepts.pass (Accepts.miss spots_comparisonSign (by cases negated <;> rfl)) ?_
  refine Accepts.pass (Accepts.leave (eats_keyword "IS") ?_) ?_
  · rw [List.append_assoc]
    exact stops_notMarks negated (by decide) (by decide)
  · refine Accepts.flag (eats_keyword "NOT") (by decide) negated
      (fun _ => Stops.cons (by decide)) ?_
    refine Accepts.one (Accepts.eat (eats_keyword "IN") (by decide)) ?_
    refine Accepts.one (Accepts.symbol "(") ?_
    cases items with
    | nil =>
        cases hsome
    | cons e others =>
        rw [marksOfAll_cons] at hlength ⊢
        refine (accepts_commaList continuesScalar (by decide) (Stops.cons rfl)
          (Stops.cons (by decide)) hlength ?_).bind ?_
        · intro f tail hf htail hshort
          exact accepts_canonicalSum h (hitems f hf) htail hshort
        · exact Accepts.one (Accepts.symbol ")") Accepts.pure

theorem accepts_likeTail {left pattern : Scalar} {negated : Bool}
    (hpattern : pattern.isCanonical = true) (hrest : Stops continuesScalar rest)
    (hlength : pattern.marks.length + rest.length ≤ n + 1) :
    Accepts (conditionTail inner left) (notMarks negated ++ wordMark "LIKE" :: pattern.marks) rest
      (.like left pattern negated) := by
  unfold conditionTail
  apply Accepts.look
  intro _ _
  refine Accepts.pass (Accepts.miss spots_comparisonSign (by cases negated <;> rfl)) ?_
  refine Accepts.pass (Accepts.leave (eats_keyword "IS") ?_) ?_
  · rw [List.append_assoc]
    exact stops_notMarks negated (by decide) (by decide)
  · refine Accepts.flag (eats_keyword "NOT") (by decide) negated
      (fun _ => Stops.cons (by decide)) ?_
    refine Accepts.pass (Accepts.leave (eats_keyword "IN") (Stops.cons (by decide))) ?_
    refine Accepts.one (Accepts.eat (eats_keyword "LIKE") (by decide)) ?_
    exact Accepts.last (accepts_canonicalSum h hpattern hrest hlength) Accepts.pure

theorem accepts_contains {c : Column} {wanted : Scalar} (hc : c.isCanonical = true)
    (hwanted : wanted.isCanonical = true)
    (hlength : (Predicate.contains c wanted).marks.length + rest.length ≤ n + 1) :
    Accepts (condition inner) (Predicate.contains c wanted).marks rest (.contains c wanted) := by
  have hcolumn : (Scalar.column c).isCanonical = true := hc
  rw [Predicate.marks, enclosedMarks, List.length_cons, List.length_cons, List.length_append,
    List.length_append, List.length_cons, List.length_singleton] at hlength
  have hcontains : Accepts (containsCondition inner) (Predicate.contains c wanted).marks rest
      (.contains c wanted) := by
    unfold containsCondition
    apply Accepts.look
    intro _ _
    refine Accepts.one (Accepts.keyword (by decide)) ?_
    refine Accepts.one (Accepts.symbol "(") ?_
    rw [List.append_assoc]
    refine (accepts_canonicalSum h hcolumn (Stops.cons (by decide)) ?_).bind ?_
    · change c.marks.length + (symbolMark "," :: (wanted.marks ++ [.closing] ++ rest)).length ≤ _
      simp only [List.length_append, List.length_cons, List.length_nil]
      omega
    · refine Accepts.one (Accepts.symbol ",") ?_
      refine (accepts_canonicalSum h hwanted (Stops.cons (by decide)) ?_).bind ?_
      · change wanted.marks.length + (Mark.closing :: rest).length ≤ _
        rw [List.length_cons]
        omega
      · exact Accepts.one (Accepts.symbol ")") Accepts.pure
  refine accepts_open (Accepts.lookTrue ?_ fun _ => hcontains) ?_
  · intro c hc
    rw [opensContains_eq, hc]
    exact (by decide : (wordMark "CONTAINS").isWord "CONTAINS" = true)
  · rintro c hc q c'' ⟨hopening, _⟩
    rw [hc] at hopening
    cases hopening

/-!
# Negations
-/

omit h in
theorem accepts_unnegated {p : Predicate} {used : List Mark}
    (hnot : Stops (·.isWord "NOT") (used ++ rest)) (hp : Accepts (condition inner) used rest p) :
    Accepts (negation inner) used rest p :=
  Accepts.pass (accepts_none (eats_keyword "NOT") hnot) (Accepts.last hp Accepts.pure)

/-- The marks of a condition inside a conjunction or disjunction. -/
def memberOf (p : Predicate) : List Mark :=
  memberMarks p p.marks

theorem accepts_negation {p : Predicate} (hp : p.isCanonical = true)
    (hrest : Stops continuesMember rest)
    (hlength : (memberOf p).length + rest.length ≤ n + 1) :
    Accepts (negation inner) (memberOf p) rest p := by
  have hstart : forall {e : Scalar} (after : List Mark), e.isCanonical = true ->
      Stops (·.isWord "NOT") (e.marks ++ after ++ rest) := by
    intro e after he
    refine (((Scalar.begins he).append after).append rest).stops.mono fun k hk => ?_
    simp only [startsOther, hk, Bool.true_or]
  cases p with
  | and items =>
      exact accepts_unnegated (Stops.cons rfl) (accepts_enclosedCondition h hp hrest hlength)
  | or items =>
      exact accepts_unnegated (Stops.cons rfl) (accepts_enclosedCondition h hp hrest hlength)
  | not q =>
      change (wordMark "NOT" :: enclosedMarks q.marks).length + rest.length ≤ n + 1 at hlength
      rw [List.length_cons] at hlength
      refine Accepts.one (accepts_once (eats_keyword "NOT") (by decide) (Stops.cons rfl)) ?_
      exact Accepts.last (accepts_enclosedCondition h hp hrest (by omega)) Accepts.pure
  | compare l op r =>
      rw [Predicate.isCanonical, Bool.and_eq_true] at hp
      change (l.marks ++ symbolMark op.sign :: r.marks).length + rest.length ≤ n + 1 at hlength
      have hshort := hlength
      rw [List.length_append, List.length_cons] at hshort
      refine accepts_unnegated (hstart _ hp.1) (accepts_openCondition h hp.1 ?_ hlength
        (accepts_compareTail h hp.2 hrest.scalar (by omega)))
      cases op <;> exact Stops.cons (by decide)
  | isNull e negated =>
      exact accepts_unnegated (hstart _ hp) (accepts_openCondition h hp (Stops.cons (by decide))
        hlength accepts_isNullTail)
  | inList e items negated =>
      simp only [Predicate.isCanonical, Bool.and_eq_true, Bool.not_eq_true'] at hp
      change (e.marks ++ (notMarks negated ++ wordMark "IN" :: enclosedMarks (marksOfAll items))).length
        + rest.length ≤ n + 1 at hlength
      have hshort := hlength
      simp only [enclosedMarks, List.length_append, List.length_cons] at hshort
      refine accepts_unnegated (hstart _ hp.1.1) (accepts_openCondition h hp.1.1 ?_ hlength
        (accepts_inTail h hp.2 hp.1.2 (by omega)))
      rw [List.append_assoc]
      exact stops_notMarks negated (by decide) (by decide)
  | like e pattern negated =>
      rw [Predicate.isCanonical, Bool.and_eq_true] at hp
      change (e.marks ++ (notMarks negated ++ wordMark "LIKE" :: pattern.marks)).length
        + rest.length ≤ n + 1 at hlength
      have hshort := hlength
      simp only [List.length_append, List.length_cons] at hshort
      refine accepts_unnegated (hstart _ hp.1) (accepts_openCondition h hp.1 ?_ hlength
        (accepts_likeTail h hp.2 hrest.scalar (by omega)))
      rw [List.append_assoc]
      exact stops_notMarks negated (by decide) (by decide)
  | contains c wanted =>
      rw [Predicate.isCanonical, Bool.and_eq_true] at hp
      exact accepts_unnegated (Stops.cons (by decide)) (accepts_contains h hp.1 hp.2 hlength)
  | const t =>
      cases hp

end

/-!
# Conjunctions and disjunctions
-/

theorem marksOfMembers_cons (word : String) (p : Predicate) (others : List Predicate) :
    marksOfMembers word (p :: others) =
      memberOf p ++ markedItems (wordMark word) memberOf others := by
  induction others generalizing p with
  | nil =>
      exact (List.append_nil _).symm
  | cons q others ih =>
      rw [marksOfMembers, ih, markedItems_cons]
      · rfl
      · rintro ⟨⟩

theorem canonicalMembers_iff {items : List Predicate} : canonicalMembers items = true <->
    forall p, p ∈ items -> p.isCanonical = true := by
  induction items with
  | nil =>
      exact ⟨fun _ p hp => absurd hp List.not_mem_nil, fun _ => rfl⟩
  | cons p rest ih =>
      rw [canonicalMembers, Bool.and_eq_true, ih, List.forall_mem_cons]

/-- Nothing is drawn up where no item is joined by the same word. -/
theorem flatMap_lifted {items : List Predicate} (isAnd : Bool)
    (h : items.any (if isAnd then Predicate.isAnd else Predicate.isOr) = false) :
    items.flatMap (lifted isAnd) = items := by
  induction items with
  | nil =>
      rfl
  | cons p rest ih =>
      rw [List.any_cons, Bool.or_eq_false_iff] at h
      have hself : lifted isAnd p = [p] := by
        cases isAnd <;> cases p <;> first | rfl | cases h.1
      rw [List.flatMap_cons, hself, ih h.2]
      rfl

theorem joined_eq {items : List Predicate} (isAnd : Bool) (hlength : 2 ≤ items.length)
    (h : items.any (if isAnd then Predicate.isAnd else Predicate.isOr) = false) :
    joined items isAnd = if isAnd then .and items else .or items := by
  have hlifted := flatMap_lifted isAnd h
  match items with
  | [] =>
      cases hlength
  | [p] =>
      cases hlength with
      | step hlength => cases hlength
  | p :: q :: rest =>
      change (if isAnd then Predicate.and ((p :: q :: rest).flatMap (lifted isAnd))
        else .or ((p :: q :: rest).flatMap (lifted isAnd))) = _
      rw [hlifted]

/-- What goes on with a conjunction. -/
def continuesConjunction (k : Mark) : Bool :=
  continuesMember k || k.isWord "AND"

theorem Stops.member (hrest : Stops continuesConjunction rest) : Stops continuesMember rest :=
  hrest.mono fun k hk => by rw [continuesConjunction, hk, Bool.true_or]

theorem Stops.and (hrest : Stops continuesConjunction rest) : Stops (·.isWord "AND") rest :=
  hrest.mono fun k hk => by rw [continuesConjunction, hk, Bool.or_true]

theorem Stops.conjunction (hrest : Stops continuesPredicate rest) :
    Stops continuesConjunction rest := by
  refine hrest.mono fun k hk => ?_
  rw [continuesConjunction] at hk
  rw [continuesPredicate, hk, Bool.true_or]

theorem Stops.or (hrest : Stops continuesPredicate rest) : Stops (·.isWord "OR") rest :=
  hrest.mono fun k hk => by rw [continuesPredicate, hk, Bool.or_true]

theorem accepts_onlyConjunction {p : Predicate} {used : List Mark}
    (hrest : Stops continuesPredicate rest) (hp : Accepts (conjunction inner) used rest p) :
    Accepts (disjunction inner) used rest p :=
  Accepts.last hp (Accepts.pass (accepts_none (eats_keyword "OR") hrest.or) Accepts.pure)

section

variable (h : Knows n inner)

include h

theorem accepts_conjunction {first : Predicate} {others : List Predicate}
    (hitems : forall p, p ∈ first :: others -> p.isCanonical = true)
    (hrest : Stops continuesMember rest) (hrest' : Stops (·.isWord "AND") rest)
    (hlength : (marksOfMembers "AND" (first :: others)).length + rest.length ≤ n + 1) :
    Accepts (conjunction inner) (marksOfMembers "AND" (first :: others)) rest
      (joined (first :: others) true) := by
  rw [marksOfMembers_cons] at hlength ⊢
  refine accepts_separated continuesMember (joined · true) (eats_keyword "AND") (by decide)
    (by decide) hrest' hrest hlength ?_
  intro p tail hp htail hshort
  exact accepts_negation h (hitems p hp) htail hshort

theorem accepts_conjunct {p : Predicate} (hp : p.isCanonical = true)
    (hrest : Stops continuesConjunction rest) (hlength : (memberOf p).length + rest.length ≤ n + 1) :
    Accepts (conjunction inner) (memberOf p) rest p := by
  have hitems : forall q, q ∈ [p] -> q.isCanonical = true := by
    intro q hq
    rw [List.mem_singleton.mp hq]
    exact hp
  exact accepts_conjunction h hitems hrest.member hrest.and hlength

theorem accepts_disjunction {first : Predicate} {others : List Predicate}
    (hitems : forall p, p ∈ first :: others -> p.isCanonical = true)
    (hrest : Stops continuesPredicate rest)
    (hlength : (marksOfMembers "OR" (first :: others)).length + rest.length ≤ n + 1) :
    Accepts (disjunction inner) (marksOfMembers "OR" (first :: others)) rest
      (joined (first :: others) false) := by
  rw [marksOfMembers_cons] at hlength ⊢
  refine accepts_separated continuesConjunction (joined · false) (eats_keyword "OR") (by decide)
    (by decide) hrest.or hrest.conjunction hlength ?_
  intro p tail hp htail hshort
  exact accepts_conjunct h (hitems p hp) htail hshort

theorem accepts_canonicalPredicate {p : Predicate} (hp : p.isCanonical = true)
    (hrest : Stops continuesPredicate rest) (hlength : p.marks.length + rest.length ≤ n + 1) :
    Accepts (disjunction inner) p.marks rest p := by
  cases p with
  | and items =>
      simp only [Predicate.isCanonical, Bool.and_eq_true, decide_eq_true_iff, Bool.not_eq_true',
        canonicalMembers_iff] at hp
      rcases hp with ⟨⟨htwo, hand⟩, hitems⟩
      cases items with
      | nil =>
          cases htwo
      | cons first others =>
          have hjoined : joined (first :: others) true = .and (first :: others) :=
            joined_eq true htwo hand
          have haccepts := accepts_conjunction h hitems hrest.conjunction.member
            hrest.conjunction.and hlength
          rw [hjoined] at haccepts
          exact accepts_onlyConjunction hrest haccepts
  | or items =>
      simp only [Predicate.isCanonical, Bool.and_eq_true, decide_eq_true_iff, Bool.not_eq_true',
        canonicalMembers_iff] at hp
      rcases hp with ⟨⟨htwo, hor⟩, hitems⟩
      cases items with
      | nil =>
          cases htwo
      | cons first others =>
          have hjoined : joined (first :: others) false = .or (first :: others) :=
            joined_eq false htwo hor
          have haccepts := accepts_disjunction h hitems hrest hlength
          rw [hjoined] at haccepts
          exact haccepts
  | _ =>
      exact accepts_onlyConjunction hrest (accepts_conjunct h hp hrest.conjunction hlength)

/-!
# Expressions that are no conditions
-/

omit h in
/-- In front of a closing parenthesis an operand is not compared with anything. -/
theorem refuses_conditionTail (left : Scalar) :
    Refuses (conditionTail inner left) (.closing :: rest) := by
  unfold conditionTail
  apply Refuses.look
  intro _ _
  refine Refuses.pass (Accepts.miss spots_comparisonSign rfl) ?_
  refine Refuses.pass (Accepts.leave (eats_keyword "IS") (Stops.cons rfl)) ?_
  refine Refuses.pass (Accepts.leave (eats_keyword "NOT") (Stops.cons rfl)) ?_
  refine Refuses.pass (Accepts.leave (eats_keyword "IN") (Stops.cons rfl)) ?_
  refine Refuses.pass (Accepts.leave (eats_keyword "LIKE") (Stops.cons rfl)) ?_
  exact Refuses.pass (Accepts.leave (eats_keyword "BETWEEN") (Stops.cons rfl)) Refuses.fail

theorem refuses_openCondition {e : Scalar} (he : e.isCanonical = true)
    (hlength : e.marks.length + rest.length < n + 1) :
    Refuses (openCondition inner) (e.marks ++ .closing :: rest) := by
  apply Refuses.look
  intro c hc
  have hcontains : (c.isKeyword "CONTAINS" && c.isSymbolAt 1 "(") = false := by
    rw [opensContains_eq, hc]
    exact not_opensContains he (Stops.cons (by decide))
  rw [hcontains]
  exact Refuses.after (accepts_canonicalSum h he (Stops.cons (by decide)) hlength)
    (refuses_conditionTail e)

theorem refuses_disjunction {e : Scalar} (he : e.isCanonical = true)
    (hlength : e.marks.length + rest.length < n + 1) :
    Refuses (disjunction inner) (e.marks ++ .closing :: rest) := by
  have hcondition : Refuses (condition inner) (e.marks ++ .closing :: rest) := by
    intro c hc p c' hp
    rcases condition_eq_ok.mp hp with hencloses | ⟨_, hopen⟩
    · refine not_encloses h he ?_ hc hencloses
      exact hlength
    · exact refuses_openCondition h he hlength c hc p c' hopen
  have hnot : Stops (·.isWord "NOT") (e.marks ++ .closing :: rest) := by
    refine ((Scalar.begins he).append _).stops.mono fun k hk => ?_
    simp only [startsOther, hk, Bool.true_or]
  have hnegation : Refuses (negation inner) (e.marks ++ .closing :: rest) :=
    Refuses.pass (accepts_none (eats_keyword "NOT") hnot) (Refuses.bind hcondition)
  exact Refuses.bind (Refuses.bind hnegation)

end

end Parser
end Sql
end RecordSql
