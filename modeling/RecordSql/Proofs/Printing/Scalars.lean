import RecordSql.Proofs.Printing.Operands

/-!
# Reading scalar expressions

An operand is read with its collation and with the minus in front of it, and an expression as the
row of its operands.
-/

namespace RecordSql
namespace Sql
namespace Parser

variable {rest : List Mark} {inner : Inner} {n : Nat}

/-!
# Signs and collations
-/

/-- What is read behind the minuses of an operand. -/
def afterSigns (inner : Inner) (minuses : List Unit) : Parser Scalar := do
  let _ <- eatSymbol "+"
  let e <- primary inner
  let e <-
    if <- eatKeyword "COLLATE" then
      let collation <- name
      pure (.collate e collation)
    else pure e
  return minuses.foldl (fun e _ => negative e) e

theorem signedOperand_eq (inner : Inner) :
    signedOperand inner = many (eatSymbol "-") (pure ()) >>= afterSigns inner :=
  rfl

section

variable {used : List Mark} {e : Scalar} {minuses : List Unit}

theorem accepts_plain (hbegins : Begins startsSigned used)
    (hrest : Stops (·.isWord "COLLATE") rest) (h : Accepts (primary inner) used rest e) :
    Accepts (afterSigns inner minuses) used rest (minuses.foldl (fun e _ => negative e) e) := by
  unfold afterSigns
  refine Accepts.pass (Accepts.leave (eats_symbol "+") ?_) ?_
  · refine (hbegins.append rest).stops.mono fun k hk => ?_
    rw [startsSigned, startsOther, hk, Bool.or_true, Bool.true_or]
  · refine Accepts.last h ?_
    exact Accepts.pass (Accepts.leave (eats_keyword "COLLATE") hrest) Accepts.pure

theorem accepts_collated {collation : String} (hcollation : isPlainName collation = true)
    (hbegins : Begins startsSigned used)
    (h : Accepts (primary inner) used ([wordMark "COLLATE", wordMark collation] ++ rest) e) :
    Accepts (afterSigns inner minuses) (used ++ [wordMark "COLLATE", wordMark collation]) rest
      (minuses.foldl (fun e _ => negative e) (.collate e collation)) := by
  rw [isPlainName, Bool.and_eq_true, Bool.not_eq_true'] at hcollation
  unfold afterSigns
  refine Accepts.pass (Accepts.leave (eats_symbol "+") ?_) (Accepts.bind h ?_)
  · rw [List.append_assoc]
    refine (hbegins.append _).stops.mono fun k hk => ?_
    rw [startsSigned, startsOther, hk, Bool.or_true, Bool.true_or]
  · refine Accepts.one (Accepts.eat (eats_keyword "COLLATE") (by decide)) ?_
    exact Accepts.one (accepts_name hcollation.2) Accepts.pure

theorem negative_of_not_isNumber {e : Scalar} (h : e.isNumber = false) : negative e = .negate e := by
  cases e with
  | literal l =>
      cases l with
      | int i =>
          cases h
      | float x =>
          cases h
      | _ =>
          rfl
  | _ =>
      rfl

theorem stops_minus (h : Begins startsSigned used) (rest : List Mark) :
    Stops (·.isSymbol "-") (used ++ rest) := by
  refine (h.append rest).stops.mono fun k hk => ?_
  rw [startsSigned, hk, Bool.or_true]

theorem Stops.collation (h : Stops continuesFactor rest) : Stops (·.isWord "COLLATE") rest :=
  h.mono fun k hk => by rw [continuesFactor, hk, Bool.or_true]

theorem Stops.name (h : Stops continuesFactor rest) : Stops continuesName rest :=
  h.mono fun k hk => by rw [continuesFactor, hk, Bool.true_or]

end

/-!
# Operands
-/

section

variable (h : Knows n inner) {e : Scalar}

include h

theorem accepts_unsigned (he : e.isCanonical = true) (hunsigned : e.isUnsigned = true)
    (hrest : Stops continuesFactor rest) (hlength : e.factorMarks.length + rest.length ≤ n + 1)
    (minuses : List Unit) :
    Accepts (afterSigns inner minuses) e.factorMarks rest
      (minuses.foldl (fun e _ => negative e) e) := by
  have hbegins := Scalar.begins_unsigned he hunsigned
  cases e with
  | collate f collation =>
      simp only [Scalar.isCanonical, Bool.and_eq_true] at he
      refine accepts_collated he.2 (Scalar.begins_collatable he.1.1 hunsigned).grouped
        (accepts_collatable h he.1.1 hunsigned (Stops.cons (by decide)) ?_)
      change (f.marks ++ [wordMark "COLLATE", wordMark collation]).length + rest.length ≤ n + 1
        at hlength
      rw [List.length_append] at hlength
      rw [List.length_append]
      omega
  | binary l op r =>
      exact accepts_plain hbegins hrest.collation (accepts_enclosed h he hlength)
  | starOf table =>
      cases he
  | _ =>
      exact accepts_plain hbegins hrest.collation (accepts_collatable h he hunsigned hrest.name hlength)

theorem readsFactors (he : e.isCanonical = true) : ReadsFactors inner (n + 1) e := by
  intro tail htail hlength
  rw [signedOperand_eq]
  rcases Scalar.unsigned_cases he with hunsigned | ⟨f, rfl⟩ | ⟨i, rfl, hneg⟩
  · exact Accepts.pass
      (accepts_none (eats_symbol "-") (stops_minus (Scalar.begins_unsigned he hunsigned) tail))
      (accepts_unsigned h he hunsigned htail hlength [])
  · simp only [Scalar.isCanonical, Bool.and_eq_true, Bool.not_eq_true'] at he
    have hunsigned : f.isUnsigned = true := by
      rcases Scalar.unsigned_cases he.1.1 with hunsigned | ⟨g, rfl⟩ | ⟨i, rfl, _⟩
      · exact hunsigned
      · cases he.2
      · cases he.1.2
    change (symbolMark "-" :: f.factorMarks).length + tail.length ≤ n + 1 at hlength
    rw [List.length_cons] at hlength
    have hfactor := accepts_unsigned h he.1.1 hunsigned htail (by omega) [()]
    rw [List.foldl_cons, List.foldl_nil, negative_of_not_isNumber he.1.2] at hfactor
    exact Accepts.one (accepts_once (eats_symbol "-") (beq_self_eq_true _)
      (stops_minus (Scalar.begins_unsigned he.1.1 hunsigned) tail)) hfactor
  · simp only [Scalar.isCanonical, Bool.and_eq_true, decide_eq_true_iff] at he
    have hmax : -i ≤ Number.maxWord := by
      have hmin := he.1
      rw [Number.minWord] at hmin
      rw [Number.maxWord]
      omega
    have hbegins : Begins startsSigned [(.number, String.ofList (Number.digitsOf (-i).natAbs))] :=
      ⟨_, _, rfl, rfl⟩
    have hfactor : Accepts (afterSigns inner [()]) _ tail _ :=
      accepts_plain hbegins htail.collation (accepts_number (by omega) hmax)
    have hmarks : (Scalar.literal (.int i)).factorMarks = symbolMark "-" ::
        [(.number, String.ofList (Number.digitsOf (-i).natAbs))] := by
      change intMarks i = _
      rw [intMarks, if_pos hneg, Int.natAbs_neg]
      rfl
    rw [List.foldl_cons, List.foldl_nil, negative, Int.neg_neg] at hfactor
    rw [hmarks]
    exact Accepts.one (accepts_once (eats_symbol "-") (beq_self_eq_true _)
      (stops_minus hbegins tail)) hfactor

/-!
# Expressions
-/

theorem accepts_canonicalSum (he : e.isCanonical = true) (hrest : Stops continuesScalar rest)
    (hlength : e.marks.length + rest.length ≤ n + 1) : Accepts (sum inner) e.marks rest e := by
  have hterms := Scalar.canonical_terms he
  exact accepts_sum hrest (readsFactors h hterms.1) (fun t ht => readsFactors h (hterms.2 t ht)) hlength

omit h in
theorem accepts_tableSum {table : String} (htable : isColumnName table = true)
    (hrest : Stops continuesScalar rest)
    (hlength : (Scalar.starOf table).marks.length + rest.length ≤ n) :
    Accepts (sum inner) (Scalar.starOf table).marks rest (.starOf table) := by
  have hbegins : Begins startsSigned (Scalar.starOf table).marks :=
    (Begins.name (isReserved_of_isColumnName htable)).grouped
  refine accepts_sum hrest ?_ ?_ hlength
  · intro tail htail _
    rw [signedOperand_eq]
    exact Accepts.pass (accepts_none (eats_symbol "-") (stops_minus hbegins tail))
      (accepts_plain hbegins htail.collation (accepts_starOf htable))
  · rintro t ⟨⟩

end

end Parser
end Sql
end RecordSql
