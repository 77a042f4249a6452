import RecordSql.Proofs.Outcome
import RecordSql.Proofs.Printing.Predicates
import RecordSql.Proofs.Printing.Texts
import RecordSql.Sql.StatementParser

/-!
# Parsing undoes printing

The text of an expression of canonical shape is cut into the marks of the expression, and these are
read as the expression again.
-/

namespace RecordSql
namespace Sql

/-!
# The knot
-/

theorem marksOfMembers_pos {word : String} {items : List Predicate} (h : 2 ≤ items.length) :
    0 < (marksOfMembers word items).length := by
  match items with
  | [] =>
      cases h
  | [p] =>
      cases h with
      | step h =>
          cases h
  | p :: q :: rest =>
      rw [marksOfMembers, List.length_append, List.length_cons]
      · omega
      · rintro ⟨⟩

theorem Predicate.marks_pos {p : Predicate} (h : p.isCanonical = true) : 0 < p.marks.length := by
  cases p with
  | and items =>
      simp only [Predicate.isCanonical, Bool.and_eq_true, decide_eq_true_iff] at h
      exact marksOfMembers_pos h.1.1
  | or items =>
      simp only [Predicate.isCanonical, Bool.and_eq_true, decide_eq_true_iff] at h
      exact marksOfMembers_pos h.1.1
  | not p =>
      exact Nat.succ_pos _
  | contains c wanted =>
      exact Nat.succ_pos _
  | const t =>
      cases h
  | _ =>
      simp only [Predicate.marks, List.length_append, List.length_cons]
      omega

namespace Parser

variable {n : Nat}

theorem Knows.tie {tokens : List Token} (t : Token) (h : Knows n (innerAt tokens)) :
    Knows (n + 1) (innerAt (t :: tokens)) where
  scalar _ _ := accepts_canonicalSum h
  table _ _ := accepts_tableSum
  predicate _ _ := accepts_canonicalPredicate h
  refuses _ _ := refuses_disjunction h

theorem knows_innerAt (tokens : List Token) : Knows tokens.length (innerAt tokens) := by
  induction tokens with
  | nil =>
      constructor
      · intro e rest he _ hlength
        have hpos := (Scalar.begins he).pos
        rw [List.length_nil] at hlength
        omega
      · intro table rest _ _ hlength
        have hshort : 3 ≤ 0 := Nat.le_of_add_right_le hlength
        exact absurd hshort (by decide)
      · intro p rest hp _ hlength
        have hpos := Predicate.marks_pos hp
        rw [List.length_nil] at hlength
        omega
      · intro e rest _ hlength
        exact absurd hlength (Nat.not_lt_zero _)
  | cons t tokens ih =>
      exact ih.tie t

/-- The marks of a canonical expression are read as the expression, in front of all that ends it. -/
theorem accepts_scalar {e : Scalar} {rest : List Mark} (he : e.isCanonical = true)
    (hrest : Stops continuesScalar rest) : Accepts scalar e.marks rest e := by
  intro c hc
  have hlength := congrArg List.length hc
  rw [Cursor.length_marks, List.length_append] at hlength
  exact (knows_innerAt c.ahead).scalar e rest he hrest (Nat.le_of_eq hlength.symm) c hc

theorem accepts_predicate {p : Predicate} {rest : List Mark} (hp : p.isCanonical = true)
    (hrest : Stops continuesPredicate rest) : Accepts predicate p.marks rest p := by
  intro c hc
  have hlength := congrArg List.length hc
  rw [Cursor.length_marks, List.length_append] at hlength
  exact (knows_innerAt c.ahead).predicate p rest hp hrest (Nat.le_of_eq hlength.symm) c hc

/-!
# From the text
-/

/-- The parser takes all of a source that is cut into such marks. -/
theorem Accepts.run {α : Type} {p : Parser α} {source : String} {marks : List Mark} {a : α}
    (h : Accepts p marks [] a) (hcuts : Cuts source.toList marks) :
    exists c, Parser.run p source = .ok (a, c) ∧ c.atEnd = true := by
  rcases hcuts with ⟨tokens, hlexed, hmarks⟩
  have hstart : Cursor.marks ⟨source, [], tokens⟩ = marks ++ [] := by
    rw [List.append_nil]
    exact hmarks
  rcases h ⟨source, [], tokens⟩ hstart with ⟨c, hc, hnone⟩
  refine ⟨c, ?_, ?_⟩
  · rw [Parser.run, ofSource_lexed hlexed, Outcome.ok_bind, hc]
  · rw [Cursor.atEnd, List.isEmpty_iff]
    exact List.map_eq_nil_iff.mp hnone

end Parser

/-- Parsing the text of a canonical expression or condition gives it back, and takes all of the text. -/
theorem parse_text :
    (forall e : Scalar, e.isCanonical = true ->
      exists c, Parser.run Parser.scalar e.text = .ok (e, c) ∧ c.atEnd = true) ∧
    forall p : Predicate, p.isCanonical = true ->
      exists c, Parser.run Parser.predicate p.text = .ok (p, c) ∧ c.atEnd = true := by
  constructor
  · intro e he
    have hcuts := spells_scalar e he [] [] Breaks.nil Cuts.nil
    rw [List.append_nil, List.append_nil] at hcuts
    exact (Parser.accepts_scalar he Parser.Stops.nil).run hcuts
  · intro p hp
    have hcuts := spells_predicate p hp [] [] Breaks.nil Cuts.nil
    rw [List.append_nil, List.append_nil] at hcuts
    exact (Parser.accepts_predicate hp Parser.Stops.nil).run hcuts

/-- An operand in parentheses at the front of a condition in parentheses. -/
def marginCondition : Predicate :=
  .and [.compare (.binary (.binary (.column (.inCollection "o" "paid")) .sub (.column (.ofName "cost")))
      .mul (.negate (.call "LEFT" false [.column (.ofName "rate"), .literal (.int (-2))]))) .ge
      (.literal (.str "it''s")),
    .or [.not (.isNull (.column (.ofName "contains")) true),
      .inList (.searchedCase [(.contains (.ofName "note") (.literal (.str "x")), .literal .null)] none)
        [.collate (.literal (.int 7)) "Latin1_General", .call "COUNT" true [.star]] true]]

theorem margin_condition_parsed :
    (Scalar.literal (.int (-7))).isCanonical = true ∧ marginCondition.isCanonical = true ∧
      (exists c, Parser.run Parser.scalar "-7" = .ok (.literal (.int (-7)), c) ∧ c.atEnd = true) ∧
      exists c, Parser.run Parser.predicate marginCondition.text = .ok (marginCondition, c) ∧
        c.atEnd = true := by
  have hscalar : (Scalar.literal (.int (-7))).isCanonical = true := by decide +kernel
  have hcondition : marginCondition.isCanonical = true := by decide +kernel
  exact ⟨hscalar, hcondition, parse_text.1 _ hscalar, parse_text.2 _ hcondition⟩

end Sql
end RecordSql
