import RecordSql.Proofs.Spelling
import RecordSql.Sql.ExprText

/-!
# The operands of a text

The text of an expression is a row of operands with operators between them.  An operand is a whole
operation only if it stands in parentheses; otherwise it is a single item, with its signs and its
collations.  How tightly the operators bind tells the expression again, and so it is determined by
its row of operands.
-/

namespace RecordSql
namespace Sql

/-!
# Rows of operands
-/

namespace Scalar

/-- The text of an operand, an operation in parentheses. -/
def operandChars (e : Scalar) : List Char :=
  match e with
  | .binary _ _ _ => '(' :: (e.text.toList ++ [')'])
  | _ => e.text.toList

theorem toList_negatedText (e : Scalar) :
    (negatedText e e.text).toList = '-' :: e.operandChars := by
  cases e with
  | binary l op r =>
      simp [negatedText, operandChars]
  | _ =>
      exact String.toList_append

/-- The text puts the operand of the given operator in parentheses. -/
def isEnclosed (parent : Arithmetic) (onRight : Bool) (operand : Scalar) : Bool :=
  match operand with
  | .binary _ op _ =>
      op.precedence < parent.precedence || (onRight && op.precedence == parent.precedence)
  | _ => false

/-- The first operand of the row, and every other one with the operator in front of it. -/
def terms : Scalar -> Scalar × List (Arithmetic × Scalar)
  | .binary l op r =>
      let left := if isEnclosed op false l then (l, []) else l.terms
      let right := if isEnclosed op true r then (r, []) else r.terms
      (left.1, left.2 ++ (op, right.1) :: right.2)
  | e => (e, [])

/-- The operators and operands that follow the first operand, as they are written. -/
def tailChars (others : List (Arithmetic × Scalar)) : List Char :=
  others.flatMap fun t => ' ' :: (t.1.sign.toList ++ ' ' :: t.2.operandChars)

theorem tailChars_cons (op : Arithmetic) (e : Scalar) (others : List (Arithmetic × Scalar)) :
    tailChars ((op, e) :: others) =
      ' ' :: (op.sign.toList ++ ' ' :: (e.operandChars ++ tailChars others)) := by
  simp [tailChars]

theorem tailChars_append (others more : List (Arithmetic × Scalar)) :
    tailChars (others ++ more) = tailChars others ++ tailChars more := by
  simp [tailChars]

theorem operandText_eq (parent : Arithmetic) (onRight : Bool) (e : Scalar) (text : String) :
    operandText parent onRight e text =
      if isEnclosed parent onRight e then "(" ++ text ++ ")" else text := by
  cases e <;> rfl

theorem operandChars_of_isEnclosed {parent : Arithmetic} {onRight : Bool} {e : Scalar}
    (h : isEnclosed parent onRight e = true) :
    e.operandChars = '(' :: (e.text.toList ++ [')']) := by
  cases e with
  | binary l op r =>
      rfl
  | _ =>
      cases h

/-- An expression that is no operation is a row of one operand. -/
theorem terms_single {e : Scalar} (h : forall l op r, e = .binary l op r -> False) :
    e.terms = (e, []) ∧ e.operandChars = e.text.toList := by
  cases e with
  | binary l op r =>
      exact (h l op r rfl).elim
  | _ =>
      exact ⟨rfl, rfl⟩

/-- The row that stands for an operand of an operator. -/
def operandTerms (parent : Arithmetic) (onRight : Bool) (e : Scalar) :
    Scalar × List (Arithmetic × Scalar) :=
  if isEnclosed parent onRight e then (e, []) else e.terms

theorem terms_binary (l : Scalar) (op : Arithmetic) (r : Scalar) :
    (Scalar.binary l op r).terms =
      ((operandTerms op false l).1, (operandTerms op false l).2 ++
        (op, (operandTerms op true r).1) :: (operandTerms op true r).2) := by
  rfl

theorem toList_operandText {parent : Arithmetic} {onRight : Bool} {e : Scalar}
    (h : e.text.toList = e.terms.1.operandChars ++ tailChars e.terms.2) :
    (operandText parent onRight e e.text).toList =
      (operandTerms parent onRight e).1.operandChars ++
        tailChars (operandTerms parent onRight e).2 := by
  rw [operandText_eq, operandTerms]
  split
  · rename_i henclosed
    rw [operandChars_of_isEnclosed henclosed]
    simp [tailChars]
  · exact h

/-- The text of an expression is its row of operands. -/
theorem toList_text (e : Scalar) :
    e.text.toList = e.terms.1.operandChars ++ tailChars e.terms.2 := by
  induction e using Scalar.terms.induct with
  | case1 l op r ihl ihr =>
      rw [Scalar.text, terms_binary, tailChars_append, tailChars_cons]
      simp only [String.toList_append, toList_operandText ihl, toList_operandText ihr,
        List.append_assoc, List.cons_append, List.nil_append,
        show " ".toList = [' '] from rfl]
  | case2 e hsingle =>
      rw [(terms_single hsingle).1, (terms_single hsingle).2]
      simp [tailChars]

/-!
# From the row to the expression

A row is read from the left: the last product is still open to further factors, and in front of it
stands the sum of all before it.
-/

/-- A sum, if there is one, with its last operand. -/
def close (sum : Option (Scalar × Arithmetic)) (product : Scalar) : Scalar :=
  match sum with
  | none => product
  | some (l, op) => .binary l op product

/-- The sum and the product after one more operand. -/
def extend (read : Option (Scalar × Arithmetic) × Scalar) (t : Arithmetic × Scalar) :
    Option (Scalar × Arithmetic) × Scalar :=
  if t.1.precedence = 1 then (some (close read.1 read.2, t.1), t.2)
  else (read.1, .binary read.2 t.1 t.2)

/-- The expression is a sum or a difference. -/
def isAdditive : Scalar -> Bool
  | .binary _ op _ => op.precedence == 1
  | _ => false

theorem precedence_cases (op : Arithmetic) : op.precedence = 1 ∨ op.precedence = 2 := by
  cases op <;> decide

/-- A sum as a right operand or as a factor stands in parentheses. -/
theorem isAdditive_of_open {parent : Arithmetic} {onRight : Bool} {e : Scalar}
    (hplace : onRight = true ∨ parent.precedence = 2)
    (h : isEnclosed parent onRight e = false) : e.isAdditive = false := by
  cases e with
  | binary l op r =>
      rcases precedence_cases op with hop | hop
      · rcases precedence_cases parent with hparent | hparent <;>
          simp_all [isEnclosed]
      · simp [isAdditive, hop]
  | _ =>
      rfl

/-- An operand is read as one product if a sum in its place would stand in parentheses. -/
theorem foldl_operandTerms {parent : Arithmetic} {onRight : Bool} {e : Scalar}
    {sum : Option (Scalar × Arithmetic)} (hplace : onRight = true ∨ parent.precedence = 2)
    (h : e.isAdditive = false -> e.terms.2.foldl extend (sum, e.terms.1) = (sum, e)) :
    (operandTerms parent onRight e).2.foldl extend (sum, (operandTerms parent onRight e).1) =
      (sum, e) := by
  rw [operandTerms]
  split
  · rfl
  · rename_i hopen
    exact h (isAdditive_of_open hplace (Bool.not_eq_true _ ▸ hopen))

/-- Every operation as a second factor stands in parentheses. -/
theorem operandTerms_factor {parent : Arithmetic} (hparent : parent.precedence = 2) (e : Scalar) :
    operandTerms parent true e = (e, []) := by
  cases e with
  | binary l op r =>
      rw [operandTerms, if_pos]
      rcases precedence_cases op with hop | hop <;> simp [isEnclosed, hop, hparent]
  | _ =>
      rfl

/-- A first summand never stands in parentheses. -/
theorem operandTerms_summand {parent : Arithmetic} (hparent : parent.precedence = 1) (e : Scalar) :
    operandTerms parent false e = e.terms := by
  cases e with
  | binary l op r =>
      rw [operandTerms, if_neg]
      rcases precedence_cases op with hop | hop <;> simp [isEnclosed, hop, hparent]
  | _ =>
      rfl

/-- A product is read as one factor after the other. -/
theorem foldl_extend_product {sum : Option (Scalar × Arithmetic)} {e : Scalar}
    (h : e.isAdditive = false) : e.terms.2.foldl extend (sum, e.terms.1) = (sum, e) := by
  induction e using Scalar.terms.induct with
  | case1 l op r ihl ihr =>
      have hne : op.precedence ≠ 1 := by simpa [isAdditive] using h
      have hop : op.precedence = 2 := (precedence_cases op).resolve_left hne
      rw [terms_binary, operandTerms_factor hop, List.foldl_append,
        foldl_operandTerms (Or.inr hop) ihl, List.foldl_cons, List.foldl_nil, extend, if_neg hne]
  | case2 e hsingle =>
      rw [(terms_single hsingle).1]
      rfl

/-- Reading the row of an expression gives the expression. -/
theorem close_foldl_terms (e : Scalar) :
    close (e.terms.2.foldl extend (none, e.terms.1)).1
      (e.terms.2.foldl extend (none, e.terms.1)).2 = e := by
  induction e using Scalar.terms.induct with
  | case1 l op r ihl ihr =>
      rcases precedence_cases op with hop | hop
      · rw [terms_binary, operandTerms_summand hop, List.foldl_append, List.foldl_cons, extend,
          if_pos hop, ihl, foldl_operandTerms (Or.inl rfl) foldl_extend_product]
        rfl
      · rw [foldl_extend_product (by simp [isAdditive, hop])]
        rfl
  | case2 e hsingle =>
      rw [(terms_single hsingle).1]
      rfl

/-- An expression is determined by its row of operands. -/
theorem terms_inj {e f : Scalar} (h : e.terms = f.terms) : e = f := by
  have he := close_foldl_terms e
  rw [h, close_foldl_terms f] at he
  exact he.symm

/-!
# Collations
-/

/-- The operand without its collations, and the collations in the order of their names. -/
def collated : Scalar -> Scalar × List String
  | .collate e collation => (e.collated.1, e.collated.2 ++ [collation])
  | e => (e, [])

def collationChars (collations : List String) : List Char :=
  collations.flatMap fun collation => " COLLATE ".toList ++ collation.toList

theorem collated_single {e : Scalar} (h : forall f collation, e = .collate f collation -> False) :
    e.collated = (e, []) := by
  cases e with
  | collate f collation =>
      exact (h f collation rfl).elim
  | _ =>
      rfl

theorem foldl_collated (e : Scalar) :
    e.collated.2.foldl Scalar.collate e.collated.1 = e := by
  induction e using Scalar.collated.induct with
  | case1 e collation ih =>
      rw [collated, List.foldl_append, ih]
      rfl
  | case2 e hsingle =>
      rw [collated_single hsingle]
      rfl

theorem collated_inj {e f : Scalar} (h : e.collated = f.collated) : e = f := by
  have he := foldl_collated e
  rw [h, foldl_collated f] at he
  exact he.symm

/-!
# Plain forms
-/

theorem isEnclosed_plain (parent : Arithmetic) (onRight : Bool) (e : Scalar) :
    isEnclosed parent onRight e.plain = isEnclosed parent onRight e := by
  cases e <;> rfl

def plainTerms (row : Scalar × List (Arithmetic × Scalar)) :
    Scalar × List (Arithmetic × Scalar) :=
  (row.1.plain, row.2.map fun t => (t.1, t.2.plain))

theorem terms_plain (e : Scalar) : e.plain.terms = plainTerms e.terms := by
  have hoperand : forall {parent : Arithmetic} {onRight : Bool} {e : Scalar},
      e.plain.terms = plainTerms e.terms ->
      operandTerms parent onRight e.plain = plainTerms (operandTerms parent onRight e) := by
    intro parent onRight e he
    rw [operandTerms, operandTerms, isEnclosed_plain]
    split
    · rfl
    · exact he
  induction e using Scalar.terms.induct with
  | case1 l op r ihl ihr =>
      rw [Scalar.plain, terms_binary, terms_binary, hoperand ihl, hoperand ihr]
      simp [plainTerms]
  | case2 e hsingle =>
      rw [(terms_single hsingle).1]
      cases e with
      | binary l op r =>
          exact (hsingle l op r rfl).elim
      | _ =>
          rfl

theorem collated_plain (e : Scalar) :
    e.plain.collated = (e.collated.1.plain, e.collated.2) := by
  induction e using Scalar.collated.induct with
  | case1 e collation ih =>
      rw [Scalar.plain, collated, collated, ih]
  | case2 e hsingle =>
      rw [collated_single hsingle]
      cases e with
      | collate f collation =>
          exact (hsingle f collation rfl).elim
      | _ =>
          rfl

end Scalar

end Sql
end RecordSql
