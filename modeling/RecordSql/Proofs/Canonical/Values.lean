import RecordSql.Proofs.Canonical.Conditions

/-!
# Equal texts have equal values

Parsed expressions that are legible and have the same text differ at most in how they were spelled,
and that does not matter to their values.
-/

namespace RecordSql
namespace Sql

namespace Scalar

/-- The text of a readable expression determines it up to its spelling. -/
theorem plain_eq_of_text {e f : Scalar} (he : e.IsReadable) (hf : f.IsReadable)
    (h : e.text = f.text) : e.plain = f.plain := by
  have hread := (unambiguous _).scalar (r := []) (s := []) (Nat.lt_succ_self _) he hf .nil .nil
  rw [List.append_nil, List.append_nil, h] at hread
  exact (hread rfl).1

theorem namesFunction_of_showsItself {e : Scalar} (h : e.showsItself = true) :
    e.namesFunction = true := by
  cases e with
  | call name distinct args =>
      rw [showsItself, Bool.and_eq_true] at h
      exact h.2
  | _ =>
      rfl

end Scalar

end Sql

namespace Eval

open Sql (Scalar Cursor)

/-- A legible expression has the value of its plain form. -/
theorem scalar_plain_of_isLegible {clock : Clock} {read : String -> Value} {e : Scalar}
    (h : e.IsLegible) : scalar clock read e.plain = scalar clock read e :=
  scalar_plain e fun x hx => Scalar.namesFunction_of_showsItself (h x hx)

/-- Two parsed expressions that are legible and have the same text have the same value on every
row, failures included. -/
theorem equal_text_equal_value {start start' rest rest' : Cursor} {e f : Scalar}
    (he : Sql.Parser.scalar start = .ok e rest) (hf : Sql.Parser.scalar start' = .ok f rest')
    (hlegible : e.IsLegible) (hlegible' : f.IsLegible) (htext : e.text = f.text)
    (clock : Clock) (read : String -> Value) : scalar clock read e = scalar clock read f := by
  have hplain : e.plain = f.plain := Scalar.plain_eq_of_text
    ⟨Sql.Parser.wellFormed_scalar he, hlegible⟩ ⟨Sql.Parser.wellFormed_scalar hf, hlegible'⟩ htext
  calc
    scalar clock read e = scalar clock read e.plain := (scalar_plain_of_isLegible hlegible).symm
    _ = scalar clock read f.plain := by rw [hplain]
    _ = scalar clock read f := scalar_plain_of_isLegible hlegible'

/-!
# Sources with the same text
-/

/-- The expression that a source starts with. -/
def spelled? (source : String) : Option Scalar := do
  let start <- (Cursor.ofSource source).toOption
  match Sql.Parser.scalar start with
  | .ok e _ => some e
  | .error _ _ => none

theorem exists_parse_of_spelled {source : String} {e : Scalar} (h : spelled? source = some e) :
    exists start rest, Sql.Parser.scalar start = .ok e rest := by
  rw [spelled?, Option.bind_eq_bind, Option.bind_eq_some_iff] at h
  rcases h with ⟨start, -, h⟩
  cases hparse : Sql.Parser.scalar start with
  | ok f rest =>
      rw [hparse] at h
      cases h
      exact ⟨start, rest, hparse⟩
  | error failure rest =>
      rw [hparse] at h
      cases h

/-- The expressions of the two sources have the same text, and the row gives them two values. -/
def collide (row : String -> Value) (source source' : String) : Bool :=
  let clock : Clock := ⟨.midnight ⟨2000, 1, 1, by decide⟩, .midnight ⟨2000, 1, 1, by decide⟩⟩
  (spelled? source).any fun e => (spelled? source').any fun f =>
    e.text == f.text && scalar clock row e != scalar clock row f

/--
Two spellings of an expression have the same value.  What is not legible can be mistaken: a whole
double for a whole number, a name for an operation, and the collation of all for that of a part.
-/
theorem equal_value_nameRatio :
    (exists e f, spelled? "Len([name]) / 2.50" = some e ∧ spelled? "len(name)/2.5" = some f ∧
      forall clock read, scalar clock read e = scalar clock read f) ∧
    collide (fun _ => .int 7) "n / 2" "n / 2.0" = true ∧
    collide (fun _ => .int 7) "n + m" "[n + m]" = true ∧
    collide (fun _ => .str "x") "CASE WHEN (n + m) COLLATE Latin1_General_CS_AS = 'XX' THEN 1 END"
      "CASE WHEN n + m COLLATE Latin1_General_CS_AS = 'XX' THEN 1 END" = true := by
  have hratio : ((spelled? "Len([name]) / 2.50").any fun e =>
      (spelled? "len(name)/2.5").any fun f =>
        decide (e.IsLegible ∧ f.IsLegible ∧ e.text = f.text)) = true := by
    decide +kernel
  simp only [Option.any_eq_true, decide_eq_true_eq] at hratio
  rcases hratio with ⟨e, he, f, hf, hlegible, hlegible', htext⟩
  rcases exists_parse_of_spelled he with ⟨start, rest, hparse⟩
  rcases exists_parse_of_spelled hf with ⟨start', rest', hparse'⟩
  refine ⟨⟨e, f, he, hf, ?_⟩, by decide +kernel, by decide +kernel, by decide +kernel⟩
  exact equal_text_equal_value hparse hparse' hlegible hlegible' htext

end Eval
end RecordSql
