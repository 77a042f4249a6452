import Mathlib.Data.List.Forall2
import RecordSql.Proofs.DocumentText

/-!
# Keys of tuples

Rows are grouped and told apart by the texts of tuples.  Between values that a column can hold
together, the text of a tuple keeps apart all but one pair: a missing value and a double that is not
finite are both written as null.
-/

namespace RecordSql
namespace Number

/-!
# Doubles that have a text
-/

/-- The exponent of a double as it stands among the bits. -/
def biasedExponent (x : Float) : Nat :=
  x.toBits.toNat / Nat.pow 2 52 % Nat.pow 2 11

theorem toNat_unpackExponent (x : Float) :
    (@Float.Model.UnpackedFloat.unpackExponent .binary64 x.toModel.toBits.toBitVec).toNat =
      biasedExponent x := by
  change (x.toBits.toNat >>> 52) % 2 ^ 11 = _
  rw [Nat.shiftRight_eq_div_pow]
  rfl

theorem biasedExponent_of_isFinite {x : Float} (h : x.isFinite = true) :
    biasedExponent x ≠ 2047 := by
  intro hlargest
  have hones : @Float.Model.UnpackedFloat.unpackExponent .binary64
      x.toModel.toBits.toBitVec = -1#11 :=
    BitVec.eq_of_toNat_eq ((toNat_unpackExponent x).trans hlargest)
  change (Float.Model.UnpackedFloat.unpack .binary64 x.toModel.toBits.toBitVec).isFinite = true at h
  unfold Float.Model.UnpackedFloat.unpack at h
  rw [if_pos hones] at h
  split at h <;> cases h

theorem isSome_documentText {x : Float} (h : x.isFinite = true) :
    (documentText x).isSome = true := by
  have hdecode : exists b, decode x = .finite b := by
    have hexponent : ¬ (biasedExponent x == 2047) = true := by
      simpa using biasedExponent_of_isFinite h
    change exists b, (if (biasedExponent x == 2047) = true then _ else _) = Decoded.finite b
    rw [if_neg hexponent]
    split <;> exact ⟨_, rfl⟩
  rcases hdecode with ⟨b, hb⟩
  unfold documentText
  rw [hb]
  change (if (b.significand == 0) = true then _ else _ : Option String).isSome = true
  split <;> rfl

end Number

namespace Value

/-!
# Members that are written alike
-/

/-- The value has no text of its own in a document. -/
def Unwritten (v : Value) : Prop :=
  v = .null ∨ exists x : Float, v = .float x ∧ x.isFinite = false

theorem sameText_of_unwritten {v w : Value} (hv : Unwritten v) (hw : Unwritten w) :
    SameText v w := by
  have hnull : forall u : Value, Unwritten u -> u.toJson = .null := by
    rintro u (rfl | ⟨x, rfl, hx⟩)
    · rfl
    · rw [toJson, hx]
      rfl
  rw [SameText, hnull v hv, hnull w hw]

/-- A finite double is written with digits and marks, and so is not null. -/
theorem float_ne_null {x : Float} (h : x.isFinite = true) : ¬ SameText (.float x) .null := by
  have hletters : Number.AcceptsNumerals (fun c => c != 'n') := by
    refine ⟨?_, by decide⟩
    intro c hc
    rw [bne_iff_ne]
    rintro rfl
    exact absurd hc (by decide)
  rcases Option.isSome_iff_exists.mp (Number.isSome_documentText h) with ⟨text, htext⟩
  have hchars : (Value.float x).toJson.chars = text.toList := by
    rw [toJson, h, if_pos rfl, Json.chars, htext]
    rfl
  have hall := hletters.all_documentText htext
  intro hsame
  rw [<- hchars, show (Value.float x).toJson.chars = _ from hsame] at hall
  exact absurd hall (by decide)

theorem unwritten_of_sameText_null {v : Value} (h : SameText v .null) : Unwritten v := by
  by_cases hmissing : v.kind? = none
  · exact Or.inl (eq_null_of_kind? hmissing)
  · by_cases hfloat : v.kind? = some .float
    · cases v <;> cases hfloat
      rename_i x
      refine Or.inr ⟨x, rfl, ?_⟩
      by_contra hx
      exact float_ne_null ((Bool.not_eq_false _).mp hx) h
    · have hnull : v.toJson.chars ++ [] = Json.null.chars ++ [] := by
        rw [List.append_nil, List.append_nil]
        exact h
      exact absurd hnull (chars_append_ne_null hmissing hfloat (.nil _) (.nil _))

/-!
# Tuples of matched members
-/

/-- Both values are of one kind, which is neither that of doubles nor that of references, or one of
them is missing. -/
def Matched (v w : Value) : Prop :=
  v = .null ∨ w = .null ∨
    exists kind, kind ≠ Kind.float ∧ kind ≠ Kind.ref ∧ v.kind? = some kind ∧ w.kind? = some kind

theorem sameText_iff {v w : Value} (h : Matched v w) :
    SameText v w <-> v = w ∨ Unwritten v ∧ Unwritten w := by
  constructor
  · intro hsame
    rcases h with rfl | rfl | ⟨kind, hfloat, _, hv, hw⟩
    · exact Or.inr ⟨Or.inl rfl, unwritten_of_sameText_null hsame.symm⟩
    · exact Or.inr ⟨unwritten_of_sameText_null hsame, Or.inl rfl⟩
    · refine Or.inl (hsame.eq ⟨kind, hfloat, ?_, ?_⟩)
      · intro other hother
        exact Option.some.inj (hother.symm.trans hv)
      · intro other hother
        exact Option.some.inj (hother.symm.trans hw)
  · rintro (rfl | ⟨hv, hw⟩)
    · rfl
    · exact sameText_of_unwritten hv hw

/-- The value is no double that is written like a missing value. -/
def Legible (v : Value) : Prop :=
  forall x : Float, v = .float x -> x.isFinite = true

theorem Unwritten.eq_null {v : Value} (h : Unwritten v) (hlegible : Legible v) : v = .null := by
  rcases h with rfl | ⟨x, rfl, hx⟩
  · rfl
  · rw [hlegible x rfl] at hx
    cases hx

theorem eq_of_legible {v w : List Value}
    (h : List.Forall₂ (fun a b => a = b ∨ Unwritten a ∧ Unwritten b) v w)
    (hlegible : forall a, a ∈ v ++ w -> Legible a) : v = w := by
  induction h with
  | nil =>
      rfl
  | @cons a b as bs hfirst _ ih =>
      have hhead : a = b := by
        rcases hfirst with hab | ⟨ha, hb⟩
        · exact hab
        · rw [ha.eq_null (hlegible a (by simp)), hb.eq_null (hlegible b (by simp))]
      have htail : as = bs := by
        refine ih fun c hc => hlegible c ?_
        rcases List.mem_append.mp hc with hc | hc <;> simp [hc]
      rw [hhead, htail]

theorem tupleText_eq_iff_of_matched {v w : List Value} (h : List.Forall₂ Matched v w) :
    tupleText v = tupleText w <->
      List.Forall₂ (fun a b => a = b ∨ Unwritten a ∧ Unwritten b) v w := by
  rw [tupleText_eq_iff h.length_eq]
  constructor
  · exact List.Forall₂.mp (fun a b hab => (sameText_iff hab).mp) h
  · exact List.Forall₂.mp (fun a b hab => (sameText_iff hab).mpr) h

theorem tupleText_eq_iff_of_legible {v w : List Value} (h : List.Forall₂ Matched v w)
    (hlegible : forall a, a ∈ v ++ w -> Legible a) : tupleText v = tupleText w <-> v = w := by
  constructor
  · intro htext
    exact eq_of_legible ((tupleText_eq_iff_of_matched h).mp htext) hlegible
  · rintro rfl
    rfl

/--
Tuples of matched members have one text exactly if their members are equal or both without a text of
their own.  Without doubles that are not finite, they have one text exactly if they are equal.
-/
theorem matched_tuple_text_iff {v w : List Value} (h : List.Forall₂ Matched v w) :
    (tupleText v = tupleText w <->
      List.Forall₂ (fun a b => a = b ∨ Unwritten a ∧ Unwritten b) v w) ∧
    ((forall a, a ∈ v ++ w -> Legible a) -> (tupleText v = tupleText w <-> v = w)) :=
  ⟨tupleText_eq_iff_of_matched h, tupleText_eq_iff_of_legible h⟩

/-- Quotes and commas inside a text do not end it, but a double that is no number passes for
a missing value. -/
theorem quoted_tuples_kept_apart :
    List.Forall₂ Matched [.str "a\",\"b", .str "c"] [.str "a", .str "b\",\"c"] ∧
      tupleText [.str "a\",\"b", .str "c"] ≠ tupleText [.str "a", .str "b\",\"c"] ∧
      List.Forall₂ Matched [.null, .int 1] [.float (0.0 / 0.0), .int 1] ∧
      tupleText [.null, .int 1] = tupleText [.float (0.0 / 0.0), .int 1] := by
  have htexts : forall s t : String, Matched (.str s) (.str t) := fun s t =>
    Or.inr (Or.inr ⟨.text, by decide, by decide, rfl, rfl⟩)
  have hquoted : List.Forall₂ Matched [.str "a\",\"b", .str "c"] [.str "a", .str "b\",\"c"] :=
    .cons (htexts _ _) (.cons (htexts _ _) .nil)
  have hmissing : List.Forall₂ Matched [.null, .int 1] [.float (0.0 / 0.0), .int 1] :=
    .cons (Or.inl rfl) (.cons (Or.inr (Or.inr ⟨.int, by decide, by decide, rfl, rfl⟩)) .nil)
  refine ⟨hquoted, ?_, hmissing, ?_⟩
  · intro htext
    have hlegible : forall a : Value,
        a ∈ [.str "a\",\"b", .str "c"] ++ [.str "a", .str "b\",\"c"] -> Legible a := by
      intro a ha x hx
      subst hx
      simp at ha
    have heq := ((matched_tuple_text_iff hquoted).2 hlegible).mp htext
    exact absurd heq (by decide)
  · refine (matched_tuple_text_iff hmissing).1.mpr (.cons (Or.inr ⟨Or.inl rfl, ?_⟩) ?_)
    · exact Or.inr ⟨_, rfl, by decide⟩
    · exact .cons (Or.inl rfl) .nil

end Value

end RecordSql
