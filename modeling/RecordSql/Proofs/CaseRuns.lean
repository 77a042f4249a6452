import RecordSql.Text.Case

/-!
# Case tables as maps

The runs of a case table name no code twice, and no code that another one is sent to.  So a table is
a map that changes nothing when it is applied again, and its preimages are the codes that it sends
to a code.
-/

namespace RecordSql
namespace Text
namespace Run

/-!
# Runs that have no code in common
-/

/-- The codes of the run are all even or all odd. -/
def isSparse (r : Run) : Bool :=
  Nat.beq r.step 2 || Nat.beq r.first r.last

/-- The runs do not overlap, or one has even codes and the other odd ones. -/
def apart (r s : Run) : Bool :=
  Nat.blt r.last s.first || Nat.blt s.last r.first ||
    (r.isSparse && s.isSparse && !Nat.beq (r.first % 2) (s.first % 2))

/-- The counterparts of the codes of a run. -/
def image (r : Run) : Run :=
  ⟨((r.first : Int) + r.shift).toNat, ((r.last : Int) + r.shift).toNat, r.step, 0⟩

/-- Every code of the run is that of a character. -/
def isScalar (r : Run) : Bool :=
  Nat.blt r.last 0xD800 || (Nat.blt 0xDFFF r.first && Nat.blt r.last 0x110000)

variable {r s : Run} {code : Nat}

theorem covers_iff : r.covers code = true <->
    r.first ≤ code ∧ code ≤ r.last ∧ (code - r.first) % r.step = 0 := by
  simp [covers, and_assoc]

theorem mod_two_of_isSparse (h : r.isSparse = true) (hcode : r.covers code = true) :
    code % 2 = r.first % 2 := by
  rcases covers_iff.mp hcode with ⟨hfirst, hlast, hstep⟩
  rw [isSparse, Bool.or_eq_true, Nat.beq_eq, Nat.beq_eq] at h
  rcases h with htwo | hsingle
  · rw [htwo] at hstep
    omega
  · rw [show code = r.first by omega]

theorem not_covers_of_apart (h : apart r s = true) (hcode : r.covers code = true) :
    s.covers code = false := by
  rw [Bool.eq_false_iff]
  intro hother
  have hr := covers_iff.mp hcode
  have hs := covers_iff.mp hother
  simp only [apart, Bool.or_eq_true, Bool.and_eq_true, Nat.blt_eq, Bool.not_eq_true'] at h
  rcases h with (hbefore | hafter) | ⟨⟨hsparse, hsparse'⟩, hparity⟩
  · omega
  · omega
  · have hmod := mod_two_of_isSparse hsparse hcode
    have hmod' := mod_two_of_isSparse hsparse' hother
    rw [hmod] at hmod'
    rw [hmod', Nat.beq_refl] at hparity
    cases hparity

theorem covers_image (hshift : 0 ≤ (r.first : Int) + r.shift) (h : r.covers code = true) :
    r.image.covers ((code : Int) + r.shift).toNat = true := by
  rcases covers_iff.mp h with ⟨hfirst, hlast, hstep⟩
  refine covers_iff.mpr ⟨by simp only [image]; omega, by simp only [image]; omega, ?_⟩
  have hdistance : ((code : Int) + r.shift).toNat - ((r.first : Int) + r.shift).toNat =
      code - r.first := by
    omega
  simp only [image, hdistance, hstep]

theorem isValidChar_of_isScalar (h : r.isScalar = true) (hcode : r.covers code = true) :
    code.isValidChar := by
  rcases covers_iff.mp hcode with ⟨hfirst, hlast, _⟩
  simp only [isScalar, Bool.or_eq_true, Bool.and_eq_true, Nat.blt_eq] at h
  unfold Nat.isValidChar
  omega

/-!
# Tables
-/

def areApart : List Run -> Bool
  | [] => true
  | r :: rest => rest.all (apart r) && areApart rest

/-- The runs of a table are apart from each other and from the counterparts of all codes. -/
structure Settled (runs : List Run) : Prop where
  distinct : areApart runs = true
  images : (runs.all fun r => runs.all (apart r.image)) = true
  scalars : forall r, r ∈ runs ->
    r.isScalar = true ∧ r.image.isScalar = true ∧ 0 ≤ (r.first : Int) + r.shift

variable {runs : List Run}

theorem apply_of_covers (h : Settled runs) (hr : r ∈ runs) (hcode : r.covers code = true) :
    apply runs code = ((code : Int) + r.shift).toNat := by
  have hfind : runs.find? (covers · code) = some r := by
    have hdistinct := h.distinct
    clear h
    induction runs with
    | nil =>
        cases hr
    | cons s rest ih =>
        rw [areApart, Bool.and_eq_true, List.all_eq_true] at hdistinct
        rcases hdistinct with ⟨hfirst, hrest⟩
        rcases List.mem_cons.mp hr with rfl | hr
        · simp [hcode]
        · have hnot : s.covers code = false := by
            rw [Bool.eq_false_iff]
            intro hs
            rw [not_covers_of_apart (hfirst r hr) hs] at hcode
            cases hcode
          rw [List.find?_cons, hnot]
          exact ih hr hrest
  rw [apply, hfind]

theorem apply_of_not_covered (h : forall r, r ∈ runs -> r.covers code = false) :
    apply runs code = code := by
  have hfind : runs.find? (covers · code) = none := by
    rw [List.find?_eq_none]
    intro r hr
    simp [h r hr]
  rw [apply, hfind]

/-- A code is named by one run, or it is left as it is. -/
theorem apply_cases (h : Settled runs) (code : Nat) :
    (exists r, r ∈ runs ∧ r.covers code = true ∧
      apply runs code = ((code : Int) + r.shift).toNat) ∨
    ((forall r, r ∈ runs -> r.covers code = false) ∧ apply runs code = code) := by
  by_cases hcovered : exists r, r ∈ runs ∧ r.covers code = true
  · rcases hcovered with ⟨r, hr, hcode⟩
    exact Or.inl ⟨r, hr, hcode, apply_of_covers h hr hcode⟩
  · have hnone : forall r, r ∈ runs -> r.covers code = false := by
      intro r hr
      rw [Bool.eq_false_iff]
      exact fun hcode => hcovered ⟨r, hr, hcode⟩
    exact Or.inr ⟨hnone, apply_of_not_covered hnone⟩

/-- No run names the counterpart of a code. -/
theorem not_covers_apply (h : Settled runs) (code : Nat) (hr : r ∈ runs) :
    r.covers (apply runs code) = false := by
  rcases apply_cases h code with ⟨s, hs, hcode, happly⟩ | ⟨hnone, happly⟩
  · rw [happly]
    have himages := List.all_eq_true.mp h.images s hs
    exact not_covers_of_apart (List.all_eq_true.mp himages r hr)
      (covers_image (h.scalars s hs).2.2 hcode)
  · rw [happly]
    exact hnone r hr

theorem apply_apply (h : Settled runs) (code : Nat) :
    apply runs (apply runs code) = apply runs code :=
  apply_of_not_covered fun _ hr => not_covers_apply h code hr

theorem isValidChar_apply (h : Settled runs) (hcode : code.isValidChar) :
    (apply runs code).isValidChar := by
  rcases apply_cases h code with ⟨s, hs, hcovers, happly⟩ | ⟨_, happly⟩
  · rw [happly]
    exact isValidChar_of_isScalar (h.scalars s hs).2.1 (covers_image (h.scalars s hs).2.2 hcovers)
  · rw [happly]
    exact hcode

theorem mem_preimages_iff (h : Settled runs) {source : Nat} :
    source ∈ preimages runs code <->
      apply runs source = code ∧ exists r, r ∈ runs ∧ r.covers source = true := by
  simp only [preimages, List.mem_filterMap, Option.ite_none_right_eq_some, Bool.and_eq_true,
    beq_iff_eq, Option.some.injEq]
  constructor
  · rintro ⟨r, hr, ⟨hcovers, hcode⟩, rfl⟩
    exact ⟨(apply_of_covers h hr hcovers).trans hcode, r, hr, hcovers⟩
  · rintro ⟨happly, r, hr, hcovers⟩
    have hshift := (h.scalars r hr).2.2
    have hfirst := (covers_iff.mp hcovers).1
    rw [apply_of_covers h hr hcovers] at happly
    have hsource : ((code : Int) - r.shift).toNat = source := by omega
    refine ⟨r, hr, ?_, hsource⟩
    rw [hsource]
    exact ⟨hcovers, happly⟩

theorem settled_foldRuns : Settled foldRuns where
  distinct := by decide +kernel
  images := by decide +kernel
  scalars := by decide +kernel

theorem settled_lowerRuns : Settled lowerRuns where
  distinct := by decide +kernel
  images := by decide +kernel
  scalars := by decide +kernel

/-- The first run has the capital letters of ASCII, and the others have no character of ASCII. -/
theorem foldRuns_ascii : exists later, foldRuns = ⟨0x41, 0x5A, 1, 32⟩ :: later ∧
    forall r, r ∈ later -> 128 ≤ r.first :=
  ⟨_, rfl, by decide +kernel⟩

/-- No code is sent to a capital letter of ASCII, nor to the capital that becomes two letters. -/
theorem lowerRuns_images : forall r, r ∈ lowerRuns ->
    0x5A < r.image.first ∧ r.image.covers 0x130 = false := by
  decide +kernel

theorem lowerRuns_sigma : exists r, r ∈ lowerRuns ∧ r.covers 0x3A3 = true := by
  decide +kernel

/-- The dot above a letter and both small sigmas are sent to themselves. -/
theorem lowerRuns_fixed : apply lowerRuns 0x307 = 0x307 ∧ apply lowerRuns 0x3C2 = 0x3C2 ∧
    apply lowerRuns 0x3C3 = 0x3C3 := by
  decide +kernel

end Run
end Text
end RecordSql
