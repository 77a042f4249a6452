import RecordSql.Proofs.CaseRuns
import RecordSql.Proofs.Spelling

/-!
# Letters and their case

Folding a character twice is folding it once, and the variants of a character are the characters
that fold as it does.  A text in lower case consists of characters that are their own lower case.
-/

namespace RecordSql
namespace Text

open Run (settled_foldRuns settled_lowerRuns foldRuns_ascii lowerRuns_images lowerRuns_sigma
  lowerRuns_fixed)

theorem toNat_ofNat {code : Nat} (h : code.isValidChar) : (Char.ofNat code).toNat = code := by
  rw [Char.ofNat, dif_pos h]
  rfl

/-!
# Folding
-/

theorem apply_foldRuns_of_ascii {code : Nat} (hascii : code < 128) :
    Run.apply foldRuns code = if 0x41 ≤ code ∧ code ≤ 0x5A then code + 32 else code := by
  rcases foldRuns_ascii with ⟨later, hruns, hlater⟩
  split
  · rename_i hcapital
    have hcovers : Run.covers ⟨0x41, 0x5A, 1, 32⟩ code = true :=
      Run.covers_iff.mpr ⟨hcapital.1, hcapital.2, Nat.mod_one _⟩
    have hmem : ⟨0x41, 0x5A, 1, 32⟩ ∈ foldRuns := by
      rw [hruns]
      exact List.mem_cons_self
    rw [Run.apply_of_covers settled_foldRuns hmem hcovers]
    rfl
  · rename_i hother
    refine Run.apply_of_not_covered ?_
    intro r hr
    rw [Bool.eq_false_iff]
    intro hcovers
    rcases Run.covers_iff.mp hcovers with ⟨hfirst, hlast, _⟩
    rw [hruns, List.mem_cons] at hr
    rcases hr with rfl | hr
    · exact hother ⟨hfirst, hlast⟩
    · have hfar := hlater r hr
      omega

theorem foldChar_eq (c : Char) : foldChar c = Char.ofNat (Run.apply foldRuns c.toNat) := by
  rw [foldChar]
  split
  · rename_i hascii
    rw [apply_foldRuns_of_ascii hascii]
    exact ascii_cases (fun c => c.toLower = Char.ofNat
      (if 0x41 ≤ c.toNat ∧ c.toNat ≤ 0x5A then c.toNat + 32 else c.toNat)) (by decide) hascii
  · rfl

theorem toNat_foldChar (c : Char) : (foldChar c).toNat = Run.apply foldRuns c.toNat := by
  have hvalid : c.toNat.isValidChar := c.valid
  rw [foldChar_eq, toNat_ofNat (Run.isValidChar_apply settled_foldRuns hvalid)]

theorem foldChar_foldChar (c : Char) : foldChar (foldChar c) = foldChar c := by
  rw [foldChar_eq (foldChar c), toNat_foldChar, Run.apply_apply settled_foldRuns, foldChar_eq]

theorem sameLetter_iff {c d : Char} : sameLetter c d = true <-> foldChar c = foldChar d := by
  rw [sameLetter, beq_iff_eq]

/-- The variants of a character are the characters that fold as it does. -/
theorem mem_variants_iff {c d : Char} : d ∈ variants c <-> sameLetter d c = true := by
  rw [sameLetter_iff, variants, List.mem_cons, List.mem_map]
  constructor
  · rintro (rfl | ⟨code, hcode, rfl⟩)
    · exact foldChar_foldChar c
    · rcases (Run.mem_preimages_iff settled_foldRuns).mp hcode with ⟨happly, r, hr, hcovers⟩
      have hvalid := Run.isValidChar_of_isScalar (settled_foldRuns.scalars r hr).1 hcovers
      rw [foldChar_eq, toNat_ofNat hvalid, happly, Char.ofNat_toNat]
  · intro hfold
    have hcode : Run.apply foldRuns d.toNat = (foldChar c).toNat := by
      rw [<- hfold, toNat_foldChar]
    rcases Run.apply_cases settled_foldRuns d.toNat with ⟨r, hr, hcovers, _⟩ | ⟨_, happly⟩
    · refine Or.inr ⟨d.toNat, ?_, Char.ofNat_toNat d⟩
      exact (Run.mem_preimages_iff settled_foldRuns).mpr ⟨hcode, r, hr, hcovers⟩
    · refine Or.inl ?_
      rw [<- Char.ofNat_toNat d, <- happly, hcode, Char.ofNat_toNat]

/-!
# Lower case
-/

/-- The character is its own lower case at every place of a text. -/
def IsLower (c : Char) : Prop :=
  c ≠ 'Σ' ∧ lowerChar c = [c]

theorem isLower_of_ascii {c : Char} (hascii : c.toNat < 128) (h : c.toLower = c) : IsLower c := by
  constructor
  · rintro rfl
    exact absurd hascii (by decide)
  · rw [lowerChar, if_pos hascii, h]

theorem isLower_apply {code : Nat} (hvalid : code.isValidChar) (hascii : ¬ code < 128)
    (hdotted : code ≠ 0x130) : IsLower (Char.ofNat (Run.apply lowerRuns code)) := by
  have himage : 0x5A < Run.apply lowerRuns code ∧ Run.apply lowerRuns code ≠ 0x130 := by
    rcases Run.apply_cases settled_lowerRuns code with ⟨r, hr, hcovers, happly⟩ | ⟨_, happly⟩
    · have hcovered := Run.covers_image (settled_lowerRuns.scalars r hr).2.2 hcovers
      rw [<- happly] at hcovered
      rcases lowerRuns_images r hr with ⟨hfirst, hnot⟩
      refine ⟨Nat.lt_of_lt_of_le hfirst (Run.covers_iff.mp hcovered).1, ?_⟩
      intro heq
      rw [heq, hnot] at hcovered
      cases hcovered
    · rw [happly]
      omega
  have htoNat := toNat_ofNat (Run.isValidChar_apply settled_lowerRuns hvalid)
  constructor
  · intro hsigma
    rcases lowerRuns_sigma with ⟨r, hr, hcovers⟩
    have hcode : Run.apply lowerRuns code = 0x3A3 := by
      rw [<- htoNat, hsigma]
      rfl
    rw [<- hcode, Run.not_covers_apply settled_lowerRuns code hr] at hcovers
    cases hcovers
  · rw [lowerChar, htoNat, Run.apply_apply settled_lowerRuns]
    split
    · rename_i hsmall
      have hsame := @ascii_cases (fun c => 0x5A < c.toNat -> c.toLower = c) (by decide)
        (Char.ofNat (Run.apply lowerRuns code)) (by rwa [htoNat])
      rw [hsame (by rw [htoNat]; exact himage.1)]
    · rw [if_neg (by simpa using himage.2)]

/-- A code that is sent to itself is that of a character in lower case. -/
theorem isLower_of_apply_eq {code : Nat} (hvalid : code.isValidChar) (hascii : ¬ code < 128)
    (hdotted : code ≠ 0x130) (h : Run.apply lowerRuns code = code) :
    IsLower (Char.ofNat code) := by
  have hlower := isLower_apply hvalid hascii hdotted
  rwa [h] at hlower

theorem isLower_toLower {c : Char} (hascii : c.toNat < 128) : IsLower c.toLower := by
  have h := ascii_cases (fun c => c.toLower.toNat < 128 ∧ c.toLower.toLower = c.toLower)
    (by decide) hascii
  exact isLower_of_ascii h.1 h.2

theorem isLower_of_mem_lowerChar {c d : Char} (h : d ∈ lowerChar c) : IsLower d := by
  rw [lowerChar] at h
  split at h
  · rename_i hascii
    rw [List.mem_singleton.mp h]
    exact isLower_toLower hascii
  · rename_i hascii
    split at h
    · simp only [List.mem_cons, List.not_mem_nil, or_false] at h
      rcases h with rfl | rfl
      · exact isLower_of_ascii (by decide) (by decide)
      · exact isLower_of_apply_eq (by decide) (by decide) (by decide) lowerRuns_fixed.1
    · rename_i hdotted
      rw [List.mem_singleton.mp h]
      exact isLower_apply c.valid hascii (by simpa using hdotted)

theorem lowerChars_of_isLower {cs : List Char} (h : forall c, c ∈ cs -> IsLower c)
    (before : List Char) : lowerChars before cs = cs := by
  induction cs generalizing before with
  | nil =>
      rfl
  | cons c rest ih =>
      rcases h c List.mem_cons_self with ⟨hsigma, hlower⟩
      rw [lowerChars, ih fun d hd => h d (List.mem_cons_of_mem c hd), lowerBetween,
        if_neg (by simpa using hsigma), hlower, List.singleton_append]

theorem isLower_of_mem_lowerChars {cs before : List Char} {c : Char}
    (h : c ∈ lowerChars before cs) : IsLower c := by
  induction cs generalizing before with
  | nil =>
      cases h
  | cons d rest ih =>
      rw [lowerChars, List.mem_append] at h
      rcases h with hfirst | hrest
      · rw [lowerBetween] at hfirst
        split at hfirst
        · rw [List.mem_singleton.mp hfirst]
          split
          · exact isLower_of_apply_eq (by decide) (by decide) (by decide) lowerRuns_fixed.2.1
          · exact isLower_of_apply_eq (by decide) (by decide) (by decide) lowerRuns_fixed.2.2
        · exact isLower_of_mem_lowerChar hfirst
      · exact ih hrest

/-- A text in lower case is its own lower case. -/
theorem lower_lower (s : String) : lower (lower s) = lower s := by
  rw [lower, lower, String.toList_ofList,
    lowerChars_of_isLower fun _ hc => isLower_of_mem_lowerChars hc]

theorem toList_lower {s : String} (h : isAscii s = true) :
    (lower s).toList = s.toList.map Char.toLower := by
  rw [isAscii, List.all_eq_true] at h
  rw [lower, String.toList_ofList]
  generalize ([] : List Char) = front
  generalize s.toList = cs at h
  induction cs generalizing front with
  | nil =>
      rfl
  | cons c cs ih =>
      rw [List.forall_mem_cons] at h
      have hc : c.toNat < 128 := by simpa using h.1
      have hsigma : c ≠ 'Σ' := by
        rintro rfl
        exact absurd hc (by decide)
      rw [lowerChars, ih _ h.2, lowerBetween, if_neg (by simpa using hsigma), lowerChar, if_pos hc]
      rfl

/-- Two texts of ASCII are the same in lower case exactly when their letters are the same. -/
theorem lower_eq_lower_iff {s t : String} (hs : isAscii s = true) (ht : isAscii t = true) :
    lower s = lower t <-> s.toList.map foldChar = t.toList.map foldChar := by
  have hfold : forall {u : String}, isAscii u = true ->
      (lower u).toList = u.toList.map foldChar := by
    intro u hu
    rw [toList_lower hu]
    rw [isAscii, List.all_eq_true] at hu
    refine List.map_congr_left ?_
    intro c hc
    have hc : c.toNat < 128 := by simpa using hu c hc
    rw [foldChar, if_pos hc]
  rw [<- hfold hs, <- hfold ht, String.toList_inj]

end Text
end RecordSql
