import RecordSql.Value.Basic

/-!
# Texts of identifiers

A text that is read as an identifier has no blanks at its ends, so it makes no difference whether
they are trimmed before it is read.
-/

namespace RecordSql

namespace Text

theorem dropBlanks_eq_self {cs : List Char} (h : forall c, cs.head? = some c -> isBlank c = false) :
    dropBlanks cs = cs := by
  cases cs with
  | nil =>
      rfl
  | cons c rest =>
      simp [dropBlanks, h c rfl]

theorem trim_eq_self {s : String}
    (hhead : forall c, s.toList.head? = some c -> isBlank c = false)
    (hlast : forall c, s.toList.getLast? = some c -> isBlank c = false) : trim s = s := by
  have hback : dropBlanks s.toList.reverse = s.toList.reverse := by
    refine dropBlanks_eq_self ?_
    intro c hc
    rw [List.head?_reverse] at hc
    exact hlast c hc
  rw [trim, dropBlanks_eq_self hhead, dropLastBlanks, hback, List.reverse_reverse,
    String.ofList_toList]

end Text

namespace Guid

open Text (isBlank)

theorem isBlank_of_hexValue? {c : Char} {n : Nat} (h : hexValue? c = some n) :
    isBlank c = false := by
  have hrange : (48 ≤ c.toNat ∧ c.toNat ≤ 57) ∨ (97 ≤ c.toNat ∧ c.toNat ≤ 102) ∨
      (65 ≤ c.toNat ∧ c.toNat ≤ 70) := by
    unfold hexValue? at h
    split at h
    · rename_i hdigit
      simp only [Char.isDigit, Bool.and_eq_true, decide_eq_true_eq] at hdigit
      exact Or.inl hdigit
    · split at h
      · rename_i hlower
        exact Or.inr (Or.inl hlower)
      · split at h
        · rename_i hupper
          exact Or.inr (Or.inr hupper)
        · cases h
  unfold isBlank
  simp only [Bool.or_eq_false_iff, Bool.and_eq_false_iff, decide_eq_false_iff_not, beq_eq_false_iff_ne]
  omega

theorem isBlank_of_mem_ofHex? {digits : List Char} {g : Guid} (h : ofHex? digits = some g)
    {c : Char} (hc : c ∈ digits) : isBlank c = false := by
  simp only [ofHex?, Option.bind_eq_bind, Option.bind_eq_some_iff] at h
  rcases h with ⟨values, hvalues, hguid⟩
  have hread : exists n, hexValue? c = some n := by
    clear hguid
    induction digits generalizing values with
    | nil =>
        cases hc
    | cons d rest ih =>
        simp only [List.mapM_cons, Option.bind_eq_bind, Option.bind_eq_some_iff] at hvalues
        rcases hvalues with ⟨n, hn, more, hmore, _⟩
        rcases List.mem_cons.mp hc with rfl | hrest
        · exact ⟨n, hn⟩
        · exact ih hrest more hmore
  rcases hread with ⟨n, hn⟩
  exact isBlank_of_hexValue? hn

/-!
# The ends of a text

The dashes of a grouped text stand inside it, so its first and its last character are digits.
-/

theorem mem_of_head?_ungroup? {cs digits : List Char} (h : ungroup? cs = some digits) {c : Char}
    (hc : cs.head? = some c) : c ∈ digits := by
  unfold ungroup? at h
  split at h
  · cases h
    cases cs with
    | nil =>
        cases hc
    | cons d rest =>
        cases hc
        simp
  · cases h

theorem mem_of_getLast?_ungroup? {cs digits : List Char} (h : ungroup? cs = some digits) {c : Char}
    (hc : cs.getLast? = some c) : c ∈ digits := by
  unfold ungroup? at h
  split at h
  · rename_i hshape
    cases h
    have hlast : (cs.drop 24).getLast? = some c := by
      rw [List.getLast?_drop, if_neg (by omega), hc]
    exact List.mem_append_right _ (List.mem_of_getLast? hlast)
  · cases h

theorem isBlank_of_toLower_eq_u {c : Char} (h : c.toLower = 'u') : isBlank c = false := by
  cases hblank : isBlank c with
  | false =>
      rfl
  | true =>
      have hsame : c.toLower = c := by
        unfold isBlank at hblank
        unfold Char.toLower
        simp only [Bool.or_eq_true, Bool.and_eq_true, decide_eq_true_eq, beq_iff_eq] at hblank
        split
        · rename_i hupper
          have hfirst : 65 ≤ c.toNat := hupper.1
          have hlast : c.toNat ≤ 90 := hupper.2
          omega
        · rfl
      rw [hsame] at h
      subst h
      exact absurd hblank (by decide)

/-- Nothing is trimmed from a text that is read as an identifier. -/
theorem trim_of_read {s : String} {g : Guid} (h : read s = some g) : Text.trim s = s := by
  unfold read at h
  simp only at h
  split at h
  · exact Text.trim_eq_self
      (fun c hc => isBlank_of_mem_ofHex? h (List.mem_of_head? hc))
      (fun c hc => isBlank_of_mem_ofHex? h (List.mem_of_getLast? hc))
  · rw [Option.bind_eq_bind, Option.bind_eq_some_iff] at h
    rcases h with ⟨digits, hdigits, hguid⟩
    unfold unwrap at hdigits
    split at hdigits
    · rename_i hbraces
      refine Text.trim_eq_self ?_ ?_
      · intro c hc
        rw [hbraces.2.1] at hc
        cases hc
        decide
      · intro c hc
        rw [hbraces.2.2] at hc
        cases hc
        decide
    · split at hdigits
      · rename_i hmark
        refine Text.trim_eq_self ?_ ?_
        · intro c hc
          cases hcs : s.toList with
          | nil =>
              rw [hcs] at hc
              cases hc
          | cons d rest =>
              rw [hcs] at hc hmark
              cases hc
              have hfirst := congrArg List.head? hmark.2
              exact isBlank_of_toLower_eq_u (Option.some.inj hfirst)
        · intro c hc
          have hlast : (s.toList.drop 9).getLast? = some c := by
            rw [List.getLast?_drop, if_neg (by omega), hc]
          exact isBlank_of_mem_ofHex? hguid (mem_of_getLast?_ungroup? hdigits hlast)
      · exact Text.trim_eq_self
          (fun c hc => isBlank_of_mem_ofHex? hguid (mem_of_head?_ungroup? hdigits hc))
          (fun c hc => isBlank_of_mem_ofHex? hguid (mem_of_getLast?_ungroup? hdigits hc))

end Guid

end RecordSql
