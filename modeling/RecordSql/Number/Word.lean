/-!
# Sixty-four bit integers

Whole numbers of the platform are signed and 64 bits wide.  They are carried as unbounded integers;
the operations that could leave the range go through `checked`, which refuses such a result, through
`saturate`, which stops at the nearer end, or through `wrap`, which keeps the lower 64 bits.
-/

namespace RecordSql
namespace Number

def minWord : Int := -9223372036854775808

def maxWord : Int := 9223372036854775807

def fits (i : Int) : Bool :=
  minWord ≤ i && i ≤ maxWord

def checked (i : Int) : Option Int :=
  if fits i then some i else none

def saturate (i : Int) : Int :=
  max minWord (min maxWord i)

def wrap (i : Int) : Int :=
  i.bmod 18446744073709551616

theorem fits_iff {i : Int} : fits i = true <-> minWord ≤ i ∧ i ≤ maxWord := by
  simp [fits]

theorem checked_eq_some_iff {i j : Int} : checked i = some j <-> fits i = true ∧ i = j := by
  simp [checked]

theorem fits_saturate (i : Int) : fits (saturate i) = true := by
  simp only [fits_iff, saturate, minWord, maxWord]
  omega

theorem saturate_of_fits {i : Int} (h : fits i = true) : saturate i = i := by
  have ends := fits_iff.mp h
  simp only [minWord, maxWord] at ends
  simp only [saturate, minWord, maxWord]
  omega

theorem fits_wrap (i : Int) : fits (wrap i) = true := by
  have hlow := @Int.le_bmod i 18446744073709551616 (by decide)
  have hhigh := @Int.bmod_lt i 18446744073709551616 (by decide)
  simp only [fits_iff, wrap, minWord, maxWord]
  omega

theorem wrap_of_fits {i : Int} (h : fits i = true) : wrap i = i := by
  have ends := fits_iff.mp h
  simp only [minWord, maxWord] at ends
  exact Int.bmod_eq_of_le (by omega) (by omega)

theorem wrap_wrap_add (i j : Int) : wrap (wrap i + j) = wrap (i + j) :=
  Int.bmod_add_bmod

end Number
end RecordSql
