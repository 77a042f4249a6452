/-!
# Names compared without case

Keywords, table aliases and attribute names are compared without regard to the case of the
twenty-six ASCII letters; every other character counts as it stands.
-/

namespace RecordSql
namespace Text

def lowerAscii (s : String) : String :=
  String.ofList (s.toList.map Char.toLower)

/-- Equality up to the case of ASCII letters. -/
def sameName (a b : String) : Bool :=
  a.toList.map Char.toLower == b.toList.map Char.toLower

theorem sameName_refl (a : String) : sameName a a = true := by
  simp [sameName]

theorem sameName_comm (a b : String) : sameName a b = sameName b a := by
  simp [sameName, Bool.beq_comm]

/-- Two names are the same exactly when their ASCII lower cases are equal. -/
theorem sameName_iff {a b : String} : sameName a b = true <-> lowerAscii a = lowerAscii b := by
  simp [sameName, lowerAscii, String.ofList_inj]

end Text
end RecordSql
