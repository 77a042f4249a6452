/-!
# Unique identifiers

An identifier is a number of 128 bits.  It is written as thirty-two lower-case hexadecimal digits in
groups of eight, four, four, four and twelve.  It is read with or without the dashes; the form with
dashes may also stand in braces or after `urn:uuid:`.  All of this may be in either case.
-/

namespace RecordSql

structure Guid where
  bits : BitVec 128
deriving DecidableEq

namespace Guid

def ofNat (n : Nat) : Guid :=
  ⟨BitVec.ofNat 128 n⟩

def zero : Guid :=
  ofNat 0

def compare (a b : Guid) : Ordering :=
  Ord.compare a.bits.toNat b.bits.toNat

/-!
# Writing
-/

def hexDigit (n : Nat) : Char :=
  if n < 10 then Char.ofNat ('0'.toNat + n) else Char.ofNat ('a'.toNat + (n - 10))

/-- The last `count` hexadecimal digits of a number. -/
def hexDigits (n : Nat) : Nat -> List Char
  | 0 => []
  | count + 1 => hexDigits (n / 16) count ++ [hexDigit (n % 16)]

def group (digits : List Char) : List Char :=
  digits.take 8 ++ '-' :: (digits.drop 8).take 4 ++ '-' :: (digits.drop 12).take 4 ++
    '-' :: (digits.drop 16).take 4 ++ '-' :: digits.drop 20

def text (g : Guid) : String :=
  String.ofList (group (hexDigits g.bits.toNat 32))

/-!
# Reading
-/

def hexValue? (c : Char) : Option Nat :=
  if c.isDigit then some (c.toNat - '0'.toNat)
  else if 'a' ≤ c ∧ c ≤ 'f' then some (c.toNat - 'a'.toNat + 10)
  else if 'A' ≤ c ∧ c ≤ 'F' then some (c.toNat - 'A'.toNat + 10)
  else none

def ofHex? (digits : List Char) : Option Guid := do
  let values <- digits.mapM hexValue?
  if values.length = 32 then some (ofNat (values.foldl (fun n d => 16 * n + d) 0)) else none

/-- The digits of a text whose dashes stand exactly between the groups. -/
def ungroup? (cs : List Char) : Option (List Char) :=
  if cs.length = 36 ∧ [8, 13, 18, 23].all (fun i => cs[i]? == some '-') then
    some (cs.take 8 ++ (cs.drop 9).take 4 ++ (cs.drop 14).take 4 ++ (cs.drop 19).take 4 ++
      cs.drop 24)
  else none

/-- The mark of an identifier that is written as a resource name. -/
def resourceMark : List Char :=
  "urn:uuid:".toList

/-- A text without the braces or the mark that may stand around its groups. -/
def unwrap (cs : List Char) : List Char :=
  if cs.length = 38 ∧ cs.head? = some '{' ∧ cs.getLast? = some '}' then (cs.drop 1).take 36
  else if cs.length = 45 ∧ (cs.take 9).map Char.toLower = resourceMark then cs.drop 9
  else cs

def read (s : String) : Option Guid :=
  let cs := s.toList
  if cs.length = 32 then ofHex? cs else ungroup? (unwrap cs) >>= ofHex?

end Guid

end RecordSql
