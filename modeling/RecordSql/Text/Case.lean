import RecordSql.Text.CaseTable

/-!
# Case of text

Text is compared in lower case unless a query asks otherwise.  Lower and upper case follow the full
Unicode mappings, so that a character may become several; folding maps each character to one
representative of its case variants and keeps the length of a text.
-/

namespace RecordSql
namespace Text

/-!
# Lower case

Every character has a fixed lower case, except the capital sigma: at the end of a word it becomes
`ς`, elsewhere `σ`.  A word ends there when a cased letter stands before it and none after it,
passing over characters that case ignores.
-/

def isCased (c : Char) : Bool :=
  inRanges casedRanges c

def isCaseIgnorable (c : Char) : Bool :=
  inRanges caseIgnorableRanges c

def meetsCased (cs : List Char) : Bool :=
  match cs.dropWhile isCaseIgnorable with
  | c :: _ => isCased c
  | [] => false

def lowerChar (c : Char) : List Char :=
  if c.toNat < 128 then [c.toLower]
  else if c.toNat == 0x130 then ['i', Char.ofNat 0x307]
  else [Char.ofNat (Run.apply lowerRuns c.toNat)]

/-- The lower case of `c` between the characters `before` (nearest first) and `after`. -/
def lowerBetween (before : List Char) (c : Char) (after : List Char) : List Char :=
  if c == 'Σ' then [if meetsCased before && !meetsCased after then 'ς' else 'σ']
  else lowerChar c

def lowerChars (before : List Char) : List Char -> List Char
  | [] => []
  | c :: after => lowerBetween before c after ++ lowerChars (c :: before) after

def lower (s : String) : String :=
  String.ofList (lowerChars [] s.toList)

/-!
# Upper case
-/

def upperChar (c : Char) : List Char :=
  if c.toNat < 128 then [c.toUpper]
  else
    match longUppers.find? (·.1 == c.toNat) with
    | some (_, codes) => codes.map Char.ofNat
    | none => [Char.ofNat (Run.apply upperRuns c.toNat)]

def upper (s : String) : String :=
  String.ofList (s.toList.flatMap upperChar)

/-!
# Folding

Two characters are variants of each other when they fold to the same character.  A range of
characters contains a variant of `c` exactly when it contains one of `variants c`.
-/

def foldChar (c : Char) : Char :=
  if c.toNat < 128 then c.toLower else Char.ofNat (Run.apply foldRuns c.toNat)

def sameLetter (a b : Char) : Bool :=
  foldChar a == foldChar b

def variants (c : Char) : List Char :=
  foldChar c :: (Run.preimages foldRuns (foldChar c).toNat).map Char.ofNat

end Text
end RecordSql
