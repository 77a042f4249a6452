/-!
# Pieces of a text

Blanks at both ends of a text, splitting at a separator, joining pieces, and searching for one run
of characters inside another.
-/

namespace RecordSql
namespace Text

/-!
# Blank characters

Blanks separate the words of a query and are trimmed from both ends of a value before it is read as
a number, a date or an identifier.  The class is the Unicode property *White_Space*.
-/

def isBlank (c : Char) : Bool :=
  let n := c.toNat
  (9 ≤ n && n ≤ 13) || n == 0x20 || n == 0x85 || n == 0xA0 || n == 0x1680 ||
    (0x2000 ≤ n && n ≤ 0x200A) || n == 0x2028 || n == 0x2029 || n == 0x202F ||
    n == 0x205F || n == 0x3000

/-!
# Trimming

Each function works on the list of characters; the versions on strings wrap them.
-/

def dropBlanks (cs : List Char) : List Char :=
  cs.dropWhile isBlank

def dropLastBlanks (cs : List Char) : List Char :=
  (dropBlanks cs.reverse).reverse

def trimStart (s : String) : String :=
  String.ofList (dropBlanks s.toList)

def trimEnd (s : String) : String :=
  String.ofList (dropLastBlanks s.toList)

def trim (s : String) : String :=
  String.ofList (dropLastBlanks (dropBlanks s.toList))

/-!
# Splitting

A text with `n` separators has `n + 1` pieces, the empty ones included.
-/

def splitAt (isSeparator : Char -> Bool) : List Char -> List (List Char)
  | [] => [[]]
  | c :: rest =>
      if isSeparator c then [] :: splitAt isSeparator rest
      else
        match splitAt isSeparator rest with
        | piece :: pieces => (c :: piece) :: pieces
        | [] => [[c]]

/-- The rest of `text` after `start`, when it begins with it. -/
def dropStart? : List Char -> List Char -> Option (List Char)
  | [], text => some text
  | _ :: _, [] => none
  | c :: start, d :: text => if c == d then dropStart? start text else none

/--
The pieces between the leftmost non-overlapping occurrences of a non-empty separator.  `skip`
counts the characters of an occurrence that are still to be passed over.
-/
def splitOnFrom (separator : List Char) : Nat -> List Char -> List (List Char)
  | _, [] => [[]]
  | skip + 1, _ :: rest => splitOnFrom separator skip rest
  | 0, c :: rest =>
      if (dropStart? separator (c :: rest)).isSome then
        [] :: splitOnFrom separator (separator.length - 1) rest
      else
        match splitOnFrom separator 0 rest with
        | piece :: pieces => (c :: piece) :: pieces
        | [] => [[c]]

def splitOn (separator text : String) : List String :=
  (splitOnFrom separator.toList 0 text.toList).map String.ofList

/-- The members of a value stored as `a,b,c`: trimmed, the empty ones left out. -/
def members (stored : String) : List String :=
  ((splitAt (· == ',') stored.toList).map fun piece => trim (String.ofList piece)).filter (· ≠ "")

/-!
# Joining
-/

def joinWith (separator : String) : List String -> String
  | [] => ""
  | [piece] => piece
  | piece :: rest => piece ++ separator ++ joinWith separator rest

/-!
# Searching
-/

/-- The number of characters before the first place in `text` where `p` holds of the rest. -/
def firstWhere (p : List Char -> Bool) : List Char -> Option Nat
  | [] => if p [] then some 0 else none
  | c :: rest => if p (c :: rest) then some 0 else (firstWhere p rest).map (· + 1)

/-- Whether `text` begins with `start`, comparing characters with `same`. -/
def startsWith (same : Char -> Char -> Bool) : List Char -> List Char -> Bool
  | [], _ => true
  | _ :: _, [] => false
  | c :: start, d :: text => same c d && startsWith same start text

/--
Every leftmost non-overlapping occurrence of a non-empty `target` replaced.  `skip` counts the
characters of an occurrence that are still to be passed over.
-/
def replaceFrom (same : Char -> Char -> Bool) (target replacement : List Char) :
    Nat -> List Char -> List Char
  | _, [] => []
  | skip + 1, _ :: rest => replaceFrom same target replacement skip rest
  | 0, c :: rest =>
      if startsWith same target (c :: rest) then
        replacement ++ replaceFrom same target replacement (target.length - 1) rest
      else c :: replaceFrom same target replacement 0 rest

end Text
end RecordSql
