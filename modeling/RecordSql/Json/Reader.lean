import RecordSql.Json.Numeral

/-!
# Reading documents

A reader takes the characters that are left and returns a value with what remains after it.  Lists
and objects may be nested up to a fixed depth, which also bounds the recursion.
-/

namespace RecordSql
namespace Json

def isGap (c : Char) : Bool :=
  c == ' ' || c == '\n' || c == '\t' || c == '\r'

def skipGaps (cs : List Char) : List Char :=
  cs.dropWhile isGap

/-!
# Texts

An escape may name a character by four hexadecimal digits; a character outside the first plane
takes two such escapes in a row.
-/

def hexValue? (c : Char) : Option Nat :=
  if c.isDigit then some (c.toNat - '0'.toNat)
  else if 'a' ≤ c ∧ c ≤ 'f' then some (c.toNat - 'a'.toNat + 10)
  else if 'A' ≤ c ∧ c ≤ 'F' then some (c.toNat - 'A'.toNat + 10)
  else none

def hexQuad? : List Char -> Option (Nat × List Char)
  | a :: b :: c :: d :: rest => do
      let digits <- [a, b, c, d].mapM hexValue?
      some (digits.foldl (fun n d => 16 * n + d) 0, rest)
  | _ => none

/-- The character that a `\u` escape stands for, after its first two characters. -/
def unicodeEscape? (cs : List Char) : Option (Char × List Char) := do
  let (unit, rest) <- hexQuad? cs
  if 0xD800 ≤ unit ∧ unit < 0xDC00 then
    match rest with
    | '\\' :: 'u' :: rest =>
        let (low, rest) <- hexQuad? rest
        if 0xDC00 ≤ low ∧ low < 0xE000 then
          some (Char.ofNat (0x10000 + (unit - 0xD800) * 1024 + (low - 0xDC00)), rest)
        else none
    | _ => none
  else if 0xDC00 ≤ unit ∧ unit < 0xE000 then none
  else some (Char.ofNat unit, rest)

def escape? (c : Char) : Option Char :=
  if c == '"' || c == '\\' || c == '/' then some c
  else if c == 'b' then some (Char.ofNat 8)
  else if c == 'f' then some (Char.ofNat 12)
  else if c == 'n' then some '\n'
  else if c == 'r' then some '\r'
  else if c == 't' then some '\t'
  else none

/-- What is written before the closing quotation mark, and what follows the mark. -/
def splitText : List Char -> Option (List Char × List Char)
  | [] => none
  | '"' :: rest => some ([], rest)
  | '\\' :: c :: rest => (splitText rest).map fun (text, left) => ('\\' :: c :: text, left)
  | c :: rest => (splitText rest).map fun (text, left) => (c :: text, left)

/-- The characters that a text stands for; `fuel` bounds their number. -/
def unescape : Nat -> List Char -> Option (List Char)
  | _, [] => some []
  | 0, _ => none
  | fuel + 1, c :: rest =>
      if c.toNat < 32 then none
      else if c == '\\' then
        match rest with
        | 'u' :: after => do
            let (d, after) <- unicodeEscape? after
            let text <- unescape fuel after
            some (d :: text)
        | e :: after => do
            let d <- escape? e
            let text <- unescape fuel after
            some (d :: text)
        | [] => none
      else do
        let text <- unescape fuel rest
        some (c :: text)

def readString (cs : List Char) : Option (String × List Char) := do
  let (written, rest) <- splitText cs
  let text <- unescape written.length written
  some (String.ofList text, rest)

/-!
# Numbers and words
-/

/-- The exponent of a number, if it has one. -/
def readExponent (cs : List Char) : Option (Option Int × List Char) :=
  match cs with
  | mark :: rest =>
      if mark == 'e' || mark == 'E' then
        let (negative, rest) :=
          match rest with
          | '-' :: rest => (true, rest)
          | '+' :: rest => (false, rest)
          | rest => (false, rest)
        let digits := rest.takeWhile Char.isDigit
        if digits.isEmpty then none
        else
          let n : Int := Number.natOfDigits digits
          some (some (if negative then -n else n), rest.dropWhile Char.isDigit)
      else some (none, cs)
  | [] => some (none, [])

def readNumber (negative : Bool) (cs : List Char) : Option (Json × List Char) := do
  let whole := cs.takeWhile Char.isDigit
  let rest := cs.dropWhile Char.isDigit
  if whole.isEmpty || (whole.head? == some '0' && whole.length > 1) then none
  else
    let (fraction, rest) <-
      match rest with
      | '.' :: after =>
          let digits := after.takeWhile Char.isDigit
          if digits.isEmpty then none else some (digits, after.dropWhile Char.isDigit)
      | rest => some ([], rest)
    let (power, rest) <- readExponent rest
    let value <- numeral negative whole fraction power
    some (value, rest)

def readScalar (cs : List Char) : Option (Json × List Char) :=
  match cs with
  | 'n' :: 'u' :: 'l' :: 'l' :: rest => some (.null, rest)
  | 't' :: 'r' :: 'u' :: 'e' :: rest => some (.bool true, rest)
  | 'f' :: 'a' :: 'l' :: 's' :: 'e' :: rest => some (.bool false, rest)
  | '"' :: rest => (readString rest).map fun (s, rest) => (.str s, rest)
  | '-' :: rest => readNumber true rest
  | rest => readNumber false rest

/-!
# Lists and objects
-/

/-- Items separated by commas up to a closing mark, at least one of them. -/
def readItems {α : Type} (item : List Char -> Option (α × List Char)) (close : Char) :
    Nat -> List Char -> Option (List α × List Char)
  | 0, _ => none
  | fuel + 1, cs => do
      let (first, rest) <- item (skipGaps cs)
      match skipGaps rest with
      | ',' :: rest =>
          let (others, rest) <- readItems item close fuel rest
          some (first :: others, rest)
      | c :: rest => if c == close then some ([first], rest) else none
      | [] => none

/-- A list of at most `size` items in marks, which may be empty. -/
def readGroup {α : Type} (item : List Char -> Option (α × List Char)) (close : Char) (size : Nat)
    (cs : List Char) : Option (List α × List Char) :=
  match skipGaps cs with
  | c :: rest => if c == close then some ([], rest) else readItems item close size cs
  | [] => none

def readField (value : List Char -> Option (Json × List Char)) (cs : List Char) :
    Option ((String × Json) × List Char) :=
  match cs with
  | '"' :: rest => do
      let (name, rest) <- readString rest
      match skipGaps rest with
      | ':' :: rest =>
          let (v, rest) <- value (skipGaps rest)
          some ((name, v), rest)
      | _ => none
  | _ => none

/-- A value nested at most `levels` deep, in a document of `size` characters. -/
def readValue (size : Nat) : Nat -> List Char -> Option (Json × List Char)
  | 0, cs => readScalar cs
  | levels + 1, cs =>
      match cs with
      | '[' :: rest => (readGroup (readValue size levels) ']' size rest).map fun (items, rest) =>
          (.arr items, rest)
      | '\x7b' :: rest =>
          (readGroup (readField (readValue size levels)) '\x7d' size rest).map fun (fields, rest) =>
            (ofFields fields, rest)
      | cs => readScalar cs

/-- The depth to which a document may be nested. -/
def maxDepth : Nat := 127

def read (s : String) : Option Json := do
  let cs := skipGaps s.toList
  let (value, rest) <- readValue cs.length maxDepth cs
  if (skipGaps rest).isEmpty then some value else none

end Json
end RecordSql
