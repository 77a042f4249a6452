import RecordSql.Number.Layout

/-!
# Data documents

A document is a tree of nulls, truth values, numbers, texts, lists and objects.  The fields of an
object are kept in ascending order of their names, and a name occurs once.
-/

namespace RecordSql

inductive Json where
  | null
  | bool (b : Bool)
  | int (i : Int)
  | float (x : Float)
  | str (s : String)
  | arr (items : List Json)
  | obj (fields : List (String × Json))

instance : Inhabited Json := ⟨.null⟩

namespace Json

/-- The fields with one more, in its place by name; a field of the same name is replaced. -/
def insertField (name : String) (value : Json) : List (String × Json) -> List (String × Json)
  | [] => [(name, value)]
  | (key, old) :: rest =>
      if name = key then (name, value) :: rest
      else if name < key then (name, value) :: (key, old) :: rest
      else (key, old) :: insertField name value rest

def ofFields (fields : List (String × Json)) : Json :=
  .obj (fields.foldl (fun acc (name, value) => insertField name value acc) [])

def field? (name : String) : Json -> Option Json
  | .obj fields => (fields.find? (·.1 == name)).map (·.2)
  | _ => none

/-!
# Compact text

Quotation marks, backslashes and control characters are escaped; every other character stands for
itself.  A double without a decimal text is written as null.
-/

def hexQuad (n : Nat) : List Char :=
  let digit (k : Nat) : Char :=
    if k < 10 then Char.ofNat ('0'.toNat + k) else Char.ofNat ('a'.toNat + (k - 10))
  [digit (n / 4096 % 16), digit (n / 256 % 16), digit (n / 16 % 16), digit (n % 16)]

def escapeChar (c : Char) : List Char :=
  if c == '"' then ['\\', '"']
  else if c == '\\' then ['\\', '\\']
  else if c.toNat == 8 then ['\\', 'b']
  else if c.toNat == 9 then ['\\', 't']
  else if c.toNat == 10 then ['\\', 'n']
  else if c.toNat == 12 then ['\\', 'f']
  else if c.toNat == 13 then ['\\', 'r']
  else if c.toNat < 32 then '\\' :: 'u' :: hexQuad c.toNat
  else [c]

def quote (s : String) : List Char :=
  '"' :: s.toList.flatMap escapeChar ++ ['"']

mutual

def chars : Json -> List Char
  | .null => "null".toList
  | .bool b => if b then "true".toList else "false".toList
  | .int i => (Number.intText i).toList
  | .float x => ((Number.documentText x).getD "null").toList
  | .str s => quote s
  | .arr items => '[' :: listChars items ++ [']']
  | .obj fields => '\x7b' :: fieldsChars fields ++ ['\x7d']

def listChars : List Json -> List Char
  | [] => []
  | [item] => chars item
  | item :: rest => chars item ++ ',' :: listChars rest

def fieldsChars : List (String × Json) -> List Char
  | [] => []
  | [(name, value)] => quote name ++ ':' :: chars value
  | (name, value) :: rest => quote name ++ ':' :: chars value ++ ',' :: fieldsChars rest

end

def text (j : Json) : String :=
  String.ofList j.chars

end Json

end RecordSql
