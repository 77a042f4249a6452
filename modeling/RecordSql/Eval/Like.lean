import RecordSql.Regex.Basic

/-!
# Patterns of LIKE

In a pattern `%` stands for any text, `_` for any character and brackets for one character of a
set; everything else stands for itself, in either case.  A pattern is encoded as a regular
expression that is bound to both ends of a text.

In a set a caret in front and dashes keep the meaning that they have in an expression; what else
would have one there is escaped.  A bracket has to be closed, and the expression has to be valid.
-/

namespace RecordSql
namespace Like

def encodeMember (c : Char) : List Char :=
  if "\\[]^&~".toList.contains c then ['\\', c] else [c]

def encodeSet (body : List Char) : List Char :=
  if body.head? == some '^' then '[' :: '^' :: ((body.drop 1).flatMap encodeMember ++ [']'])
  else '[' :: (body.flatMap encodeMember ++ [']'])

def encodeChar (engine : Regex.Engine) (c : Char) : List Char :=
  if c == '%' then ['.', '*']
  else if c == '_' then ['.']
  else (engine.escape (String.singleton c)).toList

/-- The expression for a pattern; inside of brackets, what has been read of the set is given. -/
def encode (engine : Regex.Engine) : Option (List Char) -> List Char -> Option (List Char)
  | none, [] => some []
  | some _, [] => none
  | some body, c :: rest =>
      if c == ']' then (encode engine none rest).map (encodeSet body ++ ·)
      else encode engine (some (body ++ [c])) rest
  | none, c :: rest =>
      if c == '[' then encode engine (some []) rest
      else (encode engine none rest).map (encodeChar engine c ++ ·)

def expression (engine : Regex.Engine) (pattern : String) : Option String :=
  (encode engine none pattern.toList).map fun body => String.ofList ('^' :: (body ++ ['$']))

def flags : Regex.Flags where
  ignoreCase := true
  dotAll := true

/-- The test whether a text matches the pattern, unless the pattern is invalid. -/
def compile (engine : Regex.Engine) (pattern : String) : Option (String -> Bool) :=
  (expression engine pattern).bind (engine.build flags)

end Like
end RecordSql
