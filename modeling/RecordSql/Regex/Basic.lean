/-!
# Regular expressions

An expression is a sequence of terms: the two ends of a text, and atoms, which take one character
or, with a star, any number of them.  An engine reads a written expression and tells in which texts
it is found.
-/

namespace RecordSql
namespace Regex

structure Flags where
  ignoreCase : Bool
  /-- The dot takes a line feed too. -/
  dotAll : Bool
deriving DecidableEq, Repr

structure Range where
  first : Char
  last : Char
deriving DecidableEq, Repr

inductive Atom where
  | any
  | char (c : Char)
  /-- A member of `base` that is in none of `without`, or the opposite when `negated`. -/
  | set (negated : Bool) (base : List Range) (without : List (List Range))
deriving DecidableEq, Repr

inductive Term where
  | start
  | finish
  | one (atom : Atom)
  | many (atom : Atom)
deriving DecidableEq, Repr

/--
`escape` writes a text so that it stands for itself in an expression.  `build` gives the test
whether an expression is found in a text, unless the expression is invalid.
-/
structure Engine where
  escape : String -> String
  build : Flags -> String -> Option (String -> Bool)

/-- A character with a meaning somewhere in an expression, which a backslash takes away. -/
def isMeta (c : Char) : Bool :=
  "\\.+*?()|[]\x7b\x7d^$#&-~".toList.contains c

/-- A character with a meaning inside of brackets. -/
def isSetMeta (c : Char) : Bool :=
  "\\[]^-&~".toList.contains c

end Regex
end RecordSql
