import RecordSql.Value.Basic

/-!
# Comparing values

A comparison in a query has no outcome when a value is missing or the kinds do not match.  For
sorting, the order is completed: missing values come first, and values of kinds that do not match
are ordered by their kind.
-/

namespace RecordSql

namespace Value

def compareText (caseSensitive : Bool) (a b : String) : Ordering :=
  if caseSensitive then Ord.compare a b else Ord.compare (Text.lower a) (Text.lower b)

/-- The order of two doubles; there is none with a value that is not a number. -/
def compareFloat (a b : Float) : Option Ordering :=
  if a < b then some .lt
  else if b < a then some .gt
  else if a == b then some .eq
  else none

def isDateTime : Value -> Bool
  | .dateTime _ => true
  | _ => false

def isIdentifier : Value -> Bool
  | .guid _ => true
  | .ref _ => true
  | _ => false

def compareDateTimes (a b : Value) : Option Ordering := do
  let s <- a.asDateTime
  let t <- b.asDateTime
  some (s.compare t)

def compareGuids (a b : Value) : Option Ordering := do
  let g <- a.asGuid
  let h <- b.asGuid
  some (g.compare h)

def compareNumbers (a b : Value) : Option Ordering := do
  let x <- a.asFloat
  let y <- b.asFloat
  compareFloat x y

/--
The comparison of a query.  Values of one simple kind are compared as such; beside a time or an
identifier the other value is read as one; everything else is compared as numbers.
-/
def compare (caseSensitive : Bool) (a b : Value) : Option Ordering :=
  match a, b with
  | .null, _ => none
  | _, .null => none
  | .str s, .str t => some (compareText caseSensitive s t)
  | .bool x, .bool y => some (Ord.compare x y)
  | .int i, .int j => some (Ord.compare i j)
  | a, b =>
      if a.isDateTime || b.isDateTime then compareDateTimes a b
      else if a.isIdentifier || b.isIdentifier then compareGuids a b
      else compareNumbers a b

def equals (caseSensitive : Bool) (a b : Value) : Option Bool :=
  (a.compare caseSensitive b).map (· == .eq)

/-!
# Sorting
-/

/-- The place of a kind among the kinds. -/
def rank : Value -> Nat
  | .null => 0
  | .bool _ => 1
  | .int _ | .float _ => 2
  | .str _ => 3
  | .dateTime _ => 4
  | .guid _ | .ref _ => 5

def compareForSort (caseSensitive : Bool) (a b : Value) : Ordering :=
  match a, b with
  | .null, .null => .eq
  | .null, _ => .lt
  | _, .null => .gt
  | a, b => (a.compare caseSensitive b).getD (Ord.compare a.rank b.rank)

end Value

end RecordSql
