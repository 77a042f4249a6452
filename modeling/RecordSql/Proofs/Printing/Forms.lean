import RecordSql.Proofs.Canonical.Legibility
import RecordSql.Proofs.Canonical.Operands
import RecordSql.Proofs.Parsing.Consumption

/-!
# Canonical expressions

The canonical text of an expression leaves out quotation marks around names and the case in which
names were written.  Nothing else is lost in an expression of canonical shape: its names are plain
words of the right case, and it has the form that the parser would give it.
-/

namespace RecordSql
namespace Sql

/-!
# Names
-/

/-- A word that is not part of the grammar. -/
def isPlainName (s : String) : Bool :=
  isName s && !isReserved s

def isColumnName (s : String) : Bool :=
  isLowerName s && !isReserved s

/-- `LEFT` and `RIGHT` are functions although they are words of the grammar. -/
def isFunctionName (s : String) : Bool :=
  isPlainName s && Text.upper s == s && s != "CONTAINS" || s == "LEFT" || s == "RIGHT"

def Column.isCanonical (c : Column) : Bool :=
  c.collection.all isColumnName && isColumnName c.name && !c.quoted

/-!
# Shapes
-/

namespace Scalar

/-- What may stand for all columns as the argument of a function. -/
def isWildcard : Scalar -> Bool
  | .star => true
  | .starOf table => isColumnName table
  | _ => false

/-- A column that a date function would take for a part of a date. -/
def isBareColumn : Scalar -> Bool
  | .column ⟨none, _, _⟩ => true
  | _ => false

def isNegation : Scalar -> Bool
  | .negate _ => true
  | _ => false

/-- What a collation may stand behind. -/
def isCollatable : Scalar -> Bool
  | .column _ => true
  | .call _ _ _ => true
  | .searchedCase _ _ => true
  | .simpleCase _ _ _ => true
  | .literal (.str _) => true
  | .literal .null => true
  | .literal (.int i) => 0 ≤ i
  | _ => false

end Scalar

namespace Predicate

def isAnd : Predicate -> Bool
  | .and _ => true
  | _ => false

def isOr : Predicate -> Bool
  | .or _ => true
  | _ => false

end Predicate

mutual

def Scalar.isCanonical : Scalar -> Bool
  | .literal (.str _) => true
  | .literal .null => true
  | .literal (.int i) => Number.minWord < i && i ≤ Number.maxWord
  | .literal _ => false
  | .column c => c.isCanonical
  | .call name _ args =>
      isFunctionName name && canonicalArguments args &&
        !(Parser.takesDatePart name && args.head?.any Scalar.isBareColumn)
  | .binary l _ r => l.isCanonical && r.isCanonical
  | .negate e => e.isCanonical && !e.isNumber && !e.isNegation
  | .searchedCase whens otherwise =>
      !whens.isEmpty && canonicalBranches whens && canonicalElse otherwise
  | .simpleCase input whens otherwise =>
      input.isCanonical && !whens.isEmpty && canonicalPairs whens && canonicalElse otherwise
  | .collate e collation => e.isCanonical && e.isCollatable && isPlainName collation
  | .star => false
  | .starOf _ => false

def Predicate.isCanonical : Predicate -> Bool
  | .and items => 2 ≤ items.length && !items.any Predicate.isAnd && canonicalMembers items
  | .or items => 2 ≤ items.length && !items.any Predicate.isOr && canonicalMembers items
  | .not p => p.isCanonical
  | .compare l _ r => l.isCanonical && r.isCanonical
  | .isNull e _ => e.isCanonical
  | .inList e items _ => e.isCanonical && !items.isEmpty && canonicalAll items
  | .like e pattern _ => e.isCanonical && pattern.isCanonical
  | .contains c wanted => c.isCanonical && wanted.isCanonical
  | .const _ => false

def canonicalAll : List Scalar -> Bool
  | [] => true
  | e :: rest => e.isCanonical && canonicalAll rest

def canonicalArguments : List Scalar -> Bool
  | [] => true
  | e :: rest => (e.isWildcard || e.isCanonical) && canonicalArguments rest

def canonicalMembers : List Predicate -> Bool
  | [] => true
  | p :: rest => p.isCanonical && canonicalMembers rest

def canonicalBranches : List (Predicate × Scalar) -> Bool
  | [] => true
  | (p, e) :: rest => p.isCanonical && e.isCanonical && canonicalBranches rest

def canonicalPairs : List (Scalar × Scalar) -> Bool
  | [] => true
  | (w, e) :: rest => w.isCanonical && e.isCanonical && canonicalPairs rest

def canonicalElse : Option Scalar -> Bool
  | none => true
  | some e => e.isCanonical

end

/-!
# Marks

The tokens that the canonical text is made of.
-/

def wordMark (word : String) : Mark :=
  (.word, word)

def symbolMark (symbol : String) : Mark :=
  (.symbol, symbol)

/-- Marks in parentheses. -/
def enclosedMarks (marks : List Mark) : List Mark :=
  .opening :: (marks ++ [.closing])

def notMarks (negated : Bool) : List Mark :=
  if negated then [wordMark "NOT"] else []

/-- The digits of a whole number, behind its sign. -/
def intMarks (i : Int) : List Mark :=
  (if i < 0 then [symbolMark "-"] else []) ++
    [(.number, String.ofList (Number.digitsOf i.natAbs))]

def Literal.marks : Literal -> List Mark
  | .str s => [(.text, s)]
  | .int i => intMarks i
  | _ => [wordMark "NULL"]

def Column.marks (c : Column) : List Mark :=
  match c.collection with
  | some collection => [wordMark collection, symbolMark ".", wordMark c.name]
  | none => [wordMark c.name]

def operandMarks (parent : Arithmetic) (onRight : Bool) (e : Scalar) (marks : List Mark) :
    List Mark :=
  if e.isEnclosed parent onRight then enclosedMarks marks else marks

def negatedMarks (e : Scalar) (marks : List Mark) : List Mark :=
  match e with
  | .binary _ _ _ => enclosedMarks marks
  | _ => marks

def memberMarks (p : Predicate) (marks : List Mark) : List Mark :=
  if p.isAnd || p.isOr then enclosedMarks marks else marks

mutual

def Scalar.marks : Scalar -> List Mark
  | .literal l => l.marks
  | .column c => c.marks
  | .call name distinct args =>
      wordMark name :: .opening ::
        ((if distinct then [wordMark "DISTINCT"] else []) ++ (marksOfAll args ++ [.closing]))
  | .binary l op r =>
      operandMarks op false l l.marks ++ symbolMark op.sign :: operandMarks op true r r.marks
  | .negate e => symbolMark "-" :: negatedMarks e e.marks
  | .searchedCase whens otherwise =>
      wordMark "CASE" :: (marksOfBranches whens ++ (marksOfElse otherwise ++ [wordMark "END"]))
  | .simpleCase input whens otherwise =>
      wordMark "CASE" ::
        (input.marks ++ (marksOfPairs whens ++ (marksOfElse otherwise ++ [wordMark "END"])))
  | .collate e collation => e.marks ++ [wordMark "COLLATE", wordMark collation]
  | .star => [symbolMark "*"]
  | .starOf table => [wordMark table, symbolMark ".", symbolMark "*"]

def Predicate.marks : Predicate -> List Mark
  | .and items => marksOfMembers "AND" items
  | .or items => marksOfMembers "OR" items
  | .not p => wordMark "NOT" :: enclosedMarks p.marks
  | .compare l op r => l.marks ++ symbolMark op.sign :: r.marks
  | .isNull e negated => e.marks ++ wordMark "IS" :: (notMarks negated ++ [wordMark "NULL"])
  | .inList e items negated =>
      e.marks ++ (notMarks negated ++ wordMark "IN" :: enclosedMarks (marksOfAll items))
  | .like e pattern negated => e.marks ++ (notMarks negated ++ wordMark "LIKE" :: pattern.marks)
  | .contains c wanted =>
      wordMark "CONTAINS" :: enclosedMarks (c.marks ++ symbolMark "," :: wanted.marks)
  | .const _ => []

def marksOfAll : List Scalar -> List Mark
  | [] => []
  | [e] => e.marks
  | e :: rest => e.marks ++ symbolMark "," :: marksOfAll rest

def marksOfMembers (word : String) : List Predicate -> List Mark
  | [] => []
  | [p] => memberMarks p p.marks
  | p :: rest => memberMarks p p.marks ++ wordMark word :: marksOfMembers word rest

def marksOfBranches : List (Predicate × Scalar) -> List Mark
  | [] => []
  | (p, e) :: rest =>
      wordMark "WHEN" :: (p.marks ++ wordMark "THEN" :: (e.marks ++ marksOfBranches rest))

def marksOfPairs : List (Scalar × Scalar) -> List Mark
  | [] => []
  | (w, e) :: rest =>
      wordMark "WHEN" :: (w.marks ++ wordMark "THEN" :: (e.marks ++ marksOfPairs rest))

def marksOfElse : Option Scalar -> List Mark
  | none => []
  | some e => wordMark "ELSE" :: e.marks

end

end Sql
end RecordSql
