import RecordSql.Sql.Expr

/-!
# Canonical text

The text of an expression does not show how it was spelled: columns are in lower case, functions in
upper case, and parentheses stand only where the structure needs them.
-/

namespace RecordSql
namespace Sql

/-- Parentheses around the text of an operand that binds too loosely for its place. -/
def operandText (parent : Arithmetic) (onRight : Bool) (operand : Scalar) (text : String) :
    String :=
  match operand with
  | .binary _ op _ =>
      if op.precedence < parent.precedence || (onRight && op.precedence == parent.precedence) then
        "(" ++ text ++ ")"
      else text
  | _ => text

/-- The text of a negated operand; a binary one is put in parentheses. -/
def negatedText (operand : Scalar) (text : String) : String :=
  match operand with
  | .binary _ _ _ => "-(" ++ text ++ ")"
  | _ => "-" ++ text

/-- Parentheses around a conjunction or disjunction inside another. -/
def memberText (p : Predicate) (text : String) : String :=
  match p with
  | .and _ => "(" ++ text ++ ")"
  | .or _ => "(" ++ text ++ ")"
  | _ => text

def notText (negated : Bool) : String :=
  if negated then "NOT " else ""

def truthText : Truth -> String
  | .isTrue => "1 = 1"
  | .isFalse => "1 = 0"
  | .unknown => "NULL = 1"

mutual

def Scalar.text : Scalar -> String
  | .literal l => l.text
  | .column c => c.text
  | .call name distinct args =>
      Text.upper name ++ "(" ++ (if distinct then "DISTINCT " else "") ++ textOfAll args ++ ")"
  | .binary l op r =>
      operandText op false l l.text ++ " " ++ op.sign ++ " " ++ operandText op true r r.text
  | .negate e => negatedText e e.text
  | .searchedCase whens otherwise =>
      "CASE" ++ textOfBranches whens ++ textOfElse otherwise ++ " END"
  | .simpleCase input whens otherwise =>
      "CASE " ++ input.text ++ textOfPairs whens ++ textOfElse otherwise ++ " END"
  | .collate e collation => e.text ++ " COLLATE " ++ collation
  | .star => "*"
  | .starOf table => Text.lower table ++ ".*"

def Predicate.text : Predicate -> String
  | .and items => textOfMembers "AND" items
  | .or items => textOfMembers "OR" items
  | .not p => "NOT (" ++ p.text ++ ")"
  | .compare l op r => l.text ++ " " ++ op.sign ++ " " ++ r.text
  | .isNull e negated => e.text ++ " IS " ++ notText negated ++ "NULL"
  | .inList e items negated =>
      e.text ++ " " ++ notText negated ++ "IN (" ++ textOfAll items ++ ")"
  | .like e pattern negated => e.text ++ " " ++ notText negated ++ "LIKE " ++ pattern.text
  | .contains c wanted => "CONTAINS(" ++ c.text ++ ", " ++ wanted.text ++ ")"
  | .const t => truthText t

def textOfAll : List Scalar -> String
  | [] => ""
  | [e] => e.text
  | e :: rest => e.text ++ ", " ++ textOfAll rest

def textOfMembers (word : String) : List Predicate -> String
  | [] => ""
  | [p] => memberText p p.text
  | p :: rest => memberText p p.text ++ " " ++ word ++ " " ++ textOfMembers word rest

def textOfBranches : List (Predicate × Scalar) -> String
  | [] => ""
  | (p, e) :: rest => " WHEN " ++ p.text ++ " THEN " ++ e.text ++ textOfBranches rest

def textOfPairs : List (Scalar × Scalar) -> String
  | [] => ""
  | (w, e) :: rest => " WHEN " ++ w.text ++ " THEN " ++ e.text ++ textOfPairs rest

def textOfElse : Option Scalar -> String
  | none => ""
  | some e => " ELSE " ++ e.text

end

end Sql
end RecordSql
