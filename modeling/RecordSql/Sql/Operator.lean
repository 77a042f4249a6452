/-!
# Operators

The comparisons and the arithmetic of expressions, with the signs they are written with.
-/

namespace RecordSql
namespace Sql

inductive Comparison where
  | eq
  | ne
  | lt
  | le
  | gt
  | ge
deriving DecidableEq, Repr

namespace Comparison

def sign : Comparison -> String
  | eq => "="
  | ne => "<>"
  | lt => "<"
  | le => "<="
  | gt => ">"
  | ge => ">="

def ofSign? : String -> Option Comparison
  | "=" => some eq
  | "<>" => some ne
  | "!=" => some ne
  | "<" => some lt
  | "<=" => some le
  | ">" => some gt
  | ">=" => some ge
  | _ => none

/-- The comparison that holds with the operands swapped. -/
def swapped : Comparison -> Comparison
  | lt => gt
  | le => ge
  | gt => lt
  | ge => le
  | c => c

/-- The comparison that holds exactly when this one does not. -/
def negated : Comparison -> Comparison
  | eq => ne
  | ne => eq
  | lt => ge
  | le => gt
  | gt => le
  | ge => lt

def accepts : Comparison -> Ordering -> Bool
  | eq, o => o == .eq
  | ne, o => o != .eq
  | lt, o => o == .lt
  | le, o => o != .gt
  | gt, o => o == .gt
  | ge, o => o != .lt

theorem ofSign?_sign (c : Comparison) : ofSign? c.sign = some c := by
  cases c <;> rfl

theorem accepts_negated (c : Comparison) (o : Ordering) : c.negated.accepts o = !c.accepts o := by
  cases c <;> cases o <;> rfl

theorem accepts_swapped (c : Comparison) (o : Ordering) :
    c.swapped.accepts o.swap = c.accepts o := by
  cases c <;> cases o <;> rfl

end Comparison

inductive Arithmetic where
  | add
  | sub
  | mul
  | div
  | mod
deriving DecidableEq, Repr

namespace Arithmetic

def sign : Arithmetic -> String
  | add => "+"
  | sub => "-"
  | mul => "*"
  | div => "/"
  | mod => "%"

/-- The additive operator with the given sign. -/
def ofAdditive? : String -> Option Arithmetic
  | "+" => some add
  | "-" => some sub
  | _ => none

/-- The multiplicative operator with the given sign. -/
def ofMultiplicative? : String -> Option Arithmetic
  | "*" => some mul
  | "/" => some div
  | "%" => some mod
  | _ => none

/-- How tightly an operator binds. -/
def precedence : Arithmetic -> Nat
  | add | sub => 1
  | mul | div | mod => 2

end Arithmetic

end Sql
end RecordSql
