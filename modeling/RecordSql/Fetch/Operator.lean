import RecordSql.Sql.Operator
import RecordSql.Text.Ascii

/-!
# Condition operators

The operators of the platform's own conditions.  Comparisons are written as such in a query; all
others are written as the call of a function whose name is the operator's without its hyphens.
-/

namespace RecordSql
namespace Fetch

open Sql (Comparison)

/-- The stretch of the calendar that a period covers. -/
inductive Period where
  | day
  | week
  | month
  | year
deriving DecidableEq, Repr

/-- The period before the current one, the current one, or the one after it. -/
inductive Which where
  | last
  | current
  | next
deriving DecidableEq, Repr

inductive Span where
  | hours
  | days
  | weeks
  | months
  | years
deriving DecidableEq, Repr

inductive Operator where
  | compare (c : Comparison)
  | like (negated : Bool)
  | isNull (negated : Bool)
  | oneOf (negated : Bool)
  | containValues (negated : Bool)
  | on
  | onOrAfter
  | onOrBefore
  | within (period : Period) (which : Which)
  | lastSevenDays
  | nextSevenDays
  | last (span : Span)
  | next (span : Span)
  | olderThanDays
  | olderThanMonths
  | olderThanYears
  | under
  | underOrEqual
  | above
  | aboveOrEqual
  | equalUser (negated : Bool)
  | equalBusiness
deriving DecidableEq, Repr

namespace Operator

def compareName : Comparison -> String
  | .eq => "eq"
  | .ne => "ne"
  | .lt => "lt"
  | .le => "le"
  | .gt => "gt"
  | .ge => "ge"

def periodName : Period -> Which -> String
  | .day, .last => "yesterday"
  | .day, .current => "today"
  | .day, .next => "tomorrow"
  | .week, .last => "last-week"
  | .week, .current => "this-week"
  | .week, .next => "next-week"
  | .month, .last => "last-month"
  | .month, .current => "this-month"
  | .month, .next => "next-month"
  | .year, .last => "last-year"
  | .year, .current => "this-year"
  | .year, .next => "next-year"

def spanName : Span -> String
  | .hours => "hours"
  | .days => "days"
  | .weeks => "weeks"
  | .months => "months"
  | .years => "years"

def name : Operator -> String
  | compare c => compareName c
  | like negated => if negated then "not-like" else "like"
  | isNull negated => if negated then "not-null" else "null"
  | oneOf negated => if negated then "not-in" else "in"
  | containValues negated => if negated then "not-contain-values" else "contain-values"
  | on => "on"
  | onOrAfter => "on-or-after"
  | onOrBefore => "on-or-before"
  | within period which => periodName period which
  | lastSevenDays => "last-seven-days"
  | nextSevenDays => "next-seven-days"
  | last span => "last-x-" ++ spanName span
  | next span => "next-x-" ++ spanName span
  | olderThanDays => "olderthan-x-days"
  | olderThanMonths => "olderthan-x-months"
  | olderThanYears => "olderthan-x-years"
  | under => "under"
  | underOrEqual => "eq-or-under"
  | above => "above"
  | aboveOrEqual => "eq-or-above"
  | equalUser negated => if negated then "ne-userid" else "eq-userid"
  | equalBusiness => "eq-businessid"

/-- All operators, in the order in which the platform lists them. -/
def all : List Operator := [
  compare .eq, compare .ne, compare .lt, compare .le, compare .gt, compare .ge,
  like false, like true, isNull false, isNull true, oneOf false, oneOf true,
  containValues false, containValues true,
  on, onOrAfter, onOrBefore,
  within .day .last, within .day .current, within .day .next,
  lastSevenDays, nextSevenDays,
  within .week .last, within .week .current, within .week .next,
  within .month .last, within .month .current, within .month .next,
  within .year .last, within .year .current, within .year .next,
  last .hours, next .hours, last .days, next .days, last .weeks, next .weeks,
  last .months, next .months, last .years, next .years,
  olderThanDays, olderThanMonths, olderThanYears,
  under, underOrEqual, above, aboveOrEqual,
  equalUser false, equalUser true, equalBusiness]

/-- The operator is what a comparison or predicate of a query means. -/
def isComparison : Operator -> Bool
  | compare _ => true
  | like _ => true
  | isNull _ => true
  | oneOf _ => true
  | containValues _ => true
  | _ => false

def ofName? (name : String) : Option Operator :=
  all.find? (·.name == name)

def functionName (op : Operator) : String :=
  String.ofList (op.name.toList.filter (· != '-'))

/-- The operator that a function of the given name stands for. -/
def ofFunction? (name : String) : Option Operator :=
  all.find? fun op => !op.isComparison && op.functionName == Text.lowerAscii name

/-- How many values an operator takes. -/
inductive Arity where
  | none
  | one
  | many
deriving DecidableEq, Repr

def arity : Operator -> Arity
  | isNull _ => .none
  | within _ _ => .none
  | lastSevenDays => .none
  | nextSevenDays => .none
  | equalUser _ => .none
  | equalBusiness => .none
  | oneOf _ => .many
  | containValues _ => .many
  | _ => .one

/-- The operator that accepts the present values which this one does not accept. -/
def negated? : Operator -> Option Operator
  | compare c => some (compare c.negated)
  | like negated => some (like !negated)
  | isNull negated => some (isNull !negated)
  | oneOf negated => some (oneOf !negated)
  | containValues negated => some (containValues !negated)
  | equalUser negated => some (equalUser !negated)
  | _ => none

end Operator

end Fetch
end RecordSql
