import RecordSql.Sql.Expr

/-!
# Statements

A query selects rows of joined tables, or changes or deletes the records of one of them.
-/

namespace RecordSql
namespace Sql

structure TableRef where
  name : String
  aliasName : Option String
  /-- The table is read without locks. -/
  noLock : Bool

/-- The name by which the rest of the statement refers to the table. -/
def TableRef.exposed (t : TableRef) : String :=
  t.aliasName.getD t.name

inductive JoinKind where
  | inner
  | leftOuter
  | rightOuter
  | fullOuter
deriving DecidableEq, Repr

structure Join where
  kind : JoinKind
  table : TableRef
  on : Predicate

structure Source where
  table : TableRef
  joins : List Join

structure SelectItem where
  expr : Scalar
  aliasName : Option String

structure OrderKey where
  expr : Scalar
  descending : Bool

/-- A number of rows to pass over and, if given, the number of rows to take after them. -/
structure Offset where
  skip : Int
  take : Option Int
deriving DecidableEq, Repr

structure Select where
  distinct : Bool
  top : Option Int
  items : List SelectItem
  sources : List Source
  criteria : Option Predicate
  groupBy : List Scalar
  having : Option Predicate
  orderBy : List OrderKey
  offset : Option Offset

structure Assignment where
  column : Column
  value : Scalar

structure Update where
  target : TableRef
  assignments : List Assignment
  source : Option Source
  criteria : Option Predicate

structure Delete where
  target : TableRef
  source : Option Source
  criteria : Option Predicate

inductive Statement where
  | select (s : Select)
  | update (u : Update)
  | delete (d : Delete)

/-- A statement and the part of the source that it was written as. -/
structure Written where
  statement : Statement
  sql : String

end Sql
end RecordSql
