import RecordSql.Fetch.Operator

/-!
# Native queries

A native query asks for the records of a table and of tables linked to it.  Each table of the query
is a scope with its own attributes, filters and orders; the scopes form a tree.
-/

namespace RecordSql
namespace Fetch

inductive Aggregation where
  | count
  | countColumn
  | sum
  | avg
  | min
  | max
deriving DecidableEq, Repr

def Aggregation.name : Aggregation -> String
  | count => "count"
  | countColumn => "countcolumn"
  | sum => "sum"
  | avg => "avg"
  | min => "min"
  | max => "max"

/-- The aggregation of a given name. -/
def Aggregation.ofName? (name : String) : Option Aggregation :=
  [count, countColumn, sum, avg, min, max].find? (·.name == name)

structure Attribute where
  name : String
  aliasName : Option String
  aggregation : Option Aggregation
  groupBy : Bool
  distinct : Bool
deriving DecidableEq, Repr

namespace Attribute

def ofName (name : String) : Attribute :=
  ⟨name, none, none, false, false⟩

def aliased (name aliasName : String) : Attribute :=
  ⟨name, some aliasName, none, false, false⟩

/-- The attribute is returned as it is, under its own name. -/
def isPlain (a : Attribute) : Bool :=
  a.aliasName.isNone && a.aggregation.isNone

end Attribute

structure Condition where
  column : String
  operator : Operator
  value : Option String
  /-- The column to compare with. -/
  valueOf : Option String
  values : List String
deriving DecidableEq, Repr

namespace Condition

def single (column : String) (operator : Operator) (value : Option String) : Condition :=
  ⟨column, operator, value, none, []⟩

def between (column : String) (operator : Operator) (other : String) : Condition :=
  ⟨column, operator, none, some other, []⟩

def multiple (column : String) (operator : Operator) (values : List String) : Condition :=
  ⟨column, operator, none, none, values⟩

end Condition

inductive FilterKind where
  | all
  | any
deriving DecidableEq, Repr

/-- Conditions and further filters, all of which or one of which must hold. -/
structure Filter where
  kind : FilterKind
  items : List (Condition ⊕ Filter)

/-- A key to sort by: a column, or the alias of one. -/
structure Order where
  column : Option String
  aliasName : Option String
  descending : Bool
deriving DecidableEq, Repr

namespace Order

def byColumn (name : String) (descending : Bool) : Order :=
  ⟨some name, none, descending⟩

def byAlias (aliasName : String) (descending : Bool) : Order :=
  ⟨none, some aliasName, descending⟩

end Order

/-- How the rows of a linked scope are matched with those of the scope above it. -/
structure Link where
  /-- The attribute of the linked table. -/
  child : String
  /-- The attribute of the table above. -/
  parent : String
  aliasName : String
  /-- Rows without a match are kept. -/
  outer : Bool
deriving DecidableEq, Repr

structure Scope where
  table : String
  allAttributes : Bool
  attributes : List Attribute
  filters : List Filter
  links : List (Link × Scope)
  orders : List Order

structure Query where
  top : Option Nat
  page : Option Nat
  count : Option Nat
  cookie : Option String
  distinct : Bool
  aggregate : Bool
  /-- The records are read without locks. -/
  noLock : Bool
  root : Scope

namespace Scope

def ofTable (table : String) : Scope :=
  ⟨table, false, [], [], [], []⟩

instance : Inhabited Scope := ⟨ofTable ""⟩

/-- Returns an attribute under its own name, if the scope does not do so already. -/
def ensure (s : Scope) (name : String) : Scope :=
  if s.allAttributes || s.attributes.any (fun a => a.name == name && a.isPlain) then s
  else { s with attributes := s.attributes ++ [.ofName name] }

def addAttribute (s : Scope) (a : Attribute) : Scope :=
  { s with attributes := s.attributes ++ [a] }

def addFilter (s : Scope) (f : Filter) : Scope :=
  { s with filters := s.filters ++ [f] }

def addOrder (s : Scope) (o : Order) : Scope :=
  { s with orders := s.orders ++ [o] }

def addLink (s : Scope) (link : Link) (child : Scope) : Scope :=
  { s with links := s.links ++ [(link, child)] }

/-!
# Paths

A scope is found by the positions of the links that lead to it.
-/

def at? : Scope -> List Nat -> Option Scope
  | s, [] => some s
  | s, i :: path => do
      let (_, child) <- s.links[i]?
      child.at? path

def updateLink (f : Scope -> Scope) : List (Link × Scope) -> Nat -> List (Link × Scope)
  | [], _ => []
  | (link, child) :: rest, 0 => (link, f child) :: rest
  | entry :: rest, i + 1 => entry :: updateLink f rest i

/-- Changes the scope at a path, if there is one. -/
def update (f : Scope -> Scope) : List Nat -> Scope -> Scope
  | [], s => f s
  | i :: path, s => { s with links := updateLink (update f path) s.links i }

end Scope

namespace Query

def ofTable (table : String) : Query :=
  ⟨none, none, none, none, false, false, false, .ofTable table⟩

def update (q : Query) (f : Scope -> Scope) (path : List Nat) : Query :=
  { q with root := q.root.update f path }

end Query

end Fetch
end RecordSql
