import RecordSql.Plan.Error
import RecordSql.Sql.Expr

/-!
# Names in scope

Each table of a `FROM` clause is a scope of the native query.  A column of the statement is bound
to the scope that has an attribute of its name; without a collection in front it must be the only
such scope.
-/

namespace RecordSql
namespace Plan

open Sql (Column Literal Scalar)

structure Options where
  /-- The platform can compare two columns of one table. -/
  columnComparison : Bool
  /-- Names in double quotation marks are always names; otherwise an unknown one is a text. -/
  quotedIdentifiers : Bool

def Options.standard : Options :=
  ⟨false, true⟩

structure TableScope where
  /-- The name by which the statement refers to the table. -/
  aliasName : String
  table : TableDef
  /-- Where the scope stands in the native query. -/
  path : List Nat
  /-- The scope is linked by an outer join. -/
  outer : Bool

def TableScope.isRoot (s : TableScope) : Bool :=
  s.path.isEmpty

/-- A column bound to a scope and to the attribute that it names there. -/
structure Bound where
  scope : Nat
  name : String
deriving DecidableEq, Repr

abbrev Scopes := List TableScope

namespace Scopes

def findAlias (scopes : Scopes) (aliasName : String) : Option Nat :=
  scopes.findIdx? fun s => Text.sameName s.aliasName aliasName

def add (scopes : Scopes) (s : TableScope) : Except PlanError Scopes :=
  if (findAlias scopes s.aliasName).isSome then .error (.duplicateAlias s.aliasName)
  else .ok (scopes ++ [s])

def attributeIn (scopes : Scopes) (scope : Nat) (name : String) : Option AttributeDef :=
  scopes[scope]?.bind (·.table.attribute? name)

def attributeOf (scopes : Scopes) (b : Bound) : Option AttributeDef :=
  attributeIn scopes b.scope b.name

def pathOf (scopes : Scopes) (scope : Nat) : List Nat :=
  (scopes[scope]?.map (·.path)).getD []

def isOuter (scopes : Scopes) (scope : Nat) : Bool :=
  scopes[scope]?.any (·.outer)

/-- Every scope that has an attribute of the given name, with that attribute. -/
def matching (scopes : Scopes) (name : String) : List (Nat × TableScope × AttributeDef) :=
  scopes.zipIdx.filterMap fun (s, i) => (s.table.attribute? name).map fun a => (i, s, a)

def rootName (scopes : Scopes) : String :=
  (scopes.head?.map (·.table.name)).getD ""

def unknownAttribute (table name : String) : PlanError :=
  .unresolved (.unknownAttribute table name)

def resolveIn (scopes : Scopes) (collection name : String) : Except PlanError Bound :=
  match findAlias scopes collection with
  | none => .error (.unresolved (.unknownAlias collection))
  | some scope =>
      match attributeIn scopes scope name with
      | some a => .ok ⟨scope, a.name⟩
      | none =>
          .error (unknownAttribute ((scopes[scope]?.map (·.table.name)).getD "") name)

def resolve (scopes : Scopes) (c : Column) : Except PlanError Bound :=
  match c.collection with
  | some collection => resolveIn scopes collection c.name
  | none =>
      match matching scopes c.name with
      | [(scope, _, a)] => .ok ⟨scope, a.name⟩
      | [] =>
          if c.quoted then .error (.quotedName c.name)
          else .error (unknownAttribute (rootName scopes) c.name)
      | found =>
          .error (.ambiguousColumn c.name (found.map fun (_, s, a) => s.aliasName ++ "." ++ a.name))

/-- The column under which retrieved rows hold a bound column. -/
def qualified (scopes : Scopes) (b : Bound) : Column :=
  match scopes[b.scope]? with
  | some s => if s.isRoot then .ofName b.name else .inCollection s.aliasName b.name
  | none => .ofName b.name

def rowKey (scopes : Scopes) (b : Bound) : String :=
  (qualified scopes b).rowKey

end Scopes

/-!
# The native query under construction
-/

structure Context where
  options : Options
  scopes : Scopes
  fetch : Fetch.Query

/-- What one side of a comparison is once its names are bound. -/
inductive Operand where
  | column (b : Bound)
  | literal (l : Literal)
  | other

namespace Context

/-- Binds a column; there is none if its name is really a text. -/
def resolve (ctx : Context) (c : Column) : Except PlanError (Option Bound) :=
  match ctx.scopes.resolve c with
  | .ok b => .ok (some b)
  | .error (.quotedName text) =>
      if ctx.options.quotedIdentifiers then .error (.quotedName text) else .ok none
  | .error e => .error e

def operand (ctx : Context) : Scalar -> Except PlanError Operand
  | .column c => do
      match <- ctx.resolve c with
      | some b => return .column b
      | none => return .literal (.str c.name)
  | .literal l => .ok (.literal l)
  | _ => .ok .other

/-- Changes the part of the native query that belongs to a scope. -/
def update (ctx : Context) (scope : Nat) (f : Fetch.Scope -> Fetch.Scope) : Context :=
  { ctx with fetch := ctx.fetch.update f (ctx.scopes.pathOf scope) }

/-- Makes a column part of the retrieved rows. -/
def ensure (ctx : Context) (b : Bound) : Context :=
  ctx.update b.scope (·.ensure b.name)

def ensureAll (ctx : Context) (columns : List Bound) : Context :=
  columns.foldl ensure ctx

end Context

/-- A list of columns with one more, unless it is there. -/
def addBound (used : List Bound) (b : Bound) : List Bound :=
  if used.contains b then used else used ++ [b]

end Plan
end RecordSql
