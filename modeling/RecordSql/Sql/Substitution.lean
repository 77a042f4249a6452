import RecordSql.Dict
import RecordSql.Sql.ExprText
import RecordSql.Sql.Statement

/-!
# Substituting columns for expressions

An expression whose value is already held by a column is replaced by that column.  Expressions are
recognised by their canonical text; one that is recognised is replaced as a whole, and its parts are
not looked at.
-/

namespace RecordSql
namespace Sql

/-- The columns that stand for expressions, by the text of the expression. -/
structure Substitution where
  columns : Dict String

namespace Substitution

def empty : Substitution :=
  ⟨.empty⟩

def add (s : Substitution) (e : Scalar) (column : String) : Substitution :=
  ⟨s.columns.insert e.text column⟩

/-- The column that stands for an expression. -/
def column? (s : Substitution) (e : Scalar) : Option String :=
  s.columns.get? e.text

def columnOr (s : Substitution) (e otherwise : Scalar) : Scalar :=
  match s.column? e with
  | some name => .column (.ofName name)
  | none => otherwise

mutual

def scalar (s : Substitution) : Scalar -> Scalar
  | .call name distinct args =>
      s.columnOr (.call name distinct args) (.call name distinct (s.scalars args))
  | .binary l op r => s.columnOr (.binary l op r) (.binary (s.scalar l) op (s.scalar r))
  | .negate e => s.columnOr (.negate e) (.negate (s.scalar e))
  | .searchedCase whens otherwise =>
      s.columnOr (.searchedCase whens otherwise)
        (.searchedCase (s.branches whens) (s.otherwise otherwise))
  | .simpleCase input whens otherwise =>
      s.columnOr (.simpleCase input whens otherwise)
        (.simpleCase (s.scalar input) (s.pairs whens) (s.otherwise otherwise))
  | .collate e name => s.columnOr (.collate e name) (.collate (s.scalar e) name)
  | .literal l => s.columnOr (.literal l) (.literal l)
  | .column c => s.columnOr (.column c) (.column c)
  | .star => s.columnOr .star .star
  | .starOf table => s.columnOr (.starOf table) (.starOf table)

def predicate (s : Substitution) : Predicate -> Predicate
  | .and items => .and (s.predicates items)
  | .or items => .or (s.predicates items)
  | .not p => .not (s.predicate p)
  | .compare l op r => .compare (s.scalar l) op (s.scalar r)
  | .isNull e negated => .isNull (s.scalar e) negated
  | .inList e items negated => .inList (s.scalar e) (s.scalars items) negated
  | .like e pattern negated => .like (s.scalar e) (s.scalar pattern) negated
  | .contains c wanted => .contains c (s.scalar wanted)
  | .const t => .const t

def scalars (s : Substitution) : List Scalar -> List Scalar
  | [] => []
  | e :: rest => s.scalar e :: s.scalars rest

def predicates (s : Substitution) : List Predicate -> List Predicate
  | [] => []
  | p :: rest => s.predicate p :: s.predicates rest

def branches (s : Substitution) : List (Predicate × Scalar) -> List (Predicate × Scalar)
  | [] => []
  | (p, e) :: rest => (s.predicate p, s.scalar e) :: s.branches rest

def pairs (s : Substitution) : List (Scalar × Scalar) -> List (Scalar × Scalar)
  | [] => []
  | (w, e) :: rest => (s.scalar w, s.scalar e) :: s.pairs rest

def otherwise (s : Substitution) : Option Scalar -> Option Scalar
  | none => none
  | some e => some (s.scalar e)

end

/-!
# Statements

Only the parts that are evaluated after grouping are changed.
-/

/--
A replaced item without an alias is shown under the name of the column that it was, or else under
the name of the column that replaced it.
-/
def item (s : Substitution) (i : SelectItem) : SelectItem :=
  let name := (s.column? i.expr).map fun column => (i.expr.column?.map (·.name)).getD column
  ⟨s.scalar i.expr, i.aliasName.or name⟩

def orderKey (s : Substitution) (k : OrderKey) : OrderKey :=
  { k with expr := s.scalar k.expr }

def select (s : Substitution) (q : Select) : Select :=
  { q with
    items := q.items.map s.item
    having := q.having.map s.predicate
    orderBy := q.orderBy.map s.orderKey }

end Substitution

end Sql
end RecordSql
