import RecordSql.Json.Basic
import RecordSql.Sql.Statement

/-!
# Statements as documents

Expressions are written as lists that begin with the kind of the expression, statements as objects
with a field for each clause.
-/

namespace RecordSql
namespace Sql

def tagged (kind : String) (items : List Json) : Json :=
  .arr (.str kind :: items)

def optional {α : Type} (f : α -> Json) : Option α -> Json
  | some a => f a
  | none => .null

def Column.toJson (c : Column) : Json :=
  tagged "col" [optional .str c.collection, .str c.name, .bool c.quoted]

def Literal.toJson : Literal -> Json
  | .str s => tagged "str" [.str s]
  | .int i => tagged "int" [.int i]
  | .float x => tagged "float" [.str (Number.floatText x)]
  | .bool b => tagged "bool" [.bool b]
  | .null => tagged "null" []

def Truth.name : Truth -> String
  | isTrue => "True"
  | isFalse => "False"
  | unknown => "Unknown"

mutual

def Scalar.toJson : Scalar -> Json
  | .literal l => l.toJson
  | .column c => c.toJson
  | .call name distinct args =>
      tagged "fn" [.str name, .bool distinct, .arr (documents args)]
  | .binary l op r => tagged "bin" [.str op.sign, l.toJson, r.toJson]
  | .negate e => tagged "neg" [e.toJson]
  | .searchedCase whens otherwise =>
      tagged "case" [.arr (branchDocuments whens), optionDocument otherwise]
  | .simpleCase input whens otherwise =>
      tagged "simple_case" [input.toJson, .arr (pairDocuments whens), optionDocument otherwise]
  | .collate e collation => tagged "collate" [e.toJson, .str collation]
  | .star => tagged "star" []
  | .starOf table => tagged "star_of" [.str table]

def Predicate.toJson : Predicate -> Json
  | .and items => tagged "and" [.arr (predicateDocuments items)]
  | .or items => tagged "or" [.arr (predicateDocuments items)]
  | .not p => tagged "not" [p.toJson]
  | .compare l op r => tagged "cmp" [.str op.sign, l.toJson, r.toJson]
  | .isNull e negated => tagged "is_null" [e.toJson, .bool negated]
  | .inList e items negated => tagged "in" [e.toJson, .arr (documents items), .bool negated]
  | .like e pattern negated => tagged "like" [e.toJson, pattern.toJson, .bool negated]
  | .contains c wanted => tagged "contains" [c.toJson, wanted.toJson]
  | .const t => tagged "const" [.str t.name]

def documents : List Scalar -> List Json
  | [] => []
  | e :: rest => e.toJson :: documents rest

def predicateDocuments : List Predicate -> List Json
  | [] => []
  | p :: rest => p.toJson :: predicateDocuments rest

def branchDocuments : List (Predicate × Scalar) -> List Json
  | [] => []
  | (p, e) :: rest => .arr [p.toJson, e.toJson] :: branchDocuments rest

def pairDocuments : List (Scalar × Scalar) -> List Json
  | [] => []
  | (w, e) :: rest => .arr [w.toJson, e.toJson] :: pairDocuments rest

def optionDocument : Option Scalar -> Json
  | none => .null
  | some e => e.toJson

end

def TableRef.toJson (t : TableRef) : Json :=
  .ofFields [
    ("name", .str t.name), ("alias", optional .str t.aliasName), ("no_lock", .bool t.noLock),
    ("exposed", .str t.exposed)]

def JoinKind.name : JoinKind -> String
  | inner => "Inner"
  | leftOuter => "LeftOuter"
  | rightOuter => "RightOuter"
  | fullOuter => "FullOuter"

def Join.toJson (j : Join) : Json :=
  .ofFields [
    ("type", .str j.kind.name), ("table", j.table.toJson), ("on", j.on.toJson)]

def Source.toJson (s : Source) : Json :=
  .ofFields [("table", s.table.toJson), ("joins", .arr (s.joins.map Join.toJson))]

def Select.toJson (s : Select) : Json :=
  .ofFields [
    ("distinct", .bool s.distinct),
    ("top", optional .int s.top),
    ("projection", .arr (s.items.map fun i => .arr [i.expr.toJson, optional .str i.aliasName])),
    ("from", .arr (s.sources.map Source.toJson)),
    ("where", optional Predicate.toJson s.criteria),
    ("group_by", .arr (s.groupBy.map Scalar.toJson)),
    ("having", optional Predicate.toJson s.having),
    ("order_by", .arr (s.orderBy.map fun k => .arr [k.expr.toJson, .bool k.descending])),
    ("offset", optional (fun o => .arr [.int o.skip, optional .int o.take]) s.offset)]

def Update.toJson (u : Update) : Json :=
  .ofFields [
    ("target", u.target.toJson),
    ("set", .arr (u.assignments.map fun a => .arr [a.column.toJson, a.value.toJson])),
    ("from", optional Source.toJson u.source),
    ("where", optional Predicate.toJson u.criteria)]

def Delete.toJson (d : Delete) : Json :=
  .ofFields [
    ("target", d.target.toJson),
    ("from", optional Source.toJson d.source),
    ("where", optional Predicate.toJson d.criteria)]

def Statement.toJson : Statement -> Json
  | .select s => .obj [("select", s.toJson)]
  | .update u => .obj [("update", u.toJson)]
  | .delete d => .obj [("delete", d.toJson)]

end Sql
end RecordSql
