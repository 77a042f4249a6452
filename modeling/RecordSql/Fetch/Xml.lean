import RecordSql.Fetch.Query
import RecordSql.Number.Layout

/-!
# The text of a native query

Queries are sent to the platform as compact XML.  Only what differs from the default is written.
-/

namespace RecordSql
namespace Fetch
namespace Xml

def escapeChar (c : Char) : List Char :=
  if c == '&' then "&amp;".toList
  else if c == '<' then "&lt;".toList
  else if c == '>' then "&gt;".toList
  else if c == '"' then "&quot;".toList
  else if c == '\'' then "&apos;".toList
  else [c]

def escape (s : String) : List Char :=
  s.toList.flatMap escapeChar

def attr (name value : String) : List Char :=
  ' ' :: name.toList ++ '=' :: '"' :: escape value ++ ['"']

def optional (name : String) : Option String -> List Char
  | some value => attr name value
  | none => []

def flag (name : String) (value : Bool) : List Char :=
  if value then attr name "true" else []

def attributeTag (a : Attribute) : List Char :=
  "<attribute".toList ++ attr "name" a.name ++ optional "alias" a.aliasName ++
    optional "aggregate" (a.aggregation.map Aggregation.name) ++ flag "groupby" a.groupBy ++
    flag "distinct" a.distinct ++ " />".toList

def conditionValue (v : String) : List Char :=
  "<value>".toList ++ escape v ++ "</value>".toList

def condition (c : Condition) : List Char :=
  "<condition".toList ++ attr "attribute" c.column ++ attr "operator" c.operator.name ++
    optional "value" c.value ++ optional "valueof" c.valueOf ++
    if c.values.isEmpty then " />".toList
    else '>' :: c.values.flatMap conditionValue ++ "</condition>".toList

mutual

def filter : Filter -> List Char
  | ⟨kind, items⟩ =>
      "<filter".toList ++ (if kind == .any then attr "type" "or" else []) ++
        '>' :: filterItems items ++ "</filter>".toList

def filterItems : List (Condition ⊕ Filter) -> List Char
  | [] => []
  | .inl c :: rest => condition c ++ filterItems rest
  | .inr f :: rest => filter f ++ filterItems rest

end

def order (o : Order) : List Char :=
  "<order".toList ++ optional "attribute" o.column ++ optional "alias" o.aliasName ++
    flag "descending" o.descending ++ " />".toList

def openLink (link : Link) (table : String) : List Char :=
  "<link-entity".toList ++ attr "name" table ++ attr "from" link.child ++ attr "to" link.parent ++
    attr "alias" link.aliasName ++ attr "link-type" (if link.outer then "outer" else "inner") ++ ['>']

mutual

/-- What stands between the tags of a scope. -/
def content : Scope -> List Char
  | ⟨_, allAttributes, attributes, filters, linked, orders⟩ =>
      (if allAttributes then "<all-attributes />".toList else []) ++
        attributes.flatMap attributeTag ++ filters.flatMap filter ++ links linked ++
        orders.flatMap order

def links : List (Link × Scope) -> List Char
  | [] => []
  | (link, scope) :: rest =>
      openLink link scope.table ++ content scope ++ "</link-entity>".toList ++ links rest

end

def number (n : Nat) : String :=
  Number.intText n

def query (q : Query) : List Char :=
  "<fetch".toList ++ optional "top" (q.top.map number) ++ optional "page" (q.page.map number) ++
    optional "count" (q.count.map number) ++ optional "paging-cookie" q.cookie ++
    flag "distinct" q.distinct ++ flag "aggregate" q.aggregate ++ flag "no-lock" q.noLock ++
    ">".toList ++ "<entity".toList ++ attr "name" q.root.table ++ ">".toList ++ content q.root ++
    "</entity></fetch>".toList

end Xml

def Query.xml (q : Query) : String :=
  String.ofList (Xml.query q)

end Fetch
end RecordSql
