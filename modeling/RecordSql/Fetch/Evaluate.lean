import RecordSql.Fetch.Condition
import RecordSql.Grouping
import RecordSql.Record
import RecordSql.Sorting

/-!
# Answering native queries

A native query is answered from tables of records: scopes are joined and filtered, the rows are
sorted and projected or grouped, and one page of them is returned.
-/

namespace RecordSql
namespace Fetch

open Calendar (DateTime)

structure Database where
  tables : String -> Option (List Record)
  pageSize : Nat
  /-- The number of rows beyond which an aggregate query fails. -/
  aggregateLimit : Option Nat
  now : DateTime

def Link.front (link : Link) : String :=
  link.aliasName ++ "."

/-!
# Joining
-/

/-- Values match when they identify one record, or else when they are equal. -/
def keysMatch (a b : Value) : Bool :=
  match a.asGuid, b.asGuid with
  | some g, some h => g == h
  | _, _ => a.equals false b == some true

def joinRow (front : String) (link : Link) (children : List Joined) (parent : Joined) :
    List Joined :=
  let key := parent.get (front ++ link.parent)
  let matching := children.filter fun child => keysMatch key (child.get (link.front ++ link.child))
  if matching.isEmpty then
    if link.outer then [parent] else []
  else matching.map parent.link

mutual

def scopeRows (db : Database) (front : String) : Scope -> Except PlatformError (List Joined)
  | ⟨table, _, _, filters, links, _⟩ => do
      match db.tables table with
      | none => .error (.unknownTable table)
      | some records =>
          let rows <- joinLinks db front links (records.map (.ofRecord front))
          keepMatching db.now front filters rows

def joinLinks (db : Database) (front : String) :
    List (Link × Scope) -> List Joined -> Except PlatformError (List Joined)
  | [], rows => .ok rows
  | (link, scope) :: rest, rows => do
      let children <- scopeRows db link.front scope
      joinLinks db front rest (rows.flatMap (joinRow front link children))

end

/-!
# Attributes and orders

They are taken scope by scope, those of the root first.
-/

/-- An attribute of a scope, with the text in front of the names of that scope. -/
structure Placed where
  front : String
  attr : Attribute

namespace Placed

def key (p : Placed) : String :=
  p.front ++ p.attr.name

/-- The name under which the attribute is returned. -/
def output (p : Placed) : String :=
  p.attr.aliasName.getD p.key

end Placed

mutual

def placedAttributes (front : String) : Scope -> List Placed
  | ⟨_, _, attributes, _, links, _⟩ => attributes.map (⟨front, ·⟩) ++ linkedAttributes links

def linkedAttributes : List (Link × Scope) -> List Placed
  | [] => []
  | (link, scope) :: rest => placedAttributes link.front scope ++ linkedAttributes rest

end

/-- The name of the value that an order sorts by; in an aggregate query an alias is that name. -/
def orderName (aggregate : Bool) (attributes : List Placed) (front : String) (o : Order) :
    Option String :=
  match o.aliasName, o.column with
  | some aliasName, _ =>
      if aggregate then some aliasName
      else (attributes.find? (·.attr.aliasName == some aliasName)).map Placed.key
  | none, some column => some (front ++ column)
  | none, none => none

/-- A name to sort by and whether the order is descending. -/
structure SortKey where
  name : String
  descending : Bool
deriving DecidableEq, Repr

def sortKeys (aggregate : Bool) (attributes : List Placed) (front : String) (orders : List Order) :
    List SortKey :=
  orders.filterMap fun o =>
    (orderName aggregate attributes front o).map (⟨·, o.descending⟩)

mutual

def scopeSortKeys (aggregate : Bool) (attributes : List Placed) (front : String) :
    Scope -> List SortKey
  | ⟨_, _, _, _, links, orders⟩ =>
      sortKeys aggregate attributes front orders ++ linkedSortKeys aggregate attributes links

def linkedSortKeys (aggregate : Bool) (attributes : List Placed) :
    List (Link × Scope) -> List SortKey
  | [] => []
  | (link, scope) :: rest =>
      scopeSortKeys aggregate attributes link.front scope ++
        linkedSortKeys aggregate attributes rest

end

def sortBy {α : Type} (get : α -> String -> Value) (keys : List SortKey) (rows : List α) : List α :=
  let compare (a b : α) : Ordering :=
    Sorting.lexicographic <| keys.map fun key =>
      Sorting.directed key.descending ((get a key.name).compareForSort false (get b key.name))
  Sorting.stable (fun a b => compare a b == .lt) rows

/-!
# Projecting
-/

/-- A key of the scope with the given front, and of no scope linked to it. -/
def belongsTo (front key : String) : Bool :=
  Text.startsWith (· == ·) front.toList key.toList &&
    !(key.toList.drop front.toList.length).contains '.'

mutual

/-- The values that are returned because a scope returns all of its attributes. -/
def wholeScopes (row : Joined) (front : String) : Scope -> List (String × Value)
  | ⟨_, allAttributes, _, _, links, _⟩ =>
      (if allAttributes then row.values.entries.filter fun (key, _) => belongsTo front key
        else []) ++ wholeLinked row links

def wholeLinked (row : Joined) : List (Link × Scope) -> List (String × Value)
  | [] => []
  | (link, scope) :: rest => wholeScopes row link.front scope ++ wholeLinked row rest

end

def project (root : Scope) (attributes : List Placed) (row : Joined) : Record :=
  let named := attributes.map fun a => (a.output, row.get a.key)
  ⟨root.table, row.id, .ofList (wholeScopes row "" root ++ named)⟩

def distinctKey (r : Record) : String :=
  Value.tupleText (r.attributes.values.map Value.key)

/-!
# Aggregating
-/

def Aggregation.function : Aggregation -> String
  | countColumn => "count"
  | a => a.name

def summary (a : Placed) (aggregation : Aggregation) : Summary Joined where
  function := aggregation.function
  args := fun row => .ok (if aggregation == .count then [] else [row.get a.key])
  distinct := if a.attr.distinct then some Value.key else none

def aggregateRows (table : String) (attributes : List Placed) (rows : List Joined) :
    Except PlatformError (List Record) := do
  let groups := attributes.filter (·.attr.groupBy)
  let aggregates := attributes.filter (·.attr.aggregation.isSome)
  let grouping : Grouping Joined := {
    keys := fun row => .ok (groups.map fun g => (row.get g.key, (row.get g.key).key))
    summaries := aggregates.filterMap fun a => a.attr.aggregation.map (summary a) }
  match grouping.groups groups.isEmpty rows with
  | .error e => .error (.fault e.message)
  | .ok found => return found.map fun group =>
      let entries := (groups.map Placed.output).zip group.values ++
        (aggregates.map Placed.output).zip group.results
      ⟨table, none, .ofList entries⟩

/-!
# Pages
-/

def cookieText (page : Nat) : String :=
  "<cookie page=\"" ++ Number.intText page ++ "\" />"

def pageOf (db : Database) (q : Query) (records : List Record) : Page :=
  match q.top with
  | some top => ⟨records.take top, false, none⟩
  | none =>
      let size := q.count.getD (max db.pageSize 1)
      let page := max (q.page.getD 1) 1
      let skipped := (page - 1) * size
      let more := decide (skipped + size < records.length)
      ⟨(records.drop skipped).take size, more, if more then some (cookieText page) else none⟩

/-- All records that a query returns, in order. -/
def allRecords (db : Database) (q : Query) : Except PlatformError (List Record) := do
  let rows <- scopeRows db "" q.root
  let attributes := placedAttributes "" q.root
  let keys := scopeSortKeys q.aggregate attributes "" q.root
  if q.aggregate then
    if db.aggregateLimit.any (· < rows.length) then .error .aggregateLimit
    else
      let records <- aggregateRows q.root.table attributes rows
      return sortBy Record.get keys records
  else
    let records := (sortBy Joined.get keys rows).map (project q.root attributes)
    return if q.distinct then firstOfEach distinctKey [] records else records

def evaluate (db : Database) (q : Query) : Except PlatformError Page := do
  let records <- allRecords db q
  return pageOf db q records

end Fetch
end RecordSql
