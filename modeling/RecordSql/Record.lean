import RecordSql.Dict
import RecordSql.Value.Basic

/-!
# Records

A record of a table: the name of the table, an identifier once it is stored, and its attributes in
the order in which they were written.  An attribute that is not there reads as missing.
-/

namespace RecordSql

structure Record where
  table : String
  id : Option Guid
  attributes : Dict Value
deriving DecidableEq

namespace Record

def ofTable (table : String) : Record :=
  ⟨table, none, .empty⟩

def get (r : Record) (name : String) : Value :=
  (r.attributes.get? name).getD .null

def insert (r : Record) (name : String) (value : Value) : Record :=
  { r with attributes := r.attributes.insert name value }

theorem get_insert (r : Record) (name other : String) (value : Value) :
    (r.insert name value).get other = if other = name then value else r.get other := by
  simp only [get, insert, Dict.get?_insert]
  split <;> simp

end Record

/-!
# Pages and result sets

The platform answers a retrieval page by page.  A result set is what a query shows: the columns it
asked for and the rows that hold them.
-/

structure Page where
  records : List Record
  more : Bool
  cookie : Option String

structure ResultSet where
  columns : List String
  records : List Record

namespace ResultSet

/-- The values of every row in the order of the columns; a repeated column repeats its value. -/
def rows (s : ResultSet) : List (List Value) :=
  s.records.map fun r => s.columns.map r.get

def toJson (s : ResultSet) : Json :=
  .arr (s.records.map fun r => Json.ofFields (s.columns.map fun c => (c, (r.get c).toJson)))

end ResultSet

end RecordSql
