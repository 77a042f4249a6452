import RecordSql.Record

/-!
# Records as documents

The plain document of a value forgets whether a text was an identifier or a time.  The tagged one
keeps it: kinds that a document does not have are objects with the kind as their one field.
-/

namespace RecordSql

namespace Value

def tagged : Value -> Json
  | .null => .null
  | .bool b => .bool b
  | .int i => .int i
  | .str s => .str s
  | .float x => .obj [("float", .str (Number.floatText x))]
  | .dateTime t => .obj [("datetime", .str t.iso)]
  | .guid g => .obj [("guid", .str g.text)]
  | .ref r => .obj [("ref", .arr [.str r.table, .str r.id.text])]

def ofTagged? : Json -> Option Value
  | .null => some .null
  | .bool b => some (.bool b)
  | .int i => some (.int i)
  | .str s => some (.str s)
  | .obj [("float", .str s)] => (Number.readFloat s.toList).map .float
  | .obj [("datetime", .str s)] => (Calendar.DateTime.read s).map .dateTime
  | .obj [("guid", .str s)] => (Guid.read s).map .guid
  | .obj [("ref", .arr [.str table, .str id])] => (Guid.read id).map fun g => .ref ⟨table, g⟩
  | _ => none

/-- The attributes that the fields of an object give, in the order of the fields. -/
def attributesOf? : Json -> Option (Dict Value)
  | .null => some .empty
  | .obj fields => do
      let entries <- fields.mapM fun (name, v) => do some (name, <- ofTagged? v)
      some (.ofList entries)
  | _ => none

end Value

namespace Record

def tagged (r : Record) : Json :=
  .ofFields [
    ("name", .str r.table),
    ("id", (r.id.map fun g => Json.str g.text).getD .null),
    ("attributes", .arr (r.attributes.entries.map fun (name, v) => .arr [.str name, v.tagged]))]

def ofTagged? (j : Json) : Option Record := do
  let table <-
    match j.field? "name" with
    | some (.str name) => some name
    | _ => none
  let id <-
    match j.field? "id" with
    | some (.str id) => (Guid.read id).map some
    | _ => some none
  let attributes <- Value.attributesOf? ((j.field? "attributes").getD .null)
  some ⟨table, id, attributes⟩

end Record

def Page.tagged (p : Page) : Json :=
  .ofFields [
    ("entities", .arr (p.records.map Record.tagged)),
    ("more_records", .bool p.more),
    ("paging_cookie", (p.cookie.map Json.str).getD .null)]

end RecordSql
