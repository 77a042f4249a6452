import RecordSql.Calendar.Format
import RecordSql.Guid
import RecordSql.Json.Basic
import RecordSql.Number.Word
import RecordSql.Sql.Literal
import RecordSql.Text.Case

/-!
# Values

What an attribute of a record holds: nothing, a truth value, a number, a text, a time, an
identifier, or a reference to another record.
-/

namespace RecordSql

structure Reference where
  table : String
  id : Guid
deriving DecidableEq

inductive Value where
  | null
  | bool (b : Bool)
  | int (i : Int)
  | float (x : Float)
  | str (s : String)
  | dateTime (t : Calendar.DateTime)
  | guid (g : Guid)
  | ref (r : Reference)
deriving DecidableEq

instance : Inhabited Value := ⟨.null⟩

namespace Value

def isNull : Value -> Bool
  | .null => true
  | _ => false

/-!
# Reading a value as another kind

Texts are read leniently, with the blanks around them left out.
-/

def asText : Value -> Option String
  | .str s => some s
  | _ => none

def asFloat : Value -> Option Float
  | .int i => some (Float.ofInt i)
  | .float x => some x
  | .bool b => some (if b then 1.0 else 0.0)
  | .str s => Number.readFloat (Text.trim s).toList
  | _ => none

/-- The whole number that a value is; a double with a fraction is none. -/
def asInt : Value -> Option Int
  | .int i => some i
  | .float x => if Number.isWhole x then some (Number.toWord x) else none
  | .bool b => some (if b then 1 else 0)
  | .str s => Number.readInt (Text.trim s).toList
  | _ => none

/-- The identifier that a value is, refers to, or spells. -/
def asGuid : Value -> Option Guid
  | .guid g => some g
  | .ref r => some r.id
  | .str s => Guid.read (Text.trim s)
  | _ => none

def asDateTime : Value -> Option Calendar.DateTime
  | .dateTime t => some t
  | .str s => Calendar.DateTime.read s
  | _ => none

/-!
# Text
-/

/-- The text shown for a value; the missing value shows as nothing. -/
def text : Value -> String
  | .null => ""
  | .bool b => if b then "1" else "0"
  | .int i => Number.intText i
  | .float x => Number.floatText x
  | .str s => s
  | .dateTime t => t.text
  | .guid g => g.text
  | .ref r => r.id.text

/-- The text of a value that is there. -/
def text? (v : Value) : Option String :=
  if v.isNull then none else some v.text

def toJson : Value -> Json
  | .null => .null
  | .bool b => .bool b
  | .int i => .int i
  | .float x => if x.isFinite then .float x else .null
  | .str s => .str s
  | .dateTime t => .str t.iso
  | .guid g => .str g.text
  | .ref r => .obj [("id", .str r.id.text), ("logical_name", .str r.table)]

/-!
# Literals and values

Times, identifiers and references have no literals of their own and are written as texts.
-/

def ofLiteral : Sql.Literal -> Value
  | .str s => .str s
  | .int i => .int i
  | .float x => .float x
  | .bool b => .bool b
  | .null => .null

def toLiteral : Value -> Sql.Literal
  | .null => .null
  | .bool b => .bool b
  | .int i => .int i
  | .float x => .ofFloat x
  | v => .str v.text

/-!
# Keys

Values that differ only in the case of a text have one key.  A tuple of values is identified by the
text of the list of them.
-/

def key : Value -> Value
  | .str s => .str (Text.lower s)
  | v => v

def keyIf (caseSensitive : Bool) (v : Value) : Value :=
  if caseSensitive then v else v.key

def tupleText (values : List Value) : String :=
  (Json.arr (values.map toJson)).text

end Value

end RecordSql
