import RecordSql.Json.Reader
import RecordSql.Platform.Store

/-!
# Loading records from documents

A table is filled from a document that is a list of objects.  Texts are read as the type of their
attribute asks for, and an object is a reference to a record.
-/

namespace RecordSql
namespace Store

def notValid (value : Json) (a : AttributeDef) : PlatformError :=
  .fault (value.text ++ " is not a valid " ++ a.type.name ++ " value for " ++ a.name)

/-- The value that a text stands for in an attribute. -/
def ofText? (s : String) (a : AttributeDef) : Option Value :=
  if a.type == .dateTime then (Calendar.DateTime.read s).map .dateTime
  else if a.type == .uniqueIdentifier then (Guid.read s).map .guid
  else if a.type.isLookup then do
    let target <- a.targets.head?
    let id <- Guid.read s
    some (.ref ⟨target, id⟩)
  else some (.str s)

def textField? (name : String) (j : Json) : Option String :=
  match j.field? name with
  | some (.str s) => some s
  | _ => none

def ofReference? (j : Json) : Option Value := do
  let table <- textField? "logicalname" j
  let id <- (textField? "id" j).bind Guid.read
  some (.ref ⟨table, id⟩)

def ofJson? (value : Json) (a : AttributeDef) : Option Value :=
  match value with
  | .null => some .null
  | .bool b => some (.bool b)
  | .int i => some (if Number.fits i then .int i else .float (Float.ofInt i))
  | .float x => some (.float x)
  | .str s => ofText? s a
  | .obj fields => ofReference? (.obj fields)
  | .arr _ => none

def readFields (t : TableDef) : Record -> List (String × Json) -> Except PlatformError Record
  | r, [] => .ok r
  | r, (key, value) :: rest =>
      match t.attribute? key with
      | none => .error (.fault (key ++ " is not an attribute of " ++ t.name))
      | some a =>
          match ofJson? value a with
          | some v => readFields t (r.insert a.name v) rest
          | none => .error (notValid value a)

def loadItem (t : TableDef) (item : Json) : EStateM PlatformError Store Unit := do
  match item with
  | .obj fields =>
      let r <- liftExcept (readFields t (.ofTable t.name) fields)
      let _ <- create { r with id := (r.get t.primaryId).asGuid }
  | _ => throw (.fault ("Seed data for " ++ t.name ++ " must contain objects"))

def loadItems (t : TableDef) : List Json -> EStateM PlatformError Store Unit
  | [] => pure ()
  | item :: rest => do
      loadItem t item
      loadItems t rest

/-- Adds the records of a document and counts them; those before a faulty one stay. -/
def load (table : String) (document : Json) : EStateM PlatformError Store Nat := do
  match document with
  | .arr items =>
      match (<- get).definitions.get? table with
      | none => throw (.unknownTable table)
      | some t =>
          loadItems t items
          return items.length
  | _ => throw (.fault ("Seed data for " ++ table ++ " is not a JSON array"))

/-- Adds the records of a text that is a document. -/
def loadText (table content : String) : EStateM PlatformError Store Nat := do
  match Json.read content with
  | some document => load table document
  | none => throw (.fault (table ++ " does not contain valid JSON"))

end Store
end RecordSql
