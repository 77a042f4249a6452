import RecordSql.Json.Basic
import RecordSql.Schema.Basic

/-!
# Definitions from documents

Table definitions and option sets are read from objects.  Their identifiers follow from their
places in the document.
-/

namespace RecordSql
namespace Schema

/-- What a definition is of; the digit begins the identifiers of the kind. -/
inductive Kind where
  | table
  | column
  | optionSet
  | label

def Kind.digit : Kind -> Nat
  | table => 14
  | column => 10
  | optionSet => 13
  | label => 11

/-- The identifier of the definition at a place, or of its part at a second place. -/
def placeId (kind : Kind) (place inner : Nat) : Guid :=
  .ofNat (kind.digit * Nat.pow 2 124 + place * Nat.pow 2 48 + inner)

def numberTable (place : Nat) (t : TableDef) : TableDef :=
  { t with
    id := placeId .table place 0
    attributes := t.attributes.zipIdx.map fun (a, i) =>
      { a with id := placeId .column place (i + 1) } }

def numberOptionSet (place : Nat) (o : OptionSet) : OptionSet :=
  { o with
    id := placeId .optionSet place 0
    labels := o.labels.zipIdx.map fun (l, i) => { l with id := placeId .label place (i + 1) } }

/-!
# Reading fields
-/

def textField? (name : String) (j : Json) : Option String :=
  match j.field? name with
  | some (.str s) => some s
  | _ => none

def intField? (name : String) (j : Json) : Option Int :=
  match j.field? name with
  | some (.int i) => some i
  | _ => none

/-- The items of a list; a field that is not there has none. -/
def itemsOf (name : String) (j : Json) : List Json :=
  match j.field? name with
  | some (.arr items) => items
  | _ => []

def text? : Json -> Option String
  | .str s => some s
  | _ => none

def attributeOf? (j : Json) : Option AttributeDef := do
  let name <- textField? "name" j
  let typeName <- textField? "type" j
  let targets := (itemsOf "targets" j).filterMap text?
  let bare <-
    if typeName == "lookup" then some (AttributeDef.reference name targets)
    else (AttributeType.ofName? typeName).map fun type =>
      { AttributeDef.ofType name type with targets }
  some { bare with
    attributeOf := textField? "attribute_of" j
    displayName := textField? "display_name" j }

/-- The table that a document defines at a place. -/
def tableOf? (place : Nat) (j : Json) : Option TableDef := do
  let bare := TableDef.ofKey (<- textField? "name" j) (<- textField? "id" j)
  let named :=
    match textField? "primary_name" j with
    | some name => bare.withPrimaryName name
    | none => bare
  let attributes <- (itemsOf "attributes" j).mapM attributeOf?
  some (numberTable place { attributes.foldl TableDef.withAttribute named with
    typeCode := intField? "code" j
    displayName := textField? "display_name" j })

def labelOf? : Json -> Option LocalizedLabel
  | .arr [.str label, .int language] => some ⟨label, language, .zero⟩
  | _ => none

/-- The option set that a document defines at a place; it is global unless it says otherwise. -/
def optionSetOf? (place : Nat) (j : Json) : Option OptionSet := do
  let name <- textField? "name" j
  let labels <- (itemsOf "labels" j).mapM labelOf?
  let isGlobal :=
    match j.field? "is_global" with
    | some (.bool b) => b
    | _ => true
  some (numberOptionSet place ⟨name, isGlobal, .zero, labels⟩)

def tablesOf? (j : Json) : Option (List TableDef) :=
  (itemsOf "entities" j).zipIdx.mapM fun (t, i) => tableOf? (i + 1) t

def optionSetsOf? (j : Json) : Option (List OptionSet) :=
  (itemsOf "option_sets" j).zipIdx.mapM fun (o, i) => optionSetOf? (i + 1) o

end Schema
end RecordSql
