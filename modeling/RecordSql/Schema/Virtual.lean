import RecordSql.Record
import RecordSql.Schema.Basic

/-!
# Virtual tables

Four tables hold the definitions themselves: the tables and their attributes, the option sets and
their labels.
-/

namespace RecordSql

inductive VirtualTable where
  | tables
  | attributes
  | optionSets
  | labels
deriving DecidableEq, Repr

namespace VirtualTable

def name : VirtualTable -> String
  | tables => "entity"
  | attributes => "attribute"
  | optionSets => "globaloptionset"
  | labels => "localizedlabel"

def ofName? (name : String) : Option VirtualTable :=
  [tables, attributes, optionSets, labels].find? (Text.sameName ·.name name)

/-- The table is made of option sets rather than of table definitions. -/
def isOptionSet : VirtualTable -> Bool
  | tables | attributes => false
  | optionSets | labels => true

def primaryId : VirtualTable -> String
  | labels => "localizedlabelid"
  | _ => "metadataid"

def columns : VirtualTable -> List (String × AttributeType)
  | tables => [
      ("logicalname", .string), ("displayname", .string), ("objecttypecode", .integer),
      ("primaryidattribute", .string), ("primarynameattribute", .string)]
  | attributes => [
      ("logicalname", .string), ("entitylogicalname", .string), ("attributetype", .string),
      ("attributeof", .string), ("displayname", .string)]
  | optionSets => [
      ("name", .string), ("displayname", .string), ("displaynameid", .uniqueIdentifier),
      ("isglobal", .boolean)]
  | labels => [
      ("labelid", .uniqueIdentifier), ("label", .string), ("languagecode", .integer)]

def definition (t : VirtualTable) : TableDef :=
  t.columns.foldl (fun table (name, type) => table.withAttribute (.ofType name type))
    (.ofKey t.name t.primaryId)

/-!
# Rows
-/

def optionalText (s : Option String) : Value :=
  (s.map Value.str).getD .null

def row (t : VirtualTable) (id : Guid) (entries : List (String × Value)) : Record :=
  ⟨t.name, some id, .ofList ((t.primaryId, .guid id) :: entries)⟩

def tableRow (t : TableDef) : Record :=
  tables.row t.id [
    ("logicalname", .str t.name), ("displayname", optionalText t.displayName),
    ("objecttypecode", (t.typeCode.map Value.int).getD .null),
    ("primaryidattribute", .str t.primaryId),
    ("primarynameattribute", optionalText t.primaryName)]

def attributeRow (t : TableDef) (a : AttributeDef) : Record :=
  attributes.row a.id [
    ("logicalname", .str a.name), ("entitylogicalname", .str t.name),
    ("attributetype", .str a.type.name), ("attributeof", optionalText a.attributeOf),
    ("displayname", optionalText a.displayName)]

/-- The language in which option sets are named. -/
def userLanguage : Int := 1033

/-- The name of an option set is a label that has the identifier of the option set. -/
def optionSetRow (o : OptionSet) : Record :=
  optionSets.row o.id [
    ("name", .str o.name), ("displayname", optionalText (o.label? userLanguage)),
    ("displaynameid", .guid o.id), ("isglobal", .bool o.isGlobal)]

def labelRow (o : OptionSet) (l : LocalizedLabel) : Record :=
  labels.row l.id [
    ("labelid", .guid o.id), ("label", .str l.label), ("languagecode", .int l.language)]

/-- The rows of a virtual table made of table definitions. -/
def rowsOfTables (t : VirtualTable) (all : List TableDef) : List Record :=
  match t with
  | attributes => all.flatMap fun d => d.attributes.map (attributeRow d)
  | _ => all.map tableRow

/-- The rows of a virtual table made of option sets. -/
def rowsOfOptionSets (t : VirtualTable) (all : List OptionSet) : List Record :=
  match t with
  | labels => all.flatMap fun o => o.labels.map (labelRow o)
  | _ => all.map optionSetRow

end VirtualTable

end RecordSql
