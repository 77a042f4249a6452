import RecordSql.Fetch.Operator
import RecordSql.Guid
import RecordSql.Sorting

/-!
# Table definitions

The platform describes each of its tables: which attributes it has, of which types, and which of
them identifies and which of them names a record.
-/

namespace RecordSql

inductive AttributeType where
  | bigInt
  | boolean
  | customer
  | dateTime
  | decimal
  | double
  | entityName
  | integer
  | lookup
  | memo
  | money
  | multiSelectPicklist
  | owner
  | picklist
  | state
  | status
  | string
  | uniqueIdentifier
  | virtual
deriving DecidableEq, Repr

namespace AttributeType

def name : AttributeType -> String
  | bigInt => "BigInt"
  | boolean => "Boolean"
  | customer => "Customer"
  | dateTime => "DateTime"
  | decimal => "Decimal"
  | double => "Double"
  | entityName => "EntityName"
  | integer => "Integer"
  | lookup => "Lookup"
  | memo => "Memo"
  | money => "Money"
  | multiSelectPicklist => "MultiSelectPicklist"
  | owner => "Owner"
  | picklist => "Picklist"
  | state => "State"
  | status => "Status"
  | string => "String"
  | uniqueIdentifier => "Uniqueidentifier"
  | virtual => "Virtual"

def all : List AttributeType := [
  bigInt, boolean, customer, dateTime, decimal, double, entityName, integer, lookup, memo, money,
  multiSelectPicklist, owner, picklist, state, status, string, uniqueIdentifier, virtual]

def ofName? (name : String) : Option AttributeType :=
  all.find? (·.name == name)

def isString : AttributeType -> Bool
  | string | memo | entityName => true
  | _ => false

/-- Attributes of the type refer to other records. -/
def isLookup : AttributeType -> Bool
  | lookup | customer | owner => true
  | _ => false

def isNumeric : AttributeType -> Bool
  | bigInt | decimal | double | integer | money => true
  | _ => false

/-- Attributes of the type hold the number of an option. -/
def isOption : AttributeType -> Bool
  | picklist | state | status => true
  | _ => false

def isIdentifier (t : AttributeType) : Bool :=
  t.isLookup || t == uniqueIdentifier

/-- The platform accepts conditions with the operator on attributes of the type. -/
def supports (t : AttributeType) : Fetch.Operator -> Bool
  | .compare .eq | .compare .ne | .isNull _ | .oneOf _ => t != virtual
  | .compare _ => t.isNumeric || t.isString || t == dateTime || t.isOption
  | .like _ => t.isString
  | .containValues _ => t == multiSelectPicklist
  | .under | .underOrEqual | .above | .aboveOrEqual => t.isIdentifier
  | .equalUser _ | .equalBusiness => t.isIdentifier
  | _ => t == dateTime

end AttributeType

structure AttributeDef where
  name : String
  type : AttributeType
  /-- The tables that a lookup can refer to. -/
  targets : List String
  /-- The attribute of which this one is a part. -/
  attributeOf : Option String
  displayName : Option String
  id : Guid

structure TableDef where
  name : String
  /-- The attribute that identifies a record. -/
  primaryId : String
  primaryName : Option String
  displayName : Option String
  typeCode : Option Int
  id : Guid
  attributes : List AttributeDef

namespace AttributeDef

def ofType (name : String) (type : AttributeType) : AttributeDef :=
  ⟨name, type, [], none, none, .zero⟩

/-- A lookup; one that can refer to several tables is a customer. -/
def reference (name : String) (targets : List String) : AttributeDef :=
  { ofType name (if 1 < targets.length then .customer else .lookup) with targets }

end AttributeDef

namespace TableDef

/-- A table with nothing but the attribute that identifies its records. -/
def ofKey (name primaryId : String) : TableDef :=
  ⟨name, primaryId, none, none, none, .zero, [.ofType primaryId .uniqueIdentifier]⟩

def withAttribute (t : TableDef) (a : AttributeDef) : TableDef :=
  { t with attributes := t.attributes ++ [a] }

/-- The attribute of a given name, whose case does not count. -/
def attribute? (t : TableDef) (name : String) : Option AttributeDef :=
  t.attributes.find? (Text.sameName ·.name name)

/-- A table whose records are named by an attribute, which is added if it is not there. -/
def withPrimaryName (t : TableDef) (name : String) : TableDef :=
  let named := { t with primaryName := some name }
  if (t.attribute? name).isSome then named else named.withAttribute (.ofType name .string)

/-- The names of all attributes that stand for themselves, in order. -/
def sortedNames (t : TableDef) : List String :=
  let shown := t.attributes.filter fun a => a.attributeOf.isNone && a.type != .virtual
  Sorting.stable (fun a b => decide (a < b)) (shown.map (·.name))

end TableDef

/-!
# Option sets
-/

structure LocalizedLabel where
  label : String
  language : Int
  id : Guid

structure OptionSet where
  name : String
  isGlobal : Bool
  id : Guid
  labels : List LocalizedLabel

/-- The label in a language, or else the first one. -/
def OptionSet.label? (o : OptionSet) (language : Int) : Option String :=
  ((o.labels.find? (·.language == language)).or o.labels.head?).map (·.label)

end RecordSql
