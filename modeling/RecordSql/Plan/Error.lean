import RecordSql.Schema.Catalog
import RecordSql.Text.Pieces

/-!
# Failures of planning
-/

namespace RecordSql

inductive PlanError where
  | notSupported (what : String)
  | ambiguousColumn (name : String) (found : List String)
  /-- A name in double quotation marks that may have been meant as a text. -/
  | quotedName (text : String)
  | invalidJoin (what : String)
  | duplicateAlias (aliasName : String)
  | invalidColumn (what : String)
  | invalidValue (value column : String)
  | metadataQuery (construct : String)
  | unresolved (cause : ResolutionError)
deriving DecidableEq

namespace PlanError

def message : PlanError -> String
  | notSupported what => what ++ " is not supported"
  | ambiguousColumn name found =>
      "Ambiguous column name " ++ name ++ ", found in " ++ Text.joinWith ", " found
  | quotedName text =>
      "Unknown column \"" ++ text ++ "\". Did you mean '" ++ text ++
        "'? Double quotes denote identifiers, use single quotes for string literals"
  | invalidJoin what => "Unsupported join condition: " ++ what
  | duplicateAlias aliasName => "The table alias " ++ aliasName ++ " is used more than once"
  | invalidColumn what => "Invalid column reference " ++ what
  | invalidValue value column => value ++ " is not a valid value for attribute " ++ column
  | metadataQuery construct =>
      "Metadata tables cannot be combined with data tables or queried with " ++ construct
  | unresolved cause => cause.message

end PlanError

end RecordSql
