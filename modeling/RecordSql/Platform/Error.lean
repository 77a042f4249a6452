import RecordSql.Guid

/-!
# Failures of the platform
-/

namespace RecordSql

inductive PlatformError where
  | notFound (table : String) (id : Guid)
  | unknownTable (table : String)
  | aggregateLimit
  | fault (message : String)
deriving DecidableEq

namespace PlatformError

def message : PlatformError -> String
  | notFound table id => "Could not find " ++ table ++ " with id " ++ id.text
  | unknownTable table => "Could not find entity " ++ table
  | aggregateLimit => "AggregateQueryRecordLimit exceeded. Cannot perform this operation."
  | fault text => text

end PlatformError

end RecordSql
