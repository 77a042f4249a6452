import RecordSql.Dict
import RecordSql.Platform.Client
import RecordSql.Schema.Virtual

/-!
# The catalog

Table definitions are asked for once and then remembered.  Names are remembered in lower case, and
the virtual tables need not be asked for.
-/

namespace RecordSql

inductive ResolutionError where
  | unknownTable (name : String)
  | unknownAttribute (table name : String)
  | unknownAlias (aliasName : String)
  | lookupFailed (table : String) (cause : PlatformError)
deriving DecidableEq

namespace ResolutionError

def message : ResolutionError -> String
  | unknownTable name => "Unknown entity " ++ name
  | unknownAttribute table name => "Unknown attribute " ++ name ++ " in entity " ++ table
  | unknownAlias aliasName => "Unknown table alias " ++ aliasName
  | lookupFailed table cause => "Metadata lookup for " ++ table ++ " failed: " ++ cause.message

/-- What a failed lookup of a table means. -/
def ofLookup (table : String) : PlatformError -> ResolutionError
  | .unknownTable name => .unknownTable name
  | cause => .lookupFailed table cause

end ResolutionError

/-- Where definitions are looked up. -/
abbrev Lookup (σ : Type) := String -> EStateM ResolutionError σ TableDef

/-- The definitions remembered so far. -/
structure Catalog where
  entries : Dict TableDef

namespace Catalog

def empty : Catalog :=
  ⟨.empty⟩

def cached? (c : Catalog) (name : String) : Option TableDef :=
  c.entries.get? (Text.lowerAscii name)

def remember (c : Catalog) (name : String) (t : TableDef) : Catalog :=
  ⟨c.entries.insert (Text.lowerAscii name) t⟩

def forget (c : Catalog) (name : String) : Catalog :=
  ⟨c.entries.erase (Text.lowerAscii name)⟩

def size (c : Catalog) : Nat :=
  c.entries.entries.length

end Catalog

end RecordSql
