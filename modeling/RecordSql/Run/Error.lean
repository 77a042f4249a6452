import RecordSql.Eval.Error
import RecordSql.Number.Layout
import RecordSql.Schema.Catalog

/-!
# Failures of execution
-/

namespace RecordSql

inductive RunError where
  | platform (cause : PlatformError)
  /-- A change of all records of a table was refused. -/
  | blocked (operation : String)
  /-- A change failed when others had been applied, which are not undone. -/
  | stopped (applied : Nat) (cause : PlatformError)
  | eval (cause : EvalError)
  | unresolved (cause : ResolutionError)
  | invalidState (state : String)
  | cancelled (applied : Nat)
deriving DecidableEq

namespace RunError

def message : RunError -> String
  | platform cause => cause.message
  | blocked operation =>
      operation ++ " without a WHERE clause is blocked. Add a WHERE clause or change the " ++
        operation ++ " setting"
  | stopped applied cause =>
      cause.message ++ " (" ++ Number.intText applied ++
        " records were changed before the error)"
  | eval cause => cause.message
  | unresolved cause => cause.message
  | invalidState state => "Query cannot be executed from the " ++ state ++ " state"
  | cancelled applied =>
      "Query cancelled after " ++ Number.intText applied ++ " records were changed"

end RunError

end RecordSql
