/-!
# Failures of evaluation
-/

namespace RecordSql

inductive EvalError where
  | unknownFunction (name : String)
  | invalidArguments (name expected : String)
  | invalidValue (function value : String)
  | invalidPattern (pattern : String)
  | divideByZero
deriving DecidableEq, Repr

namespace EvalError

def message : EvalError -> String
  | unknownFunction name => "Unknown function " ++ name
  | invalidArguments name expected =>
      "Invalid arguments for " ++ name ++ ", expected " ++ expected
  | invalidValue function value => function ++ " cannot be applied to " ++ value
  | invalidPattern pattern => "Invalid LIKE pattern " ++ pattern
  | divideByZero => "Division by zero"

end EvalError

end RecordSql
