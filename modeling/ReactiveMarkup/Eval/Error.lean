import ReactiveMarkup.Expr.Basic
import ReactiveMarkup.Json.Read

/-!
# Why an evaluation fails
-/
namespace ReactiveMarkup

/-- The two values that have no properties. -/
inductive Nullish where
  | null | undefined
  deriving DecidableEq, Repr, Inhabited

/-- Why an evaluation fails. -/
inductive EvalError where
  | notDefined (name : String)
  | notCallable (name : String)
  | propertyOfNullish (holder : Nullish) (name : String)
  | invalidAssignment
  | tooManyCalls (limit : Nat)
  | wrongArity (name : String) (expected got : Nat)
  | invalidJson (error : Json.ReadError)
  | unresolved (path : ValuePath)
  | nullishToObject
  deriving DecidableEq, Repr, Inhabited

namespace Nullish

/-- How the value is written. -/
def text : Nullish → String
  | null => "null"
  | undefined => "undefined"

end Nullish

namespace EvalError

/-- What the error says. -/
def message : EvalError → String
  | notDefined name => "\"" ++ name ++ "\" is not defined"
  | notCallable name => "\"" ++ name ++ "\" is not a function"
  | propertyOfNullish holder name =>
    "Cannot read properties of " ++ holder.text ++ " (reading \"" ++ name ++ "\")"
  | invalidAssignment => "Invalid assignment target"
  | tooManyCalls limit => "Maximum recursion depth exceeded \"" ++ toString limit ++ "\""
  | wrongArity name expected got =>
    "Invalid number of arguments in \"" ++ name ++ "\", expected " ++ toString expected
      ++ ", got " ++ toString got
  | invalidJson error => "Invalid JSON: " ++ error.message
  | unresolved path => "\"" ++ path.toText ++ "\" cannot be resolved"
  | nullishToObject => "Runtime error: Cannot convert undefined or null to object"

end EvalError

end ReactiveMarkup
