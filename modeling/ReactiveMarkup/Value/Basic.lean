import ReactiveMarkup.Expr.Basic
import ReactiveMarkup.Text.Keyed

/-!
# Values of the expression language

Arrays, objects and functions carry a stamp that tells one from another of equal content: each one
that an expression builds gets a stamp of its own, and a copy of a reference keeps it. Values do not
change; an assignment inside of a container builds a new container.

Main definitions: `Value`, `Env` and the conversions `Value.truthy`, `Value.toNumber`,
`Value.toText`.
-/
namespace ReactiveMarkup

/-- What tells apart two containers of equal content. -/
abbrev Stamp := Nat

/-- Values. The entries of an object and of an environment are in key order. -/
inductive Value where
  | undefined
  | null
  | bool (value : Bool)
  | number (value : Number)
  | string (value : String)
  | array (stamp : Stamp) (items : List Value)
  | object (stamp : Stamp) (entries : List (String × Value))
  /-- an arrow function with the locals that were visible where it was made -/
  | function (stamp : Stamp) (params : List String) (body : Expr) (env : List (String × Value))
  deriving Inhabited

/-- Locals by name, in key order. -/
abbrev Env := List (String × Value)

namespace Value

/-- Whether a value is null or undefined. -/
def isNullish : Value → Bool
  | undefined | null => true
  | _ => false

/-- Whether a value is an array. -/
def isArray : Value → Bool
  | array .. => true
  | _ => false

/-- The items of an array. -/
def items? : Value → Option (List Value)
  | array _ items => some items
  | _ => none

/-- The text of a string. -/
def string? : Value → Option String
  | string s => some s
  | _ => none

/-- Whether a value counts as true. -/
def truthy : Value → Bool
  | undefined | null => false
  | bool b => b
  | number n => !n.isZero && !n.isNaN
  | string s => !s.isEmpty
  | array .. | object .. | function .. => true

/-- The number that a value stands for; an array stands for its only item. -/
def toNumber : Value → Number
  | undefined => Number.nan
  | null => 0
  | bool b => if b then 1 else 0
  | number n => n
  | string s => Number.ofText s
  | array _ [] => 0
  | array _ [item] => item.toNumber
  | array _ (_ :: _ :: _) => Number.nan
  | object .. | function .. => Number.nan

/-- The name of a value's type. -/
def typeName : Value → String
  | undefined => "undefined"
  | null | array .. | object .. => "object"
  | bool _ => "boolean"
  | number _ => "number"
  | string _ => "string"
  | function .. => "function"

mutual

/-- The text of a value; an array is its items' texts with commas. -/
def toText : Value → String
  | undefined => "undefined"
  | null => "null"
  | bool b => if b then "true" else "false"
  | number n => n.toText
  | string s => s
  | array _ items => ",".intercalate (itemTexts items)
  | object .. => "[object Object]"
  | function .. => "function"

/-- The texts of items, null and undefined being empty. -/
def itemTexts : List Value → List String
  | [] => []
  | v :: vs => (if v.isNullish then "" else v.toText) :: itemTexts vs

end

/-- A natural number as a value. -/
def ofNat (n : Nat) : Value := number (Number.ofNat n)

end Value

namespace Literal

/-- The value of a constant. -/
def value : Literal → Value
  | undefined => .undefined
  | null => .null
  | bool b => .bool b
  | number n => .number n
  | string s => .string s

end Literal

end ReactiveMarkup
