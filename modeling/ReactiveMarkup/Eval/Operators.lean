import ReactiveMarkup.Value.Equality

/-!
# Operators on values
-/
namespace ReactiveMarkup

namespace Value

/-- Whether a value makes a sum a joining of texts. -/
def isTextual : Value → Bool
  | string _ | array .. | object .. | function .. => true
  | _ => false

/-- The sum of numbers, or the joined texts if one side is textual. -/
def add (a b : Value) : Value :=
  match a, b with
  | number x, number y => number (x + y)
  | _, _ =>
    if a.isTextual || b.isTextual then string (a.toText ++ b.toText)
    else number (a.toNumber + b.toNumber)

/-- The order of two values: two strings by code points, anything else by number. -/
def compare? (a b : Value) : Option Ordering :=
  match a, b with
  | string s, string t => some (compare s t)
  | _, _ => Number.compare? a.toNumber b.toNumber

/-- Whether the order of two values is known and meets a condition. -/
def ordered (a b : Value) (holds : Ordering → Bool) : Value :=
  bool (match compare? a b with
    | some o => holds o
    | none => false)

end Value

namespace BinaryOp

/-- The result of an operator on two values. The three that may not evaluate their right side are
decided before they come here. -/
def apply (op : BinaryOp) (a b : Value) : Value :=
  match op with
  | add => Value.add a b
  | sub => .number (a.toNumber - b.toNumber)
  | mul => .number (a.toNumber * b.toNumber)
  | div => .number (a.toNumber / b.toNumber)
  | mod => .number (a.toNumber.remainder b.toNumber)
  | eq => .bool (a.looseEq b)
  | ne => .bool (!a.looseEq b)
  | strictEq => .bool (a.strictEq b)
  | strictNe => .bool (!a.strictEq b)
  | lt => a.ordered b Ordering.isLT
  | le => a.ordered b Ordering.isLE
  | gt => a.ordered b Ordering.isGT
  | ge => a.ordered b Ordering.isGE
  | and | or | coalesce => .undefined

/-- The left side, if the operator's result is decided by it alone. -/
def shortcut? (op : BinaryOp) (a : Value) : Option Value :=
  match op with
  | and => if a.truthy then none else some a
  | or => if a.truthy then some a else none
  | coalesce => if a.isNullish then none else some a
  | _ => none

/-- Whether the operator's result is its right side, unless its left side decides. -/
def yieldsRight : BinaryOp → Bool
  | and | or | coalesce => true
  | _ => false

end BinaryOp

namespace UnaryOp

/-- The result of an operator on a value. -/
def apply (op : UnaryOp) (a : Value) : Value :=
  match op with
  | not => .bool !a.truthy
  | negate => .number (-a.toNumber)
  | plus => .number a.toNumber
  | typeof => .string a.typeName

end UnaryOp

namespace UpdateOp

/-- What the operator adds. -/
def delta : UpdateOp → Number
  | increment => 1
  | decrement => -1

end UpdateOp

end ReactiveMarkup
