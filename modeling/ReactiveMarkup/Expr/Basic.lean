import ReactiveMarkup.Number.Basic
import ReactiveMarkup.Text.Position

/-!
# Expression trees

An expression is a tree whose every node knows the range of text it was read from. `get` and `set`
stand for declared values and never come out of the parser; anchoring puts them in the place of
identifiers, each with the `ValuePath` that its name resolved to.
-/
namespace ReactiveMarkup

/-- The number of a scope in document order, from zero. -/
abbrev ScopeIndex := Nat

/-- A resolved reference to a declared value: the scope that the lookup landed on, the aliased
scopes walked from there, and the value's name in the last of them. -/
structure ValuePath where
  anchor : ScopeIndex
  aliases : List String
  name : String
  deriving DecidableEq, Repr, Inhabited

namespace ValuePath

/-- A path is shown with dots between its parts. -/
def toText (p : ValuePath) : String :=
  ".".intercalate (toString p.anchor :: (p.aliases ++ [p.name]))

end ValuePath

/-- Constants. -/
inductive Literal where
  | undefined
  | null
  | bool (value : Bool)
  | number (value : Number)
  | string (value : String)
  deriving Inhabited

/-- Operators in front of one operand. -/
inductive UnaryOp where
  | not | negate | plus | typeof
  deriving DecidableEq, Repr, Inhabited

namespace UnaryOp

/-- How the operator is written, with the space that a word needs. -/
def text : UnaryOp → String
  | not => "!"
  | negate => "-"
  | plus => "+"
  | typeof => "typeof "

end UnaryOp

/-- Operators between two operands. -/
inductive BinaryOp where
  | add | sub | mul | div | mod
  | eq | ne | strictEq | strictNe
  | lt | le | gt | ge
  | and | or | coalesce
  deriving DecidableEq, Repr, Inhabited

namespace BinaryOp

/-- How the operator is written. -/
def text : BinaryOp → String
  | add => "+"
  | sub => "-"
  | mul => "*"
  | div => "/"
  | mod => "%"
  | eq => "=="
  | ne => "!="
  | strictEq => "==="
  | strictNe => "!=="
  | lt => "<"
  | le => "<="
  | gt => ">"
  | ge => ">="
  | and => "&&"
  | or => "||"
  | coalesce => "??"

/-- How tightly the operator binds; all of them group to the left. -/
def precedence : BinaryOp → Nat
  | coalesce => 1
  | or => 2
  | and => 3
  | eq | ne | strictEq | strictNe => 4
  | lt | le | gt | ge => 5
  | add | sub => 6
  | mul | div | mod => 7

end BinaryOp

/-- Stepping a variable by one. -/
inductive UpdateOp where
  | increment | decrement
  deriving DecidableEq, Repr, Inhabited

namespace UpdateOp

/-- How the operator is written. -/
def text : UpdateOp → String
  | increment => "++"
  | decrement => "--"

end UpdateOp

/-- Expression trees. -/
inductive Expr where
  | literal (range : Range) (value : Literal)
  | ident (range : Range) (name : String)
  /-- reads a declared value -/
  | get (range : Range) (path : ValuePath)
  /-- writes a declared value, and is the value written -/
  | set (range : Range) (path : ValuePath) (value : Expr)
  /-- joins the texts of its parts, null and undefined being empty -/
  | template (range : Range) (parts : List Expr)
  | member (range : Range) (object : Expr) (name : String)
  | index (range : Range) (object key : Expr)
  | call (range : Range) (callee : Expr) (args : List Expr)
  | unary (range : Range) (op : UnaryOp) (operand : Expr)
  | binary (range : Range) (op : BinaryOp) (left right : Expr)
  | conditional (range : Range) (test yes no : Expr)
  /-- assigns the value, or the operator's result on the old value and it -/
  | assign (range : Range) (op : Option BinaryOp) (target value : Expr)
  /-- steps the target; `before` if the operator stands in front, which makes it the new value -/
  | update (range : Range) (op : UpdateOp) (before : Bool) (target : Expr)
  | array (range : Range) (items : List Expr)
  | object (range : Range) (entries : List (String × Expr))
  | arrow (range : Range) (params : List String) (body : Expr)
  | letIn (range : Range) (name : String) (value : Expr)
  | sequence (range : Range) (items : List Expr)
  deriving Inhabited

namespace Expr

/-- The text that a node was read from. -/
def range : Expr → Range
  | literal r _ | ident r _ | get r _ | set r _ _ | template r _ | member r _ _ | index r _ _
  | call r _ _ | unary r _ _ | binary r _ _ _ | conditional r _ _ _ | assign r _ _ _
  | update r _ _ _ | array r _ | object r _ | arrow r _ _ | letIn r _ _ | sequence r _ => r

/-- Whether a node can be assigned to or stepped. -/
def isAssignable : Expr → Bool
  | ident .. | member .. | index .. => true
  | _ => false

end Expr

end ReactiveMarkup
