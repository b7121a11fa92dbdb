import ReactiveMarkup.Expr.Basic
import ReactiveMarkup.Text.Quoted

/-!
# The text of an expression

`Expr.toText` writes a tree with every binary operator, conditional, assignment and arrow in
parentheses, so that the text of a tree without declared values reads back as the same tree.
-/
namespace ReactiveMarkup

namespace Literal

/-- How a constant is written; strings are quoted. -/
def toText : Literal → String
  | undefined => "undefined"
  | null => "null"
  | bool b => if b then "true" else "false"
  | number n => n.toText
  | string s => Quoted.encode s

end Literal

namespace Expr

/-- Items with commas between them. -/
def commaSeparated (items : List String) : String := ", ".intercalate items

mutual

/-- The text of an expression. -/
def toText : Expr → String
  | literal _ v => v.toText
  | ident _ name => name
  | get _ path => "get(" ++ path.toText ++ ")"
  | set _ path value => "set(" ++ path.toText ++ ", " ++ value.toText ++ ")"
  | template _ parts => "\x60" ++ commaSeparated (toTexts parts) ++ "\x60"
  | member _ e name => e.toText ++ "." ++ name
  | index _ e key => e.toText ++ "[" ++ key.toText ++ "]"
  | call _ callee args => callee.toText ++ "(" ++ commaSeparated (toTexts args) ++ ")"
  | unary _ op operand => op.text ++ operand.toText
  | binary _ op left right => "(" ++ left.toText ++ " " ++ op.text ++ " " ++ right.toText ++ ")"
  | conditional _ test yes no =>
    "(" ++ test.toText ++ " ? " ++ yes.toText ++ " : " ++ no.toText ++ ")"
  | assign _ none target value => "(" ++ target.toText ++ " = " ++ value.toText ++ ")"
  | assign _ (some op) target value =>
    "(" ++ target.toText ++ " " ++ op.text ++ "= " ++ value.toText ++ ")"
  | update _ op true target => op.text ++ target.toText
  | update _ op false target => target.toText ++ op.text
  | array _ items => "[" ++ commaSeparated (toTexts items) ++ "]"
  | object _ entries => "\x7b" ++ commaSeparated (entryTexts entries) ++ "\x7d"
  | arrow _ params body => "((" ++ commaSeparated params ++ ") => " ++ body.toText ++ ")"
  | letIn _ name value => "let " ++ name ++ " = " ++ value.toText
  | sequence _ items => "; ".intercalate (toTexts items)

/-- The texts of expressions. -/
def toTexts : List Expr → List String
  | [] => []
  | e :: es => e.toText :: toTexts es

/-- The texts of the entries of an object. -/
def entryTexts : List (String × Expr) → List String
  | [] => []
  | (key, value) :: entries => (key ++ ": " ++ value.toText) :: entryTexts entries

end

end Expr

end ReactiveMarkup
