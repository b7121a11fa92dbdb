import ReactiveMarkup.Eval.Error
import ReactiveMarkup.Expr.Parse
import ReactiveMarkup.Expr.Anchor

/-!
# Diagnostics of expressions

Every way in which an expression can fail, with a code, a help text for some, and the bytes of the
expression's text that it is about. An evaluation error is about the whole text.
-/
namespace ReactiveMarkup

/-- Why an expression fails. -/
inductive ExprError where
  | syntactic (error : SyntaxError)
  | anchor (error : AnchorError)
  | eval (error : EvalError)
  deriving Inhabited

namespace TokenError

/-- The code of a diagnostic. -/
def code : TokenError → String
  | unexpected .. => "LexerError::UnexpectedCharacter"
  | unterminatedString _ => "LexerError::UnterminatedString"

/-- Advice, if there is any. -/
def help? : TokenError → Option String
  | unexpected .. => none
  | unterminatedString _ => some "Close the string literal with a matching quote."

end TokenError

namespace ParseError

/-- The code of a diagnostic. -/
def code : ParseError → String
  | unexpectedToken _ => "ParseError::UnexpectedToken"
  | unexpectedEnd _ => "ParseError::UnexpectedEOFDetected"
  | invalidTarget _ => "ParseError::InvalidAssignmentTarget"
  | unclosedParen _ => "ParseError::ExpectedClosingParen"
  | unclosedBracket _ => "ParseError::ExpectedClosingBracket"
  | unclosedBrace _ => "ParseError::ExpectedClosingBrace"

/-- Advice, if there is any. -/
def help? : ParseError → Option String
  | unexpectedEnd _ =>
    some ("Input ended unexpectedly. Check for missing closing brackets or incomplete "
      ++ "expressions.")
  | unexpectedToken _ => some "Check for syntax errors or misplaced tokens."
  | invalidTarget _ => some "Only names, members and indexes can be assigned or incremented."
  | _ => none

end ParseError

namespace SyntaxError

/-- Where the error lies. -/
def range : SyntaxError → Range
  | token e => e.range
  | parse e => e.range

/-- What the error says. -/
def message : SyntaxError → String
  | token e => e.message
  | parse e => e.message

end SyntaxError

namespace AnchorError

/-- The code of a diagnostic. -/
def code : AnchorError → String
  | bareAlias .. => "TranslateError::BareAlias"
  | unknownMember .. => "TranslateError::UnknownMember"

/-- Advice. -/
def help : AnchorError → String
  | bareAlias name _ =>
    "'" ++ name ++ "' names a scope. Read one of its values instead, e.g. " ++ name ++ ".data"
  | unknownMember holder _ _ => "Declare the value on the element aliased '" ++ holder ++ "'."

end AnchorError

namespace EvalError

/-- Advice, if there is any. -/
def help? : EvalError → Option String
  | notDefined name => some ("'" ++ name ++ "' is not defined. Did you forget to declare it?")
  | _ => none

end EvalError

namespace ExprError

/-- The code of a diagnostic; evaluation errors share one. -/
def code : ExprError → String
  | syntactic (.token e) => e.code
  | syntactic (.parse e) => e.code
  | anchor e => e.code
  | eval _ => "EvalError"

/-- Where the error lies; an evaluation error has no place. -/
def range? : ExprError → Option Range
  | syntactic e => some e.range
  | anchor e => some e.range
  | eval _ => none

/-- What the error says. -/
def message : ExprError → String
  | syntactic e => e.message
  | anchor e => e.message
  | eval e => e.message

/-- Advice, if there is any. -/
def help? : ExprError → Option String
  | syntactic (.token e) => e.help?
  | syntactic (.parse e) => e.help?
  | anchor e => some e.help
  | eval e => e.help?

/-- The bytes of a text that the error is about. -/
def span (source : String) (e : ExprError) : ByteSpan :=
  match e.range? with
  | some r => ByteSpan.ofRange source r
  | none => ByteSpan.whole source

end ExprError

end ReactiveMarkup
