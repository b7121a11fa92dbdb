import ReactiveMarkup.Document.Basic
import ReactiveMarkup.Expr.Diagnostic

/-!
# Errors and warnings of compilation

A declaration that does not compile is left out of the program and told with its cause and its place
in the source. Names that nothing declares only cause a warning.

Main definitions: `CompileError`, `CompileWarning`.
-/
namespace ReactiveMarkup

/-- Why a declaration does not compile. -/
inductive CompileCause where
  | expression (error : ExprError)
  | unterminatedExpression (text : String)
  | emptyName (name : String)
  | duplicateAlias (name : String)
  | unknownWatch (name watched : String)
  | invalidHandler (event : String)
  | document (error : DocumentError)
  deriving Inhabited

namespace CompileCause

/-- The code of a diagnostic. -/
def code : CompileCause → String
  | expression e => e.code
  | unterminatedExpression _ => "CompileError::UnterminatedExpression"
  | emptyName _ => "CompileError::EmptyName"
  | duplicateAlias _ => "CompileError::DuplicateAlias"
  | unknownWatch .. => "CompileError::UnknownWatch"
  | invalidHandler _ => "CompileError::InvalidHandler"
  | document _ => "CompileError::Document"

/-- What the error says. -/
def message : CompileCause → String
  | expression e => e.message
  | unterminatedExpression text => "Unterminated \x60[[\x60 in \x60" ++ text ++ "\x60"
  | emptyName name => "Attribute \x60" ++ name ++ "\x60 declares an empty name"
  | duplicateAlias name => "Alias \x60" ++ name ++ "\x60 is already used by a sibling scope"
  | unknownWatch name watched =>
    "\x60" ++ name ++ "\x60 watches \x60" ++ watched ++ "\x60, which is not declared"
  | invalidHandler event =>
    "Event handler \x60" ++ event ++ "\x60 must be a single [[expression]]"
  | document e => e.message

/-- Advice, if there is any. -/
def help? : CompileCause → Option String
  | expression e => e.help?
  | unterminatedExpression _ => some "Close the expression with \x60]]\x60"
  | unknownWatch _ watched =>
    some ("Declare \x60" ++ watched ++ "\x60 on this element or one of its ancestors")
  | invalidHandler _ =>
    some "Write the handler as \x60[[expression]]\x60 without surrounding text"
  | emptyName _ | duplicateAlias _ | document _ => none

/-- Where in the source the error itself says it lies. -/
def range? : CompileCause → Option Range
  | expression e => e.range?
  | _ => none

end CompileCause

/-- A declaration that does not compile. -/
structure CompileError where
  cause : CompileCause
  file : String
  source : Option String
  /-- where the declaration or its element starts, if it is found in the source -/
  fallback : Option Position
  deriving Inhabited

namespace CompileError

/-- Where the error starts. -/
def position? (e : CompileError) : Option Position :=
  match e.cause.range? with
  | some r => some r.start
  | none => e.fallback

/-- The bytes of the source that the error is about. -/
def span? (e : CompileError) : Option ByteSpan := do
  let source ← e.source
  match e.cause.range?, e.fallback with
  | some r, _ => some (ByteSpan.ofRange source r)
  | none, some p => some (ByteSpan.ofRange source ⟨p, p⟩)
  | none, none => none

/-- The error with its file and position. -/
def toText (e : CompileError) : String :=
  match e.position? with
  | some p =>
    e.file ++ ":" ++ toString p.line ++ ":" ++ toString p.column ++ ": " ++ e.cause.message
  | none => e.file ++ ": " ++ e.cause.message

end CompileError

/-- A name that nothing declares and that is left to the host. -/
structure CompileWarning where
  name : String
  position : Position
  /-- the declared names that look like it, in order -/
  similar : List String
  deriving DecidableEq, Repr, Inhabited

namespace CompileWarning

/-- What the warning says. -/
def toText (w : CompileWarning) : String :=
  let first := "Unresolved identifier \x60" ++ w.name ++ "\x60 is left for host lookup"
  if w.similar.isEmpty then first
  else
    first ++ ", these names seem close though: \x60" ++ ", ".intercalate w.similar ++ "\x60"

end CompileWarning

end ReactiveMarkup
