import ReactiveMarkup.Expr.Basic
import ReactiveMarkup.Expr.Token.Scan
import ReactiveMarkup.Text.Parsed

/-!
# From tokens to an expression

A recursive descent over the token list. Each function reads one form off the front of the list and
gives back what follows it, which is shorter; that bound is part of the result (`Parsed`), and the
descent ends by it. Binary operators are read by climbing their precedence.

Main definitions: `ParseError`, `Expr.ofTokens` and `Expr.parse`.
-/
namespace ReactiveMarkup

/-- Why a token list is no expression. -/
inductive ParseError where
  | unexpectedToken (token : Token)
  | unexpectedEnd (range : Range)
  | invalidTarget (range : Range)
  | unclosedParen (token : Token)
  | unclosedBracket (token : Token)
  | unclosedBrace (token : Token)
  deriving Inhabited

namespace ParseError

/-- Where the error lies. -/
def range : ParseError → Range
  | unexpectedToken t | unclosedParen t | unclosedBracket t | unclosedBrace t => t.range
  | unexpectedEnd r | invalidTarget r => r

/-- The text of the token that an error names. -/
def describe (t : Token) : String := if t.kind.isStop then "EOF" else t.kind.text

/-- What the error says. -/
def message : ParseError → String
  | unexpectedToken t => "Unexpected token \x60" ++ describe t ++ "\x60"
  | unexpectedEnd _ => "Unexpected EOF detected"
  | invalidTarget _ => "Invalid assignment target"
  | unclosedParen t =>
    "Expected a closing parenthesis \x60)\x60 but got \x60" ++ describe t ++ "\x60"
  | unclosedBracket t =>
    "Expected a closing bracket \x60]\x60 but got \x60" ++ describe t ++ "\x60"
  | unclosedBrace t =>
    "Expected a closing brace \x60\x7d\x60 but got \x60" ++ describe t ++ "\x60"

end ParseError

/-- What reading off a token list gives. -/
abbrev ParseResult (α : Type) (bound : Nat) := Except ParseError (Parsed Token α bound)

namespace Parse

/-- The next token; past the end there is only the mark of the end. -/
def peek : List Token → Token
  | t :: _ => t
  | [] => ⟨Range.initial, .stop⟩

/-- Takes a symbol if it comes next. -/
def take? (s : Symbol) : (ts : List Token) → Option (Parsed Token Token ts.length)
  | t :: rest => if t.kind.isSymbol s then some ⟨t, rest, by simp⟩ else none
  | [] => none

/-- Takes a token that means something, with its meaning. -/
def takeAs? {α : Type} (meaning? : TokenKind → Option α) :
    (ts : List Token) → Option (Parsed Token (Token × α) ts.length)
  | t :: rest => (meaning? t.kind).map fun a => ⟨(t, a), rest, by simp⟩
  | [] => none

/-- Takes a symbol that has to come next. -/
def expect (s : Symbol) (fail : Token → ParseError) (ts : List Token) :
    ParseResult Token ts.length :=
  match take? s ts with
  | some p => .ok p
  | none => .error (fail (peek ts))

/-- The operator of an assignment. -/
def assignOp? : TokenKind → Option (Option BinaryOp)
  | .symbol .equal => some none
  | .symbol .plusEqual => some (some .add)
  | .symbol .minusEqual => some (some .sub)
  | .symbol .starEqual => some (some .mul)
  | .symbol .slashEqual => some (some .div)
  | .symbol .percentEqual => some (some .mod)
  | _ => none

/-- The operator between two operands. -/
def binaryOp? : TokenKind → Option BinaryOp
  | .symbol .doubleQuestion => some .coalesce
  | .symbol .doubleOr => some .or
  | .symbol .doubleAnd => some .and
  | .symbol .doubleEqual => some .eq
  | .symbol .notEqual => some .ne
  | .symbol .tripleEqual => some .strictEq
  | .symbol .notTripleEqual => some .strictNe
  | .symbol .less => some .lt
  | .symbol .lessEqual => some .le
  | .symbol .greater => some .gt
  | .symbol .greaterEqual => some .ge
  | .symbol .plus => some .add
  | .symbol .minus => some .sub
  | .symbol .star => some .mul
  | .symbol .slash => some .div
  | .symbol .percent => some .mod
  | _ => none

/-- The operator in front of an operand. -/
def unaryOp? : TokenKind → Option UnaryOp
  | .symbol .bang => some .not
  | .symbol .minus => some .negate
  | .symbol .plus => some .plus
  | .typeofWord => some .typeof
  | _ => none

/-- The operator that steps a variable. -/
def updateOp? : TokenKind → Option UpdateOp
  | .symbol .plusPlus => some .increment
  | .symbol .minusMinus => some .decrement
  | _ => none

/-- The name after a dot: keywords are names there. -/
def memberName? : TokenKind → Option String
  | .ident name => some name
  | .bool b => some (TokenKind.bool b).text
  | .null => some "null"
  | .undefined => some "undefined"
  | .letWord => some "let"
  | .typeofWord => some "typeof"
  | _ => none

/-- The key of an entry. -/
def entryKey? : TokenKind → Option String
  | .ident name => some name
  | .string s => some s
  | .number n => some n.toText
  | _ => none

/-- Names with commas between them, up to a closing parenthesis and an arrow. -/
def paramList? : (ts : List Token) → Option (Parsed Token (List String) ts.length)
  | ⟨_, .ident x⟩ :: ⟨_, .symbol .comma⟩ :: rest =>
    match paramList? rest with
    | some ⟨xs, rest', h⟩ => some ⟨x :: xs, rest', by simp only [List.length_cons]; omega⟩
    | none => none
  | ⟨_, .ident x⟩ :: ⟨_, .symbol .rightParen⟩ :: ⟨_, .symbol .arrow⟩ :: rest =>
    some ⟨[x], rest, by simp only [List.length_cons]; omega⟩
  | _ => none

/-- The parameters of an arrow function and the arrow, if the tokens start with them. -/
def arrowHead? : (ts : List Token) → Option (Parsed Token (List String) ts.length)
  | ⟨_, .ident x⟩ :: ⟨_, .symbol .arrow⟩ :: rest =>
    some ⟨[x], rest, by simp only [List.length_cons]; omega⟩
  | ⟨_, .symbol .leftParen⟩ :: ⟨_, .symbol .rightParen⟩ :: ⟨_, .symbol .arrow⟩ :: rest =>
    some ⟨[], rest, by simp only [List.length_cons]; omega⟩
  | ⟨_, .symbol .leftParen⟩ :: rest =>
    match paramList? rest with
    | some ⟨xs, rest', h⟩ => some ⟨xs, rest', by simp only [List.length_cons]; omega⟩
    | none => none
  | _ => none

mutual

/-- An arrow function, an assignment, or a conditional. -/
def assignment (ts : List Token) : ParseResult Expr ts.length :=
  match arrowHead? ts with
  | some ⟨params, rest, h⟩ => do
    let ⟨body, rest', h'⟩ ← assignment rest
    return ⟨.arrow ((peek ts).range.join body.range) params body, rest', by omega⟩
  | none => do
    let ⟨target, rest, h⟩ ← conditional ts
    match takeAs? assignOp? rest with
    | none => return ⟨target, rest, h⟩
    | some ⟨(_, op), rest₁, h₁⟩ =>
      if target.isAssignable then
        let ⟨value, rest₂, h₂⟩ ← assignment rest₁
        return ⟨.assign (target.range.join value.range) op target value, rest₂, by omega⟩
      else throw (.invalidTarget target.range)
termination_by 16 * ts.length + 8

/-- A binary expression, and the two branches if a question mark follows. -/
def conditional (ts : List Token) : ParseResult Expr ts.length := do
  let ⟨test, rest, h⟩ ← binary 1 ts
  match take? .question rest with
  | none => return ⟨test, rest, h⟩
  | some ⟨_, rest₁, h₁⟩ =>
    let ⟨yes, rest₂, h₂⟩ ← assignment rest₁
    let ⟨_, rest₃, h₃⟩ ← expect .colon .unexpectedToken rest₂
    let ⟨no, rest₄, h₄⟩ ← assignment rest₃
    return ⟨.conditional (test.range.join no.range) test yes no, rest₄, by omega⟩
termination_by 16 * ts.length + 7

/-- Operands joined by operators that bind at least as tightly as `least`. -/
def binary (least : Nat) (ts : List Token) : ParseResult Expr ts.length := do
  let ⟨left, rest, h⟩ ← unary ts
  let ⟨e, rest', h'⟩ ← binaryTail least left rest
  return ⟨e, rest', by omega⟩
termination_by 16 * ts.length + 6

/-- The operators and operands after a first operand. -/
def binaryTail (least : Nat) (left : Expr) (ts : List Token) : ParseResult Expr (ts.length + 1) :=
  match ts with
  | [] => .ok ⟨left, [], by simp⟩
  | t :: rest =>
    match binaryOp? t.kind with
    | none => .ok ⟨left, t :: rest, by simp⟩
    | some op =>
      if op.precedence < least then .ok ⟨left, t :: rest, by simp⟩
      else do
        let ⟨right, rest₁, h₁⟩ ← binary (op.precedence + 1) rest
        let ⟨e, rest₂, h₂⟩ ← binaryTail least
          (.binary (left.range.join right.range) op left right) rest₁
        return ⟨e, rest₂, by simp only [List.length_cons]; omega⟩
termination_by 16 * ts.length

/-- Operators in front, and the operand. -/
def unary (ts : List Token) : ParseResult Expr ts.length :=
  match ts with
  | [] => stepped []
  | t :: rest =>
    match unaryOp? t.kind with
    | some op => do
      let ⟨operand, rest', h⟩ ← unary rest
      return ⟨.unary (t.range.join operand.range) op operand, rest',
        by simp only [List.length_cons]; omega⟩
    | none =>
      match updateOp? t.kind with
      | some op => do
        let ⟨target, rest', h⟩ ← unary rest
        if target.isAssignable then
          return ⟨.update (t.range.join target.range) op true target, rest',
            by simp only [List.length_cons]; omega⟩
        else throw (.invalidTarget target.range)
      | none => stepped (t :: rest)
termination_by 16 * ts.length + 5

/-- An operand, and the operator that steps it if one follows. -/
def stepped (ts : List Token) : ParseResult Expr ts.length := do
  let ⟨target, rest, h⟩ ← chain ts
  match takeAs? updateOp? rest with
  | none => return ⟨target, rest, h⟩
  | some ⟨(t, op), rest₁, h₁⟩ =>
    if target.isAssignable then
      return ⟨.update (target.range.join t.range) op false target, rest₁, by omega⟩
    else throw (.invalidTarget target.range)
termination_by 16 * ts.length + 4

/-- A primary expression with its members, indexes and calls. -/
def chain (ts : List Token) : ParseResult Expr ts.length := do
  let ⟨e, rest, h⟩ ← primary ts
  let ⟨e', rest', h'⟩ ← chainTail e rest
  return ⟨e', rest', by omega⟩
termination_by 16 * ts.length + 3

/-- The members, indexes and calls after an expression. -/
def chainTail (e : Expr) (ts : List Token) : ParseResult Expr (ts.length + 1) :=
  match ts with
  | [] => .ok ⟨e, [], by simp⟩
  | t :: rest =>
    match t.kind with
    | .symbol .dot =>
      match rest with
      | [] => .error (.unexpectedEnd (peek []).range)
      | name :: rest₁ =>
        match memberName? name.kind with
        | some x => do
          let ⟨e', rest₂, h₂⟩ ← chainTail (.member (e.range.join name.range) e x) rest₁
          return ⟨e', rest₂, by simp only [List.length_cons]; omega⟩
        | none =>
          if name.kind.isStop then .error (.unexpectedEnd name.range)
          else .error (.unexpectedToken name)
    | .symbol .leftBracket => do
      let ⟨key, rest₁, h₁⟩ ← assignment rest
      let ⟨close, rest₂, h₂⟩ ← expect .rightBracket .unclosedBracket rest₁
      let ⟨e', rest₃, h₃⟩ ← chainTail (.index (e.range.join close.range) e key) rest₂
      return ⟨e', rest₃, by simp only [List.length_cons]; omega⟩
    | .symbol .leftParen => do
      let ⟨(args, close), rest₁, h₁⟩ ← items .rightParen .unclosedParen rest
      let ⟨e', rest₂, h₂⟩ ← chainTail (.call (e.range.join close.range) e args) rest₁
      return ⟨e', rest₂, by simp only [List.length_cons]; omega⟩
    | _ => .ok ⟨e, t :: rest, by simp⟩
termination_by 16 * ts.length

/-- Expressions with commas between them up to a closing symbol, a comma before it being allowed;
with the closing token. -/
def items (close : Symbol) (fail : Token → ParseError) (ts : List Token) :
    ParseResult (List Expr × Token) ts.length :=
  match take? close ts with
  | some ⟨t, rest, h⟩ => .ok ⟨([], t), rest, h⟩
  | none => do
    let ⟨item, rest, h⟩ ← assignment ts
    match take? .comma rest with
    | some ⟨_, rest₁, h₁⟩ =>
      let ⟨(more, t), rest₂, h₂⟩ ← items close fail rest₁
      return ⟨(item :: more, t), rest₂, by omega⟩
    | none =>
      let ⟨t, rest₁, h₁⟩ ← expect close fail rest
      return ⟨([item], t), rest₁, by omega⟩
termination_by 16 * ts.length + 9

/-- A literal, a name, or what stands in parentheses, brackets or braces. -/
def primary (ts : List Token) : ParseResult Expr ts.length :=
  match ts with
  | [] => .error (.unexpectedEnd (peek []).range)
  | t :: rest =>
    match t.kind with
    | .number n => .ok ⟨.literal t.range (.number n), rest, by simp⟩
    | .string s => .ok ⟨.literal t.range (.string s), rest, by simp⟩
    | .bool b => .ok ⟨.literal t.range (.bool b), rest, by simp⟩
    | .null => .ok ⟨.literal t.range .null, rest, by simp⟩
    | .undefined => .ok ⟨.literal t.range .undefined, rest, by simp⟩
    | .ident name => .ok ⟨.ident t.range name, rest, by simp⟩
    | .symbol .leftParen => do
      let ⟨e, rest₁, h₁⟩ ← assignment rest
      let ⟨_, rest₂, h₂⟩ ← expect .rightParen .unclosedParen rest₁
      return ⟨e, rest₂, by simp only [List.length_cons]; omega⟩
    | .symbol .leftBracket => do
      let ⟨(es, close), rest₁, h₁⟩ ← items .rightBracket .unclosedBracket rest
      return ⟨.array (t.range.join close.range) es, rest₁, by simp only [List.length_cons]; omega⟩
    | .symbol .leftBrace => do
      let ⟨(es, close), rest₁, h₁⟩ ← entries rest
      return ⟨.object (t.range.join close.range) es, rest₁, by simp only [List.length_cons]; omega⟩
    | .stop => .error (.unexpectedEnd t.range)
    | _ => .error (.unexpectedToken t)
termination_by 16 * ts.length

/-- The entries of an object up to the closing brace, with the closing token. -/
def entries (ts : List Token) : ParseResult (List (String × Expr) × Token) ts.length :=
  match ts with
  | [] => .error (.unclosedBrace (peek []))
  | key :: rest =>
    if key.kind.isSymbol .rightBrace then .ok ⟨([], key), rest, by simp⟩
    else
      match entryKey? key.kind with
      | none =>
        if key.kind.isStop then .error (.unclosedBrace key) else .error (.unexpectedToken key)
      | some name => do
        let ⟨value, rest₁, h₁⟩ ← entryValue key name rest
        match take? .comma rest₁ with
        | some ⟨_, rest₂, h₂⟩ =>
          let ⟨(more, close), rest₃, h₃⟩ ← entries rest₂
          return ⟨((name, value) :: more, close), rest₃, by simp only [List.length_cons]; omega⟩
        | none =>
          let ⟨close, rest₂, h₂⟩ ← expect .rightBrace .unclosedBrace rest₁
          return ⟨([(name, value)], close), rest₂, by simp only [List.length_cons]; omega⟩
termination_by 16 * ts.length

/-- The value of an entry after its key; a name alone stands for the variable of that name. -/
def entryValue (key : Token) (name : String) (ts : List Token) : ParseResult Expr (ts.length + 1) :=
  match take? .colon ts with
  | some ⟨_, rest, h⟩ => do
    let ⟨value, rest', h'⟩ ← assignment rest
    return ⟨value, rest', by omega⟩
  | none =>
    match key.kind with
    | .ident _ => .ok ⟨.ident key.range name, ts, by simp⟩
    | _ => .error (.unexpectedToken (peek ts))
termination_by 16 * ts.length + 9

end

/-- A declaration of a local, after its keyword, or an expression. -/
def statement (ts : List Token) : ParseResult Expr ts.length :=
  match ts with
  | ⟨range, .letWord⟩ :: name :: rest =>
    match name.kind with
    | .ident x => do
      let ⟨_, rest₁, h₁⟩ ← expect .equal .unexpectedToken rest
      let ⟨value, rest₂, h₂⟩ ← assignment rest₁
      return ⟨.letIn (range.join value.range) x value, rest₂,
        by simp only [List.length_cons]; omega⟩
    | .stop => .error (.unexpectedEnd name.range)
    | _ => .error (.unexpectedToken name)
  | ts => assignment ts

/-- The statements of a list that semicolons separate, and the range of what ends it. -/
def statements (ts : List Token) : Except ParseError (List Expr × Range) :=
  let ts' := ts.dropWhile fun t => t.kind.isSymbol .semicolon
  have _ : ts'.length ≤ ts.length := (List.dropWhile_sublist _).length_le
  if (peek ts').kind.isStop then .ok ([], (peek ts').range)
  else do
    let ⟨first, rest, _⟩ ← statement ts'
    if (peek rest).kind.isStop || (peek rest).kind.isSymbol .semicolon then
      let (more, last) ← statements rest
      return (first :: more, last)
    else throw (.unexpectedToken (peek rest))
termination_by ts.length

end Parse

namespace Expr

/-- The expression that a whole token list stands for: one statement is itself, several are a
sequence. -/
def ofTokens (ts : List Token) : Except ParseError Expr := do
  match ← Parse.statements ts with
  | ([], last) => throw (.unexpectedEnd last)
  | ([e], _) => return e
  | (e :: es, _) => return .sequence (e.range.join ((es.getLast?.getD e).range)) (e :: es)

end Expr

/-- Why a text is no expression. -/
inductive SyntaxError where
  | token (error : TokenError)
  | parse (error : ParseError)
  deriving Inhabited

namespace Expr

/-- Reads the text of an expression that starts at `base` in its document. -/
def parse (base : Position) (source : String) : Except SyntaxError Expr :=
  match Token.scan base source with
  | .error e => .error (.token e)
  | .ok ts =>
    match ofTokens ts with
    | .error e => .error (.parse e)
    | .ok e => .ok e

end Expr

end ReactiveMarkup
