import ReactiveMarkup.Number.Basic
import ReactiveMarkup.Text.Position
import ReactiveMarkup.Text.Quoted

/-!
# Tokens of the expression language

A token is a word, a literal or a symbol together with the range of its text. Every token list ends
with one token that marks the end of the text.
-/
namespace ReactiveMarkup

/-- Operators and punctuation. -/
inductive Symbol where
  | tripleEqual | notTripleEqual
  | arrow | doubleEqual | notEqual | lessEqual | greaterEqual | doubleAnd | doubleOr
  | doubleQuestion | plusPlus | minusMinus
  | plusEqual | minusEqual | starEqual | slashEqual | percentEqual
  | leftParen | rightParen | leftBracket | rightBracket | leftBrace | rightBrace
  | comma | dot | semicolon | colon | question | equal | bang | less | greater
  | plus | minus | star | slash | percent
  deriving DecidableEq, Repr, Inhabited

namespace Symbol

/-- How a symbol is written. -/
def text : Symbol → String
  | tripleEqual => "==="
  | notTripleEqual => "!=="
  | arrow => "=>"
  | doubleEqual => "=="
  | notEqual => "!="
  | lessEqual => "<="
  | greaterEqual => ">="
  | doubleAnd => "&&"
  | doubleOr => "||"
  | doubleQuestion => "??"
  | plusPlus => "++"
  | minusMinus => "--"
  | plusEqual => "+="
  | minusEqual => "-="
  | starEqual => "*="
  | slashEqual => "/="
  | percentEqual => "%="
  | leftParen => "("
  | rightParen => ")"
  | leftBracket => "["
  | rightBracket => "]"
  | leftBrace => "\x7b"
  | rightBrace => "\x7d"
  | comma => ","
  | dot => "."
  | semicolon => ";"
  | colon => ":"
  | question => "?"
  | equal => "="
  | bang => "!"
  | less => "<"
  | greater => ">"
  | plus => "+"
  | minus => "-"
  | star => "*"
  | slash => "/"
  | percent => "%"

/-- All symbols, longer ones first, so that the first that fits is the longest. -/
def all : List Symbol :=
  [tripleEqual, notTripleEqual, arrow, doubleEqual, notEqual, lessEqual, greaterEqual, doubleAnd,
   doubleOr, doubleQuestion, plusPlus, minusMinus, plusEqual, minusEqual, starEqual, slashEqual,
   percentEqual, leftParen, rightParen, leftBracket, rightBracket, leftBrace, rightBrace, comma,
   dot, semicolon, colon, question, equal, bang, less, greater, plus, minus, star, slash, percent]

theorem mem_all (s : Symbol) : s ∈ all := by cases s <;> decide

end Symbol

/-- What a token is. -/
inductive TokenKind where
  | ident (name : String)
  | number (value : Number)
  | string (value : String)
  | bool (value : Bool)
  | null
  | undefined
  | letWord
  | typeofWord
  | symbol (symbol : Symbol)
  | stop
  deriving Inhabited

namespace TokenKind

/-- How a token is shown: strings quoted, numbers by their value, the end as nothing. -/
def text : TokenKind → String
  | ident name => name
  | number value => value.toText
  | string value => Quoted.encode value
  | bool value => if value then "true" else "false"
  | null => "null"
  | undefined => "undefined"
  | letWord => "let"
  | typeofWord => "typeof"
  | symbol s => s.text
  | stop => ""

/-- Whether this is the mark of the end. -/
def isStop : TokenKind → Bool
  | stop => true
  | _ => false

/-- Whether this is a given symbol. -/
def isSymbol (s : Symbol) : TokenKind → Bool
  | symbol t => t == s
  | _ => false

/-- The kind of a word: keywords are words that are no identifiers. -/
def ofWord (word : String) : TokenKind :=
  if word = "true" then bool true
  else if word = "false" then bool false
  else if word = "null" then null
  else if word = "undefined" then undefined
  else if word = "let" then letWord
  else if word = "typeof" then typeofWord
  else ident word

end TokenKind

/-- A token and the range of its text. -/
structure Token where
  range : Range
  kind : TokenKind
  deriving Inhabited

namespace Token

/-- The token, with its snippet moved to `base`. -/
def offsetBy (t : Token) (base : Position) : Token := ⟨t.range.offsetBy base, t.kind⟩

/-- The token, with what machine words keep of its range. -/
def stored (t : Token) : Token := ⟨t.range.stored, t.kind⟩

end Token

end ReactiveMarkup
