import ReactiveMarkup.Json.Basic

/-!
# JSON text

The compact text of a JSON document. A double is written in its fewest digits: positionally from
`10 ^ -5` up to `10 ^ 16`, with `.0` after an integer, and with a signed exponent outside of that.
-/
namespace ReactiveMarkup.Json

/-- How a character stands in a string. -/
def escapeChar (c : Char) : List Char :=
  if c = '"' then ['\\', '"']
  else if c = '\\' then ['\\', '\\']
  else if c = '\x08' then ['\\', 'b']
  else if c = '\x0c' then ['\\', 'f']
  else if c = '\n' then ['\\', 'n']
  else if c = '\r' then ['\\', 'r']
  else if c = '\t' then ['\\', 't']
  else if c.toNat < 32 then
    let digits := Nat.toDigits 16 c.toNat
    ['\\', 'u'] ++ List.replicate (4 - digits.length) '0' ++ digits
  else [c]

/-- A string in its quotes. -/
def stringText (s : String) : String :=
  String.ofList ('"' :: (s.toList.flatMap escapeChar ++ ['"']))

/-- Scientific notation: one digit before the point, and the sign of the exponent. -/
def scientific (digits : List Char) (exponent : Int) : List Char :=
  let mantissa :=
    match digits with
    | d :: e :: ds => d :: '.' :: e :: ds
    | ds => ds
  let sign := if exponent < 0 then '-' else '+'
  mantissa ++ 'e' :: sign :: Decimal.digitsOf exponent.natAbs

/-- The text of the absolute value of a finite double. -/
def doubleText (b : Binary) : List Char :=
  if b.mantissa = 0 then "0.0".toList
  else
    let d := Decimal.shortest .toEven b
    let digits := Decimal.digitsOf d.digits
    let exponent := d.exponent + digits.length - 1
    if exponent < -5 || 16 ≤ exponent then scientific digits exponent
    else if d.exponent ≥ 0 then d.positional ++ ['.', '0']
    else d.positional

/-- The text of a double; JSON has none for what is not finite. -/
def floatText (x : Number) : String :=
  match x.binary? with
  | some b => Number.signed b.negative (doubleText b)
  | none => "null"

mutual

/-- The compact text of a document. -/
def toText : Json → String
  | null => "null"
  | bool b => if b then "true" else "false"
  | int n => toString n
  | float x => floatText x
  | string s => stringText s
  | array items => "[" ++ ",".intercalate (itemTexts items) ++ "]"
  | object members => "\x7b" ++ ",".intercalate (memberTexts members) ++ "\x7d"

/-- The texts of the items of an array. -/
def itemTexts : List Json → List String
  | [] => []
  | j :: js => j.toText :: itemTexts js

/-- The texts of the members of an object. -/
def memberTexts : List (String × Json) → List String
  | [] => []
  | (key, j) :: ms => (stringText key ++ ":" ++ j.toText) :: memberTexts ms

end

end ReactiveMarkup.Json
