import ReactiveMarkup.Number.Binary
import ReactiveMarkup.Text.Blank

/-!
# Reading numbers

A number text is an optional sign, digits with an optional point on either side, and an optional
exponent; the names of the infinities and of what is not a number are read in any case. The result
is the double nearest to the decimal number.
-/
namespace ReactiveMarkup.Number

/-- The value of a run of decimal digits, continued from `n`. -/
def digitsValue (n : Nat) (ds : List Char) : Nat :=
  ds.foldl (fun n d => 10 * n + (d.toNat - '0'.toNat)) n

/-- The double nearest to `m · 10 ^ e`. Numbers far outside the range of doubles are settled by
their size. -/
def ofDecimal (m : Nat) (e : Int) : Number :=
  if m = 0 then 0
  else
    let size := ((Nat.toDigits 10 m).length : Int) + e
    if 310 < size then infinity
    else if size < -330 then 0
    else if e ≥ 0 then Float.ofScientific m false e.toNat
    else Float.ofScientific m true (-e).toNat

/-- An optional sign: whether it is a minus, and what follows. -/
def splitSign : List Char → Bool × List Char
  | '-' :: cs => (true, cs)
  | '+' :: cs => (false, cs)
  | cs => (false, cs)

/-- The exponent part at the end of a number text; nothing stands for zero. -/
def exponent? : List Char → Option Int
  | [] => some 0
  | c :: cs =>
    if c = 'e' || c = 'E' then
      let (negative, ds) := splitSign cs
      if ds.isEmpty || !ds.all Char.isDigit then none
      else
        let n : Int := digitsValue 0 ds
        some (if negative then -n else n)
    else none

/-- An unsigned decimal number. -/
def decimal? (cs : List Char) : Option Number :=
  let whole := cs.takeWhile Char.isDigit
  let rest := cs.dropWhile Char.isDigit
  let (places, rest) :=
    match rest with
    | '.' :: rest => (rest.takeWhile Char.isDigit, rest.dropWhile Char.isDigit)
    | _ => ([], rest)
  if whole.isEmpty && places.isEmpty then none
  else (exponent? rest).map fun e =>
    ofDecimal (digitsValue (digitsValue 0 whole) places) (e - places.length)

/-- The named numbers, in lower case. -/
def named? : List Char → Option Number
  | ['i', 'n', 'f'] => some infinity
  | ['i', 'n', 'f', 'i', 'n', 'i', 't', 'y'] => some infinity
  | ['n', 'a', 'n'] => some nan
  | _ => none

/-- Reads a whole text as a number. -/
def read? (s : String) : Option Number :=
  let (negative, cs) := splitSign s.toList
  (named? (cs.map Char.toLower) <|> decimal? cs).map fun x => if negative then -x else x

/-- The number a text stands for: blank text is zero, and a text that is no number is not a
number. -/
def ofText (s : String) : Number :=
  let s := Blank.trim s
  if s.isEmpty then 0 else (read? s).getD nan

/-- Reads a text as an index: an optional plus sign and digits below `2 ^ 64`. -/
def index? (s : String) : Option Nat :=
  let ds := match s.toList with
    | '+' :: ds => ds
    | ds => ds
  if ds.isEmpty || !ds.all Char.isDigit then none
  else
    let n := digitsValue 0 ds
    if n < Nat.pow 2 64 then some n else none

end ReactiveMarkup.Number
