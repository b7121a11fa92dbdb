import ReactiveMarkup.Number.Reading
import ReactiveMarkup.Toml.Basic

/-!
# Numbers, dates and truth values in TOML

A scalar is read as a whole: its text is one of these or an error. Digits may have single low lines
between them, and a decimal number has no needless zeros in front.

Main definition: `Toml.scalar?`.
-/
namespace ReactiveMarkup.Toml

/-- Whether a character is a hexadecimal digit. -/
def isHexDigit (c : Char) : Bool := c.isDigit || ('a' ≤ c && c ≤ 'f') || ('A' ≤ c && c ≤ 'F')

/-- The value of a hexadecimal digit. -/
def hexValue (c : Char) : Nat :=
  if c.isDigit then c.toNat - '0'.toNat else (c.toLower.toNat - 'a'.toNat) + 10

/-- Digits without the single low lines between them. -/
def digits? (isDigit : Char → Bool) : List Char → Option (List Char)
  | [] => none
  | [c] => if isDigit c then some [c] else none
  | c :: '_' :: cs => if isDigit c then (digits? isDigit cs).map (c :: ·) else none
  | c :: cs => if isDigit c then (digits? isDigit cs).map (c :: ·) else none

/-- The number that digits write to a base. -/
def ofDigits (base : Nat) (ds : List Char) : Nat :=
  ds.foldl (fun n d => base * n + hexValue d) 0

/-- Decimal digits without needless zeros in front. -/
def decimal? (cs : List Char) : Option (List Char) := do
  let ds ← digits? Char.isDigit cs
  if ds.length > 1 ∧ ds.head? = some '0' then none else some ds

/-- An integer as far as 128 bits hold it. -/
def integerValue? (n : Int) : Option Toml :=
  if -Int.pow 2 127 ≤ n ∧ n < Int.pow 2 128 then some (.integer n) else none

/-- Integers. -/
def integer? (cs : List Char) : Option Toml :=
  match cs with
  | '0' :: 'x' :: ds => do integerValue? (ofDigits 16 (← digits? isHexDigit ds))
  | '0' :: 'o' :: ds => do
    integerValue? (ofDigits 8 (← digits? (fun c => c.isDigit && c < '8') ds))
  | '0' :: 'b' :: ds => do integerValue? (ofDigits 2 (← digits? (fun c => c = '0' || c = '1') ds))
  | cs => do
    let (negative, ds) := Number.splitSign cs
    let n : Int := ofDigits 10 (← decimal? ds)
    integerValue? (if negative then -n else n)

/-- The digits of a float: an integer, then a fraction or an exponent or both. -/
def floatDigits? (cs : List Char) : Option (List Char) := do
  let whole := cs.takeWhile fun c => c.isDigit || c = '_'
  let rest := cs.drop whole.length
  let whole ← decimal? whole
  let (fraction, rest) ← match rest with
    | '.' :: rest => do
      let part := rest.takeWhile fun c => c.isDigit || c = '_'
      pure ('.' :: (← digits? Char.isDigit part), rest.drop part.length)
    | rest => pure ([], rest)
  let exponent ← match rest with
    | [] => if fraction.isEmpty then none else some []
    | c :: rest =>
      if c = 'e' ∨ c = 'E' then do
        let (negative, ds) := Number.splitSign rest
        pure ('e' :: (if negative then ['-'] else []) ++ (← digits? Char.isDigit ds))
      else none
  return whole ++ fraction ++ exponent

/-- Floats. -/
def float? (cs : List Char) : Option Toml := do
  let (negative, ds) := Number.splitSign cs
  let x ←
    if ds = "inf".toList then pure Number.infinity
    else if ds = "nan".toList then pure Number.nan
    else do
      let x ← Number.read? (String.ofList (← floatDigits? ds))
      if x == Number.infinity then none else some x
  return .float (if negative then -x else x)

/-- A number of exactly so many decimal digits, and what follows. -/
def fixedNumber? (count : Nat) (cs : List Char) : Option (Nat × List Char) :=
  let ds := cs.take count
  if ds.length = count ∧ ds.all Char.isDigit then some (ofDigits 10 ds, cs.drop count) else none

/-- The last day of a month. -/
def lastDay (year month : Nat) : Nat :=
  if month = 2 then
    if year % 4 = 0 ∧ (year % 100 ≠ 0 ∨ year % 400 = 0) then 29 else 28
  else if month ∈ [4, 6, 9, 11] then 30
  else 31

/-- What follows a date. -/
def afterDate? (cs : List Char) : Option (List Char) := do
  let (year, cs) ← fixedNumber? 4 cs
  let '-' :: cs := cs | none
  let (month, cs) ← fixedNumber? 2 cs
  let '-' :: cs := cs | none
  let (day, cs) ← fixedNumber? 2 cs
  if 1 ≤ month ∧ month ≤ 12 ∧ 1 ≤ day ∧ day ≤ lastDay year month then some cs else none

/-- What follows hours and minutes. -/
def afterMinutes? (cs : List Char) : Option (List Char) := do
  let (hour, cs) ← fixedNumber? 2 cs
  let ':' :: cs := cs | none
  let (minute, cs) ← fixedNumber? 2 cs
  if hour ≤ 23 ∧ minute ≤ 59 then some cs else none

/-- What follows a time, whose seconds may be missing. -/
def afterTime? (cs : List Char) : Option (List Char) := do
  let cs ← afterMinutes? cs
  match cs with
  | ':' :: cs =>
    let (second, cs) ← fixedNumber? 2 cs
    if second > 60 then none
    else
      match cs with
      | '.' :: cs =>
        let rest := cs.dropWhile Char.isDigit
        if rest.length < cs.length then some rest else none
      | cs => some cs
  | cs => some cs

/-- Whether a text is the end of a time, with or without an offset. -/
def endsTime (cs : List Char) : Bool :=
  match cs with
  | [] | ['Z'] | ['z'] => true
  | '+' :: cs | '-' :: cs => afterMinutes? cs == some []
  | _ => false

/-- Dates, times, and both. -/
def datetime? (cs : List Char) : Option Toml :=
  let ok := match afterDate? cs with
    | some [] => true
    | some (c :: time) =>
      (c == 'T' || c == 't' || c == ' ') && ((afterTime? time).map endsTime).getD false
    | none => afterTime? cs == some []
  if ok then some (.datetime (String.ofList cs)) else none

/-- The value that a text writes, other than a string, an array or a table. -/
def scalar? (cs : List Char) : Option Toml :=
  if cs = "true".toList then some (.boolean true)
  else if cs = "false".toList then some (.boolean false)
  else ((integer? cs).or (float? cs)).or (datetime? cs)

end ReactiveMarkup.Toml
