import ReactiveMarkup.Number.Binary

/-!
# Decimal digits of a number

`Decimal.shortest` gives the fewest decimal digits that read back as the same double, and of those
the nearest to it; `Decimal.fixed` gives a set number of places, rounded half to even. Both compare
fractions exactly.
-/
namespace ReactiveMarkup

/-- The number `digits · 10 ^ exponent`. -/
structure Decimal where
  digits : Nat
  exponent : Int
  deriving DecidableEq, Repr, Inhabited

/-- Which neighbour is taken when two are equally near. -/
inductive Tie where
  | up
  | toEven
  deriving DecidableEq, Repr

namespace Decimal

/-- The decimal digits of a natural number. -/
def digitsOf (n : Nat) : List Char := Nat.toDigits 10 n

/-- The decimal exponent of the first digit of a positive fraction that is above `10 ^ -400`. -/
def leadingExponent (num den : Nat) : Int :=
  ((digitsOf (num * Nat.pow 10 400 / den)).length : Int) - 401

/-- The reals that round to one double: `low` and `high` over `den`, with `mid` the double itself.
The ends belong to it if `closed`. -/
structure Interval where
  low : Nat
  mid : Nat
  high : Nat
  den : Nat
  closed : Bool

/-- The rounding interval of a positive double: half a unit on either side, except that the unit
below a power of two is half as large. -/
def intervalOf (b : Binary) : Interval :=
  let up := Nat.pow 2 b.exponent.toNat
  let below := if b.mantissa = Nat.pow 2 52 && -1074 < b.exponent then 1 else 2
  { low := (4 * b.mantissa - below) * up
    mid := 4 * b.mantissa * up
    high := (4 * b.mantissa + 2) * up
    den := 4 * b.denominator
    closed := b.mantissa % 2 == 0 }

/-- The point of the grid of multiples of `10 ^ k` that lies in the interval and is nearest to its
double, if there is one. -/
def nearestOnGrid? (tie : Tie) (i : Interval) (k : Int) : Option Decimal :=
  let scale := Nat.pow 10 (-k).toNat
  let step := i.den * Nat.pow 10 k.toNat
  let mid := i.mid * scale
  let isInside (d : Nat) : Bool :=
    if i.closed then i.low * scale ≤ d * step && d * step ≤ i.high * scale
    else i.low * scale < d * step && d * step < i.high * scale
  let below := mid / step
  let above := below + 1
  match isInside below, isInside above with
  | false, false => none
  | true, false => some ⟨below, k⟩
  | false, true => some ⟨above, k⟩
  | true, true =>
    let under := mid - below * step
    let excess := above * step - mid
    if under < excess then some ⟨below, k⟩
    else if excess < under then some ⟨above, k⟩
    else match tie with
      | .up => some ⟨above, k⟩
      | .toEven => some ⟨if below % 2 = 0 then below else above, k⟩

/-- Moves a zero at the end of the digits into the exponent. -/
def dropZero (d : Decimal) : Decimal :=
  if d.digits % 10 = 0 then ⟨d.digits / 10, d.exponent + 1⟩ else d

/-- The fewest digits of a positive double that read back, nearest first. Seventeen always do. A
zero ends them only where nine was rounded up to ten. -/
def shortest (tie : Tie) (b : Binary) : Decimal :=
  let interval := intervalOf b
  let lead := leadingExponent b.numerator b.denominator
  let grids := (List.range 17).map fun (n : Nat) => lead - (n : Int)
  ((grids.findSome? (nearestOnGrid? tie interval)).getD ⟨b.whole, 0⟩).dropZero

/-- Rounds a fraction to the nearest natural number, a half to the even neighbour. -/
def roundHalfEven (num den : Nat) : Nat :=
  let below := num / den
  let twice := 2 * (num % den)
  if twice < den then below
  else if den < twice then below + 1
  else if below % 2 = 0 then below else below + 1

/-- Inserts a point before the last `places` digits, with a zero where no digit stands before it. -/
def withPoint (places : Nat) (digits : List Char) : List Char :=
  if places = 0 then digits
  else
    let digits := List.replicate (places + 1 - digits.length) '0' ++ digits
    let split := digits.length - places
    digits.take split ++ '.' :: digits.drop split

/-- The absolute value of a finite number with a set number of places. -/
def fixed (places : Nat) (b : Binary) : List Char :=
  withPoint places (digitsOf (roundHalfEven (b.numerator * Nat.pow 10 places) b.denominator))

/-- Positional text without an exponent. -/
def positional (d : Decimal) : List Char :=
  if d.exponent ≥ 0 then digitsOf d.digits ++ List.replicate d.exponent.toNat '0'
  else withPoint (-d.exponent).toNat (digitsOf d.digits)

end Decimal

end ReactiveMarkup
