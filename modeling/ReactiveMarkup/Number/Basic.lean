import ReactiveMarkup.Number.Decimal
import ReactiveMarkup.Number.Reading

/-!
# Numbers of the expression language

Arithmetic beyond the four operations, conversion to integers and indices, and the text of a number.
-/
namespace ReactiveMarkup.Number

/-- A natural number as a number. -/
def ofNat (n : Nat) : Number := Float.ofNat n

/-- Positive or negative zero. -/
def isZero (x : Number) : Bool := x == 0.0

/-- Whether the number is finite and has no fractional part. -/
def isWhole (x : Number) : Bool :=
  match binary? x with
  | some b => b.isWhole
  | none => false

/-- Rounds a finite number to a neighbouring integer: toward zero, and one further from it if the
number has a fraction and `away` says so of its sign. -/
def roundBy (away : Bool → Bool) (x : Number) : Number :=
  match binary? x with
  | none => x
  | some b =>
    if b.isWhole then x
    else
      let n := if away b.negative then b.whole + 1 else b.whole
      Binary.toNumber ⟨b.negative, n, 0⟩

/-- The integer part, with the sign kept. -/
def truncate (x : Number) : Number := roundBy (fun _ => false) x

/-- The largest integer that is not above. -/
def floor (x : Number) : Number := roundBy (fun negative => negative) x

/-- The smallest integer that is not below. -/
def ceil (x : Number) : Number := roundBy (fun negative => !negative) x

/-- The nearest integer, a half going up. -/
def round (x : Number) : Number := floor (x + 0.5)

/-- The exact remainder of the division that truncates; it has the sign of the dividend. -/
def remainder (x y : Number) : Number :=
  match binary? x, binary? y with
  | none, _ => nan
  | some a, some b =>
    if b.mantissa = 0 then nan
    else
      let unit := min a.exponent b.exponent
      let r := (a.mantissa * Nat.pow 2 (a.exponent - unit).toNat) %
        (b.mantissa * Nat.pow 2 (b.exponent - unit).toNat)
      Binary.toNumber ⟨a.negative, r, unit⟩
  | some _, none => if y.isNaN then nan else x

/-- The integer part as an index of 64 bits: what is not positive, or not a number, is zero. -/
def toIndex (x : Number) : Nat :=
  match binary? x with
  | some b => if b.negative then 0 else min b.whole (Nat.pow 2 64 - 1)
  | none => if x.isNaN || signBit x then 0 else Nat.pow 2 64 - 1

/-- The integer part as a signed integer of 64 bits, clamped at both ends. -/
def toInt (x : Number) : Int :=
  match binary? x with
  | some b =>
    if b.negative then max (-(b.whole : Int)) (-Int.pow 2 63) else min (b.whole : Int) (Int.pow 2 63 - 1)
  | none => if x.isNaN then 0 else if signBit x then -Int.pow 2 63 else Int.pow 2 63 - 1

/-- The larger of two numbers; what is not a number wins. -/
def maximum (x y : Number) : Number :=
  if x.isNaN || y.isNaN then nan else if x < y then y else x

/-- The smaller of two numbers; what is not a number wins. -/
def minimum (x y : Number) : Number :=
  if x.isNaN || y.isNaN then nan else if y < x then y else x

/-- The order of two numbers; what is not a number has none. -/
def compare? (x y : Number) : Option Ordering :=
  if x < y then some .lt
  else if y < x then some .gt
  else if x == y then some .eq
  else none

/-- Prepends a minus sign. -/
def signed (negative : Bool) (cs : List Char) : String :=
  String.ofList (if negative then '-' :: cs else cs)

/-- The text of what is not finite. -/
def nonFiniteText (x : Number) : String :=
  if x.isNaN then "NaN" else if signBit x then "-Infinity" else "Infinity"

/-- The text of a number: an integer below `10 ^ 18` in full, and so without the sign of zero, any
other number in the fewest digits that read back, without an exponent. -/
def toText (x : Number) : String :=
  match binary? x with
  | none => nonFiniteText x
  | some b =>
    if b.isWhole && b.whole < Nat.pow 10 18 then
      signed (b.negative && b.mantissa != 0) (Decimal.digitsOf b.whole)
    else signed b.negative (Decimal.shortest .up b).positional

/-- The text of a number with a set number of places. -/
def toFixed (places : Nat) (x : Number) : String :=
  match binary? x with
  | none => if x.isNaN then "NaN" else if signBit x then "-inf" else "inf"
  | some b => signed b.negative (Decimal.fixed places b)

end ReactiveMarkup.Number
