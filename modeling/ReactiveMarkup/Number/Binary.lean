/-!
# Double precision numbers taken apart

A finite double is a sign, a natural mantissa and a power of two. Rounding, remainders and decimal
texts are computed exactly on these three parts and put together again.
-/
namespace ReactiveMarkup

/-- The number values of the expression language. -/
abbrev Number := Float

/-- The finite number `mantissa · 2 ^ exponent`, negated if `negative`. -/
structure Binary where
  negative : Bool
  mantissa : Nat
  exponent : Int
  deriving DecidableEq, Repr, Inhabited

namespace Binary

/-- The mantissa times the positive part of the power of two. -/
def numerator (b : Binary) : Nat := b.mantissa * Nat.pow 2 b.exponent.toNat

/-- What divides `numerator`: the negative part of the power of two. -/
def denominator (b : Binary) : Nat := Nat.pow 2 (-b.exponent).toNat

/-- The integer part of the absolute value. -/
def whole (b : Binary) : Nat := b.numerator / b.denominator

/-- Whether nothing stands after the binary point. -/
def isWhole (b : Binary) : Bool := b.numerator % b.denominator == 0

/-- The double with these parts. The number has to be one that a double can hold: the mantissa is
shifted to 53 bits, or to the least exponent if that comes first. -/
def toNumber (b : Binary) : Number :=
  let signBit := if b.negative then Nat.pow 2 63 else 0
  if b.mantissa = 0 then Float.ofBits (UInt64.ofNat signBit)
  else
    let top := b.exponent + b.mantissa.log2 - 52
    let unit := max top (-1074)
    let shift := b.exponent - unit
    let mantissa := b.mantissa * Nat.pow 2 shift.toNat / Nat.pow 2 (-shift).toNat
    Float.ofBits (UInt64.ofNat (signBit + (unit + 1074).toNat * Nat.pow 2 52 + mantissa))

end Binary

namespace Number

/-- The parts of a finite number; `none` for the infinities and for what is not a number. -/
def binary? (x : Number) : Option Binary :=
  let bits := x.toBits.toNat
  let biased : Nat := bits / Nat.pow 2 52 % 2048
  let fraction : Nat := bits % Nat.pow 2 52
  let negative := bits / Nat.pow 2 63 == 1
  if biased = 2047 then none
  else if biased = 0 then some ⟨negative, fraction, -1074⟩
  else some ⟨negative, Nat.pow 2 52 + fraction, (biased : Int) - 1075⟩

/-- The sign bit, which zero has too. -/
def signBit (x : Number) : Bool := x.toBits.toNat / Nat.pow 2 63 == 1

/-- Positive infinity. -/
def infinity : Number := 1.0 / 0.0

/-- Not a number. -/
def nan : Number := 0.0 / 0.0

end Number

end ReactiveMarkup
