import ReactiveMarkup.Number.Basic
import ReactiveMarkup.Text.Keyed

/-!
# JSON documents

A JSON number is kept as an integer or as a double, since the two are written in different ways. The
members of an object are in key order.
-/
namespace ReactiveMarkup

/-- JSON documents. -/
inductive Json where
  | null
  | bool (value : Bool)
  | int (value : Int)
  | float (value : Number)
  | string (value : String)
  | array (items : List Json)
  | object (members : List (String × Json))
  deriving Inhabited

namespace Number

/-- An integer as a number. -/
def ofInt (n : Int) : Number :=
  if n < 0 then -(ofNat n.natAbs) else ofNat n.natAbs

end Number

end ReactiveMarkup
