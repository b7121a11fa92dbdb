import ReactiveMarkup.Json.Print
import ReactiveMarkup.Json.Read
import ReactiveMarkup.Value.Basic

/-!
# Values and JSON documents

In an object, undefined values and functions are left out; elsewhere they become null, as do numbers
that are not finite. An integer below `2 ^ 53` becomes a JSON integer, any other number a double.
-/
namespace ReactiveMarkup

namespace Value

/-- Whether an entry with this value is left out of a JSON object. -/
def isOmitted : Value → Bool
  | undefined | function .. => true
  | _ => false

/-- The document of a number. -/
def numberJson (x : Number) : Json :=
  if x.isWhole && x.abs < 9007199254740992.0 then .int x.toInt
  else if x.isFinite then .float x
  else .null

mutual

/-- The document of a value. -/
def toJson : Value → Json
  | undefined | null | function .. => .null
  | bool b => .bool b
  | number x => numberJson x
  | string s => .string s
  | array _ items => .array (itemsJson items)
  | object _ entries => .object (entriesJson entries)

/-- The documents of items. -/
def itemsJson : List Value → List Json
  | [] => []
  | v :: vs => v.toJson :: itemsJson vs

/-- The members of an object's entries. -/
def entriesJson : List (String × Value) → List (String × Json)
  | [] => []
  | (key, v) :: rest =>
    if v.isOmitted then entriesJson rest else (key, v.toJson) :: entriesJson rest

end

mutual

/-- The value of a document, with stamps from `next` on, and the next free stamp. -/
def ofJson (next : Stamp) : Json → Value × Stamp
  | .null => (null, next)
  | .bool b => (bool b, next)
  | .int n => (number (Number.ofInt n), next)
  | .float x => (number x, next)
  | .string s => (string s, next)
  | .array js =>
    let (items, free) := ofJsonItems (next + 1) js
    (array next items, free)
  | .object ms =>
    let (entries, free) := ofJsonMembers (next + 1) ms
    (object next entries, free)

/-- The values of documents in order. -/
def ofJsonItems (next : Stamp) : List Json → List Value × Stamp
  | [] => ([], next)
  | j :: js =>
    let (v, next) := ofJson next j
    let (vs, next) := ofJsonItems next js
    (v :: vs, next)

/-- The entries of members in order. -/
def ofJsonMembers (next : Stamp) : List (String × Json) → List (String × Value) × Stamp
  | [] => ([], next)
  | (key, j) :: ms =>
    let (v, next) := ofJson next j
    let (vs, next) := ofJsonMembers next ms
    ((key, v) :: vs, next)

end

end Value

end ReactiveMarkup
