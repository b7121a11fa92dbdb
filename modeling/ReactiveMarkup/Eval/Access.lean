import ReactiveMarkup.Eval.Error
import ReactiveMarkup.Value.Basic

/-!
# Reading and replacing parts of values

`Value.index` reads the part of a container under a key and `Value.withKey` builds the container
with another part under it. `Value.updateAt` follows a chain of keys, changes the part at its end,
and rebuilds the containers around it.
-/
namespace ReactiveMarkup.Value

/-- The value that has no properties, as an error about reading `name`. -/
def nullishError (v : Value) (name : String) : EvalError :=
  .propertyOfNullish (match v with | null => .null | _ => .undefined) name

/-- The property `name` of a value. Arrays and strings have a length and their items under numbers
from zero; what is missing is undefined. -/
def property (v : Value) (name : String) : Except EvalError Value :=
  match v with
  | undefined | null => .error (nullishError v name)
  | array _ items =>
    if name = "length" then .ok (ofNat items.length)
    else .ok (((Number.index? name).bind fun i => items[i]?).getD undefined)
  | string s =>
    if name = "length" then .ok (ofNat s.toList.length)
    else
      match (Number.index? name).bind fun i => s.toList[i]? with
      | some c => .ok (string (String.singleton c))
      | none => .ok undefined
  | object _ entries => .ok ((entries.lookup name).getD undefined)
  | bool _ | number _ | function .. => .ok undefined

/-- A key that is a natural number. -/
def arrayIndex? : Value → Option Nat
  | number n => if n.isWhole && 0.0 ≤ n then some n.toIndex else none
  | _ => none

/-- The part of a value under a key. -/
def index (v key : Value) : Except EvalError Value :=
  match v, arrayIndex? key with
  | array _ items, some i => .ok ((items[i]?).getD undefined)
  | _, _ => property v key.toText

/-- Items with place `i` replaced; places that were missing are undefined. The items are grown in one
block. -/
def setItem (items : List Value) (i : Nat) (item : Value) : List Value :=
  (items ++ (Array.replicate (i + 1 - items.length) undefined).toList).set i item

theorem setItem_eq (items : List Value) (i : Nat) (item : Value) :
    setItem items i item =
      (items ++ List.replicate (i + 1 - items.length) undefined).set i item := by
  rw [setItem, Array.toList_replicate]

/-- How many items an array has room for: the block that they stand in has `2 ^ 63 - 1` bytes at most,
and each of them takes 24. -/
def maxItems : Nat := (Nat.pow 2 63 - 1) / 24

/-- The container with `item` under `key`, stamped `stamp` if it is a new one. An array ignores a
key that is no index, and what is no container is left as it is. The program stops where an array
grows beyond its room, at the latest place of a machine word as well, which has no next one; what is
told here is only that there is no array. -/
def withKey (stamp : Stamp) (container key item : Value) : Except EvalError Value :=
  match container with
  | undefined | null => .error (nullishError container key.toText)
  | object _ entries => .ok (object stamp (Keyed.insert key.toText item entries))
  | array old items =>
    match (arrayIndex? key).orElse fun _ => Number.index? key.toText with
    | some i =>
      let grown := setItem items i item
      if grown.length ≤ maxItems then .ok (array stamp grown) else .error .invalidAssignment
    | none => .ok (array old items)
  | other => .ok other

/-- Changes the part of `root` under a chain of keys by `f`: the new root, the part as it was put
in place, and the next free stamp. -/
def updateAt (f : Value → Value) (next : Stamp) (root : Value) :
    List Value → Except EvalError (Value × Value × Stamp)
  | [] => .ok (f root, f root, next)
  | key :: keys => do
    let current ← index root key
    let (part, stored, next) ← updateAt f next current keys
    let root ← withKey next root key part
    return (root, stored, next + 1)

end ReactiveMarkup.Value
