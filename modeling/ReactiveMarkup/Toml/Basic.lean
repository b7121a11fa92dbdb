import ReactiveMarkup.Number.Binary
import ReactiveMarkup.Text.Keyed

/-!
# TOML documents

A document is a table. A table is written with a header, with dotted keys, or inline, or it is there
because a header names a table inside of it; only in some of these ways may it be added to later.

Main definitions: `Toml`, `Toml.define`, `Toml.openTable`, `Toml.openItem`.
-/
namespace ReactiveMarkup

/-- How a table came to be. -/
inductive TableOrigin where
  /-- written as a value; nothing may be added -/
  | inline
  | header
  /-- named on the way to another table by a header; a header of its own may follow -/
  | implied
  /-- named on the way to a value by a dotted key -/
  | dotted
  deriving DecidableEq, Repr, Inhabited

/-- TOML values. -/
inductive Toml where
  | string (value : String)
  | integer (value : Int)
  | float (value : Number)
  | boolean (value : Bool)
  | datetime (text : String)
  | array (items : List Toml)
  | table (origin : TableOrigin) (entries : List (String × Toml))
  /-- tables that each have a header of their own -/
  | tables (items : List (List (String × Toml)))
  deriving Inhabited

namespace Toml

/-- The entries of a table. -/
abbrev Entries := List (String × Toml)

/-! ## Reading entries -/

/-- The text of a string. -/
def string? : Toml → Option String
  | string s => some s
  | _ => none

/-- A truth value. -/
def boolean? : Toml → Option Bool
  | boolean b => some b
  | _ => none

/-- An integer from zero to less than `2 ^ 32`. -/
def word32? : Toml → Option Nat
  | integer (.ofNat n) => if n < Nat.pow 2 32 then some n else none
  | _ => none

/-- What stands under a key, or the usual value if nothing does; what has another form is refused. -/
def field? {α : Type} (as? : Toml → Option α) (usual : α) (key : String) (es : Entries) : Option α :=
  match es.lookup key with
  | none => some usual
  | some v => as? v

/-! ## Adding entries -/

/-- Changes the table at the end of a path, which starts in a table with the given entries. Missing
tables on the way are made. Of tables with headers of their own, the last is meant. -/
def descend (dotted : Bool) (f : TableOrigin → Entries → Option Entries) :
    (path : List String) → TableOrigin → Entries → Option Entries
  | [], origin, es => f origin es
  | key :: path, _, es =>
    match es.lookup key with
    | none => do
      let origin := if dotted then TableOrigin.dotted else .implied
      return Keyed.insert key (.table origin (← descend dotted f path origin [])) es
    | some (.table origin inner) => do
      if origin = .inline ∨ (dotted ∧ origin = .header) then none
      return Keyed.insert key (.table origin (← descend dotted f path origin inner)) es
    | some (.tables items) => do
      let last ← items.getLast?
      let last ← descend dotted f path .header last
      return Keyed.insert key (.tables (items.dropLast ++ [last])) es
    | some _ => none

/-- Splits a path into where a table is and what it is called there. -/
def splitLast? (path : List String) : Option (List String × String) :=
  path.getLast?.map fun last => (path.dropLast, last)

/-- Gives a value to a new key. A dotted key may not reach into a table that is written otherwise. -/
def define (path : List String) (value : Toml) (es : Entries) : Option Entries := do
  let (before, key) ← splitLast? path
  descend true (fun origin inner =>
    if !before.isEmpty && origin != .dotted then none
    else if (inner.lookup key).isSome then none
    else some (Keyed.insert key value inner)) before .header es

/-- Opens the table that a header names. -/
def openTable (path : List String) (es : Entries) : Option Entries := do
  let (before, key) ← splitLast? path
  descend false (fun _ inner =>
    match inner.lookup key with
    | none => some (Keyed.insert key (.table .header []) inner)
    | some (.table .implied known) => some (Keyed.insert key (.table .header known) inner)
    | some _ => none) before .header es

/-- Opens one more of the tables that a header in double brackets names. -/
def openItem (path : List String) (es : Entries) : Option Entries := do
  let (before, key) ← splitLast? path
  descend false (fun _ inner =>
    match inner.lookup key with
    | none => some (Keyed.insert key (.tables [[]]) inner)
    | some (.tables items) => some (Keyed.insert key (.tables (items ++ [[]])) inner)
    | some _ => none) before .header es

/-- Gives a value to a new key of the table that the last header named. -/
def defineIn (table path : List String) (value : Toml) (es : Entries) : Option Entries :=
  descend false (fun _ inner => define path value inner) table .header es

end Toml

end ReactiveMarkup
