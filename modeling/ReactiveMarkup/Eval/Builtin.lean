import ReactiveMarkup.Eval.Access
import ReactiveMarkup.Eval.Operators
import ReactiveMarkup.Text.Blank
import ReactiveMarkup.Text.Casing
import ReactiveMarkup.Text.Search
import ReactiveMarkup.Value.Json

/-!
# Functions and methods that the host provides

`Builtin.functions` are called by their full name, `Builtin.methods` on a receiver. A result that is
a new container is stamped from the next free stamp, which comes in and goes out.
-/
namespace ReactiveMarkup.Builtin

/-- How many arguments a function takes, at least and at most. -/
structure Arity where
  least : Nat
  most : Nat

/-- The largest number of arguments that is told apart. -/
def manyArgs : Nat := 255

/-- A value and the next free stamp, or an error. -/
abbrev Outcome := Except EvalError (Value × Stamp)

/-- A host function. -/
structure Function where
  arity : Arity
  apply : Stamp → List Value → Outcome

/-- A host method: `none` means that the receiver has no such method. -/
abbrev Method := Stamp → Value → List Value → Option Outcome

/-- The argument at a place, undefined if it is missing. -/
def arg (args : List Value) (i : Nat) : Value := args.getD i .undefined

/-- A result that is no new container. -/
def plain (next : Stamp) (v : Value) : Outcome := .ok (v, next)

/-- A new array. -/
def fresh (next : Stamp) (items : List Value) : Outcome := .ok (.array next items, next + 1)

/-! ## Functions -/

/-- A function of one number. -/
def math (f : Number → Number) : Function :=
  ⟨⟨1, 1⟩, fun next args => plain next (.number (f (arg args 0).toNumber))⟩

/-- A function that combines any number of numbers. -/
def mathFold (f : Number → Number → Number) (start : Number) : Function :=
  ⟨⟨0, manyArgs⟩, fun next args =>
    plain next (.number (args.foldl (fun acc v => f acc v.toNumber) start))⟩

/-- Conversion to a text; nothing is the empty text. -/
def toStringFunction : Function :=
  ⟨⟨0, 1⟩, fun next args => plain next (.string ((args.head?.map Value.toText).getD ""))⟩

/-- Conversion to a number; nothing is zero. -/
def toNumberFunction : Function :=
  ⟨⟨0, 1⟩, fun next args => plain next (.number ((args.head?.map Value.toNumber).getD 0))⟩

/-- Conversion to a truth value. -/
def toBooleanFunction : Function :=
  ⟨⟨0, 1⟩, fun next args => plain next (.bool (arg args 0).truthy)⟩

/-- The JSON text of a value; undefined and functions have none. -/
def stringify : Function :=
  ⟨⟨1, 3⟩, fun next args =>
    let v := arg args 0
    plain next (if v.isOmitted then .undefined else .string v.toJson.toText)⟩

/-- The value of a JSON text. -/
def parseJson : Function :=
  ⟨⟨1, 1⟩, fun next args =>
    match Json.read (arg args 0).toText with
    | .ok j => .ok (Value.ofJson next j)
    | .error e => .error (.invalidJson e)⟩

/-- Whether a value is an array. -/
def isArrayFunction : Function :=
  ⟨⟨1, 1⟩, fun next args => plain next (.bool (arg args 0).isArray)⟩

/-- The keys of an object, or the places of an array. -/
def keys : Function :=
  ⟨⟨1, 1⟩, fun next args =>
    match arg args 0 with
    | .object _ entries => fresh next (entries.map fun e => .string e.1)
    | .array _ items => fresh next ((List.range items.length).map fun i => .string (toString i))
    | .undefined | .null => .error .nullishToObject
    | _ => fresh next []⟩

/-- Evaluates its arguments and is undefined. -/
def log : Function := ⟨⟨0, manyArgs⟩, fun next _ => plain next .undefined⟩

/-- Host functions by their full name. -/
def functions : List (String × Function) :=
  [("Math.min", mathFold Number.minimum Number.infinity),
   ("Math.max", mathFold Number.maximum (-Number.infinity)),
   ("Math.floor", math Number.floor),
   ("Math.ceil", math Number.ceil),
   ("Math.round", math Number.round),
   ("Math.abs", math Float.abs),
   ("String", toStringFunction),
   ("Number", toNumberFunction),
   ("Boolean", toBooleanFunction),
   ("JSON.stringify", stringify),
   ("JSON.parse", parseJson),
   ("Array.isArray", isArrayFunction),
   ("Object.keys", keys),
   ("console.log", log)]

/-- Calls a host function by its full name. -/
def callFunction (name : String) (next : Stamp) (args : List Value) : Outcome :=
  match functions.lookup name with
  | none => .error (.notCallable name)
  | some f =>
    let got := min args.length manyArgs
    if f.arity.least ≤ got && got ≤ f.arity.most then f.apply next args
    else .error (.wrongArity name f.arity.least got)

/-- The ratio of a circle's circumference to its diameter. -/
def pi : Number := 3.141592653589793

/-- The base of natural logarithms. -/
def euler : Number := 2.718281828459045

/-- A property of a host object; what is missing is undefined. -/
def globalProperty (global name : String) : Value :=
  if global = "Math" && name = "PI" then .number pi
  else if global = "Math" && name = "E" then .number euler
  else .undefined

/-! ## Methods -/

/-- A method of strings that makes no container. -/
def onText (f : List Char → List Value → Value) : Method := fun next receiver args =>
  match receiver with
  | .string s => some (plain next (f s.toList args))
  | _ => none

/-- The characters of a value's text. -/
def chars (v : Value) : List Char := v.toText.toList

/-- A string value of characters. -/
def text (cs : List Char) : Value := .string (String.ofList cs)

/-- The text of any value. -/
def toStringMethod : Method := fun next receiver _ => some (plain next (.string receiver.toText))

/-- The texts of items with a separator, a comma by default. -/
def join : Method := fun next receiver args =>
  match receiver with
  | .array _ items =>
    let separator := match arg args 0 with
      | .undefined => ","
      | v => v.toText
    some (plain next (.string (separator.intercalate (Value.itemTexts items))))
  | _ => none

/-- A place counted from the front, or from the end if it is negative; at most `length`. -/
def relativeIndex (v : Value) (length default : Nat) : Nat :=
  match v with
  | .undefined => default
  | v =>
    let n := v.toNumber.truncate
    if n < 0 then (Number.ofNat length + n).toIndex else min n.toIndex length

/-- The places from a first to before a last, both relative. -/
def slicePart {α : Type} (args : List Value) (items : List α) : List α :=
  let first := relativeIndex (arg args 0) items.length 0
  let last := relativeIndex (arg args 1) items.length items.length
  (items.drop first).take (last - first)

/-- A part of an array or a string. -/
def slice : Method := fun next receiver args =>
  match receiver with
  | .array _ items => some (fresh next (slicePart args items))
  | .string s => some (plain next (text (slicePart args s.toList)))
  | _ => none

/-- What an argument adds to the end of an array. -/
def appended : Value → List Value
  | .array _ items => items
  | v => [v]

/-- An array or a string with more at its end. -/
def concat : Method := fun next receiver args =>
  match receiver with
  | .array _ items => some (fresh next (items ++ args.flatMap appended))
  | .string s => some (plain next (.string (s ++ String.join (args.map Value.toText))))
  | _ => none

/-- Whether an array has an item, or a string a part. -/
def includes : Method := fun next receiver args =>
  match receiver with
  | .array _ items => some (plain next (.bool (items.any (Value.sameOrNaN · (arg args 0)))))
  | .string s => some (plain next (.bool (Search.occurs (chars (arg args 0)) s.toList)))
  | _ => none

/-- A place as a value, with minus one for none. -/
def placeValue : Option Nat → Value
  | some i => .ofNat i
  | none => .number (-1)

/-- The place of an item in an array, or of a part in a string. -/
def indexOf : Method := fun next receiver args =>
  match receiver with
  | .array _ items => some (plain next (placeValue (items.findIdx? (Value.strictEq · (arg args 0)))))
  | .string s => some (plain next (placeValue (Search.index? (chars (arg args 0)) s.toList)))
  | _ => none

/-- The items in opposite order. -/
def reverse : Method := fun next receiver _ =>
  match receiver with
  | .array _ items => some (fresh next items.reverse)
  | _ => none

/-- The parts of a string between the occurrences of a separator: without one the string itself, and
with an empty one its characters. -/
def splitParts (args : List Value) (cs : List Char) : List (List Char) :=
  match arg args 0 with
  | .undefined => [cs]
  | separator =>
    match chars separator with
    | [] => cs.map ([·])
    | needle => Search.splitBy needle cs

/-- The parts of a string as an array. -/
def split : Method := fun next receiver args =>
  match receiver with
  | .string s => some (fresh next ((splitParts args s.toList).map text))
  | _ => none

/-- A number with a set number of places, a hundred at most. -/
def toFixed : Method := fun next receiver args =>
  match receiver with
  | .number n => some (plain next (.string (n.toFixed (min (arg args 0).toNumber.toIndex 100))))
  | _ => none

/-- Host methods by name. -/
def methods : List (String × Method) :=
  [("toString", toStringMethod),
   ("join", join),
   ("slice", slice),
   ("concat", concat),
   ("includes", includes),
   ("indexOf", indexOf),
   ("reverse", reverse),
   ("toUpperCase", onText fun cs _ => .string (Casing.upper (String.ofList cs))),
   ("toLowerCase", onText fun cs _ => .string (Casing.lower (String.ofList cs))),
   ("trim", onText fun cs _ => text (Blank.trimBy Blank.isBlank cs)),
   ("startsWith", onText fun cs args => .bool (Search.startsWith (chars (arg args 0)) cs)),
   ("endsWith", onText fun cs args => .bool (Search.endsWith (chars (arg args 0)) cs)),
   ("split", split),
   ("replace", onText fun cs args =>
     text (Search.replaceFirst (chars (arg args 0)) (chars (arg args 1)) cs)),
   ("toFixed", toFixed)]

/-- Calls a host method. -/
def callMethod (name : String) (next : Stamp) (receiver : Value) (args : List Value) : Outcome :=
  ((methods.lookup name).bind fun m => m next receiver args).getD (.error (.notCallable name))

end ReactiveMarkup.Builtin
