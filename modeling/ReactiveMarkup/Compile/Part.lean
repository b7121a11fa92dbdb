import ReactiveMarkup.Document.Markers
import ReactiveMarkup.Text.Search
import ReactiveMarkup.Text.Utf8

/-!
# Texts with embedded expressions

A text is split into literal runs and the code between `[[` and `]]`. Brackets within the code are
paired, and quoted brackets do not count, before a `]]` ends it.

Main definitions: `Part`, `Part.split?` and its inverse `Part.joined`.
-/
namespace ReactiveMarkup

/-- A part of a text. -/
inductive Part where
  | text (text : String)
  /-- the code of an expression and where it starts, in bytes -/
  | code (code : String) (offset : Nat)
  deriving DecidableEq, Repr, Inhabited

namespace Part

/-- Whether a part is an expression. -/
def isCode : Part → Bool
  | code .. => true
  | text _ => false

/-- The text that the part is written as. -/
def toText : Part → String
  | text s => s
  | code s _ => String.ofList Marker.opening ++ s ++ String.ofList Marker.closing

/-- The text that parts are written as. -/
def joined (ps : List Part) : String := String.join (ps.map toText)

/-- Splits off the code before the `]]` that ends it, and what follows; none if it does not end.
`depth` brackets are open, and a text that `quote` ends, if there is one. -/
def splitCode? : (depth : Nat) → (quote : Option Char) → List Char → Option (List Char × List Char)
  | _, _, [] => none
  | depth, some q, c :: cs =>
    if c = '\\' then
      match cs with
      | [] => none
      | d :: ds => (splitCode? depth (some q) ds).map fun (read, rest) => (c :: d :: read, rest)
    else
      (splitCode? depth (if c = q then none else some q) cs).map fun (read, rest) => (c :: read, rest)
  | depth, none, c :: cs =>
    if c = ']' ∧ depth = 0 ∧ cs.head? = some ']' then some ([], cs.tail)
    else
      let quote := if c = '\'' ∨ c = '"' then some c else none
      let depth := if c = '[' then depth + 1 else if c = ']' then depth - 1 else depth
      (splitCode? depth quote cs).map fun (read, rest) => (c :: read, rest)

theorem splitCode?_length {depth : Nat} {quote : Option Char} {cs inner rest : List Char}
    (h : splitCode? depth quote cs = some (inner, rest)) : rest.length < cs.length := by
  fun_induction splitCode? depth quote cs generalizing inner rest <;>
    grind [List.length_cons, List.length_tail, Option.map_eq_some_iff]

/-- A literal run, unless it is empty. -/
def run (cs : List Char) : List Part := if cs.isEmpty then [] else [text (String.ofList cs)]

/-- The parts of what follows the first `offset` bytes of a text. -/
def splitFrom? (offset : Nat) (cs : List Char) : Option (List Part) :=
  match found : Search.cut? Marker.opening cs with
  | none => some (run cs)
  | some (before, after) =>
    have := Search.cut?_length found
    match ended : splitCode? 0 none after with
    | none => none
    | some (inner, rest) =>
      have := splitCode?_length ended
      let start := offset + Utf8.size before + Utf8.size Marker.opening
      (splitFrom? (start + Utf8.size inner + Utf8.size Marker.closing) rest).map fun parts =>
        run before ++ .code (String.ofList inner) start :: parts
termination_by cs.length
decreasing_by omega

/-- The parts of a text; none if an expression does not end. -/
def split? (s : String) : Option (List Part) := splitFrom? 0 s.toList

end Part

end ReactiveMarkup
