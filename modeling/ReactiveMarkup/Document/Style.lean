import ReactiveMarkup.Text.Blank
import ReactiveMarkup.Text.Search

/-!
# The formats of class and style attributes

A class list is words with blanks between them, each written once. A style text is declarations
`name: value` with semicolons between them; of two with one name the later value counts, at the
place of the earlier.
-/
namespace ReactiveMarkup

namespace ClassList

/-- The words of a class attribute. -/
def parse (s : String) : List String := Blank.words s

/-- Items without later repetitions; `seen` are those before. -/
def uniqueAfter (seen : List String) : List String → List String
  | [] => []
  | x :: xs => if seen.contains x then uniqueAfter seen xs else x :: uniqueAfter (x :: seen) xs

/-- The text of a class attribute. -/
def format (classes : List String) : String := " ".intercalate (uniqueAfter [] classes)

end ClassList

/-- Style declarations, in order. -/
abbrev Declarations := List (String × String)

namespace Declarations

/-- Sets a property where it stands, or at the end. -/
def set (name value : String) : Declarations → Declarations
  | [] => [(name, value)]
  | (n, v) :: ds => if n = name then (n, value) :: ds else (n, v) :: set name value ds

/-- Removes a property. -/
def unset (name : String) (ds : Declarations) : Declarations := ds.filter fun d => d.1 != name

/-- One declaration, trimmed; without a colon or a name it is none. -/
def declaration? (cs : List Char) : Option (String × String) :=
  match Search.cut? [':'] cs with
  | none => none
  | some (name, value) =>
    let name := Blank.trimBy Blank.isBlank name
    if name.isEmpty then none
    else some (String.ofList name, String.ofList (Blank.trimBy Blank.isBlank value))

/-- The declarations of a style attribute. -/
def parse (s : String) : Declarations :=
  ((Search.splitBy [';'] s.toList).filterMap declaration?).foldl (fun ds d => set d.1 d.2 ds) []

/-- The text of a style attribute. -/
def format (ds : Declarations) : String := "; ".intercalate (ds.map fun d => d.1 ++ ": " ++ d.2)

end Declarations

end ReactiveMarkup
