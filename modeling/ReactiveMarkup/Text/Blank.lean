import ReactiveMarkup.Text.CharSet

/-!
# Blank characters

Three sets of blanks are in use: what separates tokens and what separates the words of a class
list are ASCII, while text around a number or a style declaration is trimmed by the Unicode
property White_Space.
-/
namespace ReactiveMarkup

/-- The characters with the Unicode property White_Space. -/
def CharSet.whiteSpace : CharSet :=
  ⟨[(9, 0xd), (0x20, 0x20), (0x85, 0x85), (0xa0, 0xa0), (0x1680, 0x1680), (0x2000, 0x200a),
    (0x2028, 0x2029), (0x202f, 0x202f), (0x205f, 0x205f), (0x3000, 0x3000)]⟩

namespace Blank

/-- White space by Unicode. -/
def isBlank (c : Char) : Bool := CharSet.whiteSpace.contains c

/-- White space of markup: space, tab, line feed, form feed and carriage return. -/
def isAsciiBlank (c : Char) : Bool :=
  c == ' ' || c == '\t' || c == '\n' || c == '\x0c' || c == '\r'

/-- Drops characters of a kind at both ends. -/
def trimBy (isGap : Char → Bool) (cs : List Char) : List Char :=
  ((cs.dropWhile isGap).reverse.dropWhile isGap).reverse

/-- A text without the white space at its ends. -/
def trim (s : String) : String := String.ofList (trimBy isBlank s.toList)

/-- The maximal runs of characters that are not of a kind; `word` is the run being read, last
character first. -/
def wordsFrom (isGap : Char → Bool) : List Char → List Char → List (List Char)
  | [], [] => []
  | word, [] => [word.reverse]
  | word, c :: cs =>
    if isGap c then
      match word with
      | [] => wordsFrom isGap [] cs
      | _ => word.reverse :: wordsFrom isGap [] cs
    else wordsFrom isGap (c :: word) cs

/-- The words of a text that ASCII blanks separate. -/
def words (s : String) : List String :=
  (wordsFrom isAsciiBlank [] s.toList).map String.ofList

end Blank

end ReactiveMarkup
