import ReactiveMarkup.Text.Blank
import ReactiveMarkup.Text.Position
import ReactiveMarkup.Text.Search
import ReactiveMarkup.Text.Utf8

/-!
# Places in a document's source

A document does not tell where its nodes stand in its source, so elements are looked for there: their
opening tags come in document order, and each search goes on where the one before ended. Tags that
the source does not hold have no place.

Main definitions: `SourceMap`, `SourceMap.element`, `SourceMap.find?`, `Position.atByte`.
-/
namespace ReactiveMarkup

/-- The position of the character at a byte of a text, or of the one that the byte cuts; the end of
the text for all bytes past it. -/
def Position.atByte (source : List Char) (offset : Nat) : Position :=
  Position.start.advanceAll (Utf8.take offset source)

/-- A source and the byte up to which its tags were looked for. -/
structure SourceMap where
  source : String
  cursor : Nat
  deriving Inhabited

namespace SourceMap

/-- A source in which nothing was looked for yet. -/
def ofSource (source : String) : SourceMap := ⟨source, 0⟩

/-- Whether a tag's name can end before the given text. -/
def endsName : List Char → Bool
  | [] => true
  | c :: _ => Blank.isAsciiBlank c || c == '>' || c == '/'

/-- Where the first opening tag stands in what follows the first `offset` bytes of a source;
`opening` is the mark with the name. -/
def tagFrom? (opening : List Char) (offset : Nat) (cs : List Char) : Option Nat :=
  if hn : opening = [] then none
  else
    match found : Search.cut? opening cs with
    | none => none
    | some (before, after) =>
      have := Search.cut?_length found
      have := List.length_pos_iff.2 hn
      let place := offset + Utf8.size before
      if endsName after then some place
      else tagFrom? opening (place + Utf8.size opening) after
termination_by cs.length
decreasing_by omega

/-- The byte at which the next opening tag of a name stands. Upper and lower case do not differ. -/
def element (m : SourceMap) (tag : String) : Option Nat × SourceMap :=
  let opening := ('<' :: tag.toList).map Char.toLower
  let lower := m.source.toList.map Char.toLower
  match (Utf8.drop? m.cursor lower).bind (tagFrom? opening m.cursor) with
  | some place => (some place, { m with cursor := place + Utf8.size opening })
  | none => (none, m)

/-- The byte at which a text stands first at or after a byte; an empty text stands nowhere. -/
def find? (m : SourceMap) (offset : Nat) (needle : String) : Option Nat :=
  if needle.isEmpty then none
  else do
    let rest ← Utf8.drop? offset m.source.toList
    let (before, _) ← Search.cut? needle.toList rest
    return offset + Utf8.size before

/-- The position of a byte. -/
def position (m : SourceMap) (offset : Nat) : Position := Position.atByte m.source.toList offset

end SourceMap

end ReactiveMarkup
