import ReactiveMarkup.Document.Basic

/-!
# The text of a document

Elements are written with their attributes in double quotes and a closing tag, except for void
elements, which have none and whose children are not written. Text is escaped, except in elements
that hold raw text.
-/
namespace ReactiveMarkup

namespace Element

/-- Tags of elements without content. -/
def voidTags : List String :=
  ["area", "base", "br", "col", "embed", "hr", "img", "input", "link", "meta", "param", "source",
   "track", "wbr"]

/-- Tags of elements whose text is not escaped. -/
def rawTextTags : List String := ["script", "style"]

/-- Whether an element of a tag has no content. -/
def isVoid (tag : String) : Bool := voidTags.contains tag

/-- Whether the text in an element of a tag is not escaped. -/
def isRawText (tag : String) : Bool := rawTextTags.contains tag

end Element

namespace Document

/-- A character of a text. -/
def escapeTextChar (c : Char) : String :=
  if c = '&' then "&amp;" else if c = '<' then "&lt;" else if c = '>' then "&gt;"
  else String.singleton c

/-- A character of an attribute's value. -/
def escapeAttributeChar (c : Char) : String :=
  if c = '&' then "&amp;" else if c = '"' then "&quot;" else String.singleton c

/-- An escaped text. -/
def escapeText (s : String) : String := String.join (s.toList.map escapeTextChar)

/-- An escaped value of an attribute. -/
def escapeAttribute (s : String) : String := String.join (s.toList.map escapeAttributeChar)

/-- An attribute with the space before it. -/
def attributeText (a : String × String) : String := " " ++ a.1 ++ "=\"" ++ escapeAttribute a.2 ++ "\""

/-- The opening tag of an element. -/
def openingTag (e : Element) : String :=
  "<" ++ e.tag ++ String.join (e.attributes.map attributeText) ++ ">"

/-- The text of a subtree down to `depth` levels; `raw` if it stands in raw text. -/
def htmlTo (d : Document) : (depth : Nat) → (raw : Bool) → NodeId → String
  | 0, _, _ => ""
  | depth + 1, raw, id =>
    match d.get? id with
    | none => ""
    | some n =>
      match n.kind with
      | .document => String.join (n.children.map (htmlTo d depth false))
      | .doctype name => "<!DOCTYPE " ++ name ++ ">"
      | .text s => if raw then s else escapeText s
      | .comment s => "<!--" ++ s ++ "-->"
      | .element e =>
        if Element.isVoid e.tag then openingTag e
        else
          openingTag e ++ String.join (n.children.map (htmlTo d depth (Element.isRawText e.tag)))
            ++ "</" ++ e.tag ++ ">"

/-- The text of a subtree. -/
def outerHtml (d : Document) (id : NodeId) : String := d.htmlTo d.nodes.size false id

/-- The text of what stands under a node. -/
def innerHtml (d : Document) (id : NodeId) : String :=
  let raw := ((d.tag? id).map Element.isRawText).getD false
  String.join ((d.children id).map (d.htmlTo d.nodes.size raw))

/-- The text of the whole document. -/
def toHtml (d : Document) : String := d.outerHtml root

end Document

end ReactiveMarkup
