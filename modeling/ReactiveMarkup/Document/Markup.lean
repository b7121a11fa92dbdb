import ReactiveMarkup.Document.Edit

/-!
# Markup trees

A document without the numbers of its nodes. Documents are built from markup trees and shown as
such.
-/
namespace ReactiveMarkup

/-- A subtree of a document. -/
inductive Markup where
  | text (text : String)
  | comment (text : String)
  | doctype (name : String)
  | element (tag : String) (attributes : List (String × String)) (children : List Markup)
  deriving Inhabited

namespace Document

mutual

/-- Adds a tree that stands under nothing yet. Nodes are numbered in tree order, and of two
attributes with one name the later value counts. -/
def createMarkup (d : Document) : Markup → NodeId × Document
  | .text s => d.create (.text s)
  | .comment s => d.create (.comment s)
  | .doctype name => d.create (.doctype name)
  | .element tag attributes children =>
    let e := attributes.foldl (fun e a => e.setAttribute a.1 a.2) (Element.mk tag [])
    let (id, d) := d.create (.element e)
    (id, addMarkups d id children)

/-- Adds trees at the end of what stands under `parent`. -/
def addMarkups (d : Document) (parent : NodeId) : List Markup → Document
  | [] => d
  | m :: ms =>
    let (id, d) := createMarkup d m
    addMarkups (d.link parent id (d.children parent).length) parent ms

end

/-- The document whose root holds the given trees. -/
def ofMarkup (ms : List Markup) : Document := empty.addMarkups root ms

/-- The tree of a node down to `depth` levels; the root and removed nodes have none. -/
def markupTo (d : Document) : (depth : Nat) → NodeId → Option Markup
  | 0, _ => none
  | depth + 1, id =>
    match d.get? id with
    | none => none
    | some n =>
      match n.kind with
      | .document => none
      | .doctype name => some (.doctype name)
      | .text s => some (.text s)
      | .comment s => some (.comment s)
      | .element e =>
        some (.element e.tag e.attributes (n.children.filterMap (markupTo d depth)))

/-- The trees under the root. -/
def toMarkup (d : Document) : List Markup :=
  (d.children root).filterMap (d.markupTo d.nodes.size)

end Document

end ReactiveMarkup
