import ReactiveMarkup.Document.Style

/-!
# Documents

A document is a tree of nodes that are named by numbers. Number zero is the root; every node created
gets the next number, and the number of a removed node is never given again. A node that was created
or taken out of its parent is detached until it is put under another one.

Main definitions: `Document`, its queries, and `Document.descendants`, the tree order of a subtree.
-/
namespace ReactiveMarkup

/-- The number of a node. -/
abbrev NodeId := Nat

/-- An element: its tag and its attributes in the order in which they were first set. -/
structure Element where
  tag : String
  attributes : List (String × String)
  deriving DecidableEq, Repr, Inhabited

namespace Element

/-- The value of an attribute. -/
def attribute? (e : Element) (name : String) : Option String := e.attributes.lookup name

/-- Sets an attribute where it stands, or as the last one. -/
def setAttribute (e : Element) (name value : String) : Element :=
  { e with attributes := Declarations.set name value e.attributes }

/-- Removes an attribute. -/
def removeAttribute (e : Element) (name : String) : Element :=
  { e with attributes := e.attributes.filter fun a => a.1 != name }

end Element

/-- What a node is. -/
inductive NodeKind where
  | document
  | doctype (name : String)
  | element (element : Element)
  | text (text : String)
  | comment (text : String)
  deriving DecidableEq, Repr, Inhabited

/-- A node and its neighbours in the tree. -/
structure NodeData where
  kind : NodeKind
  parent : Option NodeId
  children : List NodeId
  deriving DecidableEq, Repr, Inhabited

namespace NodeData

/-- A node that stands alone. -/
def alone (kind : NodeKind) : NodeData := ⟨kind, none, []⟩

end NodeData

/-- A tree of nodes; a removed node leaves its number empty. -/
structure Document where
  nodes : Array (Option NodeData)
  deriving Inhabited

/-- Why a change of a document is refused; the document stays as it was. -/
inductive DocumentError where
  | unknownNode (node : NodeId)
  | detached (node : NodeId)
  | cycle (node : NodeId)
  | notElement (node : NodeId)
  | notText (node : NodeId)
  deriving DecidableEq, Repr, Inhabited

namespace DocumentError

/-- What the error says. -/
def message : DocumentError → String
  | unknownNode n => "Unknown node " ++ toString n
  | detached n => "Node " ++ toString n ++ " has no parent"
  | cycle n => "Cannot move node " ++ toString n ++ " into its own subtree"
  | notElement n => "Node " ++ toString n ++ " is not an element"
  | notText n => "Node " ++ toString n ++ " is not a text node"

end DocumentError

namespace Document

/-- A document with nothing but its root. -/
def empty : Document := ⟨#[some (.alone .document)]⟩

/-- The root. -/
def root : NodeId := 0

/-- The data of a node. -/
def get? (d : Document) (id : NodeId) : Option NodeData := d.nodes[id]?.join

/-- Whether a node is there. -/
def contains (d : Document) (id : NodeId) : Bool := (d.get? id).isSome

/-- How many nodes are there, the root included. -/
def size (d : Document) : Nat := d.nodes.foldl (fun n x => if x.isSome then n + 1 else n) 0

/-- Whether there is nothing but the root. -/
def isEmpty (d : Document) : Bool := d.size ≤ 1

/-- What a node is. -/
def kind? (d : Document) (id : NodeId) : Option NodeKind := (d.get? id).map (·.kind)

/-- The element that a node is. -/
def element? (d : Document) (id : NodeId) : Option Element :=
  match d.kind? id with
  | some (.element e) => some e
  | _ => none

/-- Whether a node is an element. -/
def isElement (d : Document) (id : NodeId) : Bool := (d.element? id).isSome

/-- The tag of an element. -/
def tag? (d : Document) (id : NodeId) : Option String := (d.element? id).map (·.tag)

/-- The node that a node stands under. -/
def parent? (d : Document) (id : NodeId) : Option NodeId := (d.get? id).bind (·.parent)

/-- The nodes under a node, in order. -/
def children (d : Document) (id : NodeId) : List NodeId :=
  ((d.get? id).map (·.children)).getD []

/-- The node at a place under a node. -/
def child? (d : Document) (id : NodeId) (i : Nat) : Option NodeId := (d.children id)[i]?

/-- The elements under a node. -/
def elementChildren (d : Document) (id : NodeId) : List NodeId :=
  (d.children id).filter d.isElement

/-- The first element under the root. -/
def documentElement? (d : Document) : Option NodeId := (d.children root).find? d.isElement

/-- The place of a node under its parent. -/
def indexInParent? (d : Document) (id : NodeId) : Option Nat :=
  (d.parent? id).bind fun p => (d.children p).findIdx? (· == id)

/-- The node before a node under the same parent. -/
def previousSibling? (d : Document) (id : NodeId) : Option NodeId :=
  match d.parent? id, d.indexInParent? id with
  | some p, some (i + 1) => d.child? p i
  | _, _ => none

/-- The node after a node under the same parent. -/
def nextSibling? (d : Document) (id : NodeId) : Option NodeId :=
  match d.parent? id, d.indexInParent? id with
  | some p, some i => d.child? p (i + 1)
  | _, _ => none

/-- The nodes before a node under the same parent, nearest first. -/
def previousSiblings (d : Document) (id : NodeId) : List NodeId :=
  match d.parent? id with
  | some p => ((d.children p).takeWhile (· != id)).reverse
  | none => []

/-- A node and the nodes above it, nearest first, at most `count` of them. -/
def ancestorsUpTo (d : Document) : (count : Nat) → NodeId → List NodeId
  | 0, _ => []
  | count + 1, id =>
    match d.parent? id with
    | some p => id :: ancestorsUpTo d count p
    | none => [id]

/-- A node and the nodes above it, nearest first. A path upward is no longer than the numbers
given so far. -/
def ancestors (d : Document) (id : NodeId) : List NodeId := d.ancestorsUpTo (d.nodes.size + 1) id

/-- Whether a node is another one or stands above it. -/
def isAncestorOrSelf (d : Document) (above id : NodeId) : Bool := (d.ancestors id).contains above

/-- A subtree in tree order, down to `depth` levels. -/
def descendantsTo (d : Document) : (depth : Nat) → NodeId → List NodeId
  | 0, _ => []
  | depth + 1, id =>
    match d.get? id with
    | some n => id :: n.children.flatMap (descendantsTo d depth)
    | none => []

/-- A node and everything under it in tree order. A tree is no deeper than the numbers given so
far. -/
def descendants (d : Document) (id : NodeId) : List NodeId := d.descendantsTo d.nodes.size id

/-- The value of an attribute of a node. -/
def attribute? (d : Document) (id : NodeId) (name : String) : Option String :=
  (d.element? id).bind (·.attribute? name)

/-- The attributes of a node. -/
def attributes (d : Document) (id : NodeId) : List (String × String) :=
  ((d.element? id).map (·.attributes)).getD []

/-- The first node of a subtree whose attribute has a value. -/
def findByAttribute? (d : Document) (id : NodeId) (name value : String) : Option NodeId :=
  (d.descendants id).find? fun n => d.attribute? n name == some value

/-- The classes of a node. -/
def classes (d : Document) (id : NodeId) : List String :=
  ((d.attribute? id "class").map ClassList.parse).getD []

/-- Whether a node has a class. -/
def hasClass (d : Document) (id : NodeId) (c : String) : Bool := (d.classes id).contains c

/-- The value of a style property of a node. -/
def style? (d : Document) (id : NodeId) (property : String) : Option String :=
  (d.attribute? id "style").bind fun s => (Declarations.parse s).lookup property

/-- The text of a text or a comment. -/
def text? (d : Document) (id : NodeId) : Option String :=
  match d.kind? id with
  | some (.text s) | some (.comment s) => some s
  | _ => none

/-- The text of a text node. -/
def ownText (d : Document) (id : NodeId) : String :=
  match d.kind? id with
  | some (.text s) => s
  | _ => ""

/-- All text of a subtree. -/
def textContent (d : Document) (id : NodeId) : String :=
  String.join ((d.descendants id).map d.ownText)

end Document

end ReactiveMarkup
