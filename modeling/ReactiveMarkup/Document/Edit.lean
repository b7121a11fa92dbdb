import ReactiveMarkup.Document.Basic

/-!
# Changing documents

Creating, moving, removing and copying nodes, and changing their content. A change that is refused
gives its reason and no document.

Main definitions: `Document.create`, `Document.append`, `Document.insertBefore`, `Document.detach`,
`Document.remove`, `Document.deepClone`.
-/
namespace ReactiveMarkup

namespace Element

/-- The element with a class; one that it has already changes nothing. -/
def addClass (e : Element) (c : String) : Element :=
  let current := ClassList.parse ((e.attribute? "class").getD "")
  if current.contains c then e else e.setAttribute "class" (ClassList.format (current ++ [c]))

/-- The element without a class; the attribute goes with the last one. -/
def removeClass (e : Element) (c : String) : Element :=
  match e.attribute? "class" with
  | none => e
  | some current =>
    let text := ClassList.format ((ClassList.parse current).filter (· != c))
    if text.isEmpty then e.removeAttribute "class" else e.setAttribute "class" text

/-- The element with a style property. -/
def setStyle (e : Element) (property value : String) : Element :=
  let current := Declarations.parse ((e.attribute? "style").getD "")
  e.setAttribute "style" (Declarations.format (Declarations.set property value current))

/-- The element without a style property; the attribute goes with the last one. -/
def removeStyle (e : Element) (property : String) : Element :=
  match e.attribute? "style" with
  | none => e
  | some current =>
    let rest := Declarations.unset property (Declarations.parse current)
    if rest.isEmpty then e.removeAttribute "style"
    else e.setAttribute "style" (Declarations.format rest)

end Element

namespace Document

/-- A changed document, or why it was not changed. -/
abbrev Change := Except DocumentError Document

/-! ## The tree -/

/-- Adds a detached node; it gets the next number. -/
def create (d : Document) (kind : NodeKind) : NodeId × Document :=
  (d.nodes.size, ⟨d.nodes.push (some (.alone kind))⟩)

/-- Changes the data of a node, if it is there. -/
def modify (d : Document) (id : NodeId) (f : NodeData → NodeData) : Document :=
  ⟨d.nodes.modify id fun n => n.map f⟩

/-- Refuses a node that is not there. -/
def ensure (d : Document) (id : NodeId) : Except DocumentError Unit :=
  if d.contains id then .ok () else .error (.unknownNode id)

/-- Takes a node out of its parent, if it has one. -/
def unlink (d : Document) (id : NodeId) : Document :=
  match d.parent? id with
  | none => d
  | some p =>
    (d.modify id fun n => { n with parent := none }).modify p fun n =>
      { n with children := n.children.filter (· != id) }

/-- Puts a node under a parent at a place. -/
def link (d : Document) (parent id : NodeId) (place : Nat) : Document :=
  (d.modify id fun n => { n with parent := some parent }).modify parent fun n =>
    { n with children := n.children.insertIdx place id }

/-- Moves a node to the end of what stands under `parent`. -/
def append (d : Document) (parent child : NodeId) : Change := do
  d.ensure parent
  d.ensure child
  if d.isAncestorOrSelf child parent then throw (.cycle child)
  let d := d.unlink child
  return d.link parent child (d.children parent).length

/-- Moves a node to before `reference` under the same parent. -/
def insertBefore (d : Document) (reference node : NodeId) : Change := do
  d.ensure node
  if node = reference then return d
  let some parent := d.parent? reference | throw (.detached reference)
  if d.isAncestorOrSelf node parent then throw (.cycle node)
  let d := d.unlink node
  let some place := d.indexInParent? reference | throw (.detached reference)
  return d.link parent node place

/-- Takes a node with its subtree out of its parent. -/
def detach (d : Document) (id : NodeId) : Change := do
  d.ensure id
  return d.unlink id

/-- Frees nodes. -/
def free (d : Document) (ids : List NodeId) : Document :=
  ⟨ids.foldl (fun nodes id => nodes.setIfInBounds id none) d.nodes⟩

/-- Takes a node out of its parent and frees it with its subtree. The root stays. -/
def remove (d : Document) (id : NodeId) : Change := do
  if id = root then throw (.detached id)
  let d ← d.detach id
  return d.free (d.descendants id)

/-- Copies a subtree down to `depth` levels: the node first, then what stands under it, each copy
being put at the end under the copy of its parent. -/
def cloneTo : (depth : Nat) → Document → NodeId → Except DocumentError (NodeId × Document)
  | 0, _, id => .error (.unknownNode id)
  | depth + 1, d, id =>
    match d.get? id with
    | none => .error (.unknownNode id)
    | some n => do
      let (copy, d) := d.create n.kind
      let d ← n.children.foldlM (fun d child => do
        let (childCopy, d) ← cloneTo depth d child
        d.append copy childCopy) d
      return (copy, d)

/-- Copies a subtree. The copy is detached. -/
def deepClone (d : Document) (id : NodeId) : Except DocumentError (NodeId × Document) :=
  cloneTo d.nodes.size d id

/-! ## Elements -/

/-- Changes the element that a node is. -/
def modifyElement (d : Document) (id : NodeId) (f : Element → Element) : Change :=
  match d.kind? id with
  | some (.element e) => .ok (d.modify id fun n => { n with kind := .element (f e) })
  | some _ => .error (.notElement id)
  | none => .error (.unknownNode id)

/-- Sets an attribute. -/
def setAttribute (d : Document) (id : NodeId) (name value : String) : Change :=
  d.modifyElement id (·.setAttribute name value)

/-- Removes an attribute. -/
def removeAttribute (d : Document) (id : NodeId) (name : String) : Change :=
  d.modifyElement id (·.removeAttribute name)

/-- Adds a class. -/
def addClass (d : Document) (id : NodeId) (c : String) : Change :=
  d.modifyElement id (·.addClass c)

/-- Removes a class. -/
def removeClass (d : Document) (id : NodeId) (c : String) : Change :=
  d.modifyElement id (·.removeClass c)

/-- Sets a style property. -/
def setStyle (d : Document) (id : NodeId) (property value : String) : Change :=
  d.modifyElement id (·.setStyle property value)

/-- Removes a style property. -/
def removeStyle (d : Document) (id : NodeId) (property : String) : Change :=
  d.modifyElement id (·.removeStyle property)

/-! ## Texts -/

/-- Sets the text of a text or a comment. -/
def setText (d : Document) (id : NodeId) (s : String) : Change :=
  match d.kind? id with
  | some (.text _) => .ok (d.modify id fun n => { n with kind := .text s })
  | some (.comment _) => .ok (d.modify id fun n => { n with kind := .comment s })
  | some _ => .error (.notText id)
  | none => .error (.unknownNode id)

end Document

end ReactiveMarkup
