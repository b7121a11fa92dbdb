import ReactiveMarkup.Document.Edit

/-!
# Changing a document in place

The changes as they are made on the document at hand, step by step. A step that is refused ends a
change, and what the change has done by then stays done.

Main definitions: `Document.InPlace`, `Document.Call`, `Document.afterCalls`.
-/
namespace ReactiveMarkup.Document

/-- Steps on the document at hand. A step that is refused ends them, and the document stays as it is
by then. -/
abbrev InPlace (α : Type) := ExceptT DocumentError (StateM Document) α

namespace InPlace

/-- Refuses a node that is not there. -/
def ensure (id : NodeId) : InPlace Unit := do
  if (← get).contains id then return () else throw (.unknownNode id)

/-- Adds a detached node. -/
def create (kind : NodeKind) : InPlace NodeId := do
  let (id, d) := (← get).create kind
  set d
  return id

/-- Moves a node to the end of what stands under `parent`. -/
def append (parent child : NodeId) : InPlace Unit := do
  ensure parent
  ensure child
  if (← get).isAncestorOrSelf child parent then throw (.cycle child)
  modifyThe Document (·.unlink child)
  modifyThe Document fun d => d.link parent child (d.children parent).length

/-- Moves a node to before `reference`. The place of `reference` is looked up when the node has been
taken out already. -/
def insertBefore (reference node : NodeId) : InPlace Unit := do
  ensure node
  if node = reference then return ()
  let some parent := (← get).parent? reference | throw (.detached reference)
  if (← get).isAncestorOrSelf node parent then throw (.cycle node)
  modifyThe Document (·.unlink node)
  let some place := (← get).indexInParent? reference | throw (.detached reference)
  modifyThe Document (·.link parent node place)

/-- Takes a node with its subtree out of its parent. -/
def detach (id : NodeId) : InPlace Unit := do
  ensure id
  modifyThe Document (·.unlink id)

/-- Takes a node out of its parent and frees it with its subtree. -/
def remove (id : NodeId) : InPlace Unit := do
  if id = root then throw (.detached id)
  detach id
  modifyThe Document fun d => d.free (d.descendants id)

/-- Copies a subtree down to `depth` levels. The copy is there before what stands under it. -/
def cloneTo : (depth : Nat) → NodeId → InPlace NodeId
  | 0, id => throw (.unknownNode id)
  | depth + 1, id => do
    let some n := (← get).get? id | throw (.unknownNode id)
    let copy ← create n.kind
    n.children.forM fun child => do
      append copy (← cloneTo depth child)
    return copy

/-- Copies a subtree. -/
def deepClone (id : NodeId) : InPlace NodeId := do
  cloneTo (← get).nodes.size id

end InPlace

/-- A call that changes the tree. -/
inductive Call where
  | create (kind : NodeKind)
  | append (parent child : NodeId)
  | insertBefore (reference node : NodeId)
  | detach (id : NodeId)
  | remove (id : NodeId)
  | deepClone (id : NodeId)
  deriving DecidableEq, Repr, Inhabited

namespace Call

/-- What a call does to the document at hand; it gives the node that it has made, if it makes one. -/
def steps : Call → InPlace (Option NodeId)
  | create kind => some <$> InPlace.create kind
  | append parent child => (fun _ => none) <$> InPlace.append parent child
  | insertBefore reference node => (fun _ => none) <$> InPlace.insertBefore reference node
  | detach id => (fun _ => none) <$> InPlace.detach id
  | remove id => (fun _ => none) <$> InPlace.remove id
  | deepClone id => some <$> InPlace.deepClone id

/-- What comes of a call, and the document after it. -/
def run (call : Call) (d : Document) : Except DocumentError (Option NodeId) × Document :=
  call.steps.run.run d

/-- The changed document and the node made, or why there is neither. -/
def change (d : Document) : Call → Except DocumentError (Option NodeId × Document)
  | create kind => .ok (some (d.create kind).1, (d.create kind).2)
  | append parent child => (d.append parent child).map (none, ·)
  | insertBefore reference node => (d.insertBefore reference node).map (none, ·)
  | detach id => (d.detach id).map (none, ·)
  | remove id => (d.remove id).map (none, ·)
  | deepClone id => (d.deepClone id).map fun (copy, d) => (some copy, d)

end Call

/-- The document after some calls, whether they succeed or not. -/
def afterCalls (calls : List Call) (d : Document) : Document :=
  calls.foldl (fun d call => (call.run d).2) d

end ReactiveMarkup.Document
