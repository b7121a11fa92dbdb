import ReactiveMarkup.Document.Edit
import ReactiveMarkup.Graph.Request

/-!
# The host of a graph

A host keeps the document that a graph renders into, the listeners that the graph has attached, and
the requests that it has sent out. A host may refuse some kinds of change; then nothing changes.

Main definitions: `Host`, `Host.Change`.
-/
namespace ReactiveMarkup

/-- The kinds of change that a host may refuse. -/
inductive HostMethod where
  | setAttribute | removeAttribute
  | addClass | removeClass
  | setStyle | removeStyle
  | setText
  | cloneFragment | insertBefore | removeFragment
  deriving DecidableEq, Repr, Inhabited

namespace HostMethod

/-- How the kind of change is written. -/
def text : HostMethod → String
  | setAttribute => "set_attribute"
  | removeAttribute => "remove_attribute"
  | addClass => "add_class"
  | removeClass => "remove_class"
  | setStyle => "set_style"
  | removeStyle => "remove_style"
  | setText => "set_text"
  | cloneFragment => "clone_fragment"
  | insertBefore => "insert_before"
  | removeFragment => "remove_fragment"

/-- All kinds of change. -/
def all : List HostMethod :=
  [setAttribute, removeAttribute, addClass, removeClass, setStyle, removeStyle, setText,
    cloneFragment, insertBefore, removeFragment]

end HostMethod

/-- Why a host does not change. -/
inductive HostError where
  | document (error : DocumentError)
  | other (message : String)
  deriving DecidableEq, Repr, Inhabited

namespace HostError

/-- What the error says. -/
def message : HostError → String
  | document e => e.message
  | other s => s

end HostError

/-- A document with the listeners on its nodes and the requests sent out. -/
structure Host where
  document : Document
  /-- nodes with the events listened for, in the order of attachment -/
  listeners : List (NodeId × String)
  /-- requests not yet taken over, oldest first -/
  outbox : List (RequestId × Request)
  refused : List HostMethod
  deriving Inhabited

namespace Host

/-- A host that refuses nothing. -/
def ofDocument (d : Document) : Host := ⟨d, [], [], []⟩

/-- A changed host, or why it was not changed. -/
abbrev Change := Except HostError Host

/-- Changes the document by a kind of change. -/
def change (m : HostMethod) (f : Document → Document.Change) (h : Host) : Change :=
  if h.refused.contains m then .error (.other (m.text ++ " refused"))
  else
    match f h.document with
    | .ok document => .ok { h with document }
    | .error e => .error (.document e)

/-- Sets an attribute. -/
def setAttribute (node : NodeId) (name value : String) (h : Host) : Change :=
  h.change .setAttribute (·.setAttribute node name value)

/-- Removes an attribute. -/
def removeAttribute (node : NodeId) (name : String) (h : Host) : Change :=
  h.change .removeAttribute (·.removeAttribute node name)

/-- Adds a class. -/
def addClass (node : NodeId) (c : String) (h : Host) : Change :=
  h.change .addClass (·.addClass node c)

/-- Removes a class. -/
def removeClass (node : NodeId) (c : String) (h : Host) : Change :=
  h.change .removeClass (·.removeClass node c)

/-- Sets a style property. -/
def setStyle (node : NodeId) (property value : String) (h : Host) : Change :=
  h.change .setStyle (·.setStyle node property value)

/-- Removes a style property. -/
def removeStyle (node : NodeId) (property : String) (h : Host) : Change :=
  h.change .removeStyle (·.removeStyle node property)

/-- Sets the text of a node. -/
def setText (node : NodeId) (s : String) (h : Host) : Change :=
  h.change .setText (·.setText node s)

/-- Moves a node to before another one. -/
def insertBefore (reference node : NodeId) (h : Host) : Change :=
  h.change .insertBefore (·.insertBefore reference node)

/-- Removes a node with all below it. -/
def removeFragment (node : NodeId) (h : Host) : Change :=
  h.change .removeFragment (·.remove node)

/-- Copies a node with all below it. The copy is detached. -/
def cloneFragment (node : NodeId) (h : Host) : Except HostError (NodeId × Host) :=
  if h.refused.contains .cloneFragment then
    .error (.other (HostMethod.cloneFragment.text ++ " refused"))
  else
    match h.document.deepClone node with
    | .ok (copy, document) => .ok (copy, { h with document })
    | .error e => .error (.document e)

/-- Attaches a listener. -/
def listen (node : NodeId) (event : String) (h : Host) : Host :=
  { h with listeners := h.listeners ++ [(node, event)] }

/-- Takes one such listener away, the one attached first. -/
def unlisten (node : NodeId) (event : String) (h : Host) : Host :=
  { h with listeners := h.listeners.erase (node, event) }

/-- Whether there is a listener. -/
def isListening (h : Host) (node : NodeId) (event : String) : Bool :=
  h.listeners.contains (node, event)

/-- Sends out a request. -/
def send (id : RequestId) (r : Request) (h : Host) : Host :=
  { h with outbox := h.outbox ++ [(id, r)] }

end Host

end ReactiveMarkup
