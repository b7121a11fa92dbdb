import ReactiveMarkup.Graph.Host
import ReactiveMarkup.Program

/-!
# From outputs to the document

A bound value shows in the document: a class is there or not, a style property or an attribute has
the value's text or is missing, and a text node holds the text.

Main definitions: `Value.showsClass`, `Value.rendered`, `ValueKind.bind`.
-/
namespace ReactiveMarkup

namespace Value

/-- Whether a class bound to the value is present. -/
def showsClass : Value → Bool
  | undefined | null | bool false => false
  | string s => s != "false"
  | _ => true

/-- The text that is written for the value; nothing for null and undefined. -/
def rendered (v : Value) : String := if v.isNullish then "" else v.toText

end Value

namespace ValueKind

/-- Whether a value of the kind has an effect outside of the graph. -/
def isBound : ValueKind → Bool
  | className _ | style _ | attr _ | text _ | request => true
  | plain | data | handler _ => false

/-- Shows an output on a node: the element of the scope, or the text node of a text. -/
def bind (node : NodeId) (v : Value) (h : Host) : ValueKind → Host.Change
  | className c => if v.showsClass then h.addClass node c else h.removeClass node c
  | style p => if v.isNullish then h.removeStyle node p else h.setStyle node p v.rendered
  | attr name =>
    if v.isNullish then h.removeAttribute node name else h.setAttribute node name v.rendered
  | text _ => h.setText node v.rendered
  | plain | data | request | handler _ => .ok h

end ValueKind

end ReactiveMarkup
