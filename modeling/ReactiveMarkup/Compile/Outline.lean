import ReactiveMarkup.Compile.Declaration
import ReactiveMarkup.Compile.Error
import ReactiveMarkup.Compile.Options
import ReactiveMarkup.Compile.SourceMap
import ReactiveMarkup.Document.Edit
import ReactiveMarkup.Scope.Tree

/-!
# The outline of a document

The first pass over a document finds its scopes. An element gets a scope if it is the first one of
the document, has an alias by its tag, or declares something by an attribute or a text directly
under it. What it declares is taken out of the document, which holds the index of the scope instead,
and waits in the outline until all names are known.

Main definitions: `Document.isAnnotated`, `PendingScope`, `Outline`, `Outline.ofDocument`.
-/
namespace ReactiveMarkup

/-! ## Elements with scopes -/

namespace Document

/-- The alias that an element has by its tag: the page as a whole, its head and its body. -/
def implicitAlias? (d : Document) (node : NodeId) : Option String := do
  let tag ← d.tag? node
  if d.documentElement? = some node then
    if tag = "html" then some "page"
    else if tag = "head" ∨ tag = "body" then some tag
    else none
  else
    let parent ← d.parent? node
    if d.documentElement? = some parent ∧ d.tag? parent = some "html" ∧ (tag = "head" ∨ tag = "body")
    then some tag
    else none

/-- The text of a text node that holds an expression. -/
def expressionText? (d : Document) (node : NodeId) : Option String :=
  match d.kind? node with
  | some (.text s) => if Declaration.hasExpression s then some s else none
  | _ => none

/-- Whether an element gets a scope. -/
def isAnnotated (d : Document) (node : NodeId) : Bool :=
  d.documentElement? == some node || (d.implicitAlias? node).isSome
    || (d.attributes node).any (fun a => Declaration.isDynamic a.1 a.2)
    || (d.children node).any fun c => (d.expressionText? c).isSome

end Document

/-! ## What waits for names -/

/-- Where a value comes from. -/
inductive Definition where
  /-- a text of the markup, and the byte of the source where it stands, if it is found there -/
  | markup (raw : String) (place : Option Nat)
  | implied (value : Literal)
  deriving Inhabited

namespace Definition

/-- The byte of the source where the definition stands. -/
def place? : Definition → Option Nat
  | markup _ place => place
  | implied _ => none

end Definition

/-- What a value's output will do. -/
inductive PendingKind where
  | known (kind : ValueKind)
  /-- it is a handler that watches a name -/
  | watching (name : String)
  deriving DecidableEq, Repr, Inhabited

/-- A declared value. -/
structure PendingValue where
  name : String
  kind : PendingKind
  definition : Definition
  deriving Inhabited

/-- A declared event handler. -/
structure PendingEvent where
  event : String
  raw : String
  place : Option Nat
  deriving Inhabited

/-- What one scope declares. -/
structure PendingScope where
  values : List PendingValue
  events : List PendingEvent
  /-- the byte of the source where the element's tag stands -/
  element : Option Nat
  deriving Inhabited

/-- A scope while its element is read. -/
structure ScopeDraft where
  scope : Scope
  pending : PendingScope
  deriving Inhabited

namespace ScopeDraft

/-- Adds a value. -/
def addValue (v : PendingValue) (s : ScopeDraft) : ScopeDraft where
  scope := s.scope.declare v.name
  pending := { s.pending with values := s.pending.values ++ [v] }

/-- Adds an event handler. -/
def addEvent (e : PendingEvent) (s : ScopeDraft) : ScopeDraft :=
  { s with pending := { s.pending with events := s.pending.events ++ [e] } }

/-- Sets the alias. -/
def setAlias (ownAlias : Option String) (s : ScopeDraft) : ScopeDraft :=
  { s with scope := { s.scope with ownAlias } }

/-- Adds what an attribute declares. -/
def add (d : Declaration) (raw : String) (place : Option Nat) (s : ScopeDraft) : ScopeDraft :=
  match d with
  | .value name kind => s.addValue ⟨name, .known kind, .markup raw place⟩
  | .handler name watched => s.addValue ⟨name, .watching watched, .markup raw place⟩
  | .event name => s.addEvent ⟨name, raw, place⟩
  | .ownAlias => s.setAlias (some (Blank.trim raw))

/-- The values that a list has even if it does not declare them. -/
def companions : List PendingValue :=
  [⟨ValueName.data, .known .data, .implied .undefined⟩,
   ⟨ValueName.dataOffset, .known .plain, .implied (.number 0)⟩,
   ⟨ValueName.dataLength, .known .plain, .implied .undefined⟩]

/-- Adds the companions that are missing, if there is data or a request. -/
def addCompanions (s : ScopeDraft) : ScopeDraft :=
  let declared := s.scope.declared
  if declared.contains ValueName.data || declared.contains ValueName.request then
    (companions.filter fun v => !declared.contains v.name).foldl (fun s v => s.addValue v) s
  else s

end ScopeDraft

/-! ## The outline -/

/-- The scopes found so far, with the document as it is left. -/
structure Outline where
  document : Document
  source : Option SourceMap
  tree : ScopeTree
  /-- what each scope declares, by its index -/
  pending : List PendingScope
  errors : List CompileError
  deriving Inhabited

namespace Outline

/-- An error at a byte of the source. -/
def errorAt (o : CompileOptions) (source : Option SourceMap) (cause : CompileCause)
    (place : Option Nat) : CompileError where
  cause := cause
  file := o.fileName
  source := source.map (·.source)
  fallback := do return (← source).position (← place)

/-- Adds an error. -/
def report (o : CompileOptions) (cause : CompileCause) (place : Option Nat) (l : Outline) : Outline :=
  { l with errors := l.errors ++ [errorAt o l.source cause place] }

/-- Changes the document; a refusal is an error. -/
def change (o : CompileOptions) (place : Option Nat) (f : Document → Document.Change) (l : Outline) :
    Outline :=
  match f l.document with
  | .ok document => { l with document }
  | .error e => l.report o (.document e) place

/-- The byte where the text of a declaration stands, looked for from its element on. -/
def placeOf (element : Option Nat) (raw : String) (l : Outline) : Option Nat :=
  l.source.bind fun m => m.find? (element.getD 0) raw

/-- Reads one attribute of an element, and takes it out of the document unless it is static. -/
def readAttribute (o : CompileOptions) (node : NodeId) : Outline × ScopeDraft → String × String →
    Outline × ScopeDraft
  | (l, s), (name, raw) =>
    let element := s.pending.element
    match Declaration.classify name raw with
    | .static => (l, s)
    | .nameless =>
      let l := l.report o (.emptyName name) element
      (l.change o element (·.removeAttribute node name), s)
    | .declares d =>
      let l := l.change o element (·.removeAttribute node name)
      (l, s.add d raw (l.placeOf element raw))

/-- Reads one text under an element, and empties it. -/
def readText (o : CompileOptions) : Outline × ScopeDraft → (NodeId × String) × Nat →
    Outline × ScopeDraft
  | (l, s), ((node, raw), place) =>
    let element := s.pending.element
    let l := l.change o element (·.setText node "")
    (l, s.addValue ⟨ValueName.text place, .known (.text place), .markup raw (l.placeOf element raw)⟩)

/-- The texts under an element that hold expressions, with their places among its children. Copies
made by a list do not count. -/
def texts (d : Document) (node : NodeId) : List ((NodeId × String) × Nat) :=
  let own := (d.children node).filter fun c => (d.attribute? c Marker.clone).isNone
  own.zipIdx.filterMap fun (c, place) => (d.expressionText? c).map fun raw => ((c, raw), place)

/-- Enters the alias of the scope that comes next into its parent. An alias that another child of
the parent has stays with that child. -/
def enterAlias (o : CompileOptions) (s : ScopeDraft) (l : Outline) : Outline :=
  match s.scope.ownAlias, s.scope.parent with
  | some name, some parent =>
    let taken := ((l.tree.get? parent).bind fun p => p.aliases.lookup name).isSome
    if taken then l.report o (.duplicateAlias name) s.pending.element
    else
      { l with
        tree := l.tree.modify parent fun p =>
          { p with aliases := Keyed.insert name l.tree.size p.aliases } }
  | _, _ => l

/-- Makes the scope of an element. -/
def addScope (o : CompileOptions) (node : NodeId) (parent : Option ScopeIndex)
    (element : Option Nat) (l : Outline) : Outline :=
  let draft := ScopeDraft.setAlias (l.document.implicitAlias? node) ⟨.empty parent, ⟨[], [], element⟩⟩
  let (l, draft) := (l.document.attributes node).foldl (readAttribute o node) (l, draft)
  let (l, draft) := (texts l.document node).foldl (readText o) (l, draft)
  let draft := draft.addCompanions
  let draft := draft.setAlias (draft.scope.ownAlias.filter fun a => !a.isEmpty)
  let l := l.enterAlias o draft
  let l := l.change o element (·.setAttribute node o.scopeAttribute (toString l.tree.size))
  { l with tree := l.tree.push draft.scope, pending := l.pending ++ [draft.pending] }

/-- Looks for the tag of an element in the source. -/
def findElement (node : NodeId) (l : Outline) : Option Nat × Outline :=
  match l.source, l.document.tag? node with
  | some m, some tag =>
    let (place, m) := m.element tag
    (place, { l with source := some m })
  | _, _ => (none, l)

/-- Reads an element and all elements below it, down to `depth` levels. -/
def readElement (o : CompileOptions) : (depth : Nat) → (parent : Option ScopeIndex) → Outline →
    NodeId → Outline
  | 0, _, l, _ => l
  | depth + 1, parent, l, node =>
    let (element, l) := l.findElement node
    let (scope, l) :=
      if l.document.isAnnotated node then (some l.tree.size, l.addScope o node parent element)
      else (parent, l)
    (l.document.elementChildren node).foldl (readElement o depth scope) l

/-- The outline of a document; `source` is the text that it was read from. -/
def ofDocument (o : CompileOptions) (source : Option String) (d : Document) : Outline :=
  let l : Outline := ⟨d, source.map .ofSource, .empty, [], []⟩
  match d.documentElement? with
  | some root => readElement o d.nodes.size none l root
  | none => l

end Outline

end ReactiveMarkup
