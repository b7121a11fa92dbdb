import ReactiveMarkup.Document.Markers
import ReactiveMarkup.Program
import ReactiveMarkup.Text.Casing
import ReactiveMarkup.Text.Search

/-!
# What an attribute declares

An attribute declares something if its name begins with a colon or its value holds an expression.
The rest of the name tells what: an alias, a class, a style property, an attribute, a handler, an
event, or a value of its own name. Names of values are written in camel case.
-/
namespace ReactiveMarkup

/-! ## Names of values -/

namespace ValueName

/-- The source of a list. -/
def data : String := "data"

/-- How many items of the source the list leaves out at the front. -/
def dataOffset : String := "dataOffset"

/-- How many items the list shows at most. -/
def dataLength : String := "dataLength"

/-- What is fetched into the data. -/
def request : String := "request"

/-- Whether the response is kept in the markup. -/
def requestEcho : String := "requestEcho"

/-- The text of the node at a place under the element. -/
def text (place : Nat) : String := "__t" ++ toString place

/-- The characters of a name in camel case; `out` holds those written, last first, and `raised`
tells whether a dash was met since. -/
def camelFrom (out : List Char) (raised : Bool) : List Char → List Char
  | [] => out.reverse
  | c :: cs =>
    if c = '-' ∨ c = '_' then camelFrom out (raised || !out.isEmpty) cs
    else if raised then camelFrom ((Casing.upperChar c).reverse ++ out) false cs
    else camelFrom (c :: out) false cs

/-- A name in camel case: a dash or low line goes, and what follows it is capitalized, except at
the front. -/
def camelCase (name : String) : String := String.ofList (camelFrom [] false name.toList)

end ValueName

/-! ## Declarations -/

/-- Something that an attribute declares. -/
inductive Declaration where
  | value (name : String) (kind : ValueKind)
  /-- a value that runs its expression when the value called `watched` changes -/
  | handler (name watched : String)
  | event (name : String)
  /-- the alias of the scope -/
  | ownAlias
  deriving DecidableEq, Repr, Inhabited

/-- What an attribute is for. -/
inductive AttributeRole where
  | static
  | declares (declaration : Declaration)
  /-- it would declare something, but a name in it is empty -/
  | nameless
  deriving DecidableEq, Repr, Inhabited

namespace Declaration

/-- Whether a text holds the start of an expression. -/
def hasExpression (s : String) : Bool := Search.occurs Marker.opening s.toList

/-- Whether an attribute declares something. -/
def isDynamic (name value : String) : Bool :=
  Search.startsWith [':'] name.toList || hasExpression value

/-- The name of the value that a binding of some sort makes. -/
def boundName (sort name : String) : String := sort ++ "_" ++ ValueName.camelCase name

/-- The kind of a value by its name. -/
def kindOf (name : String) : ValueKind :=
  if name = ValueName.data then .data
  else if name = ValueName.request then .request
  else .plain

/-- The declarations that are told by how a name begins, and what each makes of the rest. -/
def forms : List (String × (String → Declaration)) :=
  [("class-", fun x => value (boundName "class" x) (.className x)),
   ("style-", fun x => value (boundName "style" x) (.style x)),
   ("attr-", fun x => value (boundName "attr" x) (.attr x)),
   ("handle-", fun x => handler (boundName "handle" x) (ValueName.camelCase x)),
   ("on-", event)]

/-- What a name after the colon declares; none if a name in it is empty. -/
def ofName? (name : List Char) : Option Declaration :=
  if name = "aka".toList then some ownAlias
  else
    match forms.find? fun form => Search.startsWith form.1.toList name with
    | some (start, make) =>
      let rest := name.drop start.length
      if rest.isEmpty then none else some (make (String.ofList rest))
    | none =>
      let camel := ValueName.camelCase (String.ofList name)
      if camel.isEmpty then none else some (value camel (kindOf camel))

/-- What an attribute is for. -/
def classify (name text : String) : AttributeRole :=
  match name.toList with
  | ':' :: rest =>
    match ofName? rest with
    | some d => .declares d
    | none => .nameless
  | _ =>
    if hasExpression text then .declares (value (boundName "attr" name) (.attr name)) else .static

end Declaration

end ReactiveMarkup
