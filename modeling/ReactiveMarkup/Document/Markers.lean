/-!
# Marks in the markup

Attributes by which a compiled document carries its scopes from compilation to every mount, and the
delimiters of embedded expressions.
-/
namespace ReactiveMarkup.Marker

/-- The attribute that holds the index of an element's scope, unless another one is asked for. -/
def scope : String := "data-weft"

/-- The attribute that holds the place of a copied element among the copies. -/
def clone : String := "data-weft-clone"

/-- The attribute that holds the text of a response, to be used again by the next mount. -/
def echo : String := "data-weft-echo"

/-- What opens an embedded expression. -/
def opening : List Char := ['[', '[']

/-- What closes an embedded expression. -/
def closing : List Char := [']', ']']

end ReactiveMarkup.Marker
