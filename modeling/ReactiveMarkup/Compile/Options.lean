import ReactiveMarkup.Document.Markers
import ReactiveMarkup.Toml.Read

/-!
# Settings of compilation
-/
namespace ReactiveMarkup

/-- Settings of compilation. -/
structure CompileOptions where
  /-- the name of the file that errors show -/
  fileName : String
  /-- the attribute that is to hold the index of an element's scope -/
  scopeAttribute : String
  /-- whether names that nothing declares cause warnings -/
  warnUnresolved : Bool
  deriving DecidableEq, Repr, Inhabited

namespace CompileOptions

/-- The settings unless others are asked for. -/
def standard : CompileOptions := ⟨"<input>", Marker.scope, true⟩

/-- The settings that a TOML document asks for. Other keys do not matter. -/
def ofToml? (text : String) : Option CompileOptions := do
  let es ← Toml.read? text
  let fileName ← Toml.field? Toml.string? standard.fileName "file-name" es
  let scopeAttribute ← Toml.field? Toml.string? standard.scopeAttribute "scope-attribute" es
  let warnUnresolved ← Toml.field? Toml.boolean? standard.warnUnresolved "warn-unresolved" es
  return ⟨fileName, scopeAttribute, warnUnresolved⟩

end CompileOptions

end ReactiveMarkup
