import ReactiveMarkup.Eval.Evaluate
import ReactiveMarkup.Toml.Read

/-!
# Settings of a graph
-/
namespace ReactiveMarkup

/-- Settings of a graph. -/
structure GraphOptions where
  /-- how deep reads and writes of values may nest -/
  maxDepth : Nat
  /-- whether links that close a cycle are refused -/
  detectCycles : Bool
  /-- how deep calls of functions may nest -/
  maxCalls : Nat
  deriving DecidableEq, Repr, Inhabited

namespace GraphOptions

/-- The settings unless others are asked for. -/
def standard : GraphOptions := ⟨256, true, Eval.defaultLimit⟩

/-- The settings that a TOML document asks for. Other keys do not matter. -/
def ofToml? (text : String) : Option GraphOptions := do
  let es ← Toml.read? text
  let maxDepth ← Toml.field? Toml.word32? standard.maxDepth "max-depth" es
  let detectCycles ← Toml.field? Toml.boolean? standard.detectCycles "detect-cycles" es
  let maxCalls ← Toml.field? Toml.word32? standard.maxCalls "max-call-stack-depth" es
  return ⟨maxDepth, detectCycles, maxCalls⟩

end GraphOptions

end ReactiveMarkup
