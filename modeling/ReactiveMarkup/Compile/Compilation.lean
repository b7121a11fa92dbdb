import ReactiveMarkup.Compile.Emit

/-!
# Compiling a document

A document is compiled in two passes. The first finds its scopes and annotates their elements, and
the second makes the program from what they declare.

Main definitions: `Compilation`, `Document.compile`.
-/
namespace ReactiveMarkup

/-- A compiled document. Declarations that failed are missing from the program. -/
structure Compilation where
  /-- the annotated document -/
  document : Document
  program : Program
  errors : List CompileError
  warnings : List CompileWarning
  deriving Inhabited

namespace Compilation

/-- Whether everything compiled. -/
def isOk (c : Compilation) : Bool := c.errors.isEmpty

end Compilation

namespace Outline

/-- The program of an outline, with the errors of both passes. -/
def emit (o : CompileOptions) (l : Outline) : Compilation :=
  let c : EmitContext := ⟨o, l.source, l.tree⟩
  let (templates, findings) :=
    (l.pending.zipIdx.mapM fun (p, index) => Emission.scope c index p).run ⟨l.errors, []⟩
  let root := if l.tree.size = 0 then none else some (l.tree.assemble templates l.tree.size 0)
  ⟨l.document, ⟨root, o.scopeAttribute⟩, findings.errors, findings.warnings⟩

end Outline

namespace Document

/-- Compiles a document; `source` is the text that it was read from, if positions are to be told. -/
def compile (o : CompileOptions) (source : Option String) (d : Document) : Compilation :=
  (Outline.ofDocument o source d).emit o

end Document

end ReactiveMarkup
