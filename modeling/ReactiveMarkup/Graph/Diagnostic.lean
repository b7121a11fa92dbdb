import ReactiveMarkup.Eval.Error
import ReactiveMarkup.Graph.Host

/-!
# Diagnostics of a graph

What goes wrong while a graph runs is noted and does not stop it.
-/
namespace ReactiveMarkup

/-- Something that went wrong while a graph ran. -/
inductive Diagnostic where
  /-- a value's expression failed, and the value keeps its output -/
  | recompute (name : String) (error : EvalError)
  /-- the host did not show a value -/
  | sideEffect (name : String) (error : HostError)
  /-- a value was to observe something that is not there -/
  | unresolved (observer : String) (path : ValuePath)
  /-- a link that would have closed a cycle was left out -/
  | cycle (observer : String) (path : ValuePath)
  /-- a value was neither recomputed nor assigned, because reads and writes nest too deep -/
  | depthExceeded (name : String) (depth : Nat)
  /-- an event handler failed -/
  | handler (event : String) (error : EvalError)
  /-- a request was not sent out, or gave no value -/
  | request (url : String) (error : RequestError)
  /-- the host did not copy or remove an element -/
  | replication (name : String) (error : HostError)
  deriving DecidableEq, Repr, Inhabited

namespace Diagnostic

/-- What the diagnostic says. -/
def message : Diagnostic → String
  | recompute name e =>
    "Recomputing \x60" ++ name ++ "\x60 failed, keeping the previous output: " ++ e.message
  | sideEffect name e => "Binding of \x60" ++ name ++ "\x60 failed: " ++ e.message
  | unresolved observer path =>
    "\x60" ++ observer ++ "\x60 depends on \x60" ++ path.toText ++ "\x60, which does not exist"
  | cycle observer path =>
    "Linking \x60" ++ observer ++ "\x60 to \x60" ++ path.toText
      ++ "\x60 would create a dependency cycle"
  | depthExceeded name depth =>
    "Propagation stopped at \x60" ++ name ++ "\x60 after reaching the maximum depth of "
      ++ toString depth
  | handler event e => "\x60" ++ event ++ "\x60 handler failed: " ++ e.message
  | request url e => "Request for \x60" ++ url ++ "\x60 failed: " ++ e.message
  | replication name e => "Replicating \x60" ++ name ++ "\x60 failed: " ++ e.message

end Diagnostic

end ReactiveMarkup
