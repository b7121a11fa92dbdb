import ReactiveMarkup.Eval.Store
import ReactiveMarkup.Expr.Diagnostic
import ReactiveMarkup.Graph.Drive
import ReactiveMarkup.Document.Markup
import ReactiveMarkup.Document.Print
import ReactiveMarkup.Document.Read
import ReactiveMarkup.Compile.Compilation
import ReactiveMarkup.Proofs.Eval.Anchored
import ReactiveMarkup.Proofs.Document.Clone
import ReactiveMarkup.Proofs.Document.Furnished
import ReactiveMarkup.Proofs.Document.Harmless
import ReactiveMarkup.Proofs.Expr.Dependencies
import ReactiveMarkup.Proofs.Graph.Building
import ReactiveMarkup.Proofs.Graph.Keeps
import ReactiveMarkup.Proofs.Graph.Planting
import ReactiveMarkup.Proofs.Graph.Removal
import ReactiveMarkup.Proofs.Graph.Resting
import ReactiveMarkup.Proofs.Eval.Confined
import ReactiveMarkup.Proofs.Graph.Depth
import ReactiveMarkup.Proofs.Graph.Cycle
import ReactiveMarkup.Proofs.Graph.Operation
import ReactiveMarkup.Proofs.Graph.Observing
import ReactiveMarkup.Proofs.Graph.Linking
import ReactiveMarkup.Proofs.Graph.Tidy
import ReactiveMarkup.Proofs.Compile.Outline
import ReactiveMarkup.Proofs.Compile.Emit
import ReactiveMarkup.Proofs.Graph.Mounted
import ReactiveMarkup.Proofs.Graph.Requests
import ReactiveMarkup.Proofs.Graph.Answers
import ReactiveMarkup.Proofs.Graph.Listening
import ReactiveMarkup.Proofs.Document.InPlace
import ReactiveMarkup.Proofs.Compile.Splitting
import ReactiveMarkup.Proofs.Expr.RoundTrip
import ReactiveMarkup.Proofs.Compile.Annotation
import ReactiveMarkup.Proofs.Compile.Distinct
import ReactiveMarkup.Proofs.Compile.Undisturbed
import ReactiveMarkup.Proofs.Expr.Moved
import ReactiveMarkup.Proofs.Eval.Nesting
import ReactiveMarkup.Proofs.Eval.Updating
import ReactiveMarkup.Proofs.Expr.Precedence
import ReactiveMarkup.Proofs.Document.Serialization
import ReactiveMarkup.Proofs.Graph.Enclosed
import ReactiveMarkup.Proofs.Expr.Quotation
import ReactiveMarkup.Proofs.Expr.Settled
import ReactiveMarkup.Proofs.Expr.Ranges
import ReactiveMarkup.Proofs.Value.Equality
import ReactiveMarkup.Proofs.Value.Json
import ReactiveMarkup.Proofs.Eval.Balance
import ReactiveMarkup.Proofs.Eval.Assigning
import ReactiveMarkup.Proofs.Eval.Joining
import ReactiveMarkup.Proofs.Eval.Iterating
import ReactiveMarkup.Proofs.Graph.Aliases
import ReactiveMarkup.Proofs.Compile.Pointing
import ReactiveMarkup.Proofs.Document.Isomorphic
import ReactiveMarkup.Proofs.Document.Permanence
import ReactiveMarkup.Proofs.Document.Style
import ReactiveMarkup.Proofs.Document.StyleMap
import ReactiveMarkup.Proofs.Graph.Refusal
import ReactiveMarkup.Proofs.Graph.Runs
import ReactiveMarkup.Proofs.Graph.Attending
