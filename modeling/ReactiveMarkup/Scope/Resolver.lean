import ReactiveMarkup.Expr.Basic

/-!
# Resolving names

What a name in an expression may stand for, as seen from one scope.
-/
namespace ReactiveMarkup

/-- What a name stands for. -/
inductive Resolution where
  /-- a value, declared by the nearest scope that declares the name -/
  | value (scope : ScopeIndex)
  /-- a scope: `anchor` is where the alias was found and `target` the scope that it names, which is
  the anchor itself if the alias is its own -/
  | scope (anchor target : ScopeIndex)
  | unresolved
  deriving DecidableEq, Repr, Inhabited

/-- A way to resolve names. -/
structure Resolver where
  resolve : String → Resolution
  /-- the scope that another one exposes under an alias -/
  aliasOf : ScopeIndex → String → Option ScopeIndex
  declares : ScopeIndex → String → Bool

end ReactiveMarkup
