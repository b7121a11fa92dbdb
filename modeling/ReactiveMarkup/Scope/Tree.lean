import ReactiveMarkup.Scope.Resolver
import ReactiveMarkup.Text.Keyed

/-!
# Scopes

There is one scope for each annotated element. A scope declares values, and may have an alias by
which its parent exposes it. A name is looked up from a scope outward: the nearest scope that
declares it, has it as its alias, or exposes it as one.

Main definitions: `Scope`, `ScopeTree`, `ScopeTree.resolver`.
-/
namespace ReactiveMarkup

/-- A scope. Its index is its place in the tree's list. -/
structure Scope where
  parent : Option ScopeIndex
  children : List ScopeIndex
  ownAlias : Option String
  /-- the aliased scopes that it exposes -/
  aliases : List (String × ScopeIndex)
  declared : List String
  deriving Inhabited

namespace Scope

/-- A scope that declares nothing yet. -/
def empty (parent : Option ScopeIndex) : Scope := ⟨parent, [], none, [], []⟩

/-- Declares a value; declaring it again changes nothing. -/
def declare (s : Scope) (name : String) : Scope :=
  if s.declared.contains name then s else { s with declared := s.declared ++ [name] }

end Scope

/-- All scopes, by their index. -/
structure ScopeTree where
  scopes : List Scope
  deriving Inhabited

namespace ScopeTree

/-- No scopes. -/
def empty : ScopeTree := ⟨[]⟩

/-- How many scopes there are; also the index of the next one. -/
def size (t : ScopeTree) : Nat := t.scopes.length

/-- The scope of an index. -/
def get? (t : ScopeTree) (i : ScopeIndex) : Option Scope := t.scopes[i]?

/-- Changes a scope. -/
def modify (t : ScopeTree) (i : ScopeIndex) (f : Scope → Scope) : ScopeTree :=
  ⟨t.scopes.modify i f⟩

/-- Adds a scope at the end, and to the children of its parent if that exists already. -/
def push (t : ScopeTree) (s : Scope) : ScopeTree :=
  let t := match s.parent with
    | some p => t.modify p fun q => { q with children := q.children ++ [t.size] }
    | none => t
  ⟨t.scopes ++ [s]⟩

/-- A scope and its ancestors with their indices, nearest first, at most `count` of them. -/
def ancestorsUpTo (t : ScopeTree) : (count : Nat) → Option ScopeIndex → List (ScopeIndex × Scope)
  | 0, _ => []
  | _, none => []
  | count + 1, some i =>
    match t.get? i with
    | some s => (i, s) :: ancestorsUpTo t count s.parent
    | none => []

/-- A scope and its ancestors, nearest first. No more than all scopes are ancestors of one. -/
def ancestors (t : ScopeTree) (start : Option ScopeIndex) : List (ScopeIndex × Scope) :=
  t.ancestorsUpTo t.size start

/-- What a name stands for in one scope. -/
def resolveIn? (name : String) (i : ScopeIndex) (s : Scope) : Option Resolution :=
  if s.declared.contains name then some (.value i)
  else if s.ownAlias = some name then some (.scope i i)
  else (s.aliases.lookup name).map (.scope i ·)

/-- What a name stands for from a scope outward. -/
def resolveFrom (t : ScopeTree) (start : Option ScopeIndex) (name : String) : Resolution :=
  ((t.ancestors start).findSome? fun (i, s) => resolveIn? name i s).getD .unresolved

/-- Lookup from a scope. An expression that defines `property` sees the outer one of that name. -/
def resolver (t : ScopeTree) (scope : ScopeIndex) (property : Option String) : Resolver where
  resolve name :=
    t.resolveFrom (if property = some name then (t.get? scope).bind (·.parent) else some scope) name
  aliasOf scope name := (t.get? scope).bind fun s => s.aliases.lookup name
  declares scope name := ((t.get? scope).map fun s => s.declared.contains name).getD false

/-- The names that a scope or one of its ancestors declares or exposes, in order and each once. -/
def visibleNames (t : ScopeTree) (scope : ScopeIndex) : List String :=
  let names := (t.ancestors (some scope)).flatMap fun (_, s) => s.declared ++ s.aliases.map (·.1)
  (Keyed.ofList (names.map (·, ()))).map (·.1)

end ScopeTree

end ReactiveMarkup
