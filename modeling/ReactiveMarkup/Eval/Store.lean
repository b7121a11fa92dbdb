import ReactiveMarkup.Eval.Evaluate

/-!
# Declared values in a flat store

The simplest world for declared values: a store that maps the text of a path to a value and keeps a
log of what was read and written, in order. Reading a path that is not there fails.
-/
namespace ReactiveMarkup

/-- One use of a declared value. -/
inductive StoreEvent where
  | get (path : String)
  | set (path : String) (value : Value)
  deriving Inhabited

/-- Values by the text of their path, in order, and the uses so far. -/
structure Store where
  values : List (String × Value)
  log : List StoreEvent
  deriving Inhabited

namespace Store

/-- A store of values that nothing has used yet. -/
def ofValues (values : List (String × Value)) : Store := ⟨Keyed.ofList values, []⟩

/-- Forgets the uses so far. -/
def clearLog (s : Store) : Store := { s with log := [] }

/-- Reading and writing in a store. -/
def accessor : Accessor Store where
  get path := fun (stamps, s) =>
    let s := { s with log := s.log ++ [.get path.toText] }
    match s.values.lookup path.toText with
    | some v => (.ok v, stamps, s)
    | none => (.error (.unresolved path), stamps, s)
  set path v := fun (stamps, s) =>
    (.ok (), stamps, ⟨Keyed.insert path.toText v s.values, s.log ++ [.set path.toText v]⟩)

end Store

end ReactiveMarkup
