/-!
# Reading off the front of a list

A reader takes something off the front of a list and gives back what follows. The result carries the
bound on the length of what follows, by which a recursive reader ends.
-/
namespace ReactiveMarkup

/-- A value read off the front of a list, and the fewer than `bound` items left. -/
structure Parsed (τ α : Type) (bound : Nat) where
  value : α
  rest : List τ
  rest_lt : rest.length < bound

end ReactiveMarkup
