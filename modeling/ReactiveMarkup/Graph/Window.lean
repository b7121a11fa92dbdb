import ReactiveMarkup.Value.Basic

/-!
# Windows on lists

A list shows a window of its items: those from an offset on, up to a length.
-/
namespace ReactiveMarkup

/-- The items in a window. Without a length it goes to the end, and what is no number from zero on
counts as zero. -/
def window (items : List Value) (offset length : Value) : List Value :=
  let rest := items.drop offset.toNumber.toIndex
  if length.isNullish then rest else rest.take length.toNumber.toIndex

end ReactiveMarkup
