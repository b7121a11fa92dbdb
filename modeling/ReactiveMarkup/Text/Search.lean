/-!
# Searching in a text

Occurrences are found from the left and do not overlap. The empty text occurs at the very front.
-/
namespace ReactiveMarkup.Search

/-- What stands before and after the first occurrence of `needle`. -/
def cut? (needle : List Char) : List Char → Option (List Char × List Char)
  | [] => if needle.isEmpty then some ([], []) else none
  | c :: cs =>
    if needle.isPrefixOf (c :: cs) then some ([], (c :: cs).drop needle.length)
    else (cut? needle cs).map fun (before, after) => (c :: before, after)

theorem cut?_length {needle cs before after : List Char} (h : cut? needle cs = some (before, after)) :
    before.length + needle.length + after.length = cs.length := by
  induction cs generalizing before with
  | nil =>
    simp only [cut?] at h
    split at h <;> simp_all
  | cons c cs ih =>
    simp only [cut?] at h
    split at h
    · rename_i hp
      have hl := (List.isPrefixOf_iff_prefix.1 hp).length_le
      simp only [Option.some.injEq, Prod.mk.injEq] at h
      obtain ⟨rfl, rfl⟩ := h
      simp only [List.length_nil, List.length_drop]
      omega
    · obtain ⟨⟨b, a⟩, hc, hba⟩ := Option.map_eq_some_iff.1 h
      simp only [Prod.mk.injEq] at hba
      obtain ⟨rfl, rfl⟩ := hba
      have := ih hc
      simp only [List.length_cons]
      omega

/-- The parts between the occurrences of `needle`; an empty one occurs nowhere. -/
def splitBy (needle cs : List Char) : List (List Char) :=
  if hn : needle = [] then [cs]
  else
    match h : cut? needle cs with
    | none => [cs]
    | some (before, after) =>
      have := cut?_length h
      have := List.length_pos_iff.2 hn
      before :: splitBy needle after
termination_by cs.length
decreasing_by omega

/-- Whether `needle` occurs. -/
def occurs (needle cs : List Char) : Bool := (cut? needle cs).isSome

/-- How many characters stand before the first occurrence of `needle`. -/
def index? (needle cs : List Char) : Option Nat := (cut? needle cs).map (·.1.length)

/-- The text with the first occurrence of `needle` replaced. -/
def replaceFirst (needle part cs : List Char) : List Char :=
  match cut? needle cs with
  | some (before, after) => before ++ part ++ after
  | none => cs

/-- Whether the text begins with `needle`. -/
def startsWith (needle cs : List Char) : Bool := needle.isPrefixOf cs

/-- Whether the text ends with `needle`. -/
def endsWith (needle cs : List Char) : Bool := needle.reverse.isPrefixOf cs.reverse

end ReactiveMarkup.Search
