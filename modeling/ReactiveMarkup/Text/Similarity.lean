/-!
# Similarity of names

The Jaro-Winkler measure of two words: characters match when they are equal and not too far apart,
each character once; a common beginning raises a measure that is already high.
-/
namespace ReactiveMarkup.Similarity

/-- Marks the first unused character `c` of a window from place `low` on and before place `high`;
`none` when there is none. The list holds characters with their use, the first at place `at`. -/
def claim? (c : Char) (low high : Nat) : Nat → List (Char × Bool) → Option (List (Char × Bool))
  | _, [] => none
  | here, (d, used) :: rest =>
    if high ≤ here then none
    else if low ≤ here && c == d && !used then some ((d, true) :: rest)
    else (claim? c low high (here + 1) rest).map ((d, used) :: ·)

/-- The characters of the first word that find a partner, in order, and the marks left on the
second word; `i` is the place of the next character. -/
def pair (reach : Nat) : Nat → List Char → List (Char × Bool) → List Char × List (Char × Bool)
  | _, [], marks => ([], marks)
  | i, c :: cs, marks =>
    match claim? c (i - reach) (i + reach + 1) 0 marks with
    | some marks =>
      let (found, marks) := pair reach (i + 1) cs marks
      (c :: found, marks)
    | none => pair reach (i + 1) cs marks

/-- The Jaro measure: matched characters of either word and matches in the same order. -/
def jaro (a b : List Char) : Float :=
  if a.isEmpty && b.isEmpty then 1
  else if a.isEmpty || b.isEmpty then 0
  else
    let reach := max a.length b.length / 2 - 1
    let (left, marks) := pair reach 0 a (b.map (·, false))
    let right := (marks.filter (·.2)).map (·.1)
    let hits := left.length
    if hits = 0 then 0
    else
      let moved := ((left.zip right).filter fun p => p.1 != p.2).length / 2
      (hits.toFloat / a.length.toFloat + hits.toFloat / b.length.toFloat
        + (hits - moved).toFloat / hits.toFloat) / 3

/-- The number of leading characters that two words share, at most `limit`. -/
def commonStart : Nat → List Char → List Char → Nat
  | limit + 1, a :: as, b :: bs => if a = b then commonStart limit as bs + 1 else 0
  | _, _, _ => 0

/-- The Jaro-Winkler measure. -/
def jaroWinkler (a b : String) : Float :=
  let base := jaro a.toList b.toList
  if base > 0.7 then base + 0.1 * (commonStart 4 a.toList b.toList).toFloat * (1 - base) else base

end ReactiveMarkup.Similarity
