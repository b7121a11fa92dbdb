/-!
# Positions and ranges in a text

A position is a line and a column, both counted from one, columns in characters. An expression
embedded in a larger text is read on its own first, and its positions are moved afterwards to the
place where the snippet starts; `Position.offsetBy` is that move.

The place where a snippet starts is given from outside, so a place behind it may be too far for the
machine words that a position is kept in. `Position.stored` is what these keep of it; the order of
positions, and with it the join of ranges, is that of what is kept.

Main definitions: `Position`, `Range`, `Position.advance` (the position after a character),
`Position.stored` and `ByteSpan.ofRange` (the bytes of a text that a range covers).
-/
namespace ReactiveMarkup

/-- A line and a column, both from one. -/
structure Position where
  line : Nat
  column : Nat
  deriving DecidableEq, Repr, Inhabited

namespace Position

/-- Where every text starts. -/
def start : Position := ⟨1, 1⟩

/-- The position of a snippet's `p` in the text that holds the snippet at `base`: only the first
line of the snippet shares a line with what stands before it. -/
def offsetBy (p base : Position) : Position :=
  if p.line = 1 then ⟨base.line, base.column + p.column - 1⟩
  else ⟨base.line + p.line - 1, p.column⟩

/-- What machine words keep of a position, 32 bits of the line and 64 bits of the column: the sums
of a move wrap around. -/
def stored (p : Position) : Position := ⟨p.line % Nat.pow 2 32, p.column % Nat.pow 2 64⟩

/-- Whether machine words keep all of a position. -/
def Fits (p : Position) : Prop := p.line < Nat.pow 2 32 ∧ p.column < Nat.pow 2 64

instance (p : Position) : Decidable p.Fits := inferInstanceAs (Decidable (_ ∧ _))

@[simp] theorem stored_stored (p : Position) : p.stored.stored = p.stored := by
  simp [stored]

/-- Text order: by line, then by column. -/
def le (p q : Position) : Bool :=
  p.line < q.line || (p.line == q.line && p.column ≤ q.column)

/-- Comparison in text order. -/
def compare (p q : Position) : Ordering :=
  (Ord.compare p.line q.line).then (Ord.compare p.column q.column)

/-- The earlier of two positions. -/
def min (p q : Position) : Position := if q.le p then q else p

/-- The later of two positions. -/
def max (p q : Position) : Position := if p.le q then q else p

/-- The position after one more character: a line feed opens the next line. -/
def advance (p : Position) (c : Char) : Position :=
  if c = '\n' then ⟨p.line + 1, 1⟩ else ⟨p.line, p.column + 1⟩

/-- The position after a run of characters. -/
def advanceAll (p : Position) (cs : List Char) : Position := cs.foldl advance p

@[simp] theorem advanceAll_cons (p : Position) (c : Char) (cs : List Char) :
    p.advanceAll (c :: cs) = (p.advance c).advanceAll cs := rfl

theorem advanceAll_append (p : Position) (cs ds : List Char) :
    p.advanceAll (cs ++ ds) = (p.advanceAll cs).advanceAll ds := by
  simp [advanceAll]

end Position

/-- A stretch of text from `start` up to, not including, `stop`. -/
structure Range where
  start : Position
  stop : Position
  deriving DecidableEq, Repr, Inhabited

namespace Range

/-- The empty range at the start of a text. -/
def initial : Range := ⟨Position.start, Position.start⟩

/-- A range of a snippet, moved to where the snippet starts in its text. -/
def offsetBy (r : Range) (base : Position) : Range :=
  ⟨r.start.offsetBy base, r.stop.offsetBy base⟩

/-- What machine words keep of a range. -/
def stored (r : Range) : Range := ⟨r.start.stored, r.stop.stored⟩

/-- Whether a position lies in a range, both ends included. -/
def contains (r : Range) (p : Position) : Bool := r.start.le p && p.le r.stop

/-- The smallest range over both. -/
def join (r s : Range) : Range := ⟨r.start.min s.start, r.stop.max s.stop⟩

/-- Comparison by start, then by end. -/
def compare (r s : Range) : Ordering :=
  (r.start.compare s.start).then (r.stop.compare s.stop)

end Range

/-- A stretch of a text in bytes of its UTF-8 form. -/
structure ByteSpan where
  offset : Nat
  length : Nat
  deriving DecidableEq, Repr, Inhabited

namespace ByteSpan

/-- The bytes walked over before line and column are both reached, `at` being the position of the
first character left. A position past the end of a line is found only further on, where line and
column are both large enough. -/
def walk (wanted : Position) : Position → List Char → Nat
  | _, [] => 0
  | here, c :: cs =>
    if wanted.line ≤ here.line && wanted.column ≤ here.column then 0
    else c.utf8Size + walk wanted (here.advance c) cs

/-- The byte offset of a position in a text. -/
def offsetOf (source : String) (p : Position) : Nat := walk p Position.start source.toList

/-- The bytes that a range covers; a span is never empty. -/
def ofRange (source : String) (r : Range) : ByteSpan :=
  let first := offsetOf source r.start
  ⟨first, Nat.max (offsetOf source r.stop - first) 1⟩

/-- The whole of a text; a span is never empty. -/
def whole (source : String) : ByteSpan := ⟨0, Nat.max source.utf8ByteSize 1⟩

end ByteSpan

end ReactiveMarkup
