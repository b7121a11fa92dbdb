import ReactiveMarkup.Proofs.Graph.Aloof
import ReactiveMarkup.Proofs.Graph.Operation

/-!
# Values that nothing writes on the way

A read or write may assign values on the way, by expressions and handlers. To tell that certain values
are not among these, a run is compared to one that leaves such assignments out. Where both do the same,
nothing but the operations themselves writes the values.

What a cell shows is changed by a revision of that cell only. Making links, marking and other cells have
nothing to do with it, and a cell that is gone does not come back.

Main definitions: `Graph.sparing`, `Graph.apart`, `Graph.Spares`, `Graph.Holding`.
Main results: `Graph.within_sparing_agree`, `Graph.Routine.spared_agree_of_refresh`,
`Graph.holding_routine`, `Graph.gone_regimen`.
-/
namespace ReactiveMarkup

namespace Reentry

/-- Reading and assigning with a way to read and assign within. -/
def within (r : Option Reentry) : Reentry := ⟨Graph.pullWith r, Graph.assignWith r⟩

/-- Reading and assigning that leaves some values unassigned. -/
def without (ids : List ValueId) (r : Reentry) : Reentry where
  pull := r.pull
  assign id v := if id ∈ ids then pure () else r.assign id v

theorem Agree.without {I : Graph → Prop} {r : Reentry} (h : Agree I r r) (ids : List ValueId) :
    Agree I (r.without ids) (r.without ids) where
  pull := h.pull
  assign id v := by
    dsimp only [Reentry.without]
    split
    · exact .pure _
    · exact h.assign id v

end Reentry

namespace Graph

/-! ## Leaving assignments out -/

/-- What may be used within a read or write, with at most `remaining` of them within each other, if
these values are left unassigned. -/
def sparing (ids : List ValueId) : (remaining : Nat) → Option Reentry
  | 0 => none
  | remaining + 1 => some ((Reentry.within (sparing ids remaining)).without ids)

/-- Reading and assigning within a read or write, with at most `remaining` of them within each other, if
these values are left unassigned. -/
def spared (ids : List ValueId) (remaining : Nat) : Reentry :=
  (Reentry.within (sparing ids remaining)).without ids

/-- Reading and assigning as deep as the settings allow. Within another read or write, these values are
left unassigned. -/
def apart (ids : List ValueId) (g : Graph) : Reentry :=
  .within (sparing ids (g.options.maxDepth - g.depth))

/-- Operations one after the other, each of which does the same if these values are left unassigned
within other reads and writes. -/
def Spares (ids : List ValueId) : List Operation → Graph → Prop
  | [], _ => True
  | op :: ops, g => (op.runWith (apart ids)).run g = op.run.run g ∧ Spares ids ops (op.run.run g).2

/-- If no value is left unassigned, all is read and assigned. -/
theorem spared_nil (remaining : Nat) : spared [] remaining = ⟨pull remaining, assign remaining⟩ := by
  have hwithout (r : Reentry) : r.without [] = r := rfl
  induction remaining with
  | zero => rfl
  | succ remaining ih =>
    have hsparing : sparing [] (remaining + 1) = some ⟨pull remaining, assign remaining⟩ := by
      rw [← ih]
      rfl
    rw [spared, hsparing, hwithout]
    rfl

section

variable {ι : Type} {inner : ι → ι} {K : ValueKind → Prop} {I : ι → Graph → Prop}

/-- What every kind of step keeps is kept if some values are left unassigned. -/
theorem within_sparing_agree (hI : Regimen inner K I) (hII : Enters I I) (ids : List ValueId)
    (remaining : Nat) (i : ι) :
    Reentry.Agree (I i) (.within (sparing ids remaining)) (.within (sparing ids remaining)) := by
  induction remaining generalizing i with
  | zero => exact hI.without_agree i
  | succ remaining ih => exact hI.with_agree hI hII (fun i => (ih i).without ids) i

theorem spared_agree (hI : Regimen inner K I) (hII : Enters I I) (ids : List ValueId)
    (remaining : Nat) (i : ι) : Reentry.Agree (I i) (spared ids remaining) (spared ids remaining) :=
  (within_sparing_agree hI hII ids remaining i).without ids

/-- Reading and assigning keep what every kind of step keeps, if evaluating a value does that is marked as
evaluated from now on, and marking one that may not be evaluated. -/
theorem Routine.spared_agree_of_refresh (hI : Routine inner K I) (hII : Enters I I) {ids : List ValueId}
    (hrevises : ∀ id ∉ ids, Revises I id)
    (hrefused : ∀ {i g id c}, I i g → g.values.get? id = some c → c.evaluated ≠ some g.cycle →
      I i ((g.marked id).refused ((g.marked id).nameOf id)))
    (hrefresh : ∀ {remaining i g id c},
      (∀ i, Reentry.Agree (I i) (spared ids remaining) (spared ids remaining)) →
      I i g → g.values.get? id = some c → c.evaluated ≠ some g.cycle →
      I i ((refresh (spared ids remaining) id c.evaluated.isNone).run
        { g.marked id with depth := g.depth + 1 }).2) (remaining : Nat) (i : ι) :
    Reentry.Agree (I i) (spared ids remaining) (spared ids remaining) := by
  have hpull {r : Option Reentry} {i : ι} (hentering : ∀ {g id c}, I i g → g.values.get? id = some c →
      c.evaluated ≠ some g.cycle →
      I i ((entering r id fun r => refresh r id c.evaluated.isNone).run (g.marked id)).2)
      (id : ValueId) : Agree (I i) (pullWith r id) (pullWith r id) := by
    refine Keeps.agree fun g hg => ?_
    rw [pullWith, run_get_bind]
    cases hc : g.values.get? id with
    | none => exact hg
    | some c =>
      dsimp only
      split
      · exact hg
      · rename_i hmark
        exact hentering hg hc hmark
  have hassign {r : Option Reentry} {i : ι} (hentering : ∀ id ∉ ids, ∀ (v : Value) (cell : Cell),
      Agree (I i)
        (entering r id fun r => do
          let changed ← commit r id v false
          if changed && !cell.observers.isEmpty then announce r id)
        (entering r id fun r => do
          let changed ← commit r id v false
          if changed && !cell.observers.isEmpty then announce r id)) (id : ValueId) (v : Value) :
      Agree (I i) (((Reentry.within r).without ids).assign id v)
        (((Reentry.within r).without ids).assign id v) := by
    dsimp only [Reentry.without]
    split
    · exact .pure _
    · rename_i hid
      exact assignWith_agree_of_entering (hrevises id hid) v i (hentering id hid v)
  induction remaining generalizing i with
  | zero =>
    refine ⟨hpull fun hg hc hmark => hrefused hg hc hmark, hassign fun id _ _ _ => ?_⟩
    exact (hI.entering_none_keeps id _ i).agree
  | succ remaining ih =>
    refine ⟨hpull fun hg hc hmark => hII.left (hrefresh ih hg hc hmark), hassign fun id hid v cell => ?_⟩
    exact entering_agree hII id (hI.assigned_agree ih (hrevises id hid) v cell i)

end

end Graph

/-! ## What a cell shows -/

/-- A cell that was evaluated if it was before, and has other links at most. -/
structure Cell.Kept (c c' : Cell) : Prop where
  eq : c' = { c with
    evaluated := c'.evaluated, observers := c'.observers, observing := c'.observing }
  evaluated : c.evaluated.isSome → c'.evaluated.isSome

theorem Cell.Kept.relinked {c : Cell} {observers observing : List ValueId} :
    Cell.Kept c { c with observers, observing } := ⟨rfl, fun h => h⟩

theorem Cell.Kept.marked {c : Cell} {cycle : Nat} : Cell.Kept c { c with evaluated := some cycle } :=
  ⟨rfl, fun _ => rfl⟩

namespace Graph

variable {id : ValueId} {q : Cell → Prop} {g g' : Graph}

/-- A cell that was built satisfies `q` as long as it is live. -/
structure Holding (id : ValueId) (q : Cell → Prop) (g : Graph) : Prop where
  built : id.serial < g.values.next
  cell : ∀ c, g.values.get? id = some c → q c

namespace Holding

theorem of_values (h : Holding id q g) (hvalues : g'.values = g.values) : Holding id q g' :=
  ⟨hvalues ▸ h.built, hvalues ▸ h.cell⟩

theorem of_get? {c : Cell} (hc : g.values.get? id = some c) (h : q c) : Holding id q g where
  built := Slots.serial_lt hc
  cell d hd := by
    obtain rfl := Option.some.inj (hc.symm.trans hd)
    exact h

/-- A cell that is not live is gone for good. -/
theorem gone (h : Holding id q g) (hnone : g.values.get? id = none) :
    Holding id (fun _ => False) g := by
  refine ⟨h.built, fun c hc => ?_⟩
  rw [hnone] at hc
  cases hc

theorem insert (h : Holding id q g) (c : Cell) :
    Holding id q { g with values := (g.values.insert c).2 } := by
  refine ⟨?_, fun d hd => ?_⟩
  · change id.serial < (g.values.insert c).2.next
    rw [Slots.next_insert]
    exact Nat.lt_succ_of_lt h.built
  · rw [Slots.get?_insert, if_neg] at hd
    · exact h.cell d hd
    · rintro hid
      have hlt := h.built
      rw [hid, Slots.insert_serial] at hlt
      exact Nat.lt_irrefl _ hlt

/-- The cell itself is changed. -/
theorem revise {q' : Cell → Prop} (h : Holding id q g) {f : Cell → Cell} (hf : ∀ c, q c → q' (f c)) :
    Holding id q' { g with values := g.values.modify id f } := by
  refine ⟨h.built, fun d hd => ?_⟩
  rw [Slots.get?_modify, if_pos rfl] at hd
  obtain ⟨c, hc, rfl⟩ := Option.map_eq_some_iff.1 hd
  exact hf c (h.cell c hc)

/-- Another cell is changed. -/
theorem modify_of_ne (h : Holding id q g) {v : ValueId} (hv : id ≠ v) (f : Cell → Cell) :
    Holding id q { g with values := g.values.modify v f } := by
  refine ⟨h.built, fun d hd => ?_⟩
  rw [Slots.get?_modify, if_neg hv] at hd
  exact h.cell d hd

theorem modify (h : Holding id q g) (v : ValueId) {f : Cell → Cell} (hf : ∀ c, q c → q (f c)) :
    Holding id q { g with values := g.values.modify v f } := by
  by_cases hv : id = v
  · subst hv
    exact h.revise hf
  · exact h.modify_of_ne hv f

theorem erase (h : Holding id q g) (v : ValueId) :
    Holding id q { g with values := g.values.erase v } := by
  refine ⟨?_, fun d hd => ?_⟩
  · change id.serial < (g.values.erase v).next
    rw [Slots.next_erase]
    exact h.built
  · rw [Slots.get?_erase] at hd
    split at hd
    · cases hd
    · exact h.cell d hd

/-- Building and removing leave alone what does not depend on the links of a cell. -/
theorem aloof (hq : ∀ {c : Cell} {observers observing}, q c → q { c with observers, observing }) :
    Aloof (Holding id q) where
  of_aside h haside := h.of_values haside.values
  inserted h _ _ := h.insert _
  relinked h hf := h.modify _ fun c hc => by
    rw [(hf c).eq]
    exact hq hc
  erased v h := h.erase v

end Holding

/-- So does every kind of step but a revision of the cell and its mark. -/
theorem holding_routine
    (hq : ∀ {c : Cell} {observers observing}, q c → q { c with observers, observing }) :
    Routine (ι := Unit) (fun i => i) (fun _ => True) fun _ => Holding id q :=
  Upheld.routine (fun _ => (Holding.aloof hq).toUpheld) (·.of_values rfl) (·.of_values rfl)
    (fun h _ => h.of_values rfl) fun _ _ _ h => h.of_values rfl

/-- Marking leaves alone what a cell shows. -/
theorem Holding.marked (hq : ∀ {c c'}, q c → Cell.Kept c c' → q c') (h : Holding id q g) (v : ValueId) :
    Holding id q (g.marked v) :=
  h.modify v fun _ hc => hq hc .marked

/-- A value that is gone does not come back. -/
theorem gone_regimen : Regimen (ι := Unit) (fun i => i) (fun _ => True)
    fun _ => Holding id fun _ => False where
  toRoutine := holding_routine fun h => h
  revised h _ := h.modify _ fun _ hc => hc
  noted _ h := h.of_values rfl

end Graph

end ReactiveMarkup
