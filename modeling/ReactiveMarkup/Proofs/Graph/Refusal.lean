import ReactiveMarkup.Proofs.Graph.Cycle

/-!
# What a refused read or write leaves behind

A read marks the value and a write drops its expression before the limit is asked for. So a step that
is refused is not without effect: a value that could not be read counts as evaluated, for the rest of
the cycle and as far as first evaluations go, and one that could not be assigned has lost its
expression for good. Nothing but a diagnostic is added otherwise.

Main results: `Graph.run_pull_refused`, `Graph.run_assign_refused`, `Graph.refusal_lasts`.
-/
namespace ReactiveMarkup.Graph

variable {g g' : Graph} {id : ValueId} {c c' : Cell}

/-- Where as much is under way as may be, nothing more is entered. -/
theorem reentry_of_not_mayEnter (h : g.mayEnter = false) : g.reentry = ⟨pull 0, assign 0⟩ := by
  have hle : g.options.maxDepth ≤ g.depth := by simpa [mayEnter] using h
  rw [reentry, Nat.sub_eq_zero_of_le hle]

theorem nameOf_eq (hc : g.values.get? id = some c) : g.nameOf id = c.template.name := by
  rw [nameOf, hc]
  rfl

theorem get?_sourced (hc : g.values.get? id = some c) : (g.sourced id c).values.get? id =
    some (if c.template.kind.isHandler then c else { c with compute := none }) := by
  rw [sourced]
  split
  · exact hc
  · rw [Slots.get?_modify, if_pos rfl, hc]
    rfl

/-- A read that is refused gives the output as it was, but marks the value. -/
theorem run_pull_refused (hfull : g.mayEnter = false) (hc : g.values.get? id = some c) :
    (g.reentry.pull id).run g = (c.output,
      if c.evaluated = some g.cycle then g else (g.marked id).refused c.template.name) := by
  rw [reentry_of_not_mayEnter hfull]
  change (pullWith none id).run g = _
  rw [pullWith, run_get_bind, hc]
  dsimp only
  split
  · rfl
  · have hmarked := get?_marked hc
    have hname : (g.marked id).nameOf id = c.template.name := by rw [nameOf_eq hmarked]
    have houtput : (g.marked id).output? id = some c.output := by
      rw [output?, hmarked]
      rfl
    change (((g.marked id).output? id).getD .undefined,
      (g.marked id).refused ((g.marked id).nameOf id)) = _
    rw [hname, houtput, Option.getD_some]

/-- A write that is refused stores nothing, but drops the expression, unless the value is a handler. -/
theorem run_assign_refused (hfull : g.mayEnter = false) (hc : g.values.get? id = some c) (v : Value) :
    ((g.reentry.assign id v).run g).2 = (g.sourced id c).refused c.template.name := by
  have hname : (g.sourced id c).nameOf id = c.template.name := by
    rw [nameOf_eq (get?_sourced hc)]
    split <;> rfl
  rw [reentry_of_not_mayEnter hfull]
  change ((assign 0 id v).run g).2 = _
  rw [run_assign, hc]
  change ((entering none id _).run (g.sourced id c)).2 = _
  rw [run_entering_none, hname]

/-- A value that was evaluated in the cycle is only looked at. -/
theorem run_pull_of_evaluated (remaining : Nat) (hc : g.values.get? id = some c)
    (hmark : c.evaluated = some g.cycle) : (pull remaining id).run g = (c.output, g) := by
  rw [pull_eq, pullWith, run_get_bind, hc]
  dsimp only
  rw [if_pos hmark]
  rfl

/-- Later on, a mark is only replaced by that of a later cycle. -/
theorem Later.evaluated_of_eq (hlater : Later g g') (hc : g.values.get? id = some c)
    (hmark : c.evaluated = some g.cycle) (hc' : g'.values.get? id = some c') :
    c'.evaluated ≠ none ∧ (Timely g' → g'.cycle = g.cycle → c'.evaluated = some g'.cycle) := by
  obtain ⟨m, hm, hle⟩ : c'.EvaluatedSince g.cycle :=
    hlater.evaluatedSince hc hc' ⟨_, hmark, Nat.le_refl _⟩ (Nat.le_refl _)
  refine ⟨by simp [hm], fun htimely hcycle => ?_⟩
  have hge := htimely.evaluated id c' m hc' hm
  rw [hm, Nat.le_antisymm hge (hcycle ▸ hle)]

/-- A refused step leaves its traces. Take any graph in which as many reads and writes are under way as
its settings allow, and a value of it.

A read of the value gives the output as it was. Unless the value was evaluated in the cycle, this is
reported, and the value is marked with the cycle like one that was evaluated: in no later graph is its
evaluation the first, and in those of the same cycle a read gives the output and does nothing else,
however few reads and writes are under way there.

A write to it is reported and stores nothing, but the value loses its expression, unless it is a
handler, and has none in any later graph.

Nothing else is changed by either. -/
theorem refusal_lasts (hfull : g.mayEnter = false) (hc : g.values.get? id = some c) :
    (g.reentry.pull id).run g = (c.output,
      if c.evaluated = some g.cycle then g else (g.marked id).refused c.template.name) ∧
    (∀ g' c', Later ((g.reentry.pull id).run g).2 g' → g'.values.get? id = some c' →
      c'.evaluated ≠ none ∧ (Timely g' → g'.cycle = g.cycle →
        ∀ remaining, (pull remaining id).run g' = (c'.output, g'))) ∧
    ∀ v, ((g.reentry.assign id v).run g).2 = (g.sourced id c).refused c.template.name ∧
      (c.template.kind.isHandler = false →
        ∀ g' c', Later ((g.reentry.assign id v).run g).2 g' → g'.values.get? id = some c' →
          c'.compute = none) := by
  have hread := run_pull_refused hfull hc
  refine ⟨hread, fun g' c' hlater hc' => ?_, fun v => ?_⟩
  · obtain ⟨d, hd, hmark, hcycle⟩ : ∃ d, ((g.reentry.pull id).run g).2.values.get? id = some d ∧
        d.evaluated = some g.cycle ∧ ((g.reentry.pull id).run g).2.cycle = g.cycle := by
      rw [hread]
      dsimp only
      split
      · rename_i hmark
        exact ⟨c, hc, hmark, rfl⟩
      · exact ⟨_, get?_marked hc, rfl, rfl⟩
    obtain ⟨hnone, hsame⟩ := hlater.evaluated_of_eq hd (hcycle.symm ▸ hmark) hc'
    exact ⟨hnone, fun htimely heq remaining =>
      run_pull_of_evaluated remaining hc' (hsame htimely (heq.trans hcycle.symm))⟩
  · have hwrite := run_assign_refused hfull hc v
    refine ⟨hwrite, fun hkind g' c' hlater hc' => ?_⟩
    have hbare : ((g.reentry.assign id v).run g).2.values.get? id = some { c with compute := none } := by
      have hsourced := get?_sourced hc
      rw [hkind] at hsourced
      rw [hwrite]
      exact hsourced
    exact (hlater.compute id _ c' hbare hc').elim (·) (·)

/-- A value that is read and written while another one is brought up to date, one level too deep. -/
theorem refusal_lasts_beside :
    let d := Document.ofMarkup [.element "div" [(":a", "[[1]]"), (":b", "[[a + 1]]")] []]
    let k := d.compile .standard none
    let mounted := (Operation.mount.run.run
      (ofProgram k.program { GraphOptions.standard with maxDepth := 1 } (.ofDocument k.document))).2
    -- a write of `a` has begun a cycle and is under way
    let g := { mounted with depth := 1, cycle := mounted.cycle + 1 }
    ∃ id c, g.lookup? ⟨0, 0⟩ "b" = some id ∧ g.values.get? id = some c ∧ g.mayEnter = false ∧
      c.evaluated ≠ some g.cycle ∧ c.compute.isSome ∧
      (g.reentry.pull id).run g = (c.output, (g.marked id).refused "b") ∧
      ((g.reentry.assign id (.number 5)).run g).2 = (g.sourced id c).refused "b" ∧
      ∀ g' c', Later ((g.reentry.assign id (.number 5)).run g).2 g' →
        g'.values.get? id = some c' → c'.compute = none := by
  intro d k mounted g
  have hfound : ((g.lookup? ⟨0, 0⟩ "b").bind g.values.get?).any (fun c =>
      c.evaluated != some g.cycle && c.compute.isSome && c.template.name == "b" &&
        !c.template.kind.isHandler) = true := by decide +kernel
  obtain ⟨c, hc, hcell⟩ := (Option.any_eq_true ..).1 hfound
  obtain ⟨id, hid, hc⟩ := Option.bind_eq_some_iff.1 hc
  simp only [Bool.and_eq_true, bne_iff_ne, beq_iff_eq, Bool.not_eq_true'] at hcell
  obtain ⟨⟨⟨hmark, hcompute⟩, hname⟩, hkind⟩ := hcell
  have hfull : g.mayEnter = false := by decide +kernel
  obtain ⟨hread, -, hwrite⟩ := refusal_lasts hfull hc
  rw [if_neg hmark, hname] at hread
  obtain ⟨hwritten, hbare⟩ := hwrite (.number 5)
  rw [hname] at hwritten
  exact ⟨id, c, hid, hc, hfull, hmark, hcompute, hread, hwritten, hbare hkind⟩

/-- A handler that may not assign a value stops it from following what it was made from. -/
example :
    let d := Document.ofFragment
      "<div :x='[[0]]' :z='[[1]]' :y='[[z + 1]]' :handle-x='[[y = 5]]'></div>"
    let k := d.compile .standard none
    let after (operations : List Operation) := ((operations.forM Operation.run).run
      (ofProgram k.program { GraphOptions.standard with maxDepth := 2 } (.ofDocument k.document))).2
    let shown (g : Graph) (name : String) := ((g.lookup? ⟨0, 0⟩ name).bind g.output?).map Value.toText
    let stopped := after [.mount, .write ⟨0, 0⟩ "x" (.number 1), .write ⟨0, 0⟩ "z" (.number 10)]
    shown stopped "y" = some "2" ∧
      shown (after [.mount, .write ⟨0, 0⟩ "z" (.number 10)]) "y" = some "11" := by
  decide +kernel

end ReactiveMarkup.Graph
