import ReactiveMarkup.Proofs.Graph.Aloof
import ReactiveMarkup.Proofs.Graph.Operation

/-!
# The limit on nested reads and writes

A graph counts the reads and writes that are under way within each other, and refuses one more when
they are as many as its settings allow. Reading and assigning are defined by how many more there may
be; here they are compared to reading and assigning that nothing but the count ends.

Main definitions: `Graph.Under`, `Graph.guarded`.
Main results: `Graph.guarded_agree`, `Graph.run_operations`.
-/
namespace ReactiveMarkup.Graph

variable {α β : Type}

/-- A graph with these settings, in which this much is under way. -/
structure Under (o : GraphOptions) (depth pushLevel : Nat) (g : Graph) : Prop where
  options : g.options = o
  depth : g.depth = depth
  pushLevel : g.pushLevel = pushLevel

namespace Under

variable {o : GraphOptions} {d k : Nat}

theorem aloof (o : GraphOptions) (d k : Nat) : Aloof (Under o d k) :=
  .of_any fun h haside =>
    ⟨haside.options.trans h.options, haside.depth.trans h.depth, haside.pushLevel.trans h.pushLevel⟩

/-- No kind of step but pushing changes how much is under way. -/
theorem discipline (o : GraphOptions) (d : Nat) :
    Discipline (· + 1) (fun _ => True) (Under o d) := by
  refine Aloof.discipline (aloof o d) (fun h => ?_) (fun h => ?_) (fun h _ => ?_) fun h _ => ?_
  · exact ⟨h.options, h.depth, congrArg (· + 1) h.pushLevel⟩
  · exact ⟨h.options, h.depth, by simp [h.pushLevel]⟩
  · exact ⟨h.options, h.depth, h.pushLevel⟩
  · exact ⟨h.options, h.depth, h.pushLevel⟩

theorem enters (o : GraphOptions) (d : Nat) : Enters (Under o d) (Under o (d + 1)) where
  entered h := ⟨h.options, congrArg (· + 1) h.depth, h.pushLevel⟩
  left h := ⟨h.options, by simp [h.depth], h.pushLevel⟩

end Under

/-! ## The guard -/

/-- Whether a further read or write may be entered. -/
def mayEnter (g : Graph) : Bool := g.depth < g.options.maxDepth

/-- Reading and assigning with nothing but the count of what is under way to end it. As many as
`frames` reads and writes are entered within each other; a further one that the count admits is up
to `beyond`. -/
def guarded (beyond : Reentry) : (frames : Nat) → Reentry
  | 0 =>
    { pull := fun id => do if (← get).mayEnter then beyond.pull id else pullWith none id
      assign := fun id v => do if (← get).mayEnter then beyond.assign id v else assignWith none id v }
  | frames + 1 =>
    let r := guarded beyond frames
    { pull := fun id => do if (← get).mayEnter then pullWith (some r) id else pullWith none id
      assign := fun id v => do
        if (← get).mayEnter then assignWith (some r) id v else assignWith none id v }

theorem mayEnter_eq {o : GraphOptions} {d k : Nat} {g : Graph} (h : Under o d k g) :
    g.mayEnter = decide (d < o.maxDepth) := by
  rw [mayEnter, h.depth, h.options]

/-- Where as many frames are given as may still be entered, the guard alone ends reading and
assigning, and nothing is left beyond. How much is under way is the same afterwards. -/
theorem guarded_agree (beyond : Reentry) (o : GraphOptions) (remaining : Nat) :
    ∀ {d frames : Nat}, o.maxDepth - d = remaining → remaining ≤ frames → ∀ k,
      Reentry.Agree (Under o d k) (guarded beyond frames) ⟨pull remaining, assign remaining⟩ := by
  induction remaining with
  | zero =>
    intro d frames hd _ k
    have hrefused : ∀ {g : Graph}, Under o d k g → g.mayEnter = false := fun h => by
      rw [mayEnter_eq h, decide_eq_false]
      omega
    obtain ⟨hpull, hassign⟩ := (Under.discipline o d).without_agree k
    refine ⟨fun id g hg => ?_, fun id v g hg => ?_⟩
    · have hrun : ((guarded beyond frames).pull id).run g = (pullWith none id).run g := by
        cases frames <;> simp only [guarded, run_get_bind, hrefused hg] <;> rfl
      rw [hrun]
      exact hpull id g hg
    · have hrun : ((guarded beyond frames).assign id v).run g = (assignWith none id v).run g := by
        cases frames <;> simp only [guarded, run_get_bind, hrefused hg] <;> rfl
      rw [hrun]
      exact hassign id v g hg
  | succ remaining ih =>
    intro d frames hd hframes k
    obtain ⟨frames, rfl⟩ : ∃ n, frames = n + 1 := ⟨frames - 1, by omega⟩
    have hadmitted : ∀ {g : Graph}, Under o d k g → g.mayEnter = true := fun h => by
      rw [mayEnter_eq h, decide_eq_true]
      omega
    obtain ⟨hpull, hassign⟩ := (Under.discipline o d).with_agree (Under.discipline o (d + 1)).toRegimen
      (Under.enters o d) (ih (by omega) (by omega : remaining ≤ frames)) k
    refine ⟨fun id g hg => ?_, fun id v g hg => ?_⟩
    · have hrun : ((guarded beyond (frames + 1)).pull id).run g =
          (pullWith (some (guarded beyond frames)) id).run g := by
        simp only [guarded, run_get_bind, hadmitted hg]
        rfl
      rw [hrun]
      exact hpull id g hg
    · have hrun : ((guarded beyond (frames + 1)).assign id v).run g =
          (assignWith (some (guarded beyond frames)) id v).run g := by
        simp only [guarded, run_get_bind, hadmitted hg]
        rfl
      rw [hrun]
      exact hassign id v g hg

/-! ## Runs -/

/-- Reading and assigning that the guard alone ends do the same in every operation, and nothing is
under way afterwards. -/
theorem guarded_operation_agree (beyond : Reentry) {o : GraphOptions} {frames : Nat}
    (hframes : o.maxDepth ≤ frames) (op : Operation) :
    Agree (Under o 0 0) (op.runWith fun _ => guarded beyond frames) op.run := by
  have hentry : ∀ i g, Under o 0 i g → ∀ j,
      Reentry.Agree (Under o 0 j) (guarded beyond frames) g.reentry := by
    intro i g hg j
    rw [reentry, hg.options, hg.depth]
    exact guarded_agree beyond o _ rfl (by omega) j
  have hbegin {g : Graph} (h : Under o 0 0 g) : Under o 0 0 { g with cycle := g.cycle + 1 } :=
    ⟨h.options, h.depth, h.pushLevel⟩
  have hI := Under.discipline o 0
  refine hI.operation_agree hentry hbegin (Under.aloof o 0 0).linked_keeps fun _ => ?_
  exact hI.mountWith_agree (fun i g hg j => hentry i g hg _) hbegin fun {g t node} hg _ _ => (Under.aloof o 0 0).built hg t node

/-- Operations leave the settings alone. -/
theorem Under.run_keeps {o : GraphOptions} (operations : List Operation) :
    Keeps (Under o 0 0) (operations.forM Operation.run) := by
  refine .forM fun op _ g hg => ?_
  obtain ⟨heq, hkept⟩ := guarded_operation_agree g.reentry (Nat.le_refl _) op g hg
  rw [← heq]
  exact hkept

/-- Propagation ends within the limit on nested reads and writes. Take any program, settings and
host, and any operations one after the other. When all have returned, no read or write and no push
is under way. No more than `maxDepth` reads and writes were entered within each other at any time:
if nothing but the guard on the count of those under way ends reading and assigning, the operations
do the same, however many frames there are and whatever reading and assigning do beyond them. -/
theorem run_operations (program : Program) (options : GraphOptions) (host : Host)
    (operations : List Operation) :
    let g := ofProgram program options host
    let g' := ((operations.forM Operation.run).run g).2
    g'.depth = 0 ∧ g'.pushLevel = 0 ∧ ∀ (beyond : Reentry) (more : Nat),
      let entry := fun _ => guarded beyond (options.maxDepth + more)
      ((operations.forM (Operation.runWith entry)).run g).2 = g' := by
  intro g g'
  have hunder : Under options 0 0 g := ⟨rfl, rfl, rfl⟩
  have hagree (beyond : Reentry) (more : Nat) : Agree (Under options 0 0)
      (operations.forM (Operation.runWith fun _ => guarded beyond (options.maxDepth + more)))
      (operations.forM Operation.run) :=
    .forM fun op _ => guarded_operation_agree beyond (Nat.le_add_right _ _) op
  obtain ⟨heq, hkept⟩ := hagree g.reentry 0 g hunder
  rw [heq] at hkept
  refine ⟨hkept.depth, hkept.pushLevel, fun beyond more => ?_⟩
  dsimp only
  rw [(hagree beyond more g hunder).1]

end ReactiveMarkup.Graph
