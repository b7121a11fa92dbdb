import ReactiveMarkup.Proofs.Graph.Cycle
import ReactiveMarkup.Proofs.Graph.Requests
import ReactiveMarkup.Proofs.Graph.Sparing

/-!
# Runs of expressions

Every run of an expression is noted with the cycle in which it begins. A value is marked before it is
evaluated, and what bears the mark of the cycle is not evaluated again. So the expression of a value is
run at most once in a cycle, however it is reached and whatever else happens.

For a handler of changes this holds within steps that push. It is marked, waits for what it watches, and
only then is run; as long as no cycle begins in between, nothing else can get to run it. Reading from
outside does not push, and so a cycle may begin while a handler waits.

Main definitions: `Graph.Chronicle`, `Graph.Tracks`, `Graph.Steady`, `Graph.Settled`, `Graph.Pushes`,
`Graph.PushesAll`.
Main results: `Graph.Chronicle.reentry_agree`, `Graph.tracks_operation`, `Graph.tracks_operations`,
`Graph.run_once`.
-/
namespace ReactiveMarkup

/-- The value that an expression is run for, unless it handles an event. -/
def Runner.value? : Runner → Option ValueId
  | value id | handler id => some id
  | event => none

namespace Graph

variable {g g' : Graph} {id : ValueId} {n : Nat} {tracked : Runner → Prop} {base : List Run}
  {least : Nat} {i : Nat × List ValueId} {runner : Runner}

/-! ## Marks -/

/-- A mark of a cycle, or of one after it, stays one when cells are marked with the present cycle. -/
theorem Timely.holding_modify (h : Timely g) (hmark : Holding id (·.EvaluatedSince n) g) (v : ValueId)
    {f : Cell → Cell} (hf : ∀ c, (f c).evaluated = c.evaluated ∨ (f c).evaluated = some g.cycle) :
    Holding id (·.EvaluatedSince n) { g with values := g.values.modify v f } := by
  by_cases hn : n ≤ g.cycle
  · refine hmark.modify v fun c ⟨m, hm, hle⟩ => ?_
    exact (hf c).elim (fun heq => ⟨m, heq.trans hm, hle⟩) fun heq => ⟨g.cycle, heq, hn⟩
  · have hgone : Holding id (fun _ => False) g := ⟨hmark.built, fun c hc => by
      obtain ⟨m, hm, hle⟩ := hmark.cell c hc
      exact hn (Nat.le_trans hle (h.evaluated id c m hc hm))⟩
    have hgone' := hgone.modify v (f := f) fun _ h => h
    exact ⟨hgone'.built, fun c hc => (hgone'.cell c hc).elim⟩

/-- What was evaluated since the present cycle bears its mark. -/
theorem Timely.evaluated_eq (h : Timely g) (hmark : Holding id (·.EvaluatedSince g.cycle) g) {c : Cell}
    (hc : g.values.get? id = some c) : c.evaluated = some g.cycle := by
  obtain ⟨m, hm, hle⟩ := hmark.cell c hc
  rw [hm, Nat.le_antisymm (h.evaluated id c m hc hm) hle]

/-! ## What has been run -/

/-- A graph in which nobody that is `tracked` was run twice in one cycle since `base` was noted, whoever
was run is marked, and no run is of a cycle to come. The index tells how many steps are under way that push, beside `least`, and
which handlers wait: they are marked, and were not run yet. -/
structure Chronicle (tracked : Runner → Prop) (base : List Run) (least : Nat)
    (i : Nat × List ValueId) (g : Graph) : Prop where
  timely : Timely g
  pushLevel : g.pushLevel = i.1 + least
  past : ∀ run ∈ g.runs, run.cycle ≤ g.cycle
  once : ∀ run, tracked run.runner → g.runs.count run ≤ base.count run + 1
  mark : ∀ run id, tracked run.runner → run.runner.value? = some id →
    base.count run < g.runs.count run → Holding id (·.EvaluatedSince run.cycle) g
  waiting : ∀ id ∈ i.2, tracked (.handler id) ∧ Holding id (·.EvaluatedSince g.cycle) g ∧
    g.runs.count ⟨.handler id, g.cycle⟩ ≤ base.count ⟨.handler id, g.cycle⟩

namespace Chronicle

/-- Cells may change in what is not a mark. -/
theorem of_marks (h : Chronicle tracked base least i g) (htimely : Timely g')
    (hmarks : ∀ id n, Holding id (·.EvaluatedSince n) g → Holding id (·.EvaluatedSince n) g')
    (hcycle : g'.cycle = g.cycle) (hlevel : g'.pushLevel = g.pushLevel) (hruns : g'.runs = g.runs) :
    Chronicle tracked base least i g' where
  timely := htimely
  pushLevel := hlevel.trans h.pushLevel
  past := by
    rw [hcycle, hruns]
    exact h.past
  once := hruns ▸ h.once
  mark run id htracked hid hlt := hmarks id _ (h.mark run id htracked hid (hruns ▸ hlt))
  waiting id hid := by
    obtain ⟨htracked, hmark, hcount⟩ := h.waiting id hid
    rw [hcycle, hruns]
    exact ⟨htracked, hmarks id _ hmark, hcount⟩

theorem of_eq (h : Chronicle tracked base least i g) (hvalues : g'.values = g.values)
    (hcycle : g'.cycle = g.cycle) (hlevel : g'.pushLevel = g.pushLevel) (hruns : g'.runs = g.runs) :
    Chronicle tracked base least i g' :=
  h.of_marks (h.timely.of_eq (Nat.le_of_eq hcycle.symm) hvalues) (fun _ _ hm => hm.of_values hvalues)
    hcycle hlevel hruns

/-- Cells may be marked with the present cycle. -/
theorem modified (h : Chronicle tracked base least i g) (v : ValueId) {f : Cell → Cell}
    (hf : ∀ c, (f c).evaluated = c.evaluated ∨ (f c).evaluated = some g.cycle) :
    Chronicle tracked base least i { g with values := g.values.modify v f } :=
  h.of_marks (h.timely.modified v hf) (fun _ _ hm => h.timely.holding_modify hm v hf) rfl rfl rfl

theorem secluded (tracked : Runner → Prop) (base : List Run) (least : Nat) (i : Nat × List ValueId) :
    Secluded (Chronicle tracked base least i) where
  of_inward h hinward := h.of_eq hinward.values hinward.cycle hinward.pushLevel hinward.runs
  inserted h hmark hlinks :=
    h.of_marks (Timely.aloof.inserted h.timely hmark hlinks) (fun _ _ hm => hm.insert _) rfl rfl rfl
  relinked h hf := h.modified _ fun c => .inl (by rw [(hf c).eq])
  erased v h := h.of_marks (Timely.aloof.erased v h.timely) (fun _ _ hm => hm.erase v) rfl rfl rfl

/-- More steps push, or fewer. -/
theorem leveled {least' level : Nat} {j : Nat × List ValueId} (h : Chronicle tracked base least i g)
    (hlevel : level = j.1 + least') (hwaiting : j.2 = i.2) :
    Chronicle tracked base least' j { g with pushLevel := level } where
  timely := h.timely.of_eq (Nat.le_refl _) rfl
  pushLevel := hlevel
  past := h.past
  once := h.once
  mark run id htracked hid hlt := (h.mark run id htracked hid hlt).of_values rfl
  waiting id hid := by
    obtain ⟨htracked, hmark, hcount⟩ := h.waiting id (hwaiting ▸ hid)
    exact ⟨htracked, hmark.of_values rfl, hcount⟩

/-- A cycle begins while no handler waits. -/
theorem begun (h : Chronicle tracked base least (n, []) g) :
    Chronicle tracked base least (n, []) { g with cycle := g.cycle + 1 } where
  timely := h.timely.of_eq (Nat.le_succ _) rfl
  pushLevel := h.pushLevel
  past run hrun := Nat.le_succ_of_le (h.past run hrun)
  once := h.once
  mark run id htracked hid hlt := (h.mark run id htracked hid hlt).of_values rfl
  waiting _ hid := by cases hid

/-- Every kind of step keeps a chronicle but a run, if handlers are tracked within steps that push. -/
theorem routine (base : List Run) (hleast : ∀ id, tracked (.handler id) → least ≠ 0) :
    Routine (fun i => (i.1 + 1, i.2)) (fun _ => True) (Chronicle tracked base least) := by
  refine Upheld.routine (fun i => (secluded tracked base least i).toUpheld) (fun {i g} h => ?_)
    (fun {i g} h => ?_) (fun {i g} h hlevel => ?_) fun _ _ _ h => h.of_eq rfl rfl rfl rfl
  · exact h.leveled (by rw [h.pushLevel, Nat.add_right_comm]) rfl
  · exact h.leveled (by rw [h.pushLevel, Nat.add_right_comm, Nat.add_sub_cancel]) rfl
  · obtain ⟨level, waiting⟩ := i
    cases waiting with
    | nil => exact h.begun
    | cons id ids =>
      have hsome := hleast id (h.waiting id (List.mem_cons_self ..)).1
      have hsum := h.pushLevel
      omega

/-- Before the first operation nobody was run. -/
theorem ofProgram (tracked : Runner → Prop) (program : Program) (options : GraphOptions) (host : Host) :
    Chronicle tracked [] 0 (0, []) (ofProgram program options host) where
  timely := ⟨fun _ _ _ hc => by simp [Graph.ofProgram] at hc⟩
  pushLevel := rfl
  past _ hrun := by simp [Graph.ofProgram] at hrun
  once _ _ := Nat.zero_le _
  mark _ _ _ _ hlt := by simp [Graph.ofProgram] at hlt
  waiting _ hid := by cases hid

/-- What was run so far may be left out of account. -/
theorem anew (h : Chronicle tracked base least i g) (hlevel : g.pushLevel = 0)
    (tracked' : Runner → Prop) : Chronicle tracked' g.runs 0 (0, []) g where
  timely := h.timely
  pushLevel := hlevel
  past := h.past
  once _ _ := Nat.le_succ _
  mark _ _ _ _ hlt := absurd hlt (Nat.lt_irrefl _)
  waiting _ hid := by cases hid

theorem enters (tracked : Runner → Prop) (base : List Run) (least : Nat) :
    Enters (Chronicle tracked base least) (Chronicle tracked base least) :=
  ⟨(·.of_eq rfl rfl rfl rfl), (·.of_eq rfl rfl rfl rfl)⟩

theorem revises (tracked : Runner → Prop) (base : List Run) (least : Nat) (id : ValueId) :
    Revises (Chronicle tracked base least) id :=
  fun _ _ _ h hf => h.modified id fun c => (hf c).evaluated

/-! ## Runs -/

theorem count_noted_of_ne {run : Run} (h : run.runner ≠ runner) :
    (g.noted runner).runs.count run = g.runs.count run :=
  List.count_cons_of_ne fun heq => h (by rw [← heq])

/-- A run is noted in the present cycle. -/
theorem past_noted (h : Chronicle tracked base least i g) (runner : Runner) :
    ∀ run ∈ (g.noted runner).runs, run.cycle ≤ (g.noted runner).cycle :=
  List.forall_mem_cons.2 ⟨Nat.le_refl _, h.past⟩

/-- A run that is not tracked is noted. -/
theorem noted_of_untracked (h : Chronicle tracked base least i g) (hrunner : ¬ tracked runner) :
    Chronicle tracked base least i (g.noted runner) := by
  have hne {other : Runner} (hother : tracked other) : other ≠ runner := fun heq => hrunner (heq ▸ hother)
  refine ⟨h.timely.of_eq (Nat.le_refl _) rfl, h.pushLevel, h.past_noted _, fun run htracked => ?_,
    fun run id htracked hid hlt => ?_, fun id hid => ?_⟩
  · rw [count_noted_of_ne (hne htracked)]
    exact h.once run htracked
  · rw [count_noted_of_ne (hne htracked)] at hlt
    exact (h.mark run id htracked hid hlt).of_values rfl
  · obtain ⟨htracked, hmark, hcount⟩ := h.waiting id hid
    refine ⟨htracked, hmark.of_values rfl, ?_⟩
    rw [count_noted_of_ne (hne htracked)]
    exact hcount

/-- Whoever bears no mark of the cycle was not run in it. -/
theorem count_le (h : Chronicle tracked base least i g) (htracked : tracked runner)
    (hid : runner.value? = some id) {c : Cell} (hc : g.values.get? id = some c)
    (hmark : c.evaluated ≠ some g.cycle) :
    g.runs.count ⟨runner, g.cycle⟩ ≤ base.count ⟨runner, g.cycle⟩ := by
  by_contra hlt
  exact hmark (h.timely.evaluated_eq (h.mark _ id htracked hid (Nat.lt_of_not_le hlt)) hc)

/-- A run is noted of somebody who is marked, and was not run yet. -/
theorem noted (h : Chronicle tracked base least i g) (hid : runner.value? = some id)
    (hmark : Holding id (·.EvaluatedSince g.cycle) g)
    (hcount : g.runs.count ⟨runner, g.cycle⟩ ≤ base.count ⟨runner, g.cycle⟩)
    (hwaiting : ∀ id ∈ i.2, runner ≠ .handler id) :
    Chronicle tracked base least i (g.noted runner) := by
  have hcases (run : Run) : run = ⟨runner, g.cycle⟩ ∧
      (g.noted runner).runs.count run = g.runs.count ⟨runner, g.cycle⟩ + 1 ∨
      (g.noted runner).runs.count run = g.runs.count run := by
    by_cases heq : run = ⟨runner, g.cycle⟩
    · subst heq
      exact .inl ⟨rfl, List.count_cons_self⟩
    · exact .inr (List.count_cons_of_ne (Ne.symm heq))
  refine ⟨h.timely.of_eq (Nat.le_refl _) rfl, h.pushLevel, h.past_noted _, fun run htracked => ?_,
    fun run other htracked hother hlt => ?_, fun other hother => ?_⟩
  · rcases hcases run with ⟨rfl, hrun⟩ | hrun
    · omega
    · exact hrun ▸ h.once run htracked
  · rcases hcases run with ⟨rfl, -⟩ | hrun
    · obtain rfl := Option.some.inj (hid.symm.trans hother)
      exact hmark.of_values rfl
    · exact (h.mark run other htracked hother (hrun ▸ hlt)).of_values rfl
  · obtain ⟨htracked, hmark', hcount'⟩ := h.waiting other hother
    refine ⟨htracked, hmark'.of_values rfl, ?_⟩
    rw [count_noted_of_ne (hwaiting other hother).symm]
    exact hcount'

/-- A handler waits from when it is marked, if it was not run in the cycle. -/
theorem wait (h : Chronicle tracked base least i g) (htracked : tracked (.handler id))
    (hmark : Holding id (·.EvaluatedSince g.cycle) g)
    (hcount : g.runs.count ⟨.handler id, g.cycle⟩ ≤ base.count ⟨.handler id, g.cycle⟩) :
    Chronicle tracked base least (i.1, id :: i.2) g :=
  { h with
    waiting := fun other hother => (List.mem_cons.1 hother).elim
      (fun heq => heq ▸ ⟨htracked, hmark, hcount⟩) (h.waiting other) }

/-- A handler no longer waits, whether or not it is run. -/
theorem unwait (h : Chronicle tracked base least (i.1, id :: i.2) g) :
    Chronicle tracked base least i g :=
  { h with waiting := fun other hother => h.waiting other (List.mem_cons_of_mem _ hother) }

theorem noted_handler (h : Chronicle tracked base least (i.1, id :: i.2) g) (hid : id ∉ i.2) :
    Chronicle tracked base least i (g.noted (.handler id)) := by
  obtain ⟨-, hmark, hcount⟩ := h.waiting id (List.mem_cons_self ..)
  refine h.unwait.noted rfl hmark hcount fun other hother heq => hid ?_
  rwa [Runner.handler.inj heq]

end Chronicle

/-! ## Evaluation -/

/-- A handler reads what it watches, and then is run or not. -/
theorem runHandler_of {P Q : Graph → Prop} {r : Reentry} {cell : Cell}
    (hpull : ∀ w, Keeps P (r.pull w)) (hskip : ∀ {g}, P g → Q g)
    (hnoted : ∀ {g}, P g → Q (g.noted (.handler id)))
    (hattempt : ∀ body, Keeps Q (attempt r id cell.scope body)) (watched : ValuePath) (first : Bool)
    (hg : P g) : Q ((runHandler r id cell watched first).run g).2 := by
  have hhandled (current : Value) {g : Graph} (hg : P g) :
      Q ((handled r id cell first current).run g).2 := by
    unfold handled
    cases cell.compute with
    | none => exact hskip hg
    | some body =>
      dsimp only
      split
      · exact hattempt body _ (hnoted hg)
      · exact hskip hg
  unfold runHandler
  rw [run_get_bind]
  cases g.resolve? cell.scope watched with
  | some w => exact hhandled _ (hpull w g hg)
  | none => exact hhandled _ hg

namespace Chronicle

section

variable {r : Reentry} (hleast : ∀ id, tracked (.handler id) → least ≠ 0)
  (hr : ∀ i, Reentry.Agree (Chronicle tracked base least i) r r)
include hleast hr

theorem attempt_keeps (scope : ScopeId) (body : Expr) :
    Keeps (Chronicle tracked base least i) (attempt r id scope body) :=
  ((routine base hleast).attempt_agree hr id scope body i).keeps

/-- What is marked, and was not run in the cycle before, is evaluated. -/
theorem recompute_keeps (h : Chronicle tracked base least i g)
    (hmark : Holding id (·.EvaluatedSince g.cycle) g) (hwaiting : id ∉ i.2)
    (hcount : ∀ runner : Runner, tracked runner → runner.value? = some id →
      g.runs.count ⟨runner, g.cycle⟩ ≤ base.count ⟨runner, g.cycle⟩) (first : Bool) :
    Chronicle tracked base least i ((recompute r id first).run g).2 := by
  have hattempt (scope : ScopeId) (body : Expr) :
      Keeps (Chronicle tracked base least i) (attempt r id scope body) :=
    attempt_keeps hleast hr scope body
  rw [recompute, run_get_bind]
  cases g.values.get? id with
  | none => exact h
  | some cell =>
    dsimp only
    split
    · rename_i watched _
      change Chronicle tracked base least i ((runHandler r id cell watched first).run g).2
      by_cases htracked : tracked (.handler id)
      · exact runHandler_of (fun w => ((hr (i.1, id :: i.2)).pull w).keeps) unwait
          (fun h => h.noted_handler hwaiting) (hattempt _) watched first
          (h.wait htracked hmark (hcount _ htracked rfl))
      · exact runHandler_of (fun w => ((hr i).pull w).keeps) (fun h => h)
          (fun h => h.noted_of_untracked htracked) (hattempt _) watched first h
    · rename_i body _ _
      refine hattempt cell.scope body _ ?_
      by_cases htracked : tracked (.value id)
      · exact h.noted rfl hmark (hcount _ htracked rfl) fun _ _ heq => by cases heq
      · exact h.noted_of_untracked htracked
    · exact h

end

/-- Reading and assigning keep a chronicle, if handlers are tracked within steps that push. -/
theorem reentry_agree (base : List Run) (hleast : ∀ id, tracked (.handler id) → least ≠ 0)
    (remaining : Nat) (i : Nat × List ValueId) :
    Reentry.Agree (Chronicle tracked base least i) ⟨pull remaining, assign remaining⟩
      ⟨pull remaining, assign remaining⟩ := by
  have hI := routine base hleast
  rw [← spared_nil]
  refine hI.spared_agree_of_refresh (enters tracked base least) (fun id _ => revises tracked base least id)
    (fun {i g id c} h _ _ => ((revises tracked base least id).marks i g h).of_eq rfl rfl rfl rfl)
    (fun {remaining i g id c} hr h hc hmark => ?_) remaining i
  have hentered := (enters tracked base least).entered ((revises tracked base least id).marks i g h)
  have hmarked : Holding id (·.EvaluatedSince g.cycle) (g.marked id) :=
    Holding.revise (q := fun _ => True) (.of_get? hc trivial) fun _ _ => ⟨_, rfl, Nat.le_refl _⟩
  have hwaiting : id ∉ i.2 := fun hid =>
    hmark (h.timely.evaluated_eq (h.waiting id hid).2.1 hc)
  have hrecomputed := recompute_keeps hleast hr hentered (hmarked.of_values rfl) hwaiting
    (fun runner htracked hid => h.count_le htracked hid hc hmark) c.evaluated.isNone
  exact (hI.concluded_agree hr (revises tracked base least id) _ _ i).keeps _ hrecomputed

/-! ## All operations -/

/-- Operations keep a chronicle that tracks values alone. -/
theorem run_keeps (operations : List Operation) :
    Keeps (Chronicle (fun runner => ∃ id, runner = .value id) [] 0 (0, []))
      (operations.forM Operation.run) := by
  obtain ⟨tracked, htracked⟩ : ∃ tracked : Runner → Prop,
      tracked = fun runner => ∃ id, runner = .value id := ⟨_, rfl⟩
  rw [← htracked]
  have hleast (id : ValueId) : tracked (.handler id) → 0 ≠ 0 := by
    rw [htracked]
    rintro ⟨_, heq⟩
    cases heq
  have hevent : ¬ tracked .event := by
    rw [htracked]
    rintro ⟨_, heq⟩
    cases heq
  have hI := routine [] hleast
  have hupheld := (secluded tracked [] 0 (0, [])).toUpheld
  have hentry : ∀ i g, Chronicle tracked [] 0 i g → ∀ j,
      Reentry.Agree (Chronicle tracked [] 0 j) g.reentry g.reentry :=
    fun _ _ _ j => reentry_agree [] hleast _ j
  have hanswers : Answering (Chronicle tracked [] 0) :=
    { answered := fun h _ => ⟨h.of_eq rfl rfl rfl rfl, fun _ _ _ _ _ => h.of_eq rfl rfl rfl rfl⟩
      settled := fun _ h => h.of_eq rfl rfl rfl rfl }
  have hmount := hI.mountWith_agree (fun i g hg j => hentry i g hg _) begun fun hg _ _ =>
    hupheld.built hg _ _
  have hcomplete (id : RequestId) (outcome : Except RequestError Response) :=
    hI.completeWith_agree hentry hanswers id outcome (0, [])
  exact .forM fun op _ => (hI.operation_agree hentry (fun h => h.noted_of_untracked hevent) begun
    hupheld.linked_keeps (fun _ => hmount) fun id outcome _ => hcomplete id outcome).keeps

end Chronicle

/-! ## Operations that push -/

/-- A value that is assigned without a reading of what was not evaluated in the cycle: it makes no
list, or the window of its list was evaluated. -/
def Steady (g : Graph) (id : ValueId) : Prop :=
  ∀ c, g.values.get? id = some c → c.replica.isSome →
    ∀ name, name = ValueName.dataOffset ∨ name = ValueName.dataLength →
      ∀ w d, g.scopeValue? c.scope name = some w → g.values.get? w = some d →
        d.evaluated = some g.cycle

/-- A value that is read without being evaluated: it was evaluated in the cycle. -/
def Settled (g : Graph) (id : ValueId) : Prop :=
  ∀ c, g.values.get? id = some c → c.evaluated = some g.cycle

/-- Whether an operation evaluates values within steps that push only. -/
def Pushes (g : Graph) : Operation → Prop
  | .mount | .start => True
  | .get id => g.Settled id
  | .read scope name => ∀ id, g.lookup? scope name = some id → g.Settled id
  | .set id _ => g.Steady id
  | .write scope name _ => ∀ id, g.lookup? scope name = some id → g.Steady id
  | .complete id _ => ∀ pending, g.requests.lookup id = some pending → g.Steady pending.target
  | .dispatch .. => False

/-- Whether operations that are carried out one after the other all do so. -/
def PushesAll : Graph → List Operation → Prop
  | _, [] => True
  | g, op :: ops => g.Pushes op ∧ PushesAll (op.run.run g).2 ops

/-- Reading what was evaluated in the cycle does nothing. -/
theorem Settled.snd_run_pull (h : g.Settled id) (remaining : Nat) :
    ((pull remaining id).run g).2 = g := by
  rw [run_pull]
  cases hc : g.values.get? id with
  | none => rfl
  | some c => exact if_pos (h c hc)

theorem Steady.congr (h : g.Steady id) (hscopes : g'.scopes = g.scopes)
    (hvalues : g'.values = g.values) (hcycle : g'.cycle = g.cycle) : g'.Steady id := by
  unfold Steady scopeValue?
  rw [hscopes, hvalues, hcycle]
  exact h

/-- A value keeps steady when it loses its expression. -/
theorem Steady.sourced (h : g.Steady id) (c : Cell) : (g.sourced id c).Steady id := by
  have hold {v : ValueId} {d : Cell} (hd : (g.sourced id c).values.get? v = some d) :
      ∃ b, g.values.get? v = some b ∧ d.replica = b.replica ∧ d.scope = b.scope ∧
        d.evaluated = b.evaluated := by
    rw [Graph.sourced] at hd
    split at hd
    · exact ⟨d, hd, rfl, rfl, rfl⟩
    · rw [Slots.get?_modify] at hd
      split at hd
      · rename_i hv
        obtain ⟨b, hb, rfl⟩ := Option.map_eq_some_iff.1 hd
        exact ⟨b, hv ▸ hb, rfl, rfl, rfl⟩
      · exact ⟨d, hd, rfl, rfl, rfl⟩
  have hrest : (g.sourced id c).scopes = g.scopes ∧ (g.sourced id c).cycle = g.cycle := by
    rw [Graph.sourced]
    split <;> exact ⟨rfl, rfl⟩
  intro d hd hlist name hname w e hw he
  obtain ⟨b, hb, hreplica, hscope, -⟩ := hold hd
  obtain ⟨a, ha, -, -, heq⟩ := hold he
  rw [scopeValue?, hrest.1, hscope] at hw
  rw [heq, hrest.2]
  exact h b hb (hreplica ▸ hlist) name hname w a hw ha

/-- Reading one end of a window does nothing, if it was evaluated. -/
theorem snd_run_companion (remaining : Nat) {scope : ScopeId} {name : String}
    (h : ∀ w d, g.scopeValue? scope name = some w → g.values.get? w = some d →
      d.evaluated = some g.cycle) :
    ((companion ⟨pull remaining, assign remaining⟩ scope name).run g).2 = g := by
  rw [companion, run_get_bind]
  cases hw : g.scopeValue? scope name with
  | none => rfl
  | some w =>
    have hsettled : g.Settled w := fun d hd => h w d hw hd
    exact hsettled.snd_run_pull remaining

/-- A list is made anew at once, if its window was evaluated. -/
theorem run_commit_of_steady (remaining : Nat) (h : g.Steady id) {c : Cell}
    (hc : g.values.get? id = some c) (hlist : c.replica.isSome) (v : Value) (first : Bool) :
    ∃ offset length, (commit ⟨pull remaining, assign remaining⟩ id v first).run g =
      (remake ⟨pull remaining, assign remaining⟩ id c.scope v first offset length).run g := by
  obtain ⟨r, hr⟩ : ∃ r : Reentry, r = ⟨pull remaining, assign remaining⟩ := ⟨_, rfl⟩
  have hoffset := snd_run_companion remaining (h c hc hlist _ (.inl rfl))
  have hlength := snd_run_companion remaining (h c hc hlist _ (.inr rfl))
  rw [← hr] at hoffset hlength ⊢
  refine ⟨((companion r c.scope ValueName.dataOffset).run g).1,
    ((companion r c.scope ValueName.dataLength).run g).1, ?_⟩
  have hread : (commit r id v first).run g = (commitData r id c.scope v first).run g := by
    rw [commit, run_get_bind, hc]
    exact congrFun (if_pos hlist) g
  have hrun : (commitData r id c.scope v first).run g =
      let one := (companion r c.scope ValueName.dataOffset).run g
      let two := (companion r c.scope ValueName.dataLength).run one.2
      (remake r id c.scope v first one.1 two.1).run two.2 := rfl
  rw [hread, hrun]
  dsimp only
  rw [hoffset, hlength]

/-- A chronicle outside of all steps that push, or within one. -/
def Tracks (tracked : Runner → Prop) (base : List Run) : Option (Nat × List ValueId) → Graph → Prop
  | none => Chronicle tracked base 0 (0, [])
  | some i => Chronicle tracked base 1 i

namespace Tracks

/-- What is under way within a step that pushes. -/
def inner : Option (Nat × List ValueId) → Option (Nat × List ValueId)
  | none => some (0, [])
  | some i => some (i.1 + 1, i.2)

theorem secluded (tracked : Runner → Prop) (base : List Run) (i : Option (Nat × List ValueId)) :
    Secluded (Tracks tracked base i) := by
  cases i with
  | none => exact Chronicle.secluded tracked base 0 (0, [])
  | some i => exact Chronicle.secluded tracked base 1 i

theorem modified {i : Option (Nat × List ValueId)} (h : Tracks tracked base i g) (v : ValueId)
    {f : Cell → Cell} (hf : ∀ c, (f c).evaluated = c.evaluated ∨ (f c).evaluated = some g.cycle) :
    Tracks tracked base i { g with values := g.values.modify v f } := by
  cases i with
  | none => exact Chronicle.modified h v hf
  | some i => exact Chronicle.modified h v hf

theorem of_eq {i : Option (Nat × List ValueId)} (h : Tracks tracked base i g)
    (hvalues : g'.values = g.values) (hcycle : g'.cycle = g.cycle)
    (hlevel : g'.pushLevel = g.pushLevel) (hruns : g'.runs = g.runs) : Tracks tracked base i g' := by
  cases i with
  | none => exact Chronicle.of_eq h hvalues hcycle hlevel hruns
  | some i => exact Chronicle.of_eq h hvalues hcycle hlevel hruns

theorem begun (h : Tracks tracked base none g) :
    Tracks tracked base none { g with cycle := g.cycle + 1 } := Chronicle.begun h

theorem routine (tracked : Runner → Prop) (base : List Run) :
    Routine inner (fun _ => True) (Tracks tracked base) := by
  have hwithin : Routine _ (fun _ => True) (Chronicle tracked base 1) :=
    Chronicle.routine base fun _ _ => Nat.one_ne_zero
  refine Upheld.routine (fun i => (secluded tracked base i).toUpheld) (fun {i g} h => ?_)
    (fun {i g} h => ?_) (fun {i g} h hlevel => ?_) fun _ _ _ h => h.of_eq rfl rfl rfl rfl
  · cases i with
    | none => exact h.leveled (by rw [h.pushLevel]) rfl
    | some i => exact hwithin.pushed h
  · cases i with
    | none => exact h.leveled (congrArg (· - 1) h.pushLevel) rfl
    | some i => exact hwithin.popped h
  · cases i with
    | none => exact begun h
    | some i => exact hwithin.begun h hlevel

theorem revises (tracked : Runner → Prop) (base : List Run) (id : ValueId) :
    Revises (Tracks tracked base) id :=
  fun _ _ _ h hf => h.modified id fun c => (hf c).evaluated

theorem reentry_agree (tracked : Runner → Prop) (base : List Run) (remaining : Nat)
    (i : Option (Nat × List ValueId)) : Reentry.Agree (Tracks tracked base (inner i))
      ⟨pull remaining, assign remaining⟩ ⟨pull remaining, assign remaining⟩ := by
  have hwithin (j : Nat × List ValueId) : Reentry.Agree (Chronicle tracked base 1 j)
      ⟨pull remaining, assign remaining⟩ ⟨pull remaining, assign remaining⟩ :=
    Chronicle.reentry_agree base (fun _ _ => Nat.one_ne_zero) remaining j
  cases i with
  | none => exact hwithin (0, [])
  | some i => exact hwithin (i.1 + 1, i.2)

end Tracks

/-- A value is committed within steps that push, if its window needs not be evaluated. -/
theorem tracks_commit (h : Tracks tracked base none g) (hsteady : g.Steady id) (remaining : Nat)
    (v : Value) : Tracks tracked base none
      ((commit ⟨pull remaining, assign remaining⟩ id v false).run g).2 := by
  have hI := Tracks.routine tracked base
  have hid := Tracks.revises tracked base id
  have hin := Tracks.reentry_agree tracked base remaining
  cases hc : g.values.get? id with
  | none =>
    rw [commit, run_get_bind, hc]
    exact h
  | some c =>
    by_cases hlist : c.replica.isSome
    · obtain ⟨offset, length, hrun⟩ := run_commit_of_steady remaining hsteady hc hlist v false
      rw [hrun]
      exact (hI.remake_agree hin hid c.scope v false offset length none).keeps g h
    · rw [Bool.not_eq_true, Option.isSome_eq_false_iff, Option.isNone_iff_eq_none] at hlist
      rw [run_commit v hc hlist]
      split
      · exact h
      · refine (hI.apply_agree hin id false none).keeps _ ?_
        exact h.modified id fun _ => .inl rfl

/-- So are its observers notified. -/
theorem tracks_assign (h : Tracks tracked base none g) (hsteady : g.Steady id) (remaining : Nat)
    (v : Value) : Tracks tracked base none ((assign remaining id v).run g).2 := by
  have hI := Tracks.routine tracked base
  rw [run_assign]
  cases hc : g.values.get? id with
  | none => exact h
  | some c =>
    have hsourced : Tracks tracked base none (g.sourced id c) := by
      rw [sourced]
      split
      · exact h
      · exact h.modified id fun _ => .inl rfl
    cases remaining with
    | zero => exact hI.entering_none_keeps id _ none _ hsourced
    | succ remaining =>
      have hin := Tracks.reentry_agree tracked base remaining
      obtain ⟨entered, hentered⟩ : ∃ entered : Graph,
          entered = { g.sourced id c with depth := (g.sourced id c).depth + 1 } := ⟨_, rfl⟩
      have htracks : Tracks tracked base none entered := hentered ▸ hsourced.of_eq rfl rfl rfl rfl
      have hstill : entered.Steady id := hentered ▸ (hsteady.sourced c).congr rfl rfl rfl
      have hcommitted := tracks_commit htracks hstill remaining v
      rw [hentered] at hcommitted
      have hannounced (changed : Bool) : Keeps (Tracks tracked base none)
          (if changed && !c.observers.isEmpty then announce ⟨pull remaining, assign remaining⟩ id
            else pure ()) := by
        split
        · exact (hI.announce_agree hin (Tracks.revises tracked base id).marks none).keeps
        · exact .pure _
      exact (hannounced _ _ hcommitted).of_eq rfl rfl rfl rfl

/-- An outcome gets to its target after changes of stamps and diagnostics. -/
theorem deliver_of {P Q : Graph → Prop} {assign : ValueId → Value → GraphM Unit} {target : ValueId}
    (hstamps : ∀ {g : Graph} stamps, P g → P { g with stamps })
    (hdiagnostics : ∀ {g : Graph} diagnostics, P g → P { g with diagnostics })
    (hskip : ∀ {g}, P g → Q g) (hassign : ∀ v g, P g → Q ((assign target v).run g).2) (url : String)
    (outcome : Except RequestError Response) (hg : P g) :
    Q ((deliver assign target url outcome).run g).2 := by
  have hfinish (v : Value) (g : Graph) (hg : P g) :
      Q ((do if (← get).values.contains target then assign target v : GraphM Unit).run g).2 := by
    rw [run_get_bind]
    split
    · exact hassign v g hg
    · exact hskip hg
  unfold deliver
  rw [run_get_bind]
  split
  · exact hfinish _ _ (hstamps _ hg)
  · exact hfinish _ _ (hdiagnostics _ (hstamps _ hg))

/-- An outcome is assigned to its target, if the window of that needs not be evaluated. -/
theorem tracks_delivered {pending : PendingRequest} (h : Tracks tracked base none g)
    (hsteady : g.Steady pending.target) (outcome : Except RequestError Response) :
    Tracks tracked base none (g.delivered pending outcome) := by
  -- what is done before the assignment leaves the window alone
  let Ready (g : Graph) : Prop := Tracks tracked base none g ∧ g.Steady pending.target
  have hready {g g' : Graph} (h : Ready g) (hscopes : g'.scopes = g.scopes)
      (hvalues : g'.values = g.values) (hcycle : g'.cycle = g.cycle)
      (hlevel : g'.pushLevel = g.pushLevel) (hruns : g'.runs = g.runs) : Ready g' :=
    ⟨h.1.of_eq hvalues hcycle hlevel hruns, h.2.congr hscopes hvalues hcycle⟩
  have hkept : Keeps Ready (keepEcho pending.echo outcome) :=
    .keepEcho (fun _ _ h => hready h rfl rfl rfl rfl rfl) _ _
  exact deliver_of (fun _ h => hready h rfl rfl rfl rfl rfl) (fun _ h => hready h rfl rfl rfl rfl rfl)
    And.left (fun v g h => tracks_assign h.1 h.2 _ v) _ outcome (hkept g ⟨h, hsteady⟩)

/-- An operation keeps a chronicle that tracks everybody, if it evaluates values within steps that push
only. -/
theorem tracks_operation (h : Tracks tracked base none g) {op : Operation} (hop : g.Pushes op) :
    Tracks tracked base none (op.run.run g).2 := by
  have hI := Tracks.routine tracked base
  have hupheld := (Tracks.secluded tracked base none).toUpheld
  have hin (i : Option (Nat × List ValueId)) (g : Graph) (_ : Tracks tracked base i g)
      (j : Option (Nat × List ValueId)) :
      Reentry.Agree (Tracks tracked base (Tracks.inner j)) g.reentry g.reentry :=
    Tracks.reentry_agree tracked base _ j
  cases op with
  | mount =>
    exact (hI.mountWith_agree hin (i := none) Tracks.begun fun hg _ _ => hupheld.built hg _ _).keeps g h
  | start => exact (hI.startWith_agree hin (i := none) Tracks.begun (hupheld.linked_keeps g h)).2
  | set id v => exact tracks_assign h hop _ v
  | write scope name v =>
    change Tracks tracked base none ((write scope name v).run g).2
    rw [write, writeWith, run_get_bind]
    cases hid : g.lookup? scope name with
    | none => exact h
    | some id => exact tracks_assign h (hop id hid) _ v
  | complete id outcome =>
    change Tracks tracked base none ((complete id outcome).run g).2
    rw [run_complete]
    cases hpending : g.requests.lookup id with
    | none => exact h
    | some pending =>
      have hsteady : (g.withoutRequest id).Steady pending.target := (hop pending hpending).congr rfl rfl rfl
      have htracks : Tracks tracked base none (g.withoutRequest id) := h.of_eq rfl rfl rfl rfl
      have hdelivered := tracks_delivered htracks hsteady outcome
      dsimp only
      rw [run_settle]
      split
      · exact hdelivered.of_eq rfl rfl rfl rfl
      · exact hdelivered
  | get id =>
    have hrun : (((Operation.get id).run).run g).2 = g := hop.snd_run_pull _
    rw [hrun]
    exact h
  | read scope name =>
    change Tracks tracked base none ((read scope name).run g).2
    rw [read, readWith, run_get_bind]
    cases hid : g.lookup? scope name with
    | none => exact h
    | some id =>
      have hrun : ((some <$> getWith reentry id).run g).2 = g := (hop id hid).snd_run_pull _
      dsimp only
      rw [hrun]
      exact h
  | dispatch node event payload => exact hop.elim

/-- So do operations one after the other. -/
theorem tracks_operations (h : Tracks tracked base none g) {operations : List Operation}
    (hops : g.PushesAll operations) :
    Tracks tracked base none ((operations.forM Operation.run).run g).2 := by
  induction operations generalizing g with
  | nil => exact h
  | cons op operations ih => exact ih (tracks_operation h hops.1) hops.2

/-! ## Cycles -/

/-- A value is committed in the cycle, if its window needs not be evaluated. -/
theorem cycle_commit_of_steady (hsteady : g.Steady id) (remaining : Nat) (v : Value) :
    ((commit ⟨pull remaining, assign remaining⟩ id v false).run g).2.cycle = g.cycle := by
  cases hc : g.values.get? id with
  | none =>
    rw [commit, run_get_bind, hc]
    rfl
  | some c =>
    by_cases hlist : c.replica.isSome
    · obtain ⟨offset, length, hrun⟩ := run_commit_of_steady remaining hsteady hc hlist v false
      rw [hrun]
      exact cycle_remake remaining c.scope v offset length false
    · rw [Bool.not_eq_true, Option.isSome_eq_false_iff, Option.isNone_iff_eq_none] at hlist
      rw [run_commit v hc hlist]
      split
      · rfl
      · exact cycle_apply remaining false

/-- An assignment from outside begins one cycle at most, for the observers of the value, if its window
needs not be evaluated. -/
theorem cycle_assign_of_steady (hsteady : g.Steady id) (hlevel : g.pushLevel = 0) (remaining : Nat)
    (v : Value) :
    let g' := ((assign remaining id v).run g).2
    g'.cycle = g.cycle ∨ g'.cycle = g.cycle + 1 ∧ g.observersOf id ≠ [] := by
  intro g'
  obtain ⟨after, hafter⟩ : ∃ after, after = g' := ⟨_, rfl⟩
  rw [← hafter]
  rw [show g' = _ from run_assign remaining id v g] at hafter
  cases hc : g.values.get? id with
  | none =>
    rw [hc] at hafter
    exact .inl (by rw [hafter])
  | some c =>
    rw [hc] at hafter
    have hsourced : (g.sourced id c).cycle = g.cycle ∧ (g.sourced id c).pushLevel = 0 := by
      rw [sourced]
      split <;> exact ⟨rfl, hlevel⟩
    cases remaining with
    | zero => exact .inl (by rw [hafter]; exact hsourced.1)
    | succ remaining =>
      obtain ⟨r, hr⟩ : ∃ r : Reentry, r = ⟨pull remaining, assign remaining⟩ := ⟨_, rfl⟩
      obtain ⟨entered, hentered⟩ : ∃ entered : Graph,
          entered = { g.sourced id c with depth := (g.sourced id c).depth + 1 } := ⟨_, rfl⟩
      obtain ⟨committed, hcommitted⟩ : ∃ committed, committed = (commit r id v false).run entered :=
        ⟨_, rfl⟩
      have hstill : entered.Steady id := hentered ▸ (hsteady.sourced c).congr rfl rfl rfl
      have hcycle : committed.2.cycle = g.cycle := by
        rw [hcommitted, hr, cycle_commit_of_steady hstill, hentered]
        exact hsourced.1
      have hpush : committed.2.pushLevel = 0 := by
        have hkept := LaterAt.of_keeps (fun g₀ level => ((LaterAt.discipline g₀).commit_agree
          (LaterAt.reentry_agree g₀ remaining) ((LaterAt.discipline g₀).revises id) v false
            level).keeps) entered
        rw [hcommitted, hr, hkept.pushLevel, hentered]
        exact hsourced.2
      have hend : after.cycle = ((if committed.1 && !c.observers.isEmpty then announce r id
          else pure () : GraphM Unit).run committed.2).2.cycle := by
        rw [hafter, hcommitted, hentered, hr]
        rfl
      rw [hend]
      split
      · rename_i hchanged
        refine .inr ⟨?_, ?_⟩
        · rw [hr, cycle_announce, noticeCycle, if_pos hpush, hcycle]
        · rw [observersOf, hc]
          simp only [Bool.and_eq_true, Bool.not_eq_true', List.isEmpty_eq_false_iff] at hchanged
          exact hchanged.2
      · exact .inl hcycle

/-- If no read or write may be entered, nothing is assigned. -/
theorem cycle_set_of_maxDepth (hdepth : g.options.maxDepth = 0) (v : Value) :
    ((Operation.set id v).run.run g).2.cycle = g.cycle := by
  have hreentry : g.reentry = ⟨pull 0, assign 0⟩ := by rw [reentry, hdepth, Nat.zero_sub]
  change ((g.reentry.assign id v).run g).2.cycle = g.cycle
  rw [hreentry, run_assign]
  cases g.values.get? id with
  | none => rfl
  | some c =>
    change (g.sourced id c).cycle = g.cycle
    rw [sourced]
    split <;> rfl

/-- Starting a graph begins one cycle. -/
theorem cycle_start (g : Graph) : (start.run g).2.cycle = g.cycle + 1 := by
  have haloof : Aloof fun g' => g'.cycle = g.cycle :=
    .of_any fun h haside => haside.cycle.trans h
  obtain ⟨linked, hlinked⟩ : ∃ linked, linked = ((resolveLinks >>= fun _ => attachListeners).run g).2 :=
    ⟨_, rfl⟩
  have hcycle : linked.cycle = g.cycle := hlinked ▸ haloof.linked_keeps g rfl
  have hrun : (start.run g).2 = ((pushing (linked.order.forM fun id =>
      discard (linked.reentry.pull id))).run { linked with cycle := linked.cycle + 1 }).2 := by
    rw [hlinked]
    rfl
  rw [hrun, ← hcycle]
  exact cycle_pushing (fun level => .forM fun id _ =>
    ((Within.reentry_agree (linked.cycle + 1) _ level).pull id).keeps.discard) rfl

/-- Take any program, settings and host, and any operations one after the other. The expression of a
value was run at most once in each cycle; so was the handler of a change, if no operation evaluated
values outside of all steps that push. Any further operation leads to no earlier cycle. Further ones that
do not evaluate values there run nobody twice in one cycle, handlers included, and in a cycle that begins
with them nobody is run twice at all. A value that is set begins a cycle just when its output changes and it is observed,
and no further one, if it makes no list; if it makes one whose window was evaluated, at most one begins,
and none if it is not observed. Starting begins one; and what is read and assigned within a step that
pushes begins none: within a start, a notification, showing an output, or making a list. -/
theorem run_once (program : Program) (options : GraphOptions) (host : Host)
    (operations : List Operation) :
    let g := ((operations.forM Operation.run).run (ofProgram program options host)).2
    (∀ id n, g.runs.count ⟨.value id, n⟩ ≤ 1) ∧
    ((ofProgram program options host).PushesAll operations → ∀ run, run.runner ≠ .event →
      g.runs.count run ≤ 1) ∧
    (∀ op : Operation, g.cycle ≤ (op.run.run g).2.cycle) ∧
    (∀ more, g.PushesAll more → ∀ run, run.runner ≠ .event →
      let g' := ((more.forM Operation.run).run g).2
      g'.runs.count run ≤ g.runs.count run + 1 ∧ (g.cycle < run.cycle → g'.runs.count run ≤ 1)) ∧
    (∀ id v c, g.values.get? id = some c → c.replica = none →
      ((Operation.set id v).run.run g).2.cycle =
        if options.maxDepth ≠ 0 ∧ c.output.looseEq v = false ∧ c.observers ≠ [] then g.cycle + 1
        else g.cycle) ∧
    (∀ id v, g.Steady id → let g' := ((Operation.set id v).run.run g).2
      g'.cycle = g.cycle ∨ g'.cycle = g.cycle + 1 ∧ g.observersOf id ≠ []) ∧
    (Operation.start.run.run g).2.cycle = g.cycle + 1 ∧
    ∀ g' : Graph, g'.pushLevel ≠ 0 → ∀ remaining id v,
      ((pull remaining id).run g').2.cycle = g'.cycle ∧
        ((assign remaining id v).run g').2.cycle = g'.cycle := by
  intro g
  have hunder : Under options 0 0 g := Under.run_keeps operations _ ⟨rfl, rfl, rfl⟩
  have hchronicle : Chronicle (fun runner => ∃ id, runner = .value id) [] 0 (0, []) g :=
    Chronicle.run_keeps operations _ (.ofProgram ..)
  refine ⟨fun id n => hchronicle.once ⟨.value id, n⟩ ⟨id, rfl⟩, fun hops run hrun => ?_, fun op => ?_,
    fun more hmore run hrun => ?_, fun id v c hc hlist => ?_, fun id v hsteady => ?_, cycle_start g,
    fun g' hlevel remaining id v => ?_⟩
  · have htracks : Tracks (· ≠ .event) [] none g := tracks_operations (Chronicle.ofProgram ..) hops
    exact htracks.once run hrun
  · exact (later_of_operations hunder.pushLevel [op]).cycle
  · have hstart : Tracks (· ≠ .event) g.runs none g := hchronicle.anew hunder.pushLevel _
    have hbound := (tracks_operations hstart hmore).once run hrun
    refine ⟨hbound, fun hlater => ?_⟩
    have hnone : g.runs.count run = 0 :=
      List.count_eq_zero.2 fun hmem => Nat.not_le_of_lt hlater (hchronicle.past run hmem)
    rwa [hnone] at hbound
  · by_cases hdepth : options.maxDepth = 0
    · rw [if_neg fun h => h.1 hdepth]
      exact cycle_set_of_maxDepth (hunder.options.symm ▸ hdepth) v
    · rw [run_set_cycle program options host operations (Nat.pos_of_ne_zero hdepth) id c v hc hlist]
      simp only [hdepth, ne_eq, not_false_eq_true, true_and]
      rfl
  · exact cycle_assign_of_steady hsteady hunder.pushLevel _ v
  · exact cycle_of_pushing hlevel remaining id v

/-- Reading from outside does not push. A handler is read that watches a value which assigns another one
when it is evaluated: a cycle begins while the handler waits for what it watches, and it is run twice in
that cycle. -/
example :
    let d := Document.ofFragment
      "<div :x='[[0]]' :k='[[0]]' :w='[[x = x + 1]]' :z='[[0]]' :handle-w='[[k = k + 1]]'>[[z]]</div>"
    let c := d.compile .standard none
    let g := (([Operation.mount, Operation.write ⟨0, 0⟩ "z" (.number 1)].forM Operation.run).run
      (ofProgram c.program .standard (.ofDocument c.document))).2
    let g' := ((Operation.read ⟨0, 0⟩ "handle_w").run.run g).2
    g.cycle = 2 ∧ g'.cycle = 3 ∧ (g'.lookup? ⟨0, 0⟩ "handle_w").map
      (fun id => g'.runs.count ⟨.handler id, 3⟩) = some 2 := by
  decide +kernel

end Graph

end ReactiveMarkup
