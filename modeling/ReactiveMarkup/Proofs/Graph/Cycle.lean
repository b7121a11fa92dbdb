import ReactiveMarkup.Proofs.Graph.Depth

/-!
# Cycles

A value is marked with the cycle of its last evaluation. Cycles only go up, a mark is only replaced
by that of the current cycle, and within a step that pushes no cycle begins. So a write from outside
makes every observer of the value be evaluated anew, in a cycle that begins when the output is
stored; if nothing is stored or nothing observes the value, no cycle begins. A write from within a step
does that for the observers that were not evaluated in its cycle yet; the others keep what they show. A
value whose evaluation is refused, since too many reads and writes are under way, is marked as well.
Reading from outside does not push: an assignment that it leads to begins a cycle in its midst.

Main definitions: `Graph.Later`, `Graph.written`, `Graph.Timely`.
Main results: `Graph.later_of_operations`, `Graph.cycle_of_pushing`,
`Graph.evaluatedSince_of_assign`, `Graph.run_announce_of_evaluated`, `Graph.run_set_evaluated`,
`Graph.run_set_same`, `Graph.run_set_cycle`.
-/
namespace ReactiveMarkup

/-- Whether a cell was evaluated in a cycle or one after it. -/
def Cell.EvaluatedSince (n : Nat) (c : Cell) : Prop := ∃ m, c.evaluated = some m ∧ n ≤ m

theorem Cell.EvaluatedSince.mono {m n : Nat} {c : Cell} (h : c.EvaluatedSince n) (hmn : m ≤ n) :
    c.EvaluatedSince m := by
  obtain ⟨k, hk, hn⟩ := h
  exact ⟨k, hk, Nat.le_trans hmn hn⟩

namespace Graph

variable {g g' g₀ : Graph} {id : ValueId} {n : Nat}

/-! ## What happens to a graph -/

/-- A graph as it may be later on. -/
structure Later (g g' : Graph) : Prop where
  cycle : g.cycle ≤ g'.cycle
  next : g.values.next ≤ g'.values.next
  /-- what is gone does not come back -/
  alive : ∀ id, id.serial < g.values.next → g'.values.contains id → g.values.contains id
  evaluated : ∀ id c c', g.values.get? id = some c → g'.values.get? id = some c' →
    c'.evaluated = c.evaluated ∨ c'.EvaluatedSince g.cycle
  /-- an expression may be dropped, and none is given -/
  compute : ∀ id c c', g.values.get? id = some c → g'.values.get? id = some c' →
    c'.compute = c.compute ∨ c'.compute = none
  /-- what observes a value does so as long as both are live -/
  observers : ∀ id o, g.values.contains o → o ∈ g.observersOf id → g'.values.contains id →
    g'.values.contains o → o ∈ g'.observersOf id

namespace Later

theorem of_eq (hcycle : g.cycle ≤ g'.cycle) (hvalues : g'.values = g.values) : Later g g' where
  cycle := hcycle
  next := Nat.le_of_eq (by rw [hvalues])
  alive _ _ h := hvalues ▸ h
  evaluated _ _ _ hc hc' := .inl (by rw [hvalues, hc] at hc'; rw [Option.some.inj hc'])
  compute _ _ _ hc hc' := .inl (by rw [hvalues, hc] at hc'; rw [Option.some.inj hc'])
  observers _ _ _ ho _ _ := by
    rw [observersOf, hvalues]
    exact ho

theorem refl (g : Graph) : Later g g := of_eq (Nat.le_refl _) rfl

theorem serial_lt (h : Later g g') {v : ValueId} (hv : g.values.contains v) :
    v.serial < g'.values.next := by
  obtain ⟨c, hc⟩ := Option.isSome_iff_exists.1 hv
  exact Nat.lt_of_lt_of_le (Slots.serial_lt hc) h.next

theorem trans (h : Later g₀ g) (h' : Later g g') : Later g₀ g' := by
  have hback {v : ValueId} (hv : g₀.values.contains v) (hv' : g'.values.contains v) :
      g.values.contains v := h'.alive v (h.serial_lt hv) hv'
  refine ⟨Nat.le_trans h.cycle h'.cycle, Nat.le_trans h.next h'.next, fun v hv hv' => ?_,
    fun v c c' hc hc' => ?_, fun v c c' hc hc' => ?_, fun v o ho hmem hv' ho' => ?_⟩
  · exact h.alive v hv (h'.alive v (Nat.lt_of_lt_of_le hv h.next) hv')
  · have hv : g.values.contains v := hback (Slots.contains_of_get? hc) (Slots.contains_of_get? hc')
    obtain ⟨d, hd⟩ := Option.isSome_iff_exists.1 hv
    rcases h'.evaluated v d c' hd hc' with heq | hsince
    · rcases h.evaluated v c d hc hd with heq₀ | ⟨m, hm, hn⟩
      · exact .inl (heq.trans heq₀)
      · exact .inr ⟨m, heq.trans hm, hn⟩
    · exact .inr (hsince.mono h.cycle)
  · have hv : g.values.contains v := hback (Slots.contains_of_get? hc) (Slots.contains_of_get? hc')
    obtain ⟨d, hd⟩ := Option.isSome_iff_exists.1 hv
    rcases h'.compute v d c' hd hc' with heq | hnone
    · exact (h.compute v c d hc hd).imp heq.trans heq.trans
    · exact .inr hnone
  · have hv := hback (contains_of_mem_observersOf hmem) hv'
    have ho₁ := hback ho ho'
    exact h'.observers v o ho₁ (h.observers v o ho hmem hv ho₁) hv' ho'

/-- What was evaluated since a cycle, up to the present, still was later on. -/
theorem evaluatedSince (h : Later g g') {c c' : Cell} (hc : g.values.get? id = some c)
    (hc' : g'.values.get? id = some c') (hsince : c.EvaluatedSince n) (hn : n ≤ g.cycle) :
    c'.EvaluatedSince n := by
  rcases h.evaluated id c c' hc hc' with heq | hlater
  · obtain ⟨m, hm, hle⟩ := hsince
    exact ⟨m, heq.trans hm, hle⟩
  · exact hlater.mono hn

/-- A cell is added. -/
theorem inserted (h : Later g₀ g) (c : Cell) : Later g₀ { g with values := (g.values.insert c).2 } := by
  have hold {v : ValueId} (hv : v.serial < g₀.values.next) :
      (g.values.insert c).2.get? v = g.values.get? v := by
    rw [Slots.get?_insert, if_neg]
    rintro rfl
    have := h.next
    rw [Slots.insert_serial] at hv
    omega
  have hlive {v : ValueId} (hv : g₀.values.contains v) := hold (Later.refl g₀ |>.serial_lt hv)
  refine ⟨h.cycle, ?_, fun v hv hv' => ?_, fun v d d' hd hd' => ?_, fun v d d' hd hd' => ?_,
    fun v o ho hmem hv' ho' => ?_⟩
  · rw [Slots.next_insert]
    exact Nat.le_succ_of_le h.next
  · rw [Slots.contains, hold hv] at hv'
    exact h.alive v hv hv'
  · rw [hlive (Slots.contains_of_get? hd)] at hd'
    exact h.evaluated v d d' hd hd'
  · rw [hlive (Slots.contains_of_get? hd)] at hd'
    exact h.compute v d d' hd hd'
  · have hv := contains_of_mem_observersOf hmem
    rw [Slots.contains, hlive hv] at hv'
    rw [Slots.contains, hlive ho] at ho'
    rw [observersOf, hlive hv]
    exact h.observers v o ho hmem hv' ho'

/-- A cell is changed. Its mark may be replaced by a later one, its expression may be dropped, and it
keeps its observers that are live. -/
theorem modified (h : Later g₀ g) (id : ValueId) {f : Cell → Cell}
    (hmark : ∀ c, (f c).evaluated = c.evaluated ∨ (f c).EvaluatedSince g₀.cycle)
    (hcompute : ∀ c, (f c).compute = c.compute ∨ (f c).compute = none)
    (hobservers : ∀ c, ∀ o ∈ c.observers, g.values.contains o → o ∈ (f c).observers) :
    Later g₀ { g with values := g.values.modify id f } := by
  refine ⟨h.cycle, h.next, fun v hv hv' => ?_, fun v d d' hd hd' => ?_, fun v d d' hd hd' => ?_,
    fun v o ho hmem hv' ho' => ?_⟩
  · rw [Slots.contains_modify] at hv'
    exact h.alive v hv hv'
  · rw [Slots.get?_modify] at hd'
    split at hd'
    · rename_i hv
      obtain ⟨e, he, rfl⟩ := Option.map_eq_some_iff.1 hd'
      rcases hmark e with heq | hsince
      · rw [Cell.EvaluatedSince, heq]
        exact h.evaluated v d e hd (hv ▸ he)
      · exact .inr hsince
    · exact h.evaluated v d d' hd hd'
  · rw [Slots.get?_modify] at hd'
    split at hd'
    · rename_i hv
      obtain ⟨e, he, rfl⟩ := Option.map_eq_some_iff.1 hd'
      rcases hcompute e with heq | hnone
      · rw [heq]
        exact h.compute v d e hd (hv ▸ he)
      · exact .inr hnone
    · exact h.compute v d d' hd hd'
  · rw [Slots.contains_modify] at hv' ho'
    have hmem' := h.observers v o ho hmem hv' ho'
    rw [observersOf, Slots.get?_modify]
    split
    · rename_i hv
      obtain ⟨e, he⟩ := Option.isSome_iff_exists.1 hv'
      rw [observersOf, he] at hmem'
      rw [← hv, he]
      exact hobservers e o hmem' ho'
    · exact hmem'

/-- A cell is removed. -/
theorem erased (h : Later g₀ g) (id : ValueId) : Later g₀ { g with values := g.values.erase id } := by
  have hkept {v : ValueId} (hv : (g.values.erase id).contains v) :
      (g.values.erase id).get? v = g.values.get? v := by
    rw [Slots.get?_erase, if_neg]
    rintro rfl
    rw [Slots.contains, Slots.get?_erase_self] at hv
    cases hv
  refine ⟨h.cycle, ?_, fun v hv hv' => ?_, fun v d d' hd hd' => ?_, fun v d d' hd hd' => ?_,
    fun v o ho hmem hv' ho' => ?_⟩
  · rw [Slots.next_erase]
    exact h.next
  · have hlive := hkept hv'
    rw [Slots.contains, hlive] at hv'
    exact h.alive v hv hv'
  · rw [hkept (Slots.contains_of_get? hd')] at hd'
    exact h.evaluated v d d' hd hd'
  · rw [hkept (Slots.contains_of_get? hd')] at hd'
    exact h.compute v d d' hd hd'
  · have hlive := hkept hv'
    rw [Slots.contains, hlive] at hv'
    rw [Slots.contains, hkept ho'] at ho'
    rw [observersOf, hlive]
    exact h.observers v o ho hmem hv' ho'

end Later

/-- A later graph in which this many steps are under way that push. -/
structure LaterAt (g₀ : Graph) (level : Nat) (g : Graph) : Prop where
  later : Later g₀ g
  pushLevel : g.pushLevel = level

namespace LaterAt

theorem of_eq {level level' : Nat} (h : LaterAt g₀ level g) (hcycle : g.cycle ≤ g'.cycle)
    (hvalues : g'.values = g.values) (hlevel : g'.pushLevel = level') : LaterAt g₀ level' g' :=
  ⟨h.later.trans (.of_eq hcycle hvalues), hlevel⟩

/-- Time goes on while scopes are built and removed. -/
theorem aloof (g₀ : Graph) (level : Nat) : Aloof (LaterAt g₀ level) where
  of_aside h haside := h.of_eq (Nat.le_of_eq haside.cycle.symm) haside.values
    (haside.pushLevel.trans h.pushLevel)
  inserted h _ _ := ⟨h.later.inserted _, h.pushLevel⟩
  relinked h hf :=
    ⟨h.later.modified _ (fun c => .inl (by rw [(hf c).eq])) (fun c => .inl (by rw [(hf c).eq]))
      fun c => (hf c).observers, h.pushLevel⟩
  erased id h := ⟨h.later.erased id, h.pushLevel⟩

/-- Time goes on in every kind of step, and no kind of step but pushing changes the level. -/
theorem discipline (g₀ : Graph) : Discipline (· + 1) (fun _ => True) (LaterAt g₀) := by
  refine Aloof.discipline (aloof g₀) (fun h => ?_) (fun h => ?_) (fun h _ => ?_) fun h hf => ?_
  · exact h.of_eq (Nat.le_refl _) rfl (congrArg (· + 1) h.pushLevel)
  · exact h.of_eq (Nat.le_refl _) rfl (by simp [h.pushLevel])
  · exact h.of_eq (Nat.le_succ _) rfl h.pushLevel
  · refine ⟨h.later.modified _ (fun c => ?_) (fun c => (hf c).compute) fun c o ho _ => ?_,
      h.pushLevel⟩
    · exact (hf c).evaluated.imp_right fun hm => ⟨_, hm, h.later.cycle⟩
    · rw [(hf c).observers]
      exact ho

theorem enters (g₀ : Graph) : Enters (LaterAt g₀) (LaterAt g₀) where
  entered h := h.of_eq (Nat.le_refl _) rfl h.pushLevel
  left h := h.of_eq (Nat.le_refl _) rfl h.pushLevel

theorem reentry_agree (g₀ : Graph) (remaining level : Nat) : Reentry.Agree (LaterAt g₀ level)
    ⟨pull remaining, assign remaining⟩ ⟨pull remaining, assign remaining⟩ :=
  (discipline g₀).reentry_agree (enters g₀) remaining level

/-- A step in which time goes on leads to a later graph at the same level. -/
theorem of_keeps {α : Type} {m : GraphM α} (hm : ∀ g₀ level, Keeps (LaterAt g₀ level) m) (g : Graph) :
    LaterAt g g.pushLevel (m.run g).2 :=
  hm g g.pushLevel g ⟨.refl g, rfl⟩

end LaterAt

theorem laterAt_of_pull (remaining : Nat) (id : ValueId) (g : Graph) :
    LaterAt g g.pushLevel ((pull remaining id).run g).2 :=
  .of_keeps (fun g₀ level => ((LaterAt.reentry_agree g₀ remaining level).pull id).keeps) g

theorem laterAt_of_forM_pull (remaining : Nat) (ids : List ValueId) (g : Graph) :
    LaterAt g g.pushLevel ((ids.forM fun o => discard (pull remaining o)).run g).2 :=
  .of_keeps (fun g₀ level => .forM fun o _ =>
    ((LaterAt.reentry_agree g₀ remaining level).pull o).keeps.discard) g

/-- Operations lead to a later graph, unless a step is under way that pushes. -/
theorem later_of_operations (hlevel : g.pushLevel = 0) (operations : List Operation) :
    Later g ((operations.forM Operation.run).run g).2 := by
  have hkept : Keeps (LaterAt g 0) (operations.forM Operation.run) := .forM fun op _ =>
    (LaterAt.discipline g).operation_keeps (LaterAt.enters g)
      (fun h => h.of_eq (Nat.le_succ _) rfl h.pushLevel) (LaterAt.aloof g 0).linked_keeps
      (fun hg _ _ => (LaterAt.aloof g 0).built hg _ _) op
  exact (hkept g ⟨.refl g, hlevel⟩).later

/-! ## Steps that push -/

/-- A graph in this cycle. A step is under way that pushes, and `level` more. -/
structure Within (cycle level : Nat) (g : Graph) : Prop where
  cycle : g.cycle = cycle
  pushLevel : g.pushLevel = level + 1

theorem Within.discipline (cycle : Nat) : Discipline (· + 1) (fun _ => True) (Within cycle) := by
  have haloof (level : Nat) : Aloof (Within cycle level) := .of_any fun h haside =>
    ⟨haside.cycle.trans h.cycle, haside.pushLevel.trans h.pushLevel⟩
  refine Aloof.discipline haloof (fun h => ?_) (fun h => ?_) (fun h hlevel => ?_) fun h _ => ?_
  · exact ⟨h.cycle, congrArg (· + 1) h.pushLevel⟩
  · exact ⟨h.cycle, by simp [h.pushLevel]⟩
  · cases h.pushLevel.symm.trans hlevel
  · exact ⟨h.cycle, h.pushLevel⟩

theorem Within.reentry_agree (n remaining level : Nat) : Reentry.Agree (Within n level)
    ⟨pull remaining, assign remaining⟩ ⟨pull remaining, assign remaining⟩ :=
  (Within.discipline n).reentry_agree
    ⟨fun h => ⟨h.cycle, h.pushLevel⟩, fun h => ⟨h.cycle, h.pushLevel⟩⟩ remaining level

/-- Within a step that pushes, no cycle begins. -/
theorem cycle_of_pushing (hlevel : g.pushLevel ≠ 0) (remaining : Nat) (id : ValueId) (v : Value) :
    ((pull remaining id).run g).2.cycle = g.cycle ∧
      ((assign remaining id v).run g).2.cycle = g.cycle := by
  obtain ⟨level, hl⟩ := Nat.exists_eq_succ_of_ne_zero hlevel
  have hagree := Within.reentry_agree g.cycle remaining level
  exact ⟨((hagree.pull id).keeps g ⟨rfl, hl⟩).cycle, ((hagree.assign id v).keeps g ⟨rfl, hl⟩).cycle⟩

/-- A step that pushes ends in the cycle in which it starts. -/
theorem cycle_pushing {α : Type} {m : GraphM α} (hm : ∀ level, Keeps (Within n level) m)
    (hn : g.cycle = n) : ((pushing m).run g).2.cycle = n := by
  rw [run_pushing]
  exact (hm g.pushLevel { g with pushLevel := g.pushLevel + 1 } ⟨hn, rfl⟩).cycle

/-- Showing an output pushes. -/
theorem cycle_apply (remaining : Nat) (first : Bool) :
    ((apply ⟨pull remaining, assign remaining⟩ id first).run g).2.cycle = g.cycle := by
  have hI := Within.discipline g.cycle
  unfold apply
  rw [run_get_bind]
  cases g.values.get? id with
  | none => rfl
  | some cell =>
    dsimp only
    split
    · split
      · rfl
      · rename_i node _
        refine cycle_pushing (g := { g with effects := g.effects + 1 }) (fun level => ?_) rfl
        split
        · exact (hI.issue_agree level (Within.reentry_agree _ remaining level) trivial id first).keeps
        · refine (hI.bind_keeps trivial _ _ level).bind fun result => ?_
          split
          · exact hI.report_keeps rfl level
          · exact .pure _
    · rfl

/-- So does making a list. -/
theorem cycle_syncClones (remaining : Nat) (scope : ScopeId) (items : List Value) :
    ((syncClones ⟨pull remaining, assign remaining⟩ id scope items).run g).2.cycle = g.cycle := by
  have hin := Within.reentry_agree g.cycle remaining
  exact cycle_pushing (fun level => ((Within.discipline g.cycle).synced_agree (fun _ => hin _)
    (hin level) id scope items (g.clones scope)).keeps) rfl

/-- A list that is made anew is made in the cycle, once its window is known. -/
theorem cycle_remake (remaining : Nat) (scope : ScopeId) (source offset length : Value) (first : Bool) :
    ((remake ⟨pull remaining, assign remaining⟩ id scope source first offset length).run g).2.cycle =
      g.cycle := by
  let I (_ : Unit) (g' : Graph) : Prop := g'.cycle = g.cycle
  have hrevises : Revises I id := fun _ _ _ h _ => h
  have hreplicate : Keeps (I ()) (replicate ⟨pull remaining, assign remaining⟩ id scope source offset
      length) := by
    have hsync (items : List Value) : Keeps (I ()) (syncClones ⟨pull remaining, assign remaining⟩ id
        scope items) := fun _ h => (cycle_syncClones remaining scope items).trans h
    unfold replicate
    split
    · exact (hsync _).bind fun _ => .pure _
    · exact (hsync _).bind fun _ => .pure _
  have hremake : Keeps (I ()) (remake ⟨pull remaining, assign remaining⟩ id scope source first offset
      length) := by
    unfold remake
    refine .look fun g' => ?_
    split
    · exact .pure _
    · dsimp only
      split
      · exact .pure _
      · refine (hrevises.modifyCell_keeps ?_ ()).bind fun _ => ?_
        · exact fun c => ⟨⟨rfl, rfl, rfl, rfl, rfl, .inl rfl⟩, rfl⟩
        · refine Keeps.bind (m := countEffect) (.modify fun _ h => h) fun _ => ?_
          exact hreplicate.bind fun v => Routine.storeOutput_keeps hrevises v ()
  exact hremake g rfl

/-- Notifying the observers of a value pushes as well, in the cycle that is its own. -/
theorem cycle_announce (remaining : Nat) :
    ((announce ⟨pull remaining, assign remaining⟩ id).run g).2.cycle = g.noticeCycle := by
  have hnotify (level : Nat) : Keeps (Within g.noticeCycle level)
      (notify ⟨pull remaining, assign remaining⟩ id) :=
    (Routine.notify_agree (Within.reentry_agree g.noticeCycle remaining level) id).keeps
  rw [run_announce]
  exact cycle_pushing hnotify rfl

/-! ## Evaluation -/

theorem get?_marked {c : Cell} (hc : g.values.get? id = some c) :
    (g.marked id).values.get? id = some { c with evaluated := some g.cycle } := by
  rw [marked, Slots.get?_modify, if_pos rfl, hc]
  rfl

theorem observersOf_marked (g : Graph) (id u : ValueId) : (g.marked id).observersOf u = g.observersOf u :=
  (SameLinks.withCell g id (f := fun c => { c with evaluated := some g.cycle }) (fun _ => rfl)
    fun _ => rfl).observers u

/-- A value that was read was evaluated in the cycle, or in one that has begun since. -/
theorem evaluatedSince_of_pull (remaining : Nat) {c : Cell}
    (hc : ((pull remaining id).run g).2.values.get? id = some c) : c.EvaluatedSince g.cycle := by
  rw [run_pull] at hc
  cases hb : g.values.get? id with
  | none =>
    simp only [hb] at hc
    cases hc
  | some b =>
    simp only [hb] at hc
    split at hc
    · rename_i hmark
      rw [hb] at hc
      exact ⟨g.cycle, Option.some.inj hc ▸ hmark, Nat.le_refl _⟩
    · -- the mark is set first, and what follows may only replace it by a later one
      have hmarked := get?_marked hb
      have hrefresh := LaterAt.of_keeps (fun g₀ level =>
        have hI := LaterAt.discipline g₀
        hI.entering_keeps (LaterAt.enters g₀) remaining id (i := level) fun r hr =>
          (hI.refresh_agree hr (hI.revises id) (hI.notes id) b.evaluated.isNone level).keeps) (g.marked id)
      exact hrefresh.later.evaluatedSince hmarked hc ⟨_, rfl, Nat.le_refl _⟩ (Nat.le_refl _)

/-- So were all values of a list that were read one after the other. -/
theorem evaluatedSince_of_forM_pull (remaining : Nat) {ids : List ValueId} {o : ValueId} {c : Cell}
    (ho : o ∈ ids) (hid : o.serial < g.values.next)
    (hc : ((ids.forM fun o => discard (pull remaining o)).run g).2.values.get? o = some c) :
    c.EvaluatedSince g.cycle := by
  induction ids generalizing g with
  | nil => cases ho
  | cons u us ih =>
    obtain ⟨g', hg'⟩ : ∃ g', g' = ((pull remaining u).run g).2 := ⟨_, rfl⟩
    have hsplit : ((u :: us).forM fun o => discard (pull remaining o)).run g =
        (us.forM fun o => discard (pull remaining o)).run g' := by rw [hg']; rfl
    have hfirst : Later g g' := hg' ▸ (laterAt_of_pull remaining u g).later
    have hrest := (laterAt_of_forM_pull remaining us g').later
    have hid' := Nat.lt_of_lt_of_le hid hfirst.next
    rw [hsplit] at hc
    rcases List.mem_cons.1 ho with rfl | ho
    · obtain ⟨d, hd⟩ := Option.isSome_iff_exists.1 (hrest.alive o hid' (Slots.contains_of_get? hc))
      have hsince : d.EvaluatedSince g.cycle := evaluatedSince_of_pull remaining (hg' ▸ hd)
      exact hrest.evaluatedSince hd hc hsince hfirst.cycle
    · exact (ih ho hid' hc).mono hfirst.cycle

/-- When the observers of a value are notified, they are evaluated. -/
theorem evaluatedSince_of_announce (remaining : Nat) {o : ValueId} {c : Cell}
    (ho : o ∈ g.observersOf id) (hlive : g.values.contains o)
    (hc : ((announce ⟨pull remaining, assign remaining⟩ id).run g).2.values.get? o = some c) :
    c.EvaluatedSince g.noticeCycle := by
  obtain ⟨begun, hbegun⟩ : ∃ begun, begun = { g with cycle := g.noticeCycle } := ⟨_, rfl⟩
  have ho' : o ∈ (begun.marked id).observersOf id := by
    rw [observersOf_marked, hbegun]
    exact ho
  have hserial : o.serial < (begun.marked id).values.next := by
    rw [hbegun]
    exact (Later.refl g).serial_lt hlive
  have hcycle : begun.cycle = g.noticeCycle := by rw [hbegun]
  rw [run_announce, ← hbegun, run_pushing] at hc
  rw [← hcycle]
  exact evaluatedSince_of_forM_pull remaining
    (g := { begun.marked id with pushLevel := (begun.marked id).pushLevel + 1 }) ho' hserial hc

/-- Values that were evaluated in the cycle are not evaluated again. -/
theorem run_forM_pull_of_evaluated (remaining : Nat) {ids : List ValueId}
    (h : ∀ o ∈ ids, ∀ c, g.values.get? o = some c → c.evaluated = some g.cycle) :
    ((ids.forM fun o => discard (pull remaining o)).run g).2 = g := by
  induction ids with
  | nil => rfl
  | cons o ids ih =>
    have hpull : ((pull remaining o).run g).2 = g := by
      rw [run_pull]
      cases hc : g.values.get? o with
      | none => rfl
      | some c => exact if_pos (h o (List.mem_cons_self ..) c hc)
    change ((ids.forM fun o => discard (pull remaining o)).run ((pull remaining o).run g).2).2 = g
    rw [hpull]
    exact ih fun u hu => h u (List.mem_cons_of_mem _ hu)

/-- Observers that were evaluated in the cycle are passed over when a value is written from within a
step that pushes: they keep what they show, and nothing but the mark of the value is changed. -/
theorem run_announce_of_evaluated (hlevel : g.pushLevel ≠ 0) (remaining : Nat)
    (hobservers : ∀ o ∈ g.observersOf id, ∀ c, g.values.get? o = some c → c.evaluated = some g.cycle) :
    ((announce ⟨pull remaining, assign remaining⟩ id).run g).2 = g.marked id := by
  have hevaluated : ∀ o ∈ (g.marked id).observersOf id, ∀ c, (g.marked id).values.get? o = some c →
      c.evaluated = some g.cycle := by
    intro o ho c hc
    rw [observersOf_marked] at ho
    rw [marked, Slots.get?_modify] at hc
    split at hc
    · obtain ⟨b, -, rfl⟩ := Option.map_eq_some_iff.1 hc
      rfl
    · exact hobservers o ho c hc
  have hnotify := run_forM_pull_of_evaluated remaining
    (g := { g.marked id with pushLevel := g.pushLevel + 1 }) hevaluated
  rw [run_announce, noticeCycle, if_neg hlevel, run_pushing]
  exact congrArg (fun g' : Graph => { g' with pushLevel := g'.pushLevel - 1 }) hnotify

/-- What is written to a value that makes no list is taken over and shown, if it is something else. -/
theorem run_commit {r : Reentry} {c : Cell} (v : Value) (hc : g.values.get? id = some c)
    (hlist : c.replica = none) :
    (commit r id v false).run g =
      if c.output.looseEq v then (false, g)
      else (true, ((apply r id false).run
        { g with values := g.values.modify id fun c => { c with output := v } }).2) := by
  have hstore : (storeOutput id v).run g =
      if c.output.looseEq v then (false, g)
      else (true, { g with values := g.values.modify id fun c => { c with output := v } }) := by
    rw [storeOutput, run_get_bind, hc]
    dsimp only
    split <;> rfl
  rw [commit, run_get_bind, hc]
  dsimp only
  simp only [hlist, Option.isSome_none, Bool.false_eq_true, if_false, StateT.run_bind, hstore]
  split <;> rfl

/-- A graph in which a value has lost its expression, unless it is a handler. -/
def sourced (g : Graph) (id : ValueId) (c : Cell) : Graph :=
  if c.template.kind.isHandler then g
  else { g with values := g.values.modify id fun c => { c with compute := none } }

/-- A graph that has taken over and shown what is written to a value, before the observers of that are
notified. -/
def written (g : Graph) (r : Reentry) (id : ValueId) (c : Cell) (v : Value) : Graph :=
  ((apply r id false).run { g.sourced id c with
    depth := (g.sourced id c).depth + 1
    values := (g.sourced id c).values.modify id fun c => { c with output := v } }).2

/-- A write to a value that makes no list does nothing more than to drop its expression, if the value
shows the same already. Else it is taken over and shown, and the observers are notified. -/
theorem run_assignWith_plain (r : Reentry) {c : Cell} (v : Value) (hc : g.values.get? id = some c)
    (hlist : c.replica = none) :
    ((assignWith (some r) id v).run g).2 =
      if c.output.looseEq v then g.sourced id c
      else
        let g₁ := g.written r id c v
        let g₂ := if c.observers.isEmpty then g₁ else ((announce r id).run g₁).2
        { g₂ with depth := g₂.depth - 1 } := by
  obtain ⟨source, hsource⟩ : ∃ source, source = g.sourced id c := ⟨_, rfl⟩
  have hcommit : (commit r id v false).run { source with depth := source.depth + 1 } =
      if c.output.looseEq v then (false, { source with depth := source.depth + 1 })
      else (true, g.written r id c v) := by
    rw [written, ← hsource, hsource, sourced]
    split
    · exact run_commit v hc hlist
    · refine run_commit (c := { c with compute := none }) v ?_ hlist
      rw [Slots.get?_modify, if_pos rfl, hc]
      rfl
  have hrun : ((assignWith (some r) id v).run g).2 = ((entering (some r) id fun r => do
      let changed ← commit r id v false
      if changed && !c.observers.isEmpty then announce r id).run source).2 := by
    rw [snd_run_assignWith, hc, hsource]
    rfl
  have hentered (step : Reentry → GraphM Unit) : ((entering (some r) id step).run source).2 =
      let g' := ((step r).run { source with depth := source.depth + 1 }).2
      { g' with depth := g'.depth - 1 } := rfl
  rw [hrun, hentered, StateT.run_bind, hcommit, ← hsource]
  by_cases hv : c.output.looseEq v = true
  · rw [if_pos hv, if_pos hv]
    rfl
  · rw [if_neg hv, if_neg hv]
    cases c.observers.isEmpty <;> rfl

theorem run_assign_plain (remaining : Nat) {c : Cell} (v : Value) (hc : g.values.get? id = some c)
    (hlist : c.replica = none) :
    ((assign (remaining + 1) id v).run g).2 =
      if c.output.looseEq v then g.sourced id c
      else
        let g₁ := g.written ⟨pull remaining, assign remaining⟩ id c v
        let g₂ := if c.observers.isEmpty then g₁
          else ((announce ⟨pull remaining, assign remaining⟩ id).run g₁).2
        { g₂ with depth := g₂.depth - 1 } :=
  run_assignWith_plain ⟨pull remaining, assign remaining⟩ v hc hlist

theorem laterAt_of_written (remaining : Nat) (g : Graph) (id : ValueId) (c : Cell) (v : Value) :
    LaterAt g g.pushLevel (g.written ⟨pull remaining, assign remaining⟩ id c v) := by
  have hsource : LaterAt g g.pushLevel (g.sourced id c) := by
    rw [sourced]
    split
    · exact ⟨.refl g, rfl⟩
    · exact ⟨(Later.refl g).modified id (fun _ => .inl rfl) (fun _ => .inr rfl) fun _ _ ho _ => ho, rfl⟩
  have hstored : LaterAt g g.pushLevel { g.sourced id c with
      values := (g.sourced id c).values.modify id fun c => { c with output := v } } :=
    ⟨hsource.later.modified id (fun _ => .inl rfl) (fun _ => .inl rfl) fun _ _ ho _ => ho,
      hsource.pushLevel⟩
  exact ((LaterAt.discipline g).apply_agree (fun _ => LaterAt.reentry_agree g remaining _) id false
    g.pushLevel).keeps _ ((LaterAt.enters g).entered hstored)

/-- A write to a value that makes no list begins a cycle, unless it happens within a step that pushes,
if it changes the output and the value is observed. No other write does. -/
theorem cycle_assign (remaining : Nat) {c : Cell} (v : Value) (hc : g.values.get? id = some c)
    (hlist : c.replica = none) :
    ((assign (remaining + 1) id v).run g).2.cycle =
      if c.output.looseEq v = false ∧ c.observers ≠ [] then g.noticeCycle else g.cycle := by
  have hsourced : (g.sourced id c).cycle = g.cycle := by
    rw [sourced]
    split <;> rfl
  have hwritten : (g.written ⟨pull remaining, assign remaining⟩ id c v).cycle = g.cycle :=
    (cycle_apply remaining false).trans hsourced
  have hlevel := (laterAt_of_written remaining g id c v).pushLevel
  rw [run_assign_plain remaining v hc hlist]
  by_cases hv : c.output.looseEq v = true
  · rw [if_pos hv, if_neg (by simp [hv])]
    exact hsourced
  · rw [if_neg hv]
    cases hobservers : c.observers with
    | nil =>
      rw [if_neg (by simp)]
      exact hwritten
    | cons o os =>
      rw [if_pos (by simp [hv])]
      refine (cycle_announce remaining).trans ?_
      rw [noticeCycle, noticeCycle, hlevel, hwritten]

/-- After a write of something else to a value that makes no list, its observers were evaluated in
the cycle of the write, or in one that has begun since. -/
theorem evaluatedSince_of_assign (remaining : Nat) {c d : Cell} {v : Value} {o : ValueId}
    (hc : g.values.get? id = some c) (hlist : c.replica = none) (hv : c.output.looseEq v = false)
    (ho : o ∈ c.observers) (hlive : g.values.contains o) :
    let g' := ((assign (remaining + 1) id v).run g).2
    g'.values.contains id → g'.values.get? o = some d → d.EvaluatedSince g.noticeCycle := by
  intro g' hid hd
  obtain ⟨g₁, hg₁⟩ : ∃ g₁, g₁ = g.written ⟨pull remaining, assign remaining⟩ id c v := ⟨_, rfl⟩
  have h₁ : LaterAt g g.pushLevel g₁ := hg₁ ▸ laterAt_of_written remaining g id c v
  have hvalues : g'.values = ((announce ⟨pull remaining, assign remaining⟩ id).run g₁).2.values := by
    have hobserved : c.observers.isEmpty = false := List.isEmpty_eq_false_iff_exists_mem.2 ⟨o, ho⟩
    change ((assign (remaining + 1) id v).run g).2.values = _
    rw [run_assign_plain remaining v hc hlist, hv, hobserved, hg₁]
    rfl
  have hnotified := LaterAt.of_keeps (fun g₀ level =>
    ((LaterAt.discipline g₀).announce_agree (fun _ => LaterAt.reentry_agree g₀ remaining _)
      ((LaterAt.discipline g₀).marks id) level).keeps) g₁
  have hmem : o ∈ g.observersOf id := by
    rw [observersOf, hc]
    exact ho
  rw [hvalues] at hid hd
  -- the value and its observer are live when the observers are notified, since they are afterwards
  have hid₁ := hnotified.later.alive id (h₁.later.serial_lt (Slots.contains_of_get? hc)) hid
  have ho₁ := hnotified.later.alive o (h₁.later.serial_lt hlive) (Slots.contains_of_get? hd)
  have hmem₁ := h₁.later.observers id o hlive hmem hid₁ ho₁
  refine (evaluatedSince_of_announce remaining hmem₁ ho₁ hd).mono ?_
  have hcycle := h₁.later.cycle
  rw [noticeCycle, noticeCycle, h₁.pushLevel]
  split <;> omega

/-! ## Between operations -/

/-- A graph in which no mark is ahead of the cycle. -/
structure Timely (g : Graph) : Prop where
  evaluated : ∀ id c m, g.values.get? id = some c → c.evaluated = some m → m ≤ g.cycle

namespace Timely

theorem of_eq (h : Timely g) (hcycle : g.cycle ≤ g'.cycle) (hvalues : g'.values = g.values) :
    Timely g' :=
  ⟨fun id c m hc hm => Nat.le_trans (h.evaluated id c m (hvalues ▸ hc) hm) hcycle⟩

theorem modified (h : Timely g) (id : ValueId) {f : Cell → Cell}
    (hf : ∀ c, (f c).evaluated = c.evaluated ∨ (f c).evaluated = some g.cycle) :
    Timely { g with values := g.values.modify id f } := by
  refine ⟨fun v c m hc hm => ?_⟩
  rw [Slots.get?_modify] at hc
  split at hc
  · obtain ⟨b, hb, rfl⟩ := Option.map_eq_some_iff.1 hc
    rcases hf b with heq | heq
    · exact h.evaluated id b m hb (heq ▸ hm)
    · exact Nat.le_of_eq (Option.some.inj (hm.symm.trans heq))
  · exact h.evaluated v c m hc hm

theorem aloof : Aloof Timely where
  of_aside h haside := h.of_eq (Nat.le_of_eq haside.cycle.symm) haside.values
  inserted {g c} h hmark _ := by
    refine ⟨fun v d m hd hm => ?_⟩
    rcases Slots.of_get?_insert hd with ⟨-, rfl⟩ | hd
    · rw [hmark] at hm
      cases hm
    · exact h.evaluated v d m hd hm
  relinked h hf := h.modified _ fun c => .inl (by rw [(hf c).eq])
  erased id h := by
    refine ⟨fun v c m hc hm => h.evaluated v c m ?_ hm⟩
    rw [Slots.get?_erase] at hc
    split at hc
    · cases hc
    · exact hc

theorem discipline : Discipline (fun _ : Unit => ()) (fun _ => True) fun _ => Timely :=
  Aloof.discipline (fun _ => aloof) (·.of_eq (Nat.le_refl _) rfl) (·.of_eq (Nat.le_refl _) rfl)
    (fun h _ => h.of_eq (Nat.le_succ _) rfl) fun h hf => h.modified _ fun c => (hf c).evaluated

theorem run_keeps (operations : List Operation) : Keeps Timely (operations.forM Operation.run) :=
  .forM fun op _ => discipline.operation_keeps (i := ())
    ⟨(·.of_eq (Nat.le_refl _) rfl), (·.of_eq (Nat.le_refl _) rfl)⟩ (·.of_eq (Nat.le_succ _) rfl)
    aloof.linked_keeps (fun hg _ _ => aloof.built hg _ _) op

end Timely

/-- Between operations, a write is as deep as the settings allow. -/
theorem Under.exists_run_set {options : GraphOptions} (h : Under options 0 0 g)
    (hdepth : 0 < options.maxDepth) : ∃ remaining, ∀ id v,
      ((Operation.set id v).run.run g).2 = ((assign (remaining + 1) id v).run g).2 := by
  obtain ⟨remaining, hremaining⟩ : ∃ remaining, options.maxDepth = remaining + 1 :=
    Nat.exists_eq_succ_of_ne_zero (Nat.ne_of_gt hdepth)
  have hreentry : g.reentry = ⟨pull (remaining + 1), assign (remaining + 1)⟩ := by
    rw [reentry, h.options, h.depth, Nat.sub_zero, hremaining]
  refine ⟨remaining, fun id v => ?_⟩
  change ((g.reentry.assign id v).run g).2 = _
  rw [hreentry]

/-- Take any program, settings that allow for a read or write, any host, and any operations one after
the other. If something else is then written to a value that makes no list, each observer that is
still there afterwards was evaluated in a cycle that had not begun before the write. -/
theorem run_set_evaluated (program : Program) (options : GraphOptions) (host : Host)
    (operations : List Operation) (hdepth : 0 < options.maxDepth) :
    let g := ((operations.forM Operation.run).run (ofProgram program options host)).2
    ∀ id c v, g.values.get? id = some c → c.replica = none → c.output.looseEq v = false →
      let g' := ((Operation.set id v).run.run g).2
      g'.values.contains id → ∀ o ∈ c.observers, ∀ b d, g.values.get? o = some b →
        g'.values.get? o = some d →
        ∃ n, d.evaluated = some n ∧ g.cycle < n ∧ n ≤ g'.cycle ∧
          ∀ m, b.evaluated = some m → m ≤ g.cycle := by
  intro g id c v hc hlist hv g' hid o ho b d hb hd
  have hunder : Under options 0 0 g := Under.run_keeps operations _ ⟨rfl, rfl, rfl⟩
  have htimely : Timely g := Timely.run_keeps operations _ ⟨fun _ _ _ hc => by simp [ofProgram] at hc⟩
  have htimely' : Timely g' := Timely.run_keeps [Operation.set id v] g htimely
  obtain ⟨remaining, hset⟩ := hunder.exists_run_set hdepth
  have hrun : g' = ((assign (remaining + 1) id v).run g).2 := hset id v
  obtain ⟨n, hn, hle⟩ : d.EvaluatedSince g.noticeCycle := by
    rw [hrun] at hid hd
    exact evaluatedSince_of_assign remaining hc hlist hv ho (Slots.contains_of_get? hb) hid hd
  rw [noticeCycle, if_pos hunder.pushLevel] at hle
  exact ⟨n, hn, hle, htimely'.evaluated o d n hd hn, fun m hm => htimely.evaluated o b m hb hm⟩

/-- Take any program, settings that allow for a read or write, any host, and any operations one after
the other. If a value that makes no list is then set to what it shows already, no handler runs and
nothing is evaluated: the value loses its expression, unless it is a handler, and all else is as it
was. -/
theorem run_set_same (program : Program) (options : GraphOptions) (host : Host)
    (operations : List Operation) (hdepth : 0 < options.maxDepth) :
    let g := ((operations.forM Operation.run).run (ofProgram program options host)).2
    ∀ id c v, g.values.get? id = some c → c.replica = none → c.output.looseEq v = true →
      ((Operation.set id v).run.run g).2 = g.sourced id c := by
  intro g id c v hc hlist hv
  have hunder : Under options 0 0 g := Under.run_keeps operations _ ⟨rfl, rfl, rfl⟩
  obtain ⟨remaining, hset⟩ := hunder.exists_run_set hdepth
  rw [hset, run_assign_plain remaining v hc hlist, if_pos hv]

/-- Take any program, settings that allow for a read or write, any host, and any operations one after
the other. If a value that makes no list is then set, a cycle begins just when its output changes and it
is observed, and no further one begins in the course of it. -/
theorem run_set_cycle (program : Program) (options : GraphOptions) (host : Host)
    (operations : List Operation) (hdepth : 0 < options.maxDepth) :
    let g := ((operations.forM Operation.run).run (ofProgram program options host)).2
    ∀ id c v, g.values.get? id = some c → c.replica = none →
      ((Operation.set id v).run.run g).2.cycle =
        if c.output.looseEq v = false ∧ c.observers ≠ [] then g.cycle + 1 else g.cycle := by
  intro g id c v hc hlist
  have hunder : Under options 0 0 g := Under.run_keeps operations _ ⟨rfl, rfl, rfl⟩
  obtain ⟨remaining, hset⟩ := hunder.exists_run_set hdepth
  rw [hset, cycle_assign remaining v hc hlist, noticeCycle, if_pos hunder.pushLevel]

/-- A text that was evaluated before a handler assigns one of the values that it takes keeps what it
shows. -/
example :
    let d := Document.ofFragment "<div :x='[[0]]' :y='[[0]]' :handle-x='[[y = 5]]'>[[x + y]]</div>"
    let c := d.compile .standard none
    let g := (([Operation.mount, Operation.write ⟨0, 0⟩ "x" (.number 1)].forM Operation.run).run
      (ofProgram c.program .standard (.ofDocument c.document))).2
    let shown (name : String) := ((g.lookup? ⟨0, 0⟩ name).bind g.output?).map Value.toText
    shown "x" = some "1" ∧ shown "y" = some "5" ∧ shown "__t0" = some "1" := by
  decide +kernel

end Graph

end ReactiveMarkup
