import ReactiveMarkup.Proofs.Graph.Vigil
import ReactiveMarkup.Proofs.Value.Equality

/-!
# When a handler is run

A handler that is evaluated reads what it watches, is run if this is something else than it remembers, and
remembers what it has read. So it is not run while nothing changes. After a change it is run when it is
evaluated first, and not again, since it is marked with the cycle while it is under way and remembers
what is shown once that has ended.

A write tells all observers of a change, in a cycle that is its own. The handler is one of them, so it has
been run when the write returns.

Main definitions: `Graph.Calm`, `Graph.Watching`.
Main results: `Graph.calm_agree`, `Graph.watching_agree`, `Graph.calm_of_assign`.
-/
namespace ReactiveMarkup.Graph

variable {V : Vigil} {shown memory old v : Value} {total count N remaining : Nat} {id : ValueId}
  {r : Reentry} {g g' : Graph}

/-! ## When a vigil is over -/

theorem over_agree (V : Vigil) (remaining : Nat) :
    Reentry.Agree (Over V) (spared V.ids remaining) (spared V.ids remaining) :=
  spared_agree (over_regimen V) (over_enters V) V.ids remaining ()

theorem over_refresh (id : ValueId) (first : Bool) :
    Keeps (Over V) (refresh (spared V.ids remaining) id first) :=
  ((over_regimen V).refresh_agree (fun _ => over_agree V remaining) ((over_regimen V).revises id)
    ((over_regimen V).notes id) first ()).keeps

theorem over_handled (id : ValueId) (cell : Cell) (first : Bool) (current : Value) :
    Keeps (Over V) (handled (spared V.ids remaining) id cell first current) :=
  ((over_regimen V).handled_agree (fun _ => over_agree V remaining) ((over_regimen V).notes id) cell first
    current ()).keeps

theorem over_concluded (id : ValueId) (first : Bool) (result : Option Value) :
    Keeps (Over V) (concluded (spared V.ids remaining) id first result) :=
  ((over_regimen V).concluded_agree (fun _ => over_agree V remaining) ((over_regimen V).revises id) first
    result ()).keeps

/-! ## Handlers -/

/-- A handler that is evaluated reads what it watches, may be run, and takes over what it has read. -/
theorem run_refresh_handler {b : Cell} {path : ValuePath} {w : ValueId} (hb : g.values.get? id = some b)
    (hkind : b.template.kind = .handler path) (hleads : g.resolve? b.scope path = some w) (r : Reentry)
    (first : Bool) :
    (refresh r id first).run g =
      let out := (r.pull w).run g
      (concluded r id first (some out.1)).run ((handled r id b first out.1).run out.2).2 := by
  obtain ⟨out, hout⟩ : ∃ out, out = (r.pull w).run g := ⟨_, rfl⟩
  have hcurrent : ((handled r id b first out.1).run out.2).1 = out.1 := by
    unfold handled
    cases b.compute with
    | none => rfl
    | some body =>
      dsimp only
      split <;> rfl
  have hrecompute : (recompute r id first).run g =
      (some out.1, ((handled r id b first out.1).run out.2).2) := by
    rw [recompute, run_get_bind, hb]
    simp only [hkind]
    rw [StateT.run_map, runHandler, run_get_bind, hleads, StateT.run_bind, ← hout]
    change (some ((handled r id b first out.1).run out.2).1, ((handled r id b first out.1).run out.2).2) = _
    rw [hcurrent]
  dsimp only
  rw [run_refresh_of hrecompute, ← hout]

/-- Showing a handler does nothing. -/
theorem run_apply_of_isHandler {c : Cell} (hc : g.values.get? id = some c)
    (hkind : c.template.kind.isHandler) (r : Reentry) (first : Bool) : (apply r id first).run g = ((), g) := by
  rw [apply, run_get_bind, hc]
  dsimp only
  cases hk : c.template.kind with
  | handler => rfl
  | _ => simp [hk, ValueKind.isHandler] at hkind

/-- A handler that is evaluated reads what is shown, unless the vigil is over. -/
theorem refresh_handler_reads {P : Graph → Prop} {mark : Option Nat → Prop}
    (hP : ∀ {g}, P g → Over V g ∨ Holding V.watched (Cell.Source shown) g)
    (hpull : Keeps P ((spared V.ids remaining).pull V.watched)) (hg : P g)
    (h : Keeping V shown memory total mark g) :
    Over V ((refresh (spared V.ids remaining) V.handler false).run g).2 ∨
      ∃ b read, b.Posted V memory ∧ P read ∧ (refresh (spared V.ids remaining) V.handler false).run g =
        (concluded (spared V.ids remaining) V.handler false (some shown)).run
          ((handled (spared V.ids remaining) V.handler b false shown).run read).2 := by
  cases hb : g.values.get? V.handler with
  | none => exact .inl (over_refresh V.handler false g (h.over_of_handler hb))
  | some b =>
    have hposted := (h.posted.cell b hb).1
    rcases h.leads_or_over with hleads | hover
    · obtain ⟨out, hout⟩ : ∃ out, out = ((spared V.ids remaining).pull V.watched).run g := ⟨_, rfl⟩
      have hread : P out.2 ∧ (Over V out.2 ∨ out.1 = shown) := by
        rw [hout]
        exact pull_source hP hpull hg
      have hrun := run_refresh_handler hb hposted.kind (hposted.scope ▸ hleads) (spared V.ids remaining) false
      rw [← hout] at hrun
      dsimp only at hrun
      rcases hread.2 with hover | hshown
      · rw [hrun]
        exact .inl (over_concluded _ _ _ _ (over_handled _ _ _ _ _ hover))
      · rw [hshown] at hrun
        exact .inr ⟨b, out.2, hposted, hread.1, hrun⟩
    · exact .inl (over_refresh V.handler false g hover)

/-- A handler takes over what it has read and tells its observers, if it remembers something else. -/
theorem concluded_handler {mark : Option Nat → Prop} (h : Keeping V shown memory total mark g) (r : Reentry)
    (v : Value) :
    Over V g ∨ ((concluded r V.handler false (some v)).run g).2 =
      if memory.looseEq v then g
      else ((notify r V.handler).run
        { g with values := g.values.modify V.handler fun c => { c with output := v } }).2 := by
  cases hb : g.values.get? V.handler with
  | none => exact .inl (h.over_of_handler hb)
  | some b =>
    have hposted := (h.posted.cell b hb).1
    obtain ⟨stored, hstored⟩ : ∃ stored : Graph, stored =
        { g with values := g.values.modify V.handler fun c => { c with output := v } } := ⟨_, rfl⟩
    have hlive : stored.values.get? V.handler = some { b with output := v } := by
      rw [hstored, Slots.get?_modify, if_pos rfl, hb]
      rfl
    have hcommit := run_commit (r := r) v hb hposted.replica
    rw [hposted.output, ← hstored,
      run_apply_of_isHandler hlive (by simp [hposted.kind, ValueKind.isHandler])] at hcommit
    right
    rw [concluded, StateT.run_bind, hcommit, ← hstored]
    split <;> rfl

/-! ## While nothing changes -/

/-- A handler that was run `total` times and remembers `memory`, beside a value that shows `shown`. -/
def Calm (V : Vigil) (shown memory : Value) (total : Nat) (g : Graph) : Prop :=
  Over V g ∨ Keeping V shown memory total (fun _ => True) g

theorem calm_routine (V : Vigil) (shown memory : Value) (total : Nat) :
    Routine (ι := Unit) (fun i => i) (fun _ => True) fun _ => Calm V shown memory total :=
  (over_regimen V).toRoutine.or (keeping_routine V shown memory total fun _ => True)

theorem Calm.congr (h : Calm V shown memory total g) (hscopes : g'.scopes = g.scopes)
    (hvalues : g'.values = g.values) (hruns : g'.runs = g.runs)
    (hdiagnostics : g'.diagnostics = g.diagnostics) : Calm V shown memory total g' :=
  h.imp (·.congr hscopes hvalues hdiagnostics) (·.congr hscopes hvalues hruns)

theorem calm_enters : Enters (fun _ : Unit => Calm V shown memory total) fun _ => Calm V shown memory total :=
  ⟨(·.congr rfl rfl rfl rfl), (·.congr rfl rfl rfl rfl)⟩

theorem calm_revises (hid : id ∉ V.ids) : Revises (fun _ : Unit => Calm V shown memory total) id := by
  rintro ⟨⟩ g f (h | h) hf
  · exact .inl ((over_regimen V).revised (i := ()) h hf)
  · exact .inr (h.modify_of_ne hid f)

theorem calm_notes (hid : id ∉ V.ids) : Notes (fun _ : Unit => Calm V shown memory total) id := by
  rw [Vigil.mem_ids, not_or] at hid
  rintro ⟨⟩ g (h | h)
  · exact ⟨.inl ((over_regimen V).noted (i := ()) _ h), .inl ((over_regimen V).noted (i := ()) _ h)⟩
  · exact ⟨.inr (h.noted_value id), .inr (h.noted_of_ne hid.2)⟩

/-- A mark does not matter. -/
theorem Keeping.marked (h : Keeping V shown memory total (fun _ => True) g) (id : ValueId) :
    Keeping V shown memory total (fun _ => True) (g.marked id) where
  sited p hp := Naming.scopewise (h.sited p hp) rfl
  source := h.source.marked Cell.Source.kept id
  posted := h.posted.marked (fun hc hk => ⟨hc.1.kept hk, trivial⟩) id
  fired := h.fired

/-- The watched value may be evaluated again. -/
theorem Keeping.refresh_watched {mark : Option Nat → Prop} (h : Keeping V shown memory total mark g) {c : Cell}
    (hc : g.values.get? V.watched = some c) (r : Reentry) :
    Keeping V shown memory total mark ((refresh r V.watched c.evaluated.isNone).run
      { g.marked V.watched with depth := g.depth + 1 }).2 := by
  obtain ⟨entered, hentered⟩ : ∃ entered : Graph,
      entered = { g.marked V.watched with depth := g.depth + 1 } := ⟨_, rfl⟩
  have hmarked : entered.values.get? V.watched = some { c with evaluated := some g.cycle } := by
    rw [hentered]
    exact get?_marked hc
  have hkept : Keeping V shown memory total mark entered := by
    rw [hentered]
    exact (h.revise_watched fun c hc => hc.kept .marked).congr rfl rfl rfl
  rw [← hentered, Option.isNone_eq_false_iff.2 (h.source.cell c hc).evaluated]
  exact refresh_source_keeps (fun _ h => h.congr rfl rfl rfl) (fun h => h.noted_value _) hmarked
    (hkept.source.cell _ hmarked) r hkept

/-- A handler that remembers what equals the watched value is not run. -/
theorem refresh_handler_calm (hmemory : ∀ u, memory.looseEq u = shown.looseEq u)
    (hself : shown.looseEq shown = true)
    (hr : Reentry.Agree (Calm V shown memory total) (spared V.ids remaining) (spared V.ids remaining))
    (h : Keeping V shown memory total (fun _ => True) g) :
    Calm V shown memory total ((refresh (spared V.ids remaining) V.handler false).run g).2 := by
  have hsame : memory.looseEq shown = true := by rw [hmemory, hself]
  have hread := refresh_handler_reads (P := Calm V shown memory total) (fun h => h.imp_right (·.source))
    (hr.pull V.watched).keeps (.inr h) h
  rcases hread with hover | ⟨b, read, hposted, hcalm, hrun⟩
  · exact .inl hover
  · have hidle : ((handled (spared V.ids remaining) V.handler b false shown).run read).2 = read := by
      unfold handled
      rw [hposted.compute, hposted.output, Value.looseEq_comm, hsame]
      rfl
    rw [hrun, hidle]
    rcases hcalm with hover | hkept
    · exact .inl (over_concluded _ _ _ _ hover)
    · rcases concluded_handler hkept (spared V.ids remaining) shown with hover | hdone
      · exact .inl (over_concluded _ _ _ _ hover)
      · rw [hdone, if_pos hsame]
        exact .inr hkept

/-- Evaluating any value leaves a calm vigil calm. -/
theorem refresh_calm (hmemory : ∀ u, memory.looseEq u = shown.looseEq u)
    (hself : shown.looseEq shown = true)
    (hr : Reentry.Agree (Calm V shown memory total) (spared V.ids remaining) (spared V.ids remaining))
    (h : Calm V shown memory total g) {c : Cell} (hc : g.values.get? id = some c) :
    Calm V shown memory total ((refresh (spared V.ids remaining) id c.evaluated.isNone).run
      { g.marked id with depth := g.depth + 1 }).2 := by
  obtain ⟨entered, hentered⟩ : ∃ entered : Graph, entered = { g.marked id with depth := g.depth + 1 } :=
    ⟨_, rfl⟩
  rw [← hentered]
  rcases h with hover | hkeep
  · have hover' : Over V entered := by
      rw [hentered]
      exact ((over_regimen V).marks id () g hover).congr rfl rfl rfl
    exact .inl (over_refresh id _ entered hover')
  · have hkeep' : Keeping V shown memory total (fun _ => True) entered := by
      rw [hentered]
      exact (hkeep.marked id).congr rfl rfl rfl
    by_cases hid : id ∈ V.ids
    · rcases Vigil.mem_ids.1 hid with rfl | rfl
      · rw [hentered]
        exact .inr (hkeep.refresh_watched hc _)
      · rw [Option.isNone_eq_false_iff.2 (hkeep.posted.cell c hc).1.evaluated]
        exact refresh_handler_calm hmemory hself hr hkeep'
    · exact ((calm_routine V shown memory total).refresh_agree (fun _ => hr) (calm_revises hid)
        (calm_notes hid) _ ()).keeps entered (.inr hkeep')

/-- So does whatever else is read and assigned. -/
theorem calm_agree (hmemory : ∀ u, memory.looseEq u = shown.looseEq u)
    (hself : shown.looseEq shown = true) (remaining : Nat) :
    Reentry.Agree (Calm V shown memory total) (spared V.ids remaining) (spared V.ids remaining) :=
  (calm_routine V shown memory total).spared_agree_of_refresh calm_enters (fun _ hid => calm_revises hid)
    (fun _ _ _ => .inl (over_of_refused V _ _))
    (fun hr h hc _ => refresh_calm hmemory hself (hr ()) h hc) remaining ()

/-! ## In the cycle of a change -/

/-- What becomes of a handler while the observers of what it watches are brought up to date, in cycle `N`.
It has been run `count` times and remembers `old`. Before and after its run either that is still so, and
it was not evaluated in this cycle yet, or it was run once more and remembers what is shown. While it is
under way, with the runs counted that there are by then, it is marked with this cycle. -/
def Watch (V : Vigil) (N : Nat) (old shown : Value) (count : Nat) : Option Nat → Graph → Prop
  | none, g => Calm V shown shown (count + 1) g ∨ Keeping V shown old count (∀ m ∈ ·, m < N) g
  | some total, g => Over V g ∨ Keeping V shown old total (· = some N) g

/-- That, as deep within steps that push as the index tells. -/
def Watching (V : Vigil) (N : Nat) (old shown : Value) (count : Nat) (i : Nat × Option Nat) (g : Graph) :
    Prop :=
  Within N i.1 g ∧ Watch V N old shown count i.2 g

theorem Watch.of_over {phase : Option Nat} (h : Over V g) : Watch V N old shown count phase g := by
  cases phase with
  | none => exact .inl (.inl h)
  | some total => exact .inl h

theorem watch_routine (V : Vigil) (N : Nat) (old shown : Value) (count : Nat) (phase : Option Nat) :
    Routine (ι := Unit) (fun i => i) (fun _ => True) fun _ => Watch V N old shown count phase := by
  cases phase with
  | none => exact (calm_routine V shown shown (count + 1)).or (keeping_routine V shown old count _)
  | some total => exact (over_regimen V).toRoutine.or (keeping_routine V shown old total _)

theorem watching_routine (V : Vigil) (N : Nat) (old shown : Value) (count : Nat) :
    Routine (fun i : Nat × Option Nat => (i.1 + 1, i.2)) (fun _ => True) (Watching V N old shown count) := by
  have hwithin : Routine (fun i : Nat × Option Nat => (i.1 + 1, i.2)) (fun _ => True)
      fun i => Within N i.1 := .reindex (fun _ => (Within.discipline N).toRoutine) fun _ => rfl
  have hwatch : Routine (fun i : Nat × Option Nat => (i.1 + 1, i.2)) (fun _ => True)
      fun i => Watch V N old shown count i.2 :=
    .reindex (I := fun (i : Nat × Option Nat) (_ : Unit) => Watch V N old shown count i.2)
      (f := fun _ => ()) (fun i => watch_routine V N old shown count i.2) fun _ => rfl
  exact hwithin.and hwatch id

theorem Watch.congr {phase : Option Nat} (h : Watch V N old shown count phase g)
    (hscopes : g'.scopes = g.scopes) (hvalues : g'.values = g.values) (hruns : g'.runs = g.runs)
    (hdiagnostics : g'.diagnostics = g.diagnostics) : Watch V N old shown count phase g' := by
  cases phase with
  | none => exact h.imp (·.congr hscopes hvalues hruns hdiagnostics) (·.congr hscopes hvalues hruns)
  | some total => exact h.imp (·.congr hscopes hvalues hdiagnostics) (·.congr hscopes hvalues hruns)

theorem watching_enters : Enters (Watching V N old shown count) (Watching V N old shown count) where
  entered h := ⟨⟨h.1.cycle, h.1.pushLevel⟩, h.2.congr rfl rfl rfl rfl⟩
  left h := ⟨⟨h.1.cycle, h.1.pushLevel⟩, h.2.congr rfl rfl rfl rfl⟩

theorem watching_revises (hid : id ∉ V.ids) : Revises (Watching V N old shown count) id := by
  rintro ⟨level, phase⟩ g f ⟨hwithin, h⟩ hf
  refine ⟨⟨hwithin.cycle, hwithin.pushLevel⟩, ?_⟩
  cases phase with
  | none =>
    refine h.imp (fun h => ?_) (·.modify_of_ne hid f)
    exact calm_revises hid () g f h hf
  | some total =>
    refine h.imp (fun h => ?_) (·.modify_of_ne hid f)
    exact (over_regimen V).revised (i := ()) h hf

theorem watching_notes (hid : id ∉ V.ids) : Notes (Watching V N old shown count) id := by
  rintro ⟨level, phase⟩ g ⟨hwithin, h⟩
  have hwithin' (runner : Runner) : Within N level (g.noted runner) := ⟨hwithin.cycle, hwithin.pushLevel⟩
  have hne : id ≠ V.handler := fun h => hid (Vigil.mem_ids.2 (.inr h))
  cases phase with
  | none =>
    refine ⟨⟨hwithin' _, h.imp (fun h => ?_) (·.noted_value id)⟩,
      ⟨hwithin' _, h.imp (fun h => ?_) (·.noted_of_ne hne)⟩⟩
    · exact (calm_notes hid () g h).1
    · exact (calm_notes hid () g h).2
  | some total =>
    refine ⟨⟨hwithin' _, h.imp (fun h => ?_) (·.noted_value id)⟩,
      ⟨hwithin' _, h.imp (fun h => ?_) (·.noted_of_ne hne)⟩⟩
    · exact (over_regimen V).noted (i := ()) _ h
    · exact (over_regimen V).noted (i := ()) _ h

/-- A handler that was marked with the cycle of a change is run, and remembers what is shown from then
on. -/
theorem refresh_handler_fires (hnew : old.looseEq shown = false)
    (hr : ∀ i, Reentry.Agree (Watching V N old shown count i) (spared V.ids remaining)
      (spared V.ids remaining))
    {level : Nat} (hwithin : Within N level g) (h : Keeping V shown old count (· = some N) g) :
    Watch V N old shown count none ((refresh (spared V.ids remaining) V.handler false).run g).2 := by
  have hread := refresh_handler_reads (P := Watching V N old shown count (level, some count))
    (fun h => h.2.imp_right (·.source)) ((hr _).pull V.watched).keeps ⟨hwithin, .inr h⟩ h
  rcases hread with hover | ⟨b, read, hposted, hbusy, hrun⟩
  · exact .of_over hover
  · -- the body is run: the run counts from here on
    obtain ⟨after, hafter⟩ : ∃ after, after =
        ((attempt (spared V.ids remaining) V.handler b.scope V.body).run
          (read.noted (.handler V.handler))).2 := ⟨_, rfl⟩
    have hran : ((handled (spared V.ids remaining) V.handler b false shown).run read).2 = after := by
      unfold handled
      rw [hposted.compute, hposted.output, Value.looseEq_comm, hnew, hafter]
      rfl
    have hnoted : Watching V N old shown count (level, some (count + 1))
        (read.noted (.handler V.handler)) := by
      refine ⟨⟨hbusy.1.cycle, hbusy.1.pushLevel⟩, hbusy.2.imp (fun h => ?_) (·.noted_handler)⟩
      exact (over_regimen V).noted (i := ()) _ h
    have hdone : Watching V N old shown count (level, some (count + 1)) after := by
      rw [hafter]
      exact ((watching_routine V N old shown count).attempt_agree hr V.handler b.scope V.body _).keeps _
        hnoted
    rw [hrun, hran]
    rcases hdone.2 with hover | hkept
    · exact .of_over (over_concluded _ _ _ _ hover)
    · rcases concluded_handler hkept (spared V.ids remaining) shown with hover | hconcluded
      · exact .of_over (over_concluded _ _ _ _ hover)
      · -- it remembers what is shown before its observers are told
        have hremembers : Watching V N old shown count (level, none) { after with
            values := after.values.modify V.handler fun c => { c with output := shown } } := by
          refine ⟨⟨hdone.1.cycle, hdone.1.pushLevel⟩, .inl (.inr ?_)⟩
          exact hkept.revise_handler fun c hc _ => ⟨{ hc with output := rfl }, trivial⟩
        rw [hconcluded, hnew, if_neg Bool.false_ne_true]
        exact ((Routine.notify_agree (hr (level, none)) V.handler).keeps _ hremembers).2

/-- Evaluating any value goes on with the watch. -/
theorem refresh_watching (hnew : old.looseEq shown = false) (hself : shown.looseEq shown = true)
    (hr : ∀ i, Reentry.Agree (Watching V N old shown count i) (spared V.ids remaining)
      (spared V.ids remaining))
    {i : Nat × Option Nat} (h : Watching V N old shown count i g) {c : Cell}
    (hc : g.values.get? id = some c) (hmark : c.evaluated ≠ some g.cycle) :
    Watching V N old shown count i ((refresh (spared V.ids remaining) id c.evaluated.isNone).run
      { g.marked id with depth := g.depth + 1 }).2 := by
  obtain ⟨level, phase⟩ := i
  obtain ⟨entered, hentered⟩ : ∃ entered : Graph, entered = { g.marked id with depth := g.depth + 1 } :=
    ⟨_, rfl⟩
  by_cases hid : id ∈ V.ids
  · have hwithin : Within N level entered := by
      rw [hentered]
      exact ⟨h.1.cycle, h.1.pushLevel⟩
    have hI := Within.discipline N
    have hlevels (level : Nat) :
        Reentry.Agree (Within N level) (spared V.ids remaining) (spared V.ids remaining) :=
      spared_agree hI.toRegimen ⟨fun h => ⟨h.cycle, h.pushLevel⟩, fun h => ⟨h.cycle, h.pushLevel⟩⟩ V.ids
        remaining level
    refine ⟨?_, ?_⟩
    · rw [← hentered]
      exact (hI.refresh_agree hlevels (hI.revises id) (hI.notes id) _ level).keeps entered hwithin
    · cases phase with
      | none =>
        rcases h.2 with hcalm | hkeep
        · have hmemory (u : Value) : shown.looseEq u = shown.looseEq u := rfl
          exact .inl (refresh_calm hmemory hself (calm_agree hmemory hself remaining) hcalm hc)
        · rcases Vigil.mem_ids.1 hid with rfl | rfl
          · exact .inr (hkeep.refresh_watched hc _)
          · -- the handler has not been evaluated in this cycle: now it is run
            have hposted : Keeping V shown old count (· = some N) entered := by
              rw [hentered]
              refine Keeping.congr (hkeep.revise_handler fun c hc _ => ⟨hc.kept .marked, ?_⟩) rfl rfl rfl
              exact congrArg some h.1.cycle
            rw [Option.isNone_eq_false_iff.2 (hkeep.posted.cell c hc).1.evaluated, ← hentered]
            exact refresh_handler_fires hnew hr hwithin hposted
      | some total =>
        rcases h.2 with hover | hkeep
        · have hover' : Over V entered := by
            rw [hentered]
            exact ((over_regimen V).marks id () g hover).congr rfl rfl rfl
          rw [← hentered]
          exact .inl (over_refresh id _ entered hover')
        · rcases Vigil.mem_ids.1 hid with rfl | rfl
          · exact .inr (hkeep.refresh_watched hc _)
          · -- the handler is under way, so it is marked
            have hcycle : c.evaluated = some N := (hkeep.posted.cell c hc).2
            exact absurd (hcycle.trans (congrArg some h.1.cycle.symm)) hmark
  · exact ((watching_routine V N old shown count).refresh_agree hr (watching_revises hid)
      (watching_notes hid) _ (level, phase)).keeps _
        (watching_enters.entered ((watching_revises hid).marks (level, phase) g h))

/-- So do reading and assigning, if what is watched and its handler are not assigned. -/
theorem watching_agree (hnew : old.looseEq shown = false) (hself : shown.looseEq shown = true)
    (remaining : Nat) (i : Nat × Option Nat) :
    Reentry.Agree (Watching V N old shown count i) (spared V.ids remaining) (spared V.ids remaining) :=
  (watching_routine V N old shown count).spared_agree_of_refresh watching_enters
    (fun _ hid => watching_revises hid)
    (fun h _ _ => ⟨⟨h.1.cycle, h.1.pushLevel⟩, .of_over (over_of_refused V _ _)⟩)
    (fun hr h hc hmark => refresh_watching hnew hself hr h hc hmark) remaining i

/-! ## Writes -/

/-- Showing a value that is no request reads and assigns nothing. -/
theorem run_apply_of_not_request {c : Cell} (hc : g.values.get? id = some c)
    (hkind : c.template.kind ≠ .request) (r : Reentry) (first : Bool) :
    ∃ host diagnostics effects, ((apply r id first).run g).2 = { g with host, diagnostics, effects } := by
  rw [apply, run_get_bind, hc]
  dsimp only
  split
  · split
    · exact ⟨_, _, _, rfl⟩
    · split
      · rename_i hrequest
        exact absurd hrequest hkind
      · rename_i node _ _ _
        have hrun (m : GraphM Unit) : ((countEffect >>= fun _ => pushing m).run g).2 =
            let g' := (m.run { g with effects := g.effects + 1, pushLevel := g.pushLevel + 1 }).2
            { g' with pushLevel := g'.pushLevel - 1 } := rfl
        rw [hrun, StateT.run_bind, run_tell]
        dsimp only
        cases c.template.kind.bind node c.output g.host with
        | ok host => exact ⟨host, _, _, rfl⟩
        | error e => exact ⟨_, _, _, rfl⟩
  · exact ⟨_, _, _, rfl⟩

/-- What is watched may lose its expression. -/
theorem Keeping.sourced {mark : Option Nat → Prop} (h : Keeping V shown memory total mark g) (c : Cell) :
    Keeping V shown memory total mark (g.sourced V.watched c) := by
  rw [Graph.sourced]
  split
  · exact h
  · exact h.revise_watched fun c hc => { hc with compute := fun e he => by cases he }

/-- No mark is ahead of the cycle. -/
theorem Keeping.timely {mark : Option Nat → Prop} (h : Keeping V shown memory total mark g) (htimely : Timely g) :
    Keeping V shown memory total (∀ m ∈ ·, m < g.cycle + 1) g where
  sited := h.sited
  source := h.source
  posted := ⟨h.posted.built, fun c hc => ⟨(h.posted.cell c hc).1, fun m hm =>
    Nat.lt_succ_of_le (htimely.evaluated V.handler c m hc hm)⟩⟩
  fired := h.fired

/-- A value that differs is taken over and shown. -/
theorem Keeping.written {mark : Option Nat → Prop} (h : Keeping V shown memory total mark g) {c : Cell}
    (hc : g.values.get? V.watched = some c) (r : Reentry) (v : Value) :
    Keeping V v memory total mark (g.written r V.watched c v) ∧
      (g.written r V.watched c v).cycle = g.cycle ∧ (g.written r V.watched c v).pushLevel = g.pushLevel := by
  have hkind := (h.source.cell c hc).isHandler
  obtain ⟨source, hsource⟩ : ∃ source, source = g.sourced V.watched c := ⟨_, rfl⟩
  have hsourced : Keeping V shown memory total mark source := hsource ▸ h.sourced c
  obtain ⟨stored, hstored⟩ : ∃ stored : Graph, stored = { source with
      depth := source.depth + 1
      values := source.values.modify V.watched fun c => { c with output := v } } := ⟨_, rfl⟩
  have hwritten : g.written r V.watched c v = ((apply r V.watched false).run stored).2 := by
    rw [Graph.written, hstored, hsource]
  rw [Graph.sourced, hkind, if_neg Bool.false_ne_true] at hsource
  -- without an expression the value may show anything
  have hbare : Holding V.watched (fun c => c.Source shown ∧ c.compute = none) source := by
    rw [hsource]
    exact h.source.revise fun c hc => ⟨{ hc with compute := fun e he => by cases he }, rfl⟩
  have hsourced' : Holding V.watched (Cell.Source v) stored := by
    rw [hstored]
    refine Holding.of_values (hbare.revise fun c hc => ?_) rfl
    exact { hc.1 with output := rfl, compute := fun e he => by cases hc.2.symm.trans he }
  have hkept : Keeping V v memory total mark stored := by
    refine ⟨?_, hsourced', ?_, ?_⟩
    all_goals rw [hstored]
    · exact fun p hp => Naming.scopewise (hsourced.sited p hp) rfl
    · exact (hsourced.posted.modify_of_ne V.ne.symm _).of_values rfl
    · exact hsourced.fired
  have hlive : stored.values.get? V.watched = some { c with compute := none, output := v } := by
    rw [hstored, Slots.get?_modify, if_pos rfl, hsource, Slots.get?_modify, if_pos rfl, hc]
    rfl
  obtain ⟨host, diagnostics, effects, hrun⟩ :=
    run_apply_of_not_request hlive (hkept.source.cell _ hlive).isRequest r false
  rw [hwritten, hrun]
  refine ⟨hkept.congr rfl rfl rfl, ?_, ?_⟩
  all_goals rw [hstored, hsource]

/-- The observers of what is watched are notified of a change. -/
theorem watch_of_assign (hmemory : ∀ u, memory.looseEq u = shown.looseEq u) (hself : v.looseEq v = true)
    (hnew : shown.looseEq v = false) (h : Keeping V shown memory total (fun _ => True) g)
    (hlevel : g.pushLevel = 0) (htimely : Timely g) {c : Cell} (hc : g.values.get? V.watched = some c)
    (hobserved : V.handler ∈ c.observers) (remaining : Nat) :
    Watch V (g.cycle + 1) memory v total none
      ((assignWith (some (spared V.ids remaining)) V.watched v).run g).2 := by
  have hsource := h.source.cell c hc
  obtain ⟨written, hwritten⟩ : ∃ written, written = g.written (spared V.ids remaining) V.watched c v :=
    ⟨_, rfl⟩
  obtain ⟨hkept, hcycle, hpush⟩ := (h.timely htimely).written hc (spared V.ids remaining) v
  rw [← hwritten] at hkept hcycle hpush
  have hnotified : Watch V (g.cycle + 1) memory v total none
      ((announce (spared V.ids remaining) V.watched).run written).2 := by
    obtain ⟨begun, hbegun⟩ : ∃ begun, begun =
        { written with cycle := written.noticeCycle }.marked V.watched := ⟨_, rfl⟩
    have hwithin : Within (g.cycle + 1) 0 { begun with pushLevel := begun.pushLevel + 1 } := by
      rw [hbegun]
      refine ⟨?_, congrArg (· + 1) (hpush.trans hlevel)⟩
      change written.noticeCycle = g.cycle + 1
      rw [noticeCycle, if_pos (hpush.trans hlevel), hcycle]
    have hwatching : Watching V (g.cycle + 1) memory v total (0, none)
        { begun with pushLevel := begun.pushLevel + 1 } := by
      refine ⟨hwithin, .inr ?_⟩
      rw [hbegun]
      refine Keeping.congr (Keeping.revise_watched (g := { written with cycle := written.noticeCycle })
        (hkept.congr rfl rfl rfl) fun c hc => hc.kept .marked) rfl rfl rfl
    have hdiffers : memory.looseEq v = false := by rw [hmemory, hnew]
    rw [run_announce, ← hbegun, run_pushing]
    exact ((Routine.notify_agree (watching_agree hdiffers hself remaining (0, none)) V.watched).keeps _
      hwatching).2.congr rfl rfl rfl rfl
  have hobservers : c.observers.isEmpty = false :=
    List.isEmpty_eq_false_iff_exists_mem.2 ⟨V.handler, hobserved⟩
  rw [run_assignWith_plain (spared V.ids remaining) v hc hsource.replica, hsource.output, hnew,
    if_neg Bool.false_ne_true, hobservers]
  dsimp only
  rw [if_neg Bool.false_ne_true, ← hwritten]
  exact hnotified.congr rfl rfl rfl rfl

/-- So it is run once: afterwards it remembers what is shown, unless the vigil is over. -/
theorem calm_of_assign (hmemory : ∀ u, memory.looseEq u = shown.looseEq u) (hself : v.looseEq v = true)
    (hnew : shown.looseEq v = false) (h : Keeping V shown memory total (fun _ => True) g)
    (hlevel : g.pushLevel = 0) (htimely : Timely g) {c : Cell} (hc : g.values.get? V.watched = some c)
    (hobserved : V.handler ∈ c.observers) (hlive : g.values.contains V.handler) (remaining : Nat)
    (hspares : ((assignWith (some (spared V.ids remaining)) V.watched v).run g).2 =
      ((assign (remaining + 1) V.watched v).run g).2) :
    Calm V v v (total + 1) ((assignWith (some (spared V.ids remaining)) V.watched v).run g).2 := by
  have hsource := h.source.cell c hc
  obtain ⟨after, hafter⟩ : ∃ after, after =
      ((assignWith (some (spared V.ids remaining)) V.watched v).run g).2 := ⟨_, rfl⟩
  have hwatch := watch_of_assign hmemory hself hnew h hlevel htimely hc hobserved remaining
  rw [← hafter] at hwatch hspares ⊢
  rcases hwatch with hcalm | hkept
  · exact hcalm
  · -- the handler is an observer, so it cannot have been passed over
    cases hwatched : after.values.get? V.watched with
    | none => exact .inl (hkept.over_of_watched hwatched)
    | some d =>
      cases hhandler : after.values.get? V.handler with
      | none => exact .inl (hkept.over_of_handler hhandler)
      | some b =>
        have hevaluated := evaluatedSince_of_assign remaining hc hsource.replica
          (hsource.output.symm ▸ hnew) hobserved hlive (v := v) (d := b)
        rw [← hspares, noticeCycle, if_pos hlevel] at hevaluated
        obtain ⟨m, hm, hle⟩ := hevaluated (Slots.contains_of_get? hwatched) hhandler
        have hlt := (hkept.posted.cell b hhandler).2 m hm
        omega

end ReactiveMarkup.Graph
