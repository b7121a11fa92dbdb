import ReactiveMarkup.Proofs.Graph.Firing

/-!
# How often a handler is run

A handler that watches a source is run once by each write from outside that changes what the source shows,
before that write returns, and by nothing else. This holds as long as neither the source nor the handler is
assigned on the way, by expressions and handlers: a body that assigns what it watches is not run for
the change that undoes this.

Main definitions: `Operation.written?`, `Operation.changes`, `Graph.Attends`, `Graph.Reserves`.
Main results: `Graph.calm_operation_keeps`, `Graph.run_fires`.
-/
namespace ReactiveMarkup

/-- What an operation assigns to a value from outside. -/
def Operation.written? (op : Operation) (g : Graph) (id : ValueId) : Option Value :=
  match op with
  | .set x v => if x = id then some v else none
  | .write scope name v => if g.lookup? scope name = some id then some v else none
  | _ => none

/-- Whether an operation changes what a value shows. -/
def Operation.changes (op : Operation) (g : Graph) (id : ValueId) : Bool :=
  (op.written? g id).any fun v => !(g.output? id).any (·.looseEq v)

/-- An operation that does the same if certain values are left unassigned, but for what it may itself
assign to `id` from outside: that is a value that equals itself. -/
def Operation.Reserves (op : Operation) (id : ValueId) (ids : List ValueId) (g : Graph) : Prop :=
  match op.written? g id with
  | some v => v.isNaN = false ∧ (op.runWith (Graph.apart ids)).run g = op.run.run g
  | none => (op.runWith fun g => (Graph.apart ids g).without ids).run g = op.run.run g

namespace Graph

/-- Operations one after the other that do so. -/
def Reserves (id : ValueId) (ids : List ValueId) : List Operation → Graph → Prop
  | [], _ => True
  | op :: ops, g => op.Reserves id ids g ∧ Reserves id ids ops (op.run.run g).2

/-- A source `c`, and a handler `b` that watches it and remembers what it shows. -/
structure Attends (g : Graph) (id h : ValueId) (c b : Cell) (anchor : ScopeIndex) (name : String) :
    Prop where
  watched : g.values.get? id = some c
  source : c.Source c.output
  number : c.output.isNaN = false
  observed : h ∈ c.observers
  handler : g.values.get? h = some b
  kind : b.template.kind = .handler ⟨anchor, [], name⟩
  leads : g.resolve? b.scope ⟨anchor, [], name⟩ = some id
  body : b.compute.isSome
  replica : b.replica = none
  evaluated : b.evaluated.isSome
  remembers : ∀ u, b.output.looseEq u = c.output.looseEq u

variable {V : Vigil} {shown memory v : Value} {total : Nat} {options : GraphOptions} {g g' g₀ : Graph}

/-! ## Operations that assign nothing of a vigil -/

/-- What building and removing keep, and what scopes were built as, is all that a calm vigil is. -/
theorem calm_keeps {α : Type} {m : GraphM α} (hnames : ∀ scope p, Keeps (Naming scope p) m)
    (hupheld : ∀ I, Upheld I → Keeps I m) : Keeps (Calm V shown memory total) m := by
  rintro g ((⟨p, hp, h⟩ | h | h | h) | h)
  · exact .inl (.inl ⟨p, hp, hnames _ _ g h⟩)
  · exact .inl (.inr (.inl (hupheld _ (Holding.aloof fun h => h).toUpheld g h)))
  · exact .inl (.inr (.inr (.inl (hupheld _ (Holding.aloof fun h => h).toUpheld g h))))
  · exact .inl (.inr (.inr (.inr (hupheld _ refused_aloof.toUpheld g h))))
  · refine .inr ⟨fun p hp => hnames _ _ g (h.sited p hp), ?_, ?_, ?_⟩
    · exact hupheld _ (Holding.aloof fun h => h.kept .relinked).toUpheld g h.source
    · exact hupheld _ (Holding.aloof fun h => ⟨h.1.kept .relinked, h.2⟩).toUpheld g h.posted
    · exact hupheld _ (fired_secluded V.handler total).toUpheld g h.fired

/-- Operations leave a calm vigil calm, if what is watched and its handler are left unassigned. -/
theorem calm_operation_keeps (hmemory : ∀ u, memory.looseEq u = shown.looseEq u)
    (hself : shown.looseEq shown = true) (op : Operation) :
    Keeps (Calm V shown memory total) (op.runWith fun g => (apart V.ids g).without V.ids) := by
  let entry (g : Graph) : Reentry := (apart V.ids g).without V.ids
  have hI := calm_routine V shown memory total
  have hentry : ∀ (_ : Unit) (g : Graph), Calm V shown memory total g →
      ∀ _ : Unit, Reentry.Agree (Calm V shown memory total) (entry g) (entry g) :=
    fun _ g _ _ => calm_agree hmemory hself (g.options.maxDepth - g.depth)
  have hevent {g : Graph} (h : Calm V shown memory total g) : Calm V shown memory total (g.noted .event) := by
    rcases h with h | h
    · exact .inl ((over_regimen V).noted (i := ()) .event h)
    · refine .inr ⟨fun p hp => Naming.scopewise (h.sited p hp) rfl, h.source.of_values rfl,
        h.posted.of_values rfl, ?_⟩
      rw [← h.fired]
      simp [fired, noted]
  have hbegin {g : Graph} (h : Calm V shown memory total g) :
      Calm V shown memory total { g with cycle := g.cycle + 1 } := h.congr rfl rfl rfl rfl
  have hlinks : Keeps (Calm V shown memory total) (resolveLinks >>= fun _ => attachListeners) :=
    calm_keeps (fun _ _ => Naming.scopewise.linked_keeps) fun _ h => h.linked_keeps
  have hbuilt (t : ScopeTemplate) (node : NodeId) :
      Keeps (Calm V shown memory total) (t.instantiate builder none node) :=
    calm_keeps (fun _ _ => Naming.instantiate_keeps none node t) fun _ h => h.instantiate_keeps none node t
  have hanswering : Answering fun _ : Unit => Calm V shown memory total :=
    ⟨fun h _ => ⟨h.congr rfl rfl rfl rfl, fun _ _ _ _ _ => h.congr rfl rfl rfl rfl⟩,
      fun _ h => h.congr rfl rfl rfl rfl⟩
  have hmount : Agree (Calm V shown memory total) (mountWith entry) (mountWith entry) := by
    refine hI.mountWith_agree (i := ()) (fun i g hg j => hentry i g hg j) hbegin fun {g t node} hg _ _ => ?_
    refine hlinks _ (Calm.congr (hbuilt t node g hg) rfl rfl rfl rfl)
  exact (hI.operation_agree (i := ()) hentry hevent hbegin hlinks (fun _ => hmount) fun id outcome _ =>
    hI.completeWith_agree hentry hanswering id outcome ()).keeps

/-! ## Operations one after the other -/

/-- An operation that assigns a value from outside. -/
theorem run_of_written? {op : Operation} {id : ValueId} (h : op.written? g id = some v)
    (entry : Graph → Reentry) : ((op.runWith entry).run g).2 = (((entry g).assign id v).run g).2 := by
  cases op with
  | set x u =>
    dsimp only [Operation.written?] at h
    split at h
    · rename_i hid
      rw [← hid, ← Option.some.inj h]
      rfl
    · cases h
  | write scope name u =>
    dsimp only [Operation.written?] at h
    split at h
    · rename_i hid
      change ((writeWith entry scope name u).run g).2 = _
      rw [writeWith, run_get_bind, hid, ← Option.some.inj h]
      rfl
    · cases h
  | mount | start | get | read | dispatch | complete => cases h

/-- A vigil between operations, since the graph was `g₀`. What the handler remembers equals what is
shown. -/
structure Vigilant (options : GraphOptions) (V : Vigil) (g₀ : Graph) (total : Nat) (g : Graph) : Prop where
  under : Under options 0 0 g
  timely : Timely g
  later : Later g₀ g
  calm : ∃ shown memory, (∀ u, memory.looseEq u = shown.looseEq u) ∧ shown.looseEq shown = true ∧
    Calm V shown memory total g

namespace Vigilant

/-- If a vigil is over, it does not matter how many runs there were. -/
theorem of_over (h : Vigilant options V g₀ total g) (hover : Over V g) (total' : Nat) :
    Vigilant options V g₀ total' g where
  under := h.under
  timely := h.timely
  later := h.later
  calm := by
    obtain ⟨shown, memory, hmemory, hself, -⟩ := h.calm
    exact ⟨shown, memory, hmemory, hself, .inl hover⟩

/-- A write from outside has the handler run if it changes what is shown. -/
theorem write (h : Vigilant options V g₀ total g) (hlive : g₀.values.contains V.handler)
    (hobserved : V.handler ∈ g₀.observersOf V.watched) {op : Operation}
    (hwritten : op.written? g V.watched = some v) (hself : v.looseEq v = true)
    (hspares : (op.runWith (apart V.ids)).run g = op.run.run g) :
    ∃ shown memory, (∀ u, memory.looseEq u = shown.looseEq u) ∧ shown.looseEq shown = true ∧
      Calm V shown memory (total + if op.changes g V.watched then 1 else 0) (op.run.run g).2 := by
  obtain ⟨shown, memory, hmemory, hshown, hcalm⟩ := h.calm
  have happart := run_of_written? hwritten (apart V.ids)
  have hrun := run_of_written? hwritten reentry
  have hsame : ((assignWith (sparing V.ids (g.options.maxDepth - g.depth)) V.watched v).run g).2 =
      ((assign (g.options.maxDepth - g.depth) V.watched v).run g).2 :=
    happart.symm.trans ((congrArg Prod.snd hspares).trans hrun)
  have hstep : (op.run.run g).2 =
      ((assignWith (sparing V.ids (g.options.maxDepth - g.depth)) V.watched v).run g).2 :=
    hrun.trans hsame.symm
  generalize g.options.maxDepth - g.depth = remaining at hsame hstep
  rw [hstep]
  rcases hcalm with hover | hkeep
  · exact ⟨shown, memory, hmemory, hshown, .inl
      (((within_sparing_agree (over_regimen V) (over_enters V) V.ids remaining ()).assign V.watched
        v).keeps g hover)⟩
  · cases hc : g.values.get? V.watched with
    | none =>
      refine ⟨shown, memory, hmemory, hshown, .inl ?_⟩
      rw [snd_run_assignWith, hc]
      exact hkeep.over_of_watched hc
    | some c =>
      have hsource := hkeep.source.cell c hc
      have hchanges : op.changes g V.watched = !shown.looseEq v := by
        rw [Operation.changes, hwritten, output?, hc, ← hsource.output]
        rfl
      rw [hchanges]
      cases remaining with
      | zero =>
        refine ⟨shown, memory, hmemory, hshown, .inl ?_⟩
        rw [snd_run_assignWith, hc]
        exact over_of_refused V _ _
      | succ remaining =>
        change ∃ _ _, _ ∧ _ ∧ Calm V _ _ _ ((assignWith (some (spared V.ids remaining)) V.watched v).run g).2
        cases hnew : shown.looseEq v with
        | true =>
          refine ⟨shown, memory, hmemory, hshown, .inr ?_⟩
          rw [run_assignWith_plain _ v hc hsource.replica, hsource.output, hnew, if_pos rfl]
          exact hkeep.sourced c
        | false =>
          cases hb : g.values.get? V.handler with
          | none =>
            exact ⟨shown, memory, hmemory, hshown, .inl
              (((within_sparing_agree (over_regimen V) (over_enters V) V.ids (remaining + 1) ()).assign
                V.watched v).keeps g (hkeep.over_of_handler hb))⟩
          | some b =>
            have hcontains := Slots.contains_of_get? hb
            have hobserver := h.later.observers V.watched V.handler hlive hobserved
              (Slots.contains_of_get? hc) hcontains
            rw [observersOf, hc] at hobserver
            exact ⟨v, v, fun _ => rfl, hself, calm_of_assign hmemory hself hnew hkeep h.under.pushLevel
              h.timely hc hobserver hcontains remaining hsame⟩

/-- Every operation that reserves the assignment of what is watched, and of the handler. -/
theorem step (h : Vigilant options V g₀ total g) (hlive : g₀.values.contains V.handler)
    (hobserved : V.handler ∈ g₀.observersOf V.watched) {op : Operation}
    (hop : op.Reserves V.watched V.ids g) :
    Vigilant options V g₀ (total + if op.changes g V.watched then 1 else 0) (op.run.run g).2 where
  under := Under.run_keeps [op] g h.under
  timely := Timely.run_keeps [op] g h.timely
  later := h.later.trans (later_of_operations h.under.pushLevel [op])
  calm := by
    unfold Operation.Reserves at hop
    split at hop
    · rename_i v hwritten
      exact h.write hlive hobserved hwritten (by rw [Value.looseEq_self, hop.1]; rfl) hop.2
    · rename_i hwritten
      obtain ⟨shown, memory, hmemory, hshown, hcalm⟩ := h.calm
      have hkept := calm_operation_keeps hmemory hshown op g hcalm
      refine ⟨shown, memory, hmemory, hshown, ?_⟩
      rw [Operation.changes, hwritten, ← hop]
      exact hkept

/-- A vigil stands through operations that do. -/
theorem run (hlive : g₀.values.contains V.handler) (hobserved : V.handler ∈ g₀.observersOf V.watched)
    (ops : List Operation) (op : Operation) (h : Vigilant options V g₀ total g)
    (hops : Reserves V.watched V.ids (ops ++ [op]) g) :
    ∃ total', Vigilant options V g₀ total' ((ops.forM Operation.run).run g).2 ∧
      op.Reserves V.watched V.ids ((ops.forM Operation.run).run g).2 := by
  induction ops generalizing total g with
  | nil => exact ⟨total, h, hops.1⟩
  | cons first ops ih => exact ih (h.step hlive hobserved hops.1) hops.2

end Vigilant

/-- A source with a handler that watches it gives rise to a vigil. -/
theorem Attends.exists_vigilant {id h : ValueId} {c b : Cell} {anchor : ScopeIndex} {name : String}
    (ha : g.Attends id h c b anchor name) (hunder : Under options 0 0 g) (htimely : Timely g) :
    ∃ V : Vigil, V.watched = id ∧ V.handler = h ∧
      (∀ p ∈ V.way, p.1 ∈ (g.ancestors b.scope).map Prod.fst) ∧
      Vigilant options V g (g.fired h) g := by
  obtain ⟨body, hbody⟩ := Option.isSome_iff_exists.1 ha.body
  obtain ⟨way, hway, hleads⟩ := exists_way ha.leads
  have hne : id ≠ h := by
    rintro rfl
    obtain rfl := Option.some.inj (ha.watched.symm.trans ha.handler)
    have hkind := ha.source.isHandler
    rw [ha.kind] at hkind
    cases hkind
  refine ⟨⟨h, id, b.scope, ⟨anchor, [], name⟩, body, way, hne, hleads⟩, rfl, rfl,
    fun p hp => (hway p hp).2, hunder, htimely, .refl g, c.output, b.output, ha.remembers, ?_, .inr ?_⟩
  · rw [Value.looseEq_self, ha.number]
    rfl
  · refine ⟨fun p hp => ?_, .of_get? ha.watched ha.source, .of_get? ha.handler ⟨?_, trivial⟩, rfl⟩
    · obtain ⟨s, hs, hrecord⟩ := (hway p hp).1
      refine ⟨Slots.serial_lt hs, fun s' hs' => ?_⟩
      obtain rfl := Option.some.inj (hs.symm.trans hs')
      exact hrecord
    · exact ⟨ha.kind, rfl, hbody, ha.replica, ha.evaluated, rfl⟩

/-- A vigil is not over where all is live and nothing was refused. -/
theorem not_over (hscopes : ∀ p ∈ V.way, g.scopes.contains p.1) (hwatched : g.values.contains V.watched)
    (hhandler : g.values.contains V.handler) (hrefused : ¬g.Refused) : ¬Over V g := by
  have hgone {id : ValueId} (hid : g.values.contains id) : ¬Holding id (fun _ => False) g := fun h => by
    obtain ⟨c, hc⟩ := Option.isSome_iff_exists.1 hid
    exact h.cell c hc
  rintro (⟨p, hp, h⟩ | h | h | h)
  · obtain ⟨s, hs⟩ := Option.isSome_iff_exists.1 (hscopes p hp)
    exact h.record s hs
  · exact hgone hwatched h
  · exact hgone hhandler h
  · exact hrefused h

/-- A handler is run once for each change of what it watches. Take any program, settings and host, and any
operations one after the other, after which a source is watched by a handler that remembers what it shows.
Then take any further operations, and one more. If these assign neither the source nor the handler, but
for what they write to the source from outside themselves, and if the source, the handler and the scopes
around it are live in the end and no read or write was refused, the last operation has run the handler
once if it has written something else to the source than it showed, and not at all otherwise. -/
theorem run_fires (program : Program) (options : GraphOptions) (host : Host)
    (operations : List Operation) :
    let g := ((operations.forM Operation.run).run (ofProgram program options host)).2
    ∀ id h c b anchor name, g.Attends id h c b anchor name →
      ∀ ops op, Reserves id [id, h] (ops ++ [op]) g →
        let g₁ := ((ops.forM Operation.run).run g).2
        let g₂ := (op.run.run g₁).2
        g₂.values.contains id → g₂.values.contains h → (∀ p ∈ g.ancestors b.scope, g₂.scopes.contains p.1) →
          ¬g₂.Refused → g₂.fired h = g₁.fired h + if op.changes g₁ id then 1 else 0 := by
  intro g id h c b anchor name hattends ops op hreserves g₁ g₂ hwatched hhandler hscopes hrefused
  have hunder : Under options 0 0 g := Under.run_keeps operations _ ⟨rfl, rfl, rfl⟩
  have htimely : Timely g := Timely.run_keeps operations _ ⟨fun _ _ _ hc => by simp [ofProgram] at hc⟩
  obtain ⟨V, rfl, rfl, hway, hvigilant⟩ := hattends.exists_vigilant hunder htimely
  have hlive : g.values.contains V.handler := Slots.contains_of_get? hattends.handler
  have hobserved : V.handler ∈ g.observersOf V.watched := by
    rw [observersOf, hattends.watched]
    exact hattends.observed
  have hend : ¬Over V g₂ := by
    refine not_over (fun p hp => ?_) hwatched hhandler hrefused
    obtain ⟨q, hq, heq⟩ := List.mem_map.1 (hway p hp)
    exact heq ▸ hscopes q hq
  obtain ⟨total, hbefore, hop⟩ := hvigilant.run hlive hobserved ops op hreserves
  -- however many runs there were before, there are as many more afterwards
  have hcount {total : Nat} (h : Vigilant options V g total g₁) :
      g₂.fired V.handler = total + if op.changes g₁ V.watched then 1 else 0 := by
    obtain ⟨shown, memory, -, -, hcalm⟩ := (h.step hlive hobserved hop).calm
    exact (hcalm.resolve_left hend).fired
  obtain ⟨shown, memory, -, -, hover | hkeep⟩ := hbefore.calm
  · -- a vigil that was over before would be over with any number of runs
    have hone := hcount hbefore
    have htwo := hcount (hbefore.of_over hover (total + 1))
    omega
  · rw [hcount hbefore, ← hkeep.fired]

/-- A program with a source `x` and a handler of its changes, which keeps a copy of it in `y`. -/
def copying : Program :=
  let here : Range := default
  let copy : Expr := .set here ⟨0, [], "y"⟩ (.get here ⟨0, [], "x"⟩)
  { root := some ⟨0, none, [⟨"x", .plain, .compute (.literal here (.string "a")), []⟩,
      ⟨"y", .plain, .constant .null, []⟩,
      ⟨"handle_x", .handler ⟨0, [], "x"⟩, .compute copy, [⟨0, [], "x"⟩]⟩], [], []⟩
    scopeAttribute := "scope" }

/-- The program, mounted. -/
def copied : Graph :=
  (([Operation.mount].forM Operation.run).run (ofProgram copying ⟨4, true, 4⟩
    (.ofDocument (.ofMarkup [.element "div" [("scope", "0")] []])))).2

theorem copied_attends : ∃ c b, copied.Attends ⟨0, 0⟩ ⟨2, 2⟩ c b 0 "x" ∧ b.scope = ⟨0, 0⟩ := by
  have hsource : (copied.values.get? ⟨0, 0⟩).map (fun c =>
      (c.template.kind, c.replica, c.evaluated, c.output, c.compute, c.observers)) =
      some (.plain, none, some 1, .string "a", some (.literal default (.string "a")), [⟨2, 2⟩]) := by cbv
  have hhandler : (copied.values.get? ⟨2, 2⟩).map (fun b =>
      (b.template.kind, b.scope, b.compute.isSome, b.replica, b.evaluated, b.output)) =
      some (.handler ⟨0, [], "x"⟩, ⟨0, 0⟩, true, none, some 1, .string "a") := by cbv
  have hleads : copied.resolve? ⟨0, 0⟩ ⟨0, [], "x"⟩ = some ⟨0, 0⟩ := by decide +kernel
  obtain ⟨c, hc, hcell⟩ := Option.map_eq_some_iff.1 hsource
  obtain ⟨b, hb, hpost⟩ := Option.map_eq_some_iff.1 hhandler
  simp only [Prod.mk.injEq] at hcell hpost
  obtain ⟨hkind, hreplica, hevaluated, houtput, hcompute, hobservers⟩ := hcell
  obtain ⟨hkind', hscope', hbody', hreplica', hevaluated', houtput'⟩ := hpost
  have hcell : c.Source c.output :=
    { isHandler := by rw [hkind]; rfl
      isRequest := by rw [hkind]; decide
      replica := hreplica
      evaluated := by rw [hevaluated]; rfl
      output := rfl
      compute := fun e he => by
        obtain rfl := Option.some.inj (hcompute.symm.trans he)
        rw [houtput]
        exact constant_literal c.scope default rfl }
  refine ⟨c, b, ?_, hscope'⟩
  exact
    { watched := hc
      source := hcell
      number := by rw [houtput]; rfl
      observed := by rw [hobservers]; exact List.mem_singleton_self _
      handler := hb
      kind := hkind'
      leads := by rw [hscope']; exact hleads
      body := hbody'
      replica := hreplica'
      evaluated := by rw [hevaluated']; rfl
      remembers := by rw [houtput, houtput']; exact fun _ => rfl }

/-- The handler assigns neither the source nor itself. -/
theorem copied_reserves : Reserves ⟨0, 0⟩ [⟨0, 0⟩, ⟨2, 2⟩]
    [.set ⟨0, 0⟩ (.string "b"), .set ⟨0, 0⟩ (.string "c")] copied := by
  refine ⟨⟨rfl, ?_⟩, ⟨rfl, ?_⟩, trivial⟩
  · cbv
  · cbv

/-- The source of the program is written twice. -/
theorem run_fires_twice :
    let g₁ := (([Operation.set ⟨0, 0⟩ (.string "b")].forM Operation.run).run copied).2
    let g₂ := ((Operation.set ⟨0, 0⟩ (.string "c")).run.run g₁).2
    (∃ c b, copied.Attends ⟨0, 0⟩ ⟨2, 2⟩ c b 0 "x") ∧ g₂.fired ⟨2, 2⟩ = g₁.fired ⟨2, 2⟩ + 1 := by
  obtain ⟨c, b, hattends, hscope⟩ := copied_attends
  have hfires (ops : List Operation) (op : Operation) :
      Reserves ⟨0, 0⟩ [⟨0, 0⟩, ⟨2, 2⟩] (ops ++ [op]) copied →
        let g₁ := ((ops.forM Operation.run).run copied).2
        let g₂ := (op.run.run g₁).2
        g₂.values.contains ⟨0, 0⟩ → g₂.values.contains ⟨2, 2⟩ →
          (∀ p ∈ copied.ancestors b.scope, g₂.scopes.contains p.1) → ¬g₂.Refused →
          g₂.fired ⟨2, 2⟩ = g₁.fired ⟨2, 2⟩ + if op.changes g₁ ⟨0, 0⟩ then 1 else 0 :=
    run_fires copying ⟨4, true, 4⟩ (.ofDocument (.ofMarkup [.element "div" [("scope", "0")] []])) [.mount]
      ⟨0, 0⟩ ⟨2, 2⟩ c b 0 "x" hattends ops op
  have hfired := hfires [.set ⟨0, 0⟩ (.string "b")] (.set ⟨0, 0⟩ (.string "c")) copied_reserves
  obtain ⟨g₁, hg₁⟩ : ∃ g, g = (([Operation.set ⟨0, 0⟩ (.string "b")].forM Operation.run).run copied).2 :=
    ⟨_, rfl⟩
  obtain ⟨g₂, hg₂⟩ : ∃ g, g = ((Operation.set ⟨0, 0⟩ (.string "c")).run.run g₁).2 := ⟨_, rfl⟩
  have hchanges : (Operation.set ⟨0, 0⟩ (.string "c")).changes g₁ ⟨0, 0⟩ = true := by
    rw [hg₁]
    decide +kernel
  have hlive : (∀ p ∈ copied.ancestors ⟨0, 0⟩, g₂.scopes.contains p.1) ∧ g₂.values.contains ⟨0, 0⟩ ∧
      g₂.values.contains ⟨2, 2⟩ ∧ g₂.diagnostics.length = 0 := by
    rw [hg₂, hg₁]
    decide +kernel
  obtain ⟨hscopes, hwatched, hhandler, hreports⟩ := hlive
  have hrefused : ¬g₂.Refused := fun ⟨_, _, hmem⟩ => by
    rw [List.eq_nil_of_length_eq_zero hreports] at hmem
    cases hmem
  dsimp only at hfired ⊢
  rw [← hg₁, ← hg₂, hchanges] at hfired
  rw [← hg₁, ← hg₂]
  exact ⟨⟨c, b, hattends⟩, hfired hwatched hhandler (hscope.symm ▸ hscopes) hrefused⟩

/-- A handler that assigns what it watches remembers what was written. So it is not run when the same is
written once more, although that changes what the source shows. -/
example :
    let d := Document.ofFragment "<div :x='[[0]]' :n='[[0]]' :handle-x='[[n++; x = 7]]'></div>"
    let c := d.compile .standard none
    let after (operations : List Operation) := ((operations.forM Operation.run).run
      (ofProgram c.program .standard (.ofDocument c.document))).2
    let write := Operation.write ⟨0, 0⟩ "x" (.number 5)
    let shown (g : Graph) (name : String) := ((g.lookup? ⟨0, 0⟩ name).bind g.output?).map Value.toText
    let once := after [.mount, write]
    let twice := after [.mount, write, write]
    shown once "x" = some "7" ∧ shown twice "x" = some "5" ∧ shown once "n" = some "1" ∧
      shown twice "n" = some "1" := by
  decide +kernel

end Graph

end ReactiveMarkup
