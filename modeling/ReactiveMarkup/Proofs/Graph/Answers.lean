import ReactiveMarkup.Proofs.Graph.Requests
import ReactiveMarkup.Proofs.Graph.Serving

/-!
# The order of answers

The answers to requests are assigned to the data of a scope in the order in which they come, whatever
the order was in which the requests were sent out. So if nothing else is assigned to the data and no
list is made from it, in the end it shows the answer that came last, and an answer to an old request
may take the place of that to a new one.

Main definitions: `Graph.Awaits`, `Graph.Unlisted`, `Graph.Taking`.
Main results: `Graph.completeWith_shows`, `Graph.run_answers`.
-/
namespace ReactiveMarkup

namespace Graph

variable {σ : DataSite} {offset length source shown v : Value} {g : Graph}

/-! ## Answers -/

/-- A graph in which a value is given by no expression any more. -/
def withoutExpression (g : Graph) (id : ValueId) : Graph :=
  { g with values := g.values.modify id fun c => { c with compute := none } }

theorem Lost.of_withoutExpression (h : Lost σ (g.withoutExpression σ.data)) : Lost σ g := by
  have hback {id : ValueId}
      (h : Holding id (fun _ => False) (g.withoutExpression σ.data)) :
      Holding id (fun _ => False) g := by
    refine ⟨h.built, fun c hc => ?_⟩
    obtain ⟨d, hd⟩ : ∃ d, (g.withoutExpression σ.data).values.get? id = some d := by
      rw [← Option.isSome_iff_exists, ← Slots.contains, withoutExpression, Slots.contains_modify]
      exact Slots.contains_of_get? hc
    exact h.cell d hd
  rcases h with h | h | h | h
  · exact .inl (Naming.scopewise h rfl)
  · exact .inr (.inl (hback h))
  · exact .inr (.inr (.inl (hback h)))
  · exact .inr (.inr (.inr (hback h)))

/-- Without its data a site is lost. -/
theorem Serving.lost (h : Serving σ offset length source shown (g.withoutExpression σ.data))
    (hgone : g.values.get? σ.data = none) : Lost σ g := by
  refine Lost.of_withoutExpression ?_
  rcases h with h | h
  · exact h
  · refine .inr (.inl (h.2.1.gone ?_))
    rw [Graph.withoutExpression, Slots.get?_modify, if_pos rfl, hgone]
    rfl

theorem Serving.withoutExpression (h : Serving σ offset length source shown g) :
    Serving σ offset length source shown (g.withoutExpression σ.data) :=
  h.revise_data fun _ hc => { hc with compute := rfl }

/-- Assigning a value that no handler has. -/
theorem run_assignWith {id : ValueId} {c : Cell} (hc : g.values.get? id = some c)
    (hkind : c.template.kind.isHandler = false) (within : Option Reentry) (v : Value) :
    ((assignWith within id v).run g).2 =
      ((entering within id fun r => do
        let changed ← commit r id v false
        if changed && !c.observers.isEmpty then announce r id).run (g.withoutExpression id)).2 := by
  rw [assignWith, run_get_bind, hc]
  dsimp only
  rw [hkind]
  rfl

/-- A site to which a value is assigned shows that value from then on, or one that equals it, if it is
left unassigned on the way. -/
theorem assignWith_shows (hm : Value.Matching source shown) (hoffset : offset.looseEq offset = true)
    (hlength : length.looseEq length = true) (hv : v.isArray = false) (remaining : Nat)
    (h : Serving σ offset length source shown (g.withoutExpression σ.data)) :
    ∃ source' shown', Value.Matching source' shown' ∧ (shown' = v ∨ shown'.looseEq v = true) ∧
      Serving σ offset length source' shown'
        ((assignWith (sparing σ.ids (remaining + 1)) σ.data v).run g).2 := by
  obtain ⟨r, hr⟩ : ∃ r, sparing σ.ids (remaining + 1) = some r := ⟨_, rfl⟩
  have hlost : Reentry.Agree (Lost σ) (.within (some r)) (.within (some r)) := by
    rw [← hr]
    exact within_sparing_agree lost_regimen lost_enters σ.ids (remaining + 1) ()
  have htends {source shown : Value} (hm : Value.Matching source shown) :
      Tends σ offset length source shown r := sparing_tends hm hoffset hlength _ r hr
  rw [hr]
  have hassigned {source' shown' : Value} (hm' : Value.Matching source' shown')
      (hremake : ∀ g, Serving σ offset length source shown g → Serving σ offset length source' shown'
        ((remake r σ.data σ.scope v false offset length).run g).2) :
      Serving σ offset length source' shown' ((assignWith (some r) σ.data v).run g).2 := by
    cases hc : g.values.get? σ.data with
    | none => exact .inl ((hlost.assign σ.data v).keeps g (h.lost hc))
    | some c =>
      rcases h with hgone | hshowing
      · exact .inl ((hlost.assign σ.data v).keeps g hgone.of_withoutExpression)
      · have hdata := hshowing.2.1.cell { c with compute := none } (by
          rw [withoutExpression, Slots.get?_modify, if_pos rfl, hc]
          rfl)
        rw [run_assignWith hc hdata.isHandler]
        refine entering_shows σ.data (fun g hg => ?_) (.inr hshowing)
        have hcommitted := commit_shows (htends hm) hremake hg
        rw [snd_run_bind]
        split
        · exact (serving_routine.announce_agree (fun _ => (htends hm').agree) (serving_marks σ.data) ()).keeps _
            hcommitted
        · exact hcommitted
  cases hsame : source.looseEq v with
  | true =>
    exact ⟨source, shown, hm, .inr (by rw [hm.looseEq_eq, hsame]),
      hassigned hm fun g hg => remake_same hsame (htends hm).lost hg⟩
  | false =>
    exact ⟨v, v, .refl hv, .inl rfl, hassigned (.refl hv) fun g hg =>
      remake_new hm hv hoffset hlength hsame (htends hm).lost hg⟩

/-- Keeping a response changes the document, or is reported. -/
theorem run_keepEcho (echo : Option NodeId) (outcome : Except RequestError Response) (g : Graph) :
    ∃ host diagnostics, ((keepEcho echo outcome).run g).2 = { g with host, diagnostics } := by
  have hkeeps : Keeps (fun g' => ∃ host diagnostics, g' = { g with host, diagnostics })
      (keepEcho echo outcome) := by
    refine .keepEcho ?_ _ _
    rintro _ _ _ ⟨host, diagnostics, rfl⟩
    exact ⟨_, _, rfl⟩
  exact hkeeps g ⟨_, _, rfl⟩

/-- The value of a response that is of use gets to the target of the request, if that is live. -/
theorem run_completeWith {id : RequestId} {pending : PendingRequest}
    (hpending : g.requests.lookup id = some pending) {response : Response} {n : Stamp}
    (hvalue : response.value g.stamps = .ok (v, n)) :
    ∃ host diagnostics, ∀ entry : Graph → Reentry,
      let g' := { g.withoutRequest id with host, diagnostics }
      ((completeWith entry id (.ok response)).run g).2 =
        (settle.run (if g.values.contains pending.target then
          (((entry g').assign pending.target v).run { g' with stamps := n }).2
        else { g' with stamps := n })).2 := by
  obtain ⟨host, diagnostics, hecho⟩ := run_keepEcho pending.echo (.ok response) (g.withoutRequest id)
  refine ⟨host, diagnostics, fun entry => ?_⟩
  intro g'
  have hdelivered (assign : ValueId → Value → GraphM Unit) :
      ((deliver assign pending.target pending.request.url (.ok response)).run g').2 =
        if g.values.contains pending.target then ((assign pending.target v).run { g' with stamps := n }).2
        else { g' with stamps := n } := by
    have hbind : (Except.ok response : Except RequestError Response).bind (·.value g'.stamps) =
        .ok (v, n) := hvalue
    rw [deliver, run_get_bind, hbind]
    dsimp only
    rw [snd_run_bind]
    change ((if g.values.contains pending.target then assign pending.target v else pure () :
      GraphM Unit).run { g' with stamps := n }).2 = _
    split <;> rfl
  have hcompleted : ((completeWith entry id (.ok response)).run g).2 =
      let g' := ((keepEcho pending.echo (.ok response)).run (g.withoutRequest id)).2
      (settle.run ((deliver (entry g').assign pending.target pending.request.url (.ok response)).run
        g').2).2 := by
    rw [completeWith, run_get_bind, hpending]
    rfl
  rw [hcompleted, hecho]
  exact congrArg (fun g => (settle.run g).2) (hdelivered (entry g').assign)

/-- Once a response is taken, its target shows the value of the body, or one that equals it. -/
theorem completeWith_shows (hm : Value.Matching source shown) (hoffset : offset.looseEq offset = true)
    (hlength : length.looseEq length = true) {id : RequestId} {pending : PendingRequest}
    (hpending : g.requests.lookup id = some pending) (htarget : pending.target = σ.data)
    {response : Response} {n : Stamp} (hvalue : response.value g.stamps = .ok (v, n))
    (hv : v.isArray = false) (hdepth : g.depth < g.options.maxDepth)
    (h : Serving σ offset length source shown (g.withoutExpression σ.data)) :
    ∃ source' shown', Value.Matching source' shown' ∧ (shown' = v ∨ shown'.looseEq v = true) ∧
      Serving σ offset length source' shown'
        ((completeWith (apart σ.ids) id (.ok response)).run g).2 := by
  have hsettle {source' shown' : Value} {g : Graph} (h : Serving σ offset length source' shown' g) :
      Serving σ offset length source' shown' (settle.run g).2 := by
    rw [run_settle]
    split
    · exact h.congr rfl rfl
    · exact h
  obtain ⟨host, diagnostics, hrun⟩ := run_completeWith hpending hvalue
  rw [hrun, htarget]
  split
  · obtain ⟨remaining, hremaining⟩ : ∃ remaining, g.options.maxDepth - g.depth = remaining + 1 :=
      ⟨_, (Nat.succ_pred_eq_of_pos (Nat.sub_pos_of_lt hdepth)).symm⟩
    have happart : (apart σ.ids { g.withoutRequest id with host, diagnostics }).assign =
        assignWith (sparing σ.ids (remaining + 1)) := by
      rw [← hremaining]
      rfl
    rw [happart]
    obtain ⟨source', shown', hm', hequal, hshows⟩ := assignWith_shows hm hoffset hlength hv remaining
      (g := { g.withoutRequest id with host, diagnostics, stamps := n }) (h.congr rfl rfl)
    exact ⟨source', shown', hm', hequal, hsettle hshows⟩
  · rename_i hgone
    have hnone : g.values.get? σ.data = none := by simpa [Slots.contains] using hgone
    exact ⟨v, v, .refl hv, .inl rfl, hsettle (.inl ((h.lost hnone).congr rfl rfl))⟩

end Graph

/-! ## One answer after the other -/

/-- A response that tells success, with a body that is JSON and no array. -/
structure Response.IsSingle (r : Response) : Prop where
  success : r.isSuccess = true
  json : ∃ j, Json.read r.body = .ok j ∧ ∀ items, j ≠ .array items

/-- Tells that a response is of this kind. -/
def Response.IsSingle.test (r : Response) : Bool :=
  r.isSuccess && match Json.read r.body with
    | .ok (.array _) | .error _ => false
    | .ok _ => true

/-- The value of such a body is no array. -/
theorem Response.IsSingle.value {r : Response} (h : r.IsSingle) (next : Stamp) :
    ∃ v n, r.value next = .ok (v, n) ∧ v.isArray = false := by
  obtain ⟨j, hj, harray⟩ := h.json
  refine ⟨(Value.ofJson next j).1, (Value.ofJson next j).2, ?_, ?_⟩
  · rw [Response.value, if_pos h.success, hj]
  · cases j with
    | array items => exact absurd rfl (harray items)
    | _ => rfl

/-- Taking the answer to a request. -/
def completion (a : RequestId × Response) : Operation := .complete a.1 (.ok a.2)

namespace Graph

variable {σ : DataSite} {offset length source shown v : Value} {r : Reentry} {g g' : Graph}

/-- A request waits whose answer is for this value. -/
def Awaits (target : ValueId) (id : RequestId) (g : Graph) : Prop :=
  ∃ pending, g.requests.lookup id = some pending ∧ pending.target = target

/-- A request waits while others are answered. -/
theorem Awaits.complete {target : ValueId} {id id' : RequestId} (h : g.Awaits target id) (hne : id ≠ id')
    (outcome : Except RequestError Response) :
    ((Graph.complete id' outcome).run g).2.Awaits target id := by
  obtain ⟨pending, hpending, htarget⟩ := h
  rw [run_complete]
  cases g.requests.lookup id' with
  | none => exact ⟨pending, hpending, htarget⟩
  | some other =>
    obtain ⟨sent, hsent⟩ := booked_delivered (g.withoutRequest id') other outcome
    have hkept (requests : List (RequestId × PendingRequest)) :
        (requests.filter fun r => r.1 != id').lookup id = requests.lookup id := by
      induction requests with
      | nil => rfl
      | cons r requests ih =>
        rw [List.filter_cons]
        split
        · rw [List.lookup_cons, List.lookup_cons, ih]
        · rename_i hr
          have hr : r.1 = id' := by simpa using hr
          rw [ih, List.lookup_cons, beq_false_of_ne (hr ▸ hne)]
    have hsettled : (settle.run ((g.withoutRequest id').delivered other outcome)).2.requests =
        ((g.withoutRequest id').delivered other outcome).requests := by
      rw [run_settle]
      split <;> rfl
    refine ⟨pending, ?_, htarget⟩
    dsimp only
    rw [hsettled, hsent.requests, List.lookup_append, withoutRequest, hkept, hpending]
    rfl

/-- Data with the values of its window, none of which an expression gives. It shows what it was last
given, which is no array, and the window has not changed since. -/
structure Unlisted (σ : DataSite) (data offset length : Cell) (last : Replica) (g : Graph) : Prop where
  data_live : g.values.get? σ.data = some data
  offset_live : g.values.get? σ.offset = some offset
  length_live : g.values.get? σ.length = some length
  offset_name : g.scopeValue? σ.scope ValueName.dataOffset = some σ.offset
  length_name : g.scopeValue? σ.scope ValueName.dataLength = some σ.length
  scope : data.scope = σ.scope
  isHandler : data.template.kind.isHandler = false
  evaluated : data.evaluated.isSome
  replica : data.replica = some last
  applied : last.applied = true
  shown : last.source.Matching data.output
  offset_plain : offset.Plain offset.output
  length_plain : length.Plain length.output
  /-- the window equals itself, as all values do but NaN -/
  offset_self : offset.output.looseEq offset.output = true
  length_self : length.output.looseEq length.output = true
  offset_last : last.offset.looseEq offset.output = true
  length_last : last.length.looseEq length.output = true

/-- The window is told from the data, which alone is made into a list. -/
theorem Unlisted.plain_live {data offset length : Cell} {last : Replica}
    (h : g.Unlisted σ data offset length last) {id : ValueId} {c : Cell}
    (hc : g.values.get? id = some c) (hplain : c.Plain c.output) :
    (g.withoutExpression σ.data).values.get? id = some c := by
  rw [Graph.withoutExpression, Slots.get?_modify, if_neg, hc]
  rintro rfl
  obtain rfl := Option.some.inj (hc.symm.trans h.data_live)
  have hnone := hplain.replica
  rw [h.replica] at hnone
  cases hnone

theorem Unlisted.serving {data offset length : Cell} {last : Replica}
    (h : Unlisted σ data offset length last g) :
    Serving σ offset.output length.output last.source data.output (g.withoutExpression σ.data) := by
  have hdata : (g.withoutExpression σ.data).values.get? σ.data = some { data with compute := none } := by
    rw [Graph.withoutExpression, Slots.get?_modify, if_pos rfl, h.data_live]
    rfl
  have hname {name : String} {id : ValueId} (hid : g.scopeValue? σ.scope name = some id) {s : LiveScope}
      (hs : g.scopes.get? σ.scope = some s) : s.values.lookup name = some id := by
    rwa [scopeValue?, hs] at hid
  obtain ⟨s, hs⟩ : ∃ s, g.scopes.get? σ.scope = some s := by
    obtain ⟨s, hs, -⟩ := Option.bind_eq_some_iff.1 h.offset_name
    exact ⟨s, hs⟩
  refine .inr ⟨⟨Slots.serial_lt hs, fun t ht => ⟨hname h.offset_name ht, hname h.length_name ht⟩⟩,
    .of_get? hdata ?_, .of_get? (h.plain_live h.offset_live h.offset_plain) h.offset_plain,
    .of_get? (h.plain_live h.length_live h.length_plain) h.length_plain⟩
  exact ⟨⟨h.isHandler, rfl, h.evaluated, rfl⟩, h.scope, last, h.replica, rfl, h.applied, h.offset_last,
    h.length_last⟩

/-- A graph at rest that waits for answers to the data of a site. -/
structure Taking (o : GraphOptions) (σ : DataSite) (offset length : Value)
    (answers : List (RequestId × Response)) (g : Graph) : Prop where
  under : Under o 0 0 g
  awaits : ∀ a ∈ answers, g.Awaits σ.data a.1
  serving : ∃ source shown, Value.Matching source shown ∧
    Serving σ offset length source shown (g.withoutExpression σ.data)

/-- An answer is taken, and is shown from then on. -/
theorem Taking.complete {o : GraphOptions} {a : RequestId × Response}
    {answers : List (RequestId × Response)} (h : Taking o σ offset length (a :: answers) g)
    (hroom : 0 < o.maxDepth) (hoffset : offset.looseEq offset = true)
    (hlength : length.looseEq length = true) (hnodup : ((a :: answers).map (·.1)).Nodup)
    (hsingle : a.2.IsSingle)
    (hspares : ((completion a).runWith (apart σ.ids)).run g = (completion a).run.run g) :
    let g' := ((completion a).run.run g).2
    Taking o σ offset length answers g' ∧
      ∃ v n source shown, a.2.value g.stamps = .ok (v, n) ∧ (shown = v ∨ shown.looseEq v = true) ∧
        Serving σ offset length source shown g' := by
  obtain ⟨source, shown, hm, hserving⟩ := h.serving
  obtain ⟨pending, hpending, htarget⟩ := h.awaits a (List.mem_cons_self ..)
  obtain ⟨v, n, hvalue, hv⟩ := hsingle.value g.stamps
  have hdepth : g.depth < g.options.maxDepth := by
    rw [h.under.depth, h.under.options]
    exact hroom
  obtain ⟨source', shown', hm', hequal, hshows⟩ :=
    completeWith_shows hm hoffset hlength hpending htarget hvalue hv hdepth hserving
  have hrun : ((completion a).run.run g).2 = ((completeWith (apart σ.ids) a.1 (.ok a.2)).run g).2 := by
    rw [← hspares]
    rfl
  have hunder : Under o 0 0 ((completion a).run.run g).2 :=
    Under.run_keeps [completion a] g h.under
  rw [← hrun] at hshows
  refine ⟨⟨hunder, fun b hb => ?_, source', shown', hm', hshows.withoutExpression⟩, v, n, source',
    shown', hvalue, hequal, hshows⟩
  refine (h.awaits b (List.mem_cons_of_mem a hb)).complete (fun hid => ?_) (.ok a.2)
  exact (List.nodup_cons.1 hnodup).1 (List.mem_map.2 ⟨b, hb, hid⟩)

/-- Answers are taken one after the other. -/
theorem Taking.run {o : GraphOptions} (hroom : 0 < o.maxDepth)
    (hoffset : offset.looseEq offset = true) (hlength : length.looseEq length = true)
    (answers : List (RequestId × Response)) {rest : List (RequestId × Response)}
    (h : Taking o σ offset length (answers ++ rest) g) (hnodup : ((answers ++ rest).map (·.1)).Nodup)
    (hsingle : ∀ a ∈ answers ++ rest, a.2.IsSingle)
    (hspares : g.Spares σ.ids ((answers ++ rest).map completion)) :
    let g' := (((answers.map completion).forM Operation.run).run g).2
    Taking o σ offset length rest g' ∧ g'.Spares σ.ids (rest.map completion) := by
  induction answers generalizing g with
  | nil => exact ⟨h, hspares⟩
  | cons a answers ih =>
    obtain ⟨hnext, -⟩ := h.complete hroom hoffset hlength hnodup
      (hsingle a (List.mem_cons_self ..)) hspares.1
    exact ih hnext (List.nodup_cons.1 hnodup).2 (fun b hb => hsingle b (List.mem_cons_of_mem a hb))
      hspares.2

/-- A value of a window that was evaluated in this cycle is read without any change. -/
theorem run_companion_evaluated {scope : ScopeId} {name : String} {id : ValueId} {c : Cell}
    (hname : g.scopeValue? scope name = some id) (hc : g.values.get? id = some c)
    (hmark : c.evaluated = some g.cycle) {within : Option Reentry}
    (hpull : r.pull = pullWith within) : (companion r scope name).run g = (c.output, g) := by
  rw [companion, run_get_bind, hname]
  dsimp only
  rw [hpull, run_pullWith hc, if_pos hmark]

theorem Unlisted.congr {data offset length : Cell} {last : Replica}
    (h : g.Unlisted σ data offset length last) (hscopes : g'.scopes = g.scopes)
    (hvalues : g'.values = g.values) : g'.Unlisted σ data offset length last where
  __ := h
  data_live := hvalues ▸ h.data_live
  offset_live := hvalues ▸ h.offset_live
  length_live := hvalues ▸ h.length_live
  offset_name := by
    rw [scopeValue?, hscopes]
    exact h.offset_name
  length_name := by
    rw [scopeValue?, hscopes]
    exact h.length_name

/-- Data remains what it is when it loses its expression. -/
theorem Unlisted.withoutExpression {data offset length : Cell} {last : Replica}
    (h : g.Unlisted σ data offset length last) :
    (g.withoutExpression σ.data).Unlisted σ { data with compute := none } offset length last where
  __ := h
  data_live := by
    rw [Graph.withoutExpression, Slots.get?_modify, if_pos rfl, h.data_live]
    rfl
  offset_live := h.plain_live h.offset_live h.offset_plain
  length_live := h.plain_live h.length_live h.length_plain
  offset_name := h.offset_name
  length_name := h.length_name

/-- Data is committed with its window as it stands, if that was evaluated in this cycle. -/
theorem Unlisted.run_commit {data offset length : Cell} {last : Replica}
    (h : g.Unlisted σ data offset length last) (hoffset : offset.evaluated = some g.cycle)
    (hlength : length.evaluated = some g.cycle) {within : Option Reentry} (hpull : r.pull = pullWith within)
    (v : Value) : (commit r σ.data v false).run g =
      (remake r σ.data σ.scope v false offset.output length.output).run g := by
  rw [commit, run_get_bind, h.data_live]
  dsimp only
  rw [h.replica, h.scope]
  change (commitData r σ.data σ.scope v false).run g = _
  rw [commitData, StateT.run_bind, run_companion_evaluated h.offset_name h.offset_live hoffset hpull]
  change (StateT.run (companion r σ.scope ValueName.dataLength >>= _) g) = _
  rw [StateT.run_bind, run_companion_evaluated h.length_name h.length_live hlength hpull]
  rfl

end Graph

end ReactiveMarkup
