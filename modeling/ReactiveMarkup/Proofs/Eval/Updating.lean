import ReactiveMarkup.Proofs.Eval.Respects

/-!
# Updates of locals and of declared values

A local is stepped as a number. A declared value is stepped by the operators that join texts or add,
so it matters what it holds. Combining a variable by an arithmetic operator with an expression that
has nothing to do with it is the same in both.

Main definitions: `Eval.AlikeIn`, `Expr.Apart`, `Expr.HeldAlike`.
Main results: `Eval.run_logApart`, `Eval.step_alike_iff`, `Expr.run_apart`, `Expr.anchor_updates`.
-/
namespace ReactiveMarkup

namespace Number

open Float.Model

theorem apply_neg (s : UnpackedFloat.Sign) (n : Int) : (-s).apply n = -s.apply n := by
  cases s
  · exact (Int.neg_neg n).symm
  · rfl

theorem unpackedSub_eq (spec : Format) (x y : UnpackedFloat) : x.sub spec y = x.add spec y.neg := by
  cases x with
  | finite s m e hm =>
    cases y with
    | finite s' m' e' hm' =>
      have hsum (a b : Int) : s.apply a - s'.apply b = s.apply a + (-s').apply b := by
        rw [apply_neg, Int.sub_eq_add_neg]
      exact congrArg (fun n => UnpackedFloat.normalize spec n (min e e') .positive) (hsum _ _)
    | _ => rfl
  | _ => cases y <;> rfl

/-- Taking a number away is adding its opposite. -/
theorem sub_eq_add {y z : Number} (h : y.toModel.unpack.neg = z.toModel.unpack) (x : Number) :
    x - y = x + z := by
  change Float.ofModel (pack (UnpackedFloat.sub _ x.toModel.unpack y.toModel.unpack)) = _
  rw [unpackedSub_eq, h]
  rfl

theorem sub_one_eq (x : Number) : x - 1 = x + -1 := sub_eq_add rfl x

theorem sub_neg_one_eq (x : Number) : x - -1 = x + 1 := sub_eq_add rfl x

end Number

namespace Value

/-- Adding a number to what is not textual is adding numbers. -/
theorem add_number {v : Value} (h : v.isTextual = false) (x : Number) :
    v.add (.number x) = .number (v.toNumber + x) := by
  rw [add_eq_ite, h]
  rfl

/-- Adding a number to what is textual joins texts. -/
theorem add_of_isTextual {v : Value} (h : v.isTextual = true) (w : Value) :
    v.add w = .string (v.toText ++ w.toText) := by
  rw [add_eq_ite, h]
  rfl

end Value

namespace BinaryOp

/-- An arithmetic operator does not tell alike values apart, whatever it combines them with. -/
theorem apply_eq_of_alike {op : BinaryOp} (hop : op ∈ [add, sub, mul, div, mod])
    {R : Stamp → Stamp → Prop} {T : Twins} {w w' : Value} (h : Value.Alike R T w w') (v : Value) :
    op.apply v w' = op.apply v w := by
  cases op with
  | add =>
    rw [apply, apply, Value.add_eq_ite, Value.add_eq_ite, h.isTextual_eq, h.toText_eq, h.toNumber_eq]
  | sub | mul | div | mod => rw [apply, apply, h.toNumber_eq]
  | _ => simp at hop

theorem yieldsRight_of_mem {op : BinaryOp} (hop : op ∈ [add, sub, mul, div, mod]) :
    op.yieldsRight = false := by
  revert op
  decide

end BinaryOp

namespace Eval

open Evaluation

/-- Evaluated with the local `x`, and in its anchored form with the declared value at `p`, an
expression gives the same value or the same error and leaves the same in `x`. -/
def AlikeIn (limit : Nat) (x : String) (p : ValuePath) (f : Frame Unit) (g : Frame Store)
    (e e' : Expr) : Prop :=
  ((run .none limit e).run f).1 = ((run Store.accessor limit e').run g).1 ∧
    ((run .none limit e).run f).2.env.lookup x =
      ((run Store.accessor limit e').run g).2.world.values.lookup p.toText

variable {limit : Nat} {x : String} {p : ValuePath} {f : Frame Unit} {g : Frame Store} {v : Value}
  {range targetRange : Range}

/-- Changing a local. -/
theorem run_assign_local (hf : f.env.lookup x = some v) (h : Value → Value) :
    (assign .none ⟨.name x, []⟩ h).run f =
      (.ok (h v), { f with env := Keyed.insert x (h v) f.env }) := by
  rw [assign, readRoot, run_bind, run_bind]
  simp only [Evaluation.env, hf]
  rfl

/-- Stepping a local makes it a number. -/
theorem run_update_local (hf : f.env.lookup x = some v) (op : UpdateOp) (before : Bool) :
    (run .none limit (.update range op before (.ident targetRange x))).run f =
      (.ok (.number (if before then v.toNumber + op.delta else v.toNumber + op.delta - op.delta)),
        { f with env := Keyed.insert x (.number (v.toNumber + op.delta)) f.env }) := by
  rw [run, expr, place, run_bind, run_pure]
  dsimp only
  rw [run_bind, run_assign_local hf]
  cases before <;> rfl

/-! ## Stores -/

/-- Frames with the same locals and stamps, and stores with the same values. -/
structure LogApart (F G : Frame Store) : Prop where
  env : F.env = G.env
  stamps : F.stamps = G.stamps
  values : F.world.values = G.world.values

theorem logApart_respects {call call' : Call Store}
    (hcall : ∀ v args, Together LogApart Eq (call v args) (call' v args)) :
    Respects (fun α => Together LogApart (Eq : α → α → Prop)) (fun _ => True) Store.accessor
      Store.accessor call call' where
  pure a := .pure rfl
  fail e := .fail e
  bindGiven hp hk := hp.bindGiven fun a b ha hab => hab ▸ hk a ha
  env F G h := ⟨by simp only [Evaluation.env, h.env]; exact .ok rfl, h⟩
  define y w _ F G h := ⟨.ok rfl, congrArg (Keyed.insert y w) h.env, h.stamps, h.values⟩
  stamped r F G h := by
    simp only [Evaluation.stamped, ← h.stamps]
    cases r F.stamps with
    | ok q => exact ⟨.ok rfl, h.env, rfl, h.values⟩
    | error e => exact ⟨.error e, h⟩
  read q F G h := by
    simp only [Accessor.read, Store.accessor, ← h.values]
    cases F.world.values.lookup q.toText with
    | some w => exact ⟨.ok rfl, h.env, h.stamps, rfl⟩
    | none => exact ⟨.error _, h.env, h.stamps, rfl⟩
  write q w F G h := ⟨.ok rfl, h.env, h.stamps, congrArg (Keyed.insert q.toText w) h.values⟩
  call := hcall

theorem call_logApart (limit left : Nat) (h : Value) (args : List Value) :
    Together LogApart Eq (call Store.accessor limit left h args)
      (call Store.accessor limit left h args) := by
  induction left generalizing h args with
  | zero => cases h <;> exact .fail _
  | succ left ih =>
    cases h with
    | function stamp params body env =>
      intro F G hFG
      obtain ⟨hr, hI⟩ := expr_respects (logApart_respects ih) body (fun _ _ => trivial)
        { F with env := bindParams env params args } { G with env := bindParams env params args }
        ⟨rfl, hFG.stamps, hFG.values⟩
      exact ⟨hr, hFG.env, hI.stamps, hI.values⟩
    | _ => exact .fail _

/-- What has been logged does not matter to an evaluation. -/
theorem run_logApart (limit : Nat) (e : Expr) :
    Together LogApart Eq (run Store.accessor limit e) (run Store.accessor limit e) :=
  expr_respects (logApart_respects (call_logApart limit limit)) e fun _ _ => trivial

/-- Combining a declared value with what an expression gives, and writing it back. -/
theorem run_set_binary (limit : Nat) (range targetRange : Range)
    (hg : g.world.values.lookup p.toText = some v) {op : BinaryOp}
    (hop : op.yieldsRight = false) (e : Expr) :
    let there := (run Store.accessor limit
      (.set range p (.binary range op (.get targetRange p) e))).run g
    match (run Store.accessor limit e).run g with
    | (.ok w, _) => there.1 = .ok (op.apply v w) ∧
      there.2.world.values.lookup p.toText = some (op.apply v w)
    | (.error err, h) => there.1 = .error err ∧
      there.2.world.values.lookup p.toText = h.world.values.lookup p.toText := by
  intro there
  let g' : Frame Store := { g with world := { g.world with log := g.world.log ++ [.get p.toText] } }
  have hread : (Store.accessor.read p).run g = (.ok v, g') := by
    simp only [Accessor.read, Store.accessor, hg]
    rfl
  have hshort : op.shortcut? v = none := by cases op <;> first | rfl | cases hop
  have hthere : there = (do
      let w ← run Store.accessor limit e
      Store.accessor.write p (op.apply v w)
      return op.apply v w : Evaluation Store Value).run g' := by
    simp only [there, run, expr, run_bind, hread, hshort, hop]
    generalize (expr Store.accessor (call Store.accessor limit limit) e).run g' = r
    obtain ⟨_ | _, _⟩ := r <;> rfl
  obtain ⟨hr, hI⟩ := run_logApart limit e g g' ⟨rfl, rfl, rfl⟩
  rw [run_bind] at hthere
  generalize (run Store.accessor limit e).run g = a at hr hI ⊢
  generalize (run Store.accessor limit e).run g' = b at hr hI hthere
  obtain ⟨a, h⟩ := a
  obtain ⟨b, h'⟩ := b
  cases hr with
  | @ok w _ hw =>
    cases hw
    rw [hthere]
    exact ⟨rfl, Keyed.lookup_insert_self ..⟩
  | error err =>
    rw [hthere]
    exact ⟨rfl, by rw [hI.values]⟩

/-- Combining what an expression gives with a constant. -/
theorem run_binary_literal {op : BinaryOp} (hop : op.yieldsRight = false) (e : Expr) (c : Literal) :
    (run Store.accessor limit (.binary range op e (.literal targetRange c))).run g =
      match (run Store.accessor limit e).run g with
      | (.ok a, h) => (.ok (op.apply a c.value), h)
      | (.error err, h) => (.error err, h) := by
  rw [run, expr, run_bind, ← run]
  generalize (run Store.accessor limit e).run g = r
  obtain ⟨err | a, h⟩ := r
  · rfl
  · cases op <;> first | rfl | cases hop

/-- Stepping a declared value sets it to what the operator makes of it and one. -/
theorem run_stepOf (limit : Nat) (range targetRange : Range)
    (hg : g.world.values.lookup p.toText = some v) (op : UpdateOp) (before : Bool) :
    let new := (Anchoring.stepOps op).1.apply v (.number 1)
    let there := (run Store.accessor limit (Anchoring.stepOf range op before targetRange p)).run g
    there.1 = .ok (if before then new else (Anchoring.stepOps op).2.apply new (.number 1)) ∧
      there.2.world.values.lookup p.toText = some new := by
  intro new there
  have happly : (Anchoring.stepOps op).1.yieldsRight = false := by cases op <;> rfl
  have hundo : (Anchoring.stepOps op).2.yieldsRight = false := by cases op <;> rfl
  have hset := run_set_binary limit range targetRange hg happly (.literal range (.number 1))
  cases before with
  | true => exact hset
  | false =>
    simp only [there, Anchoring.stepOf, Bool.false_eq_true, if_false]
    rw [run_binary_literal hundo]
    obtain ⟨hresult, hvalue⟩ := hset
    generalize (run Store.accessor limit (.set range p (.binary range (Anchoring.stepOps op).1
      (.get targetRange p) (.literal range (.number 1))))).run g = r at hresult hvalue ⊢
    obtain ⟨r, h⟩ := r
    dsimp only at hresult
    subst hresult
    exact ⟨rfl, hvalue⟩

/-! ## The two kinds of variables -/

/-- Both kinds of variables are stepped alike unless a textual value is incremented. -/
theorem step_alike_iff (hf : f.env.lookup x = some v)
    (hg : g.world.values.lookup p.toText = some v) (op : UpdateOp) (before : Bool) :
    AlikeIn limit x p f g (.update range op before (.ident targetRange x))
        (Anchoring.stepOf range op before targetRange p) ↔
      (op = .increment → v.isTextual = false) := by
  obtain ⟨hresult, hvalue⟩ := run_stepOf limit range targetRange hg op before
  rw [AlikeIn, run_update_local hf, hresult, hvalue]
  simp only [Keyed.lookup_insert_self, Except.ok.injEq, Option.some.injEq]
  cases op with
  | increment =>
    change (_ = if before then v.add (.number 1) else BinaryOp.sub.apply (v.add (.number 1)) _) ∧
      _ = v.add (.number 1) ↔ _
    cases hv : v.isTextual with
    | false =>
      rw [Value.add_number hv]
      refine iff_of_true ⟨?_, rfl⟩ fun _ => rfl
      cases before <;> rfl
    | true =>
      rw [Value.add_of_isTextual hv]
      exact iff_of_false (fun h => Value.noConfusion h.2) fun h => Bool.noConfusion (h rfl)
  | decrement =>
    refine iff_of_true ⟨?_, ?_⟩ UpdateOp.noConfusion
    · cases before with
      | true => exact congrArg Value.number (Number.sub_one_eq _).symm
      | false =>
        change Value.number (v.toNumber + -1 - -1) = .number (v.toNumber - 1 + 1)
        rw [Number.sub_neg_one_eq, Number.sub_one_eq]
    · change Value.number (v.toNumber + -1) = .number (v.toNumber - 1)
      rw [Number.sub_one_eq]

/-- Combining a variable with an expression is alike in both if the expression gives alike values or
the same error, and leaves the variable alone. -/
theorem combine_alike (hg : g.world.values.lookup p.toText = some v) {op : BinaryOp}
    (hop : op ∈ [.add, .sub, .mul, .div, .mod]) {T : Twins} {e e' : Expr}
    (he : ResultAlike (Like T) ((run .none limit e).run f).1 ((run Store.accessor limit e').run g).1)
    (hlocal : ((run .none limit e).run f).2.env.lookup x = some v)
    (hdeclared : ((run Store.accessor limit e').run g).2.world.values.lookup p.toText = some v) :
    AlikeIn limit x p f g (.assign range (some op) (.ident targetRange x) e)
      (.set range p (.binary range op (.get targetRange p) e')) := by
  have hset := run_set_binary limit range targetRange hg (BinaryOp.yieldsRight_of_mem hop) e'
  have hassign : (run .none limit (.assign range (some op) (.ident targetRange x) e)).run f =
      (run .none limit e >>= fun w =>
        assign .none ⟨.name x, []⟩ fun old => op.apply old w).run f := rfl
  rw [AlikeIn, hassign, run_bind]
  generalize (run .none limit e).run f = r at he hlocal ⊢
  generalize (run Store.accessor limit e').run g = r' at he hdeclared hset
  obtain ⟨r, h⟩ := r
  obtain ⟨r', h'⟩ := r'
  cases he with
  | ok hw =>
    obtain ⟨hthere, hwritten⟩ := hset
    dsimp only
    rw [run_assign_local hlocal, hthere, hwritten, BinaryOp.apply_eq_of_alike hop hw]
    exact ⟨rfl, Keyed.lookup_insert_self ..⟩
  | error err =>
    obtain ⟨hthere, hleft⟩ := hset
    rw [hthere, hleft, hdeclared]
    exact ⟨rfl, hlocal⟩

end Eval

namespace Expr

open Value

variable {r : Resolver} {x : String} {s : ScopeIndex} {range targetRange : Range}

/-! ## Expressions beside a variable -/

/-- An expression without declared values that has nothing to do with the name `x`. Its names mean
no scopes, and it assigns to none that are to be anchored. -/
structure Apart (r : Resolver) (x : String) (e : Expr) : Prop where
  source : e.IsSource
  not_mentioned : x ∉ e.names
  not_bound : x ∉ e.boundNames
  not_scope : ∀ y ∈ e.names, Anchoring.Names.isFree ⟨e.boundNames, r⟩ y = true →
    ∀ anchor target, r.resolve y ≠ .scope anchor target
  not_assigned : ∀ y ∈ e.assignedNames, e.anchors r y = none

/-- Frames for an expression and its anchored form: what is anchored is a local in the first and
declared in the second, and all other locals but `x` are in both. -/
structure HeldAlike (r : Resolver) (x : String) (e : Expr) (f : Frame Unit) (g : Frame Store) :
    Prop where
  stamps : f.stamps = g.stamps
  declared : ∀ y p, e.anchors r y = some p →
    ∃ v, f.env.lookup y = some v ∧ g.world.values.lookup p.toText = some v
  shared : ∀ y, y ≠ x → e.anchors r y = none → g.env.lookup y = f.env.lookup y
  source : ∀ y v, y ≠ x → f.env.lookup y = some v → v.IsSource

/-- An anchoring with one more name anchored. -/
def anchorsWith (x : String) (p : ValuePath) (Δ : Anchors) : Anchors := fun y =>
  if y = x then some p else Δ y

theorem steppedNames_subset_assignedNames (e : Expr) : e.steppedNames ⊆ e.assignedNames := by
  intro y hy
  obtain ⟨d, hd, hdy⟩ := List.mem_filterMap.1 hy
  refine List.mem_filterMap.2 ⟨d, hd, ?_⟩
  cases d with
  | assign range op target value =>
    cases op with
    | none => cases hdy
    | some op => cases target <;> first | exact hdy | cases hdy
  | update range op before target => cases target <;> first | exact hdy | cases hdy
  | _ => cases hdy

theorem arrowNames_subset_names (e : Expr) : e.arrowNames ⊆ e.names := by
  intro y hy
  obtain ⟨d, hd, hdy⟩ := List.mem_flatMap.1 hy
  cases d with
  | arrow range params body =>
    have hbody : body ∈ e.nodes :=
      nodes_subset hd (mem_nodes_of_mem_children (by simp [children]))
    exact names_subset hbody hdy
  | _ => cases hdy

theorem anchorsWith_eq_some {e : Expr} {y : String} {p : ValuePath}
    (h : anchorsWith x ⟨s, [], x⟩ (e.anchors r) y = some p) : ∃ i, p = ⟨i, [], y⟩ := by
  rw [anchorsWith] at h
  split at h
  · rename_i hyx
    cases h
    exact ⟨s, by rw [hyx]⟩
  · exact (anchors_eq_some h).2.2.2

namespace Apart

variable {e : Expr}

theorem anchorsWith_of_mem (h : e.Apart r x) (p : ValuePath) {y : String} (hy : y ∈ e.names) :
    anchorsWith x p (e.anchors r) y = e.anchors r y := by
  refine if_neg ?_
  rintro rfl
  exact h.not_mentioned hy

theorem not_sets (h : e.Apart r x) : ¬e.Sets x := fun hs =>
  hs.mem.elim (fun hx => h.not_mentioned (assignedNames_subset_names e hx)) h.not_bound

/-- Anchoring such an expression replaces its names, and does not fail. -/
theorem anchor_eq (h : e.Apart r x) (p : ValuePath) :
    ∃ u, e.anchor r = .ok u ∧ u.expr = e.rewrite (anchorsWith x p (e.anchors r)) := by
  have hmeans : ∀ y ∈ e.names,
      Anchoring.Names.Means ⟨e.boundNames, r⟩ (anchorsWith x p (e.anchors r)) y :=
    fun y hy => ⟨(h.anchorsWith_of_mem p hy).trans (if_pos hy), h.not_scope y hy⟩
  obtain ⟨notes, hy⟩ := Anchoring.expr_yields e hmeans .empty
  exact ⟨_, by rw [anchor, hy]; rfl, rfl⟩

/-- The homes of `x`, which is declared in the scope `s`, and of what is anchored in an expression
that is apart from it. -/
def homes (h : e.Apart r x) (hreserved : Reserved.isReserved x = false) (s : ScopeIndex)
    {contents : Env} (hcontents : ∀ y v, y ≠ x → contents.lookup y = some v → v.IsSource) :
    Homes where
  anchors := anchorsWith x ⟨s, [], x⟩ (e.anchors r)
  kept := e.arrowNames.filter fun y => (e.anchors r y).isSome
  initial y := (contents.lookup y).getD .undefined
  reserved y p hy := by
    rw [anchorsWith] at hy
    split at hy
    · rename_i hyx
      rw [hyx, hreserved]
    · exact (anchors_eq_some hy).2.2.1
  injective y z p q hy hz hpq := by
    obtain ⟨i, rfl⟩ := anchorsWith_eq_some hy
    obtain ⟨j, rfl⟩ := anchorsWith_eq_some hz
    exact ValuePath.name_eq_of_toText_eq hpq
  source y hy := by
    have hne : y ≠ x := fun hyx =>
      h.not_mentioned (hyx ▸ arrowNames_subset_names e (List.mem_filter.1 hy).1)
    cases hv : contents.lookup y with
    | none => trivial
    | some v => exact hcontents y v hne hv

/-- Such an expression reads anything but `x`, and assigns to nothing that is anchored. -/
def mode (h : e.Apart r x) (hreserved : Reserved.isReserved x = false) (s : ScopeIndex)
    {contents : Env} (hcontents : ∀ y v, y ≠ x → contents.lookup y = some v → v.IsSource) :
    Homes.Mode (h.homes hreserved s hcontents) where
  anchors := anchorsWith x ⟨s, [], x⟩ (e.anchors r)
  readable y := y ≠ x
  writable _ := False
  anchors_eq := .inl rfl
  kept_readable _ hy hyx :=
    h.not_mentioned (hyx ▸ arrowNames_subset_names e (List.mem_filter.1 hy).1)
  writable_readable _ hw := hw.elim
  writable_not_kept _ hw := hw.elim

theorem anchorsWith_of_assigned (h : e.Apart r x) (p : ValuePath) {y : String}
    (hy : y ∈ e.assignedNames) : anchorsWith x p (e.anchors r) y = none :=
  (h.anchorsWith_of_mem p (assignedNames_subset_names e hy)).trans (h.not_assigned y hy)

theorem fits (h : e.Apart r x) (s : ScopeIndex) :
    Fits (e.arrowNames.filter fun y => (e.anchors r y).isSome)
      (anchorsWith x ⟨s, [], x⟩ (e.anchors r)) (· ≠ x) (fun _ => False) e where
  source := h.source
  reads y hy _ hyx := h.not_mentioned (hyx ▸ hy)
  writes y hy hs := by
    rw [h.anchorsWith_of_assigned _ hy] at hs
    cases hs
  steps y hy := h.anchorsWith_of_assigned _ (steppedNames_subset_assignedNames e hy)
  binds y hy := by
    have hne : y ≠ x := fun hyx => h.not_bound (hyx ▸ hy)
    cases hp : e.anchors r y with
    | none => exact (if_neg hne).trans hp
    | some p => exact absurd hy (anchors_eq_some hp).2.1
  keeps y hy hs := by
    refine ⟨List.mem_filter.2 ⟨hy, ?_⟩, fun ha => ?_⟩
    · rwa [← h.anchorsWith_of_mem ⟨s, [], x⟩ (arrowNames_subset_names e hy)]
    · rw [h.anchorsWith_of_assigned _ ha] at hs
      cases hs

theorem paired (h : e.Apart r x) (hreserved : Reserved.isReserved x = false) (s : ScopeIndex)
    {f : Frame Unit} {g : Frame Store} (hfg : e.HeldAlike r x f g) :
    Paired (h.mode hreserved s hfg.source) g.world.values f g := by
  let H := h.homes hreserved s hfg.source
  have hanchors : ∀ y p, y ≠ x → H.anchors y = some p → e.anchors r y = some p :=
    fun y p hne hy => (if_neg hne).symm.trans hy
  have hinitial : ∀ y v, f.env.lookup y = some v → H.initial y = v := by
    intro y v hv
    change (f.env.lookup y).getD .undefined = v
    rw [hv, Option.getD_some]
  have hkept : ∀ y ∈ H.kept, y ≠ x := fun y hy => (h.mode hreserved s hfg.source).kept_readable y hy
  refine ⟨hfg.stamps, ⟨fun y hy => ?_, fun y p hy hr => ?_, fun y p hy hk => ?_⟩,
    fun y p v hy hr hv => ?_, fun y p hy hk => ?_, fun _ _ => rfl⟩
  · have hne : y ≠ x := by
      rintro rfl
      cases (if_pos rfl).symm.trans hy
    rw [hfg.shared y hne ((if_neg hne).symm.trans hy)]
    cases hv : f.env.lookup y with
    | none => exact .none
    | some v => exact .some (like_refl H (hfg.source y v hne hv))
  · obtain ⟨v, hv, -⟩ := hfg.declared y p (hanchors y p hr hy)
    exact ⟨v, hv⟩
  · obtain ⟨v, hv, -⟩ := hfg.declared y p (hanchors y p (hkept y hk) hy)
    rw [hinitial y v hv, hv]
  · obtain ⟨w, hw, hp⟩ := hfg.declared y p (hanchors y p hr hy)
    cases hw.symm.trans hv
    exact ⟨v, hp, like_refl H (hfg.source y v hr hv)⟩
  · obtain ⟨v, hv, hp⟩ := hfg.declared y p (hanchors y p (hkept y hk) hy)
    rw [hinitial y v hv, hp]

/-- Such an expression gives alike values or the same error in frames that hold the same for it, and
leaves the variable that it is apart from alone in both. -/
theorem run_alike (h : e.Apart r x) (hreserved : Reserved.isReserved x = false) (s : ScopeIndex)
    {f : Frame Unit} {g : Frame Store} (hfg : e.HeldAlike r x f g) (limit : Nat) :
    ∃ u, e.anchor r = .ok u ∧
      let here := (Eval.run .none limit e).run f
      let there := (Eval.run Store.accessor limit u.expr).run g
      (∃ T, ResultAlike (Eval.Like T) here.1 there.1) ∧
        here.2.env.lookup x = f.env.lookup x ∧
        there.2.world.values.lookup (ValuePath.mk s [] x).toText =
          g.world.values.lookup (ValuePath.mk s [] x).toText := by
  obtain ⟨u, hu, hexpr⟩ := h.anchor_eq ⟨s, [], x⟩
  refine ⟨u, hu, ?_⟩
  rw [hexpr]
  let m := h.mode hreserved s hfg.source
  obtain ⟨hresult, hI⟩ := Eval.expr_together
    (Eval.call_together limit limit m g.world.values) e (h.fits s) f g (h.paired hreserved s hfg)
  exact ⟨⟨_, hresult⟩, Eval.run_keeps .none limit h.not_sets f,
    hI.others _ fun _ _ _ hw => hw.elim⟩

end Apart

/-! ## Anchored updates -/

theorem valuePath?_declared {bound : List String} (hbound : x ∉ bound)
    (hx : r.resolve x = .value s) (hreserved : Reserved.isReserved x = false) :
    Anchoring.valuePath? ⟨bound, r⟩ (.ident targetRange x) = .ok (some ⟨s, [], x⟩) := by
  have hfree : Anchoring.Names.isFree ⟨bound, r⟩ x = true := by
    simp [Anchoring.Names.isFree, hbound, hreserved]
  rw [Anchoring.valuePath?, if_pos hfree, hx]

/-- Anchoring a step of a declared value. -/
theorem anchor_step (hx : r.resolve x = .value s) (hreserved : Reserved.isReserved x = false)
    (op : UpdateOp) (before : Bool) :
    (update range op before (.ident targetRange x)).anchor r =
      .ok ⟨Anchoring.stepOf range op before targetRange ⟨s, [], x⟩,
        Notes.empty.touch ⟨s, [], x⟩⟩ := by
  have hpath : Anchoring.valuePath? ⟨[], r⟩ (.ident targetRange x) = .ok (some ⟨s, [], x⟩) :=
    valuePath?_declared List.not_mem_nil hx hreserved
  rw [anchor, boundNames, boundNames, Anchoring.expr, hpath]
  rfl

/-- Anchoring a declared value's combination with an expression. -/
theorem anchor_combine (hx : r.resolve x = .value s) (hreserved : Reserved.isReserved x = false)
    (op : BinaryOp) {e : Expr} (hbound : x ∉ e.boundNames) {u : Anchored}
    (hu : e.anchor r = .ok u) :
    (assign range (some op) (.ident targetRange x) e).anchor r =
      .ok ⟨.set range ⟨s, [], x⟩ (.binary range op (.get targetRange ⟨s, [], x⟩) u.expr),
        u.notes.touch ⟨s, [], x⟩⟩ := by
  have hpath : Anchoring.valuePath? ⟨e.boundNames, r⟩ (.ident targetRange x) =
      .ok (some ⟨s, [], x⟩) := valuePath?_declared hbound hx hreserved
  have hvalue : (Anchoring.expr ⟨e.boundNames, r⟩ e).run .empty = .ok (u.expr, u.notes) := by
    rw [anchor] at hu
    generalize (Anchoring.expr ⟨e.boundNames, r⟩ e).run .empty = o at hu ⊢
    cases o with
    | error err => cases hu
    | ok a =>
      cases hu
      rfl
  rw [anchor, boundNames, boundNames, List.nil_append, Anchoring.expr, StateT.run_bind, hvalue,
    hpath]
  rfl

/-- Locals and declared values are updated alike, but for one case. Let a name be declared, and hold
in its declared value what it holds as a local. Stepping it gives the same and leaves the same,
unless text, an array, an object or a function is incremented: then a local becomes a number, and a
declared value the joined text. Combining it by an arithmetic operator with an expression that has
nothing to do with it always gives the same and leaves the same. -/
theorem anchor_updates (hx : r.resolve x = .value s) (hreserved : Reserved.isReserved x = false)
    {v : Value} {f : Frame Unit} {g : Frame Store} (hf : f.env.lookup x = some v)
    (hg : g.world.values.lookup (ValuePath.mk s [] x).toText = some v) (limit : Nat)
    (range targetRange : Range) :
    (∀ op before, ∃ t, (update range op before (.ident targetRange x)).anchor r = .ok t ∧
      (Eval.AlikeIn limit x ⟨s, [], x⟩ f g (update range op before (.ident targetRange x)) t.expr ↔
        (op = .increment → v.isTextual = false))) ∧
    ∀ op ∈ [BinaryOp.add, .sub, .mul, .div, .mod], ∀ e : Expr, e.Apart r x → e.HeldAlike r x f g →
      ∃ t, (assign range (some op) (.ident targetRange x) e).anchor r = .ok t ∧
        Eval.AlikeIn limit x ⟨s, [], x⟩ f g (assign range (some op) (.ident targetRange x) e)
          t.expr := by
  refine ⟨fun op before => ?_, fun op hop e he hfg => ?_⟩
  · exact ⟨_, anchor_step hx hreserved op before, Eval.step_alike_iff hf hg op before⟩
  · obtain ⟨u, hu, ⟨T, hresult⟩, hlocal, hdeclared⟩ := he.run_alike hreserved s hfg limit
    exact ⟨_, anchor_combine hx hreserved op he.not_bound hu,
      Eval.combine_alike hg hop hresult (hlocal.trans hf) (hdeclared.trans hg)⟩

/-- A text that looks like a number, stepped down, stepped up, and joined with a declared value. -/
theorem anchor_updates_text :
    let r : Resolver :=
      ⟨fun y => if y = "x" ∨ y = "y" then .value 0 else .unresolved, fun _ _ => none,
        fun _ _ => false⟩
    let x : Expr := .ident .initial "x"
    let y : Expr := .ident .initial "y"
    let f : Frame Unit := ⟨[("x", .string "5"), ("y", .number 1)], 7, ()⟩
    let g : Frame Store := ⟨[], 7, ⟨[("0.x", .string "5"), ("0.y", .number 1)], []⟩⟩
    (∃ t, (update .initial .decrement false x).anchor r = .ok t ∧
      Eval.AlikeIn 128 "x" ⟨0, [], "x"⟩ f g (update .initial .decrement false x) t.expr) ∧
    (∃ t, (update .initial .increment false x).anchor r = .ok t ∧
      ¬Eval.AlikeIn 128 "x" ⟨0, [], "x"⟩ f g (update .initial .increment false x) t.expr) ∧
    ∃ t, (assign .initial (some .add) x y).anchor r = .ok t ∧
      Eval.AlikeIn 128 "x" ⟨0, [], "x"⟩ f g (assign .initial (some .add) x y) t.expr := by
  intro r x y f g
  have hresolve : ∀ z anchor target, r.resolve z ≠ .scope anchor target := by
    intro z anchor target
    simp only [r]
    split <;> exact Resolution.noConfusion
  have hapart : y.Apart r "x" := by
    refine ⟨fun d hd => ?_, by decide, List.not_mem_nil, fun z _ _ => hresolve z, fun z hz => ?_⟩
    · cases List.mem_singleton.1 hd
      rfl
    · cases hz
  have hdeclared : y.anchors r "y" = some ⟨0, [], "y"⟩ := by with_unfolding_all rfl
  have hothers : ∀ z, z ≠ "x" → z ≠ "y" → f.env.lookup z = none := by
    intro z hzx hzy
    simp only [f, List.lookup_cons, beq_eq_false_iff_ne.2 hzx, beq_eq_false_iff_ne.2 hzy,
      List.lookup_nil]
  have hheld : y.HeldAlike r "x" f g := by
    refine ⟨rfl, fun z p hz => ?_, fun z hzx hz => ?_, fun z v hzx hv => ?_⟩
    · obtain rfl : z = "y" := List.mem_singleton.1 (anchors_eq_some hz).1
      cases hdeclared.symm.trans hz
      exact ⟨.number 1, rfl, by with_unfolding_all rfl⟩
    · have hzy : z ≠ "y" := by
        rintro rfl
        cases hdeclared.symm.trans hz
      exact (hothers z hzx hzy).symm
    · by_cases hzy : z = "y"
      · subst hzy
        cases hv
        trivial
      · cases (hothers z hzx hzy).symm.trans hv
  obtain ⟨hstep, hcombine⟩ := anchor_updates (r := r) (x := "x") (s := 0) rfl (by decide) (f := f)
    (g := g) (v := .string "5") rfl (by with_unfolding_all rfl) 128 .initial .initial
  obtain ⟨t, ht, hdown⟩ := hstep .decrement false
  obtain ⟨u, hu, hup⟩ := hstep .increment false
  refine ⟨⟨t, ht, hdown.2 UpdateOp.noConfusion⟩, ⟨u, hu, fun h => ?_⟩, ?_⟩
  · exact Bool.noConfusion (hup.1 h rfl)
  · exact hcombine .add (List.mem_cons_self ..) y hapart hheld

end Expr

end ReactiveMarkup
