import ReactiveMarkup.Proofs.Eval.Homes
import ReactiveMarkup.Proofs.Expr.Derivation

/-!
# Evaluating anchored expressions

An expression whose free names are locals and the anchored expression whose free names are declared
values in a store run side by side: they give the same value or the same error, and leave the same
in both homes of every name.

Main results: `Eval.expr_together`, `Eval.call_together`, `Expr.eval_anchor`.
-/
namespace ReactiveMarkup

open Homes Evaluation Value

namespace Eval

variable {σ : Type} {H : Homes} {m : Mode H} {base : List (String × Value)}

/-! ## Names that are looked at without being evaluated -/

theorem isHostGlobal_of_anchored {x : String} {p : ValuePath} (hx : m.anchors x = some p) :
    Reserved.isHostGlobal x = false := by
  have h := H.reserved x p (m.anchors_of_some hx)
  rw [Reserved.isReserved, Bool.or_eq_false_iff] at h
  exact h.2

theorem isNone_lookup_eq {E E' : Env} (h : LocalsPaired m E E') {x : String}
    (hx : m.anchors x = none) : (E'.lookup x).isNone = (E.lookup x).isNone := by
  have hs := h.shared x hx
  generalize E.lookup x = o at hs ⊢
  generalize E'.lookup x = o' at hs ⊢
  cases hs <;> rfl

/-- Anchoring makes no node a name or takes one away but the names that it anchors. -/
theorem rewrite_ne_ident {Δ : Anchors} {e : Expr} (he : ∀ r x, e ≠ .ident r x) (r : Range)
    (x : String) : e.rewrite Δ ≠ .ident r x := by
  cases e with
  | ident r' y => exact absurd rfl (he r' y)
  | assign r' op target value =>
    rw [Expr.rewrite]
    cases target.targetPath? Δ <;> cases op <;> exact Expr.noConfusion
  | update r' op before target =>
    rw [Expr.rewrite]
    cases target.targetPath? Δ <;> cases before <;> exact Expr.noConfusion
  | _ => exact Expr.noConfusion

theorem rewrite_ne_member {Δ : Anchors} {e : Expr} (he : ∀ r b x, e ≠ .member r b x) (r : Range)
    (b : Expr) (x : String) : e.rewrite Δ ≠ .member r b x := by
  cases e with
  | member r' b' y => exact absurd rfl (he r' b' y)
  | ident r' y =>
    rw [Expr.rewrite]
    cases Δ y <;> exact Expr.noConfusion
  | assign r' op target value =>
    rw [Expr.rewrite]
    cases target.targetPath? Δ <;> cases op <;> exact Expr.noConfusion
  | update r' op before target =>
    rw [Expr.rewrite]
    cases target.targetPath? Δ <;> cases before <;> exact Expr.noConfusion
  | _ => exact Expr.noConfusion

theorem global?_eq_none {E : Env} {e : Expr} (he : ∀ r x, e ≠ .ident r x) : global? E e = none := by
  cases e with
  | ident r x => exact absurd rfl (he r x)
  | _ => rfl

theorem typeofGlobal?_eq_none {E : Env} {e : Expr} (he : ∀ r x, e ≠ .ident r x) :
    typeofGlobal? E e = none := by
  cases e with
  | ident r x => exact absurd rfl (he r x)
  | _ => rfl

/-- No anchored name means a host object. -/
theorem global?_rewrite {E E' : Env} (h : LocalsPaired m E E') (e : Expr) :
    global? E' (e.rewrite m.anchors) = global? E e := by
  cases e with
  | ident r x =>
    rw [Expr.rewrite, global?]
    cases hx : m.anchors x with
    | some p =>
      rw [isGlobal, isHostGlobal_of_anchored hx]
      rfl
    | none =>
      dsimp only
      rw [global?, isGlobal, isGlobal, isNone_lookup_eq h hx]
  | _ =>
    rw [global?_eq_none, global?_eq_none]
    · intro r x
      exact Expr.noConfusion
    · exact rewrite_ne_ident (fun r x => Expr.noConfusion)

/-- An anchored name that may be read is no missing local. -/
theorem typeofGlobal?_rewrite {E E' : Env} (h : LocalsPaired m E E') {e : Expr}
    (hr : ∀ r x, e = .ident r x → (m.anchors x).isSome → m.readable x) :
    typeofGlobal? E' (e.rewrite m.anchors) = typeofGlobal? E e := by
  cases e with
  | ident r x =>
    rw [Expr.rewrite, typeofGlobal?]
    cases hx : m.anchors x with
    | some p =>
      obtain ⟨v, hv⟩ := h.present x p hx (hr r x rfl (by rw [hx]; rfl))
      rw [hv]
      rfl
    | none =>
      dsimp only
      rw [typeofGlobal?, isNone_lookup_eq h hx]
  | _ =>
    rw [typeofGlobal?_eq_none, typeofGlobal?_eq_none]
    · intro r x
      exact Expr.noConfusion
    · exact rewrite_ne_ident (fun r x => Expr.noConfusion)

theorem typeofGlobal?_isData {E : Env} {e : Expr} {v : Value} (h : typeofGlobal? E e = some v) :
    v.isData = true := by
  cases e with
  | ident r x =>
    rw [typeofGlobal?] at h
    split at h
    · cases h
      rfl
    · cases h
  | _ => cases h

theorem globalProperty_isData (global x : String) : (Builtin.globalProperty global x).isData = true := by
  rw [Builtin.globalProperty]
  split
  · rfl
  · split <;> rfl

/-! ## Assignments -/

/-- The variables of two assignments: one local in both runs, or a local and its declared value. -/
inductive RootAlike (m : Mode H) : Root → Root → Prop
  | shared {x : String} (hx : m.anchors x = none) : RootAlike m (.name x) (.name x)
  | anchored {x : String} {p : ValuePath} (hx : m.anchors x = some p) (hw : m.writable x) :
    RootAlike m (.name x) (.path p)

/-- Places with such variables and alike keys. -/
structure PlaceAlike (m : Mode H) (P P' : Place Root) : Prop where
  root : RootAlike m P.root P'.root
  keys : List.Forall₂ (Like H.twins) P.keys P'.keys

theorem readRoot_together {r r' : Root} (h : RootAlike m r r') :
    Together (Paired m base) (Like H.twins) (readRoot .none r) (readRoot Store.accessor r') := by
  cases h with
  | @shared x hx =>
    refine Paired.env.bind fun E E' hE => ?_
    have hs := hE.shared x hx
    generalize E.lookup x = o at hs ⊢
    generalize E'.lookup x = o' at hs ⊢
    cases hs with
    | some hv => exact .pure hv
    | none => exact .fail _
  | @anchored x p hx hw =>
    intro f g hI
    obtain ⟨v, hv⟩ := hI.locals.present x p hx (m.writable_readable x hw)
    obtain ⟨w, hp, hvw⟩ := hI.held x p v hx (m.writable_readable x hw) hv
    rw [readRoot, readRoot, run_bind]
    simp only [Evaluation.env, Accessor.read, Store.accessor, hv, hp]
    exact ⟨.ok hvw, hI.stamps, hI.locals, hI.held, hI.kept, hI.others⟩

theorem writeRoot_together {r r' : Root} (h : RootAlike m r r') {v w : Value}
    (hv : Like H.twins v w) :
    Together (Paired m base) (fun _ _ => True) (writeRoot .none r v)
      (writeRoot Store.accessor r' w) := by
  cases h with
  | shared hx => exact Paired.writeShared hx hv
  | anchored hx hw => exact Paired.writeAnchored hx hw hv

theorem assign_together {P P' : Place Root} (h : PlaceAlike m P P') {f f' : Value → Value}
    (hf : ∀ v w, Like H.twins v w → Like H.twins (f v) (f' w)) :
    Together (Paired m base) (Like H.twins) (assign .none P f) (assign Store.accessor P' f') := by
  refine (readRoot_together h.root).bind fun v w hv => ?_
  refine Together.bind (Q := fun r r' => Like H.twins r.1 r'.1 ∧ Like H.twins r.2 r'.2) ?_ ?_
  · refine stamped_together Paired.stampsAgree fun n => ?_
    refine (hv.updateAt hf h.keys fun _ _ => rfl).bind fun r r' hr => ?_
    exact .ok ⟨P.keys.length, hr.2.2.1, hr.2.2.2, fun _ => ⟨hr.1, hr.2.1⟩⟩
  · intro r r' hr
    refine (writeRoot_together h.root hr.1).bind fun _ _ _ => ?_
    exact .pure hr.2

/-- Assigning to a local that is there sets it. -/
theorem run_assign_name {x : String} {u v : Value} {f : Frame Unit} (h : f.env.lookup x = some u) :
    (assign .none ⟨.name x, []⟩ fun _ => v).run f =
      (Evaluation.define x v >>= fun _ => Pure.pure v : Evaluation Unit Value).run f := by
  rw [assign, readRoot, run_bind, run_bind]
  simp only [Evaluation.env, h]
  rfl

/-- Assigning a local itself here is writing the declared value there. -/
theorem assignName_together {x : String} {p : ValuePath} (hx : m.anchors x = some p)
    (hw : m.writable x) {v w : Value} (hv : Like H.twins v w) :
    Together (Paired m base) (Like H.twins) (assign .none ⟨.name x, []⟩ fun _ => v)
      (Store.accessor.write p w >>= fun _ => Pure.pure w) := by
  intro f g hI
  obtain ⟨u, hu⟩ := hI.locals.present x p hx (m.writable_readable x hw)
  rw [run_assign_name hu]
  have hwrite : Together (Paired m base) (fun _ _ => True) (Evaluation.define x v)
      (Store.accessor.write p w) := Paired.writeAnchored hx hw hv
  exact hwrite.bind (fun _ _ _ => .pure hv) f g hI

/-- Whether a node denotes a place that can be assigned to. -/
def isPlace : Expr → Bool
  | .ident .. | .get .. | .member .. | .index .. => true
  | _ => false

theorem place_eq_fail (acc : Accessor σ) (call : Call σ) {e : Expr} (h : isPlace e = false) :
    place acc call e = .fail .invalidAssignment := by
  cases e with
  | ident | get | member | index => cases h
  | _ => rfl

theorem isPlace_rewrite {Δ : Anchors} {e : Expr} (h : isPlace e = false) :
    isPlace (e.rewrite Δ) = false := by
  cases e with
  | ident | get | member | index => cases h
  | assign r op target value =>
    rw [Expr.rewrite]
    cases target.targetPath? Δ <;> cases op <;> rfl
  | update r op before target =>
    rw [Expr.rewrite]
    cases target.targetPath? Δ <;> cases before <;> rfl
  | _ => rfl

/-! ## Expressions -/

/-- Calling anything but a method. -/
theorem expr_call (acc : Accessor σ) (call : Call σ) {callee : Expr}
    (h : ∀ r b x, callee ≠ .member r b x) (range : Range) (args : List Expr) :
    expr acc call (.call range callee args) = (do
      match global? (← Evaluation.env) callee with
      | some global =>
        let vs ← exprs acc call args
        .stamped fun next => Builtin.callFunction global next vs
      | none =>
        let f ← expr acc call callee
        let vs ← exprs acc call args
        call f vs) := by
  cases callee with
  | member r b x => exact absurd rfl (h r b x)
  | _ => rfl

theorem itemTexts_like {R : Stamp → Stamp → Prop} {T : Twins} {as bs : List Value}
    (h : List.Forall₂ (Alike R T) as bs) :
    Alike R T (.string (String.join (itemTexts as))) (.string (String.join (itemTexts bs))) := by
  rw [Alike.itemTexts_eq h]
  exact .string _

theorem getLast_like {R : Stamp → Stamp → Prop} {T : Twins} {as bs : List Value}
    (h : List.Forall₂ (Alike R T) as bs) :
    Alike R T (as.getLast?.getD .undefined) (bs.getLast?.getD .undefined) := by
  rw [List.getLast?_eq_getElem?, List.getLast?_eq_getElem?, ← h.length_eq]
  exact getD_alike (getElem?_rel h _)

section

variable {call : Call Unit} {call' : Call Store}

mutual

/-- An expression and its anchored form run side by side. -/
theorem expr_together (hcall : CallsTogether H.twins (Paired m base) call call') (e : Expr)
    (h : Fits H.kept m.anchors m.readable m.writable e) :
    Together (Paired m base) (Like H.twins) (expr .none call e)
      (expr Store.accessor call' (e.rewrite m.anchors)) := by
  cases e with
  | literal range v =>
    rw [Expr.rewrite, expr, expr]
    exact .pure (like_refl H (isSource_of_isData (by cases v <;> rfl)))
  | get range path | set range path value =>
    have := h.source _ (Expr.self_mem_nodes _)
    cases this
  | ident range x =>
    rw [Expr.rewrite, expr]
    cases hx : m.anchors x with
    | some p =>
      refine Paired.readAnchored hx (h.reads x ?_ (by rw [hx]; rfl))
      exact Expr.mem_names_of_mem (Expr.self_mem_nodes _)
    | none =>
      dsimp only
      rw [expr]
      exact Paired.readShared hx
  | template range parts =>
    rw [Expr.rewrite, expr, expr]
    refine (exprs_together hcall parts fun d hd => h.child hd).bind fun vs ws hvs => ?_
    exact .pure (itemTexts_like hvs)
  | member range b x =>
    rw [Expr.rewrite, expr, expr]
    refine Paired.env.bind fun E E' hE => ?_
    rw [global?_rewrite hE]
    cases global? E b with
    | some global => exact .pure (like_refl H (isSource_of_isData (globalProperty_isData global x)))
    | none =>
      refine (expr_together hcall b (h.child (List.mem_singleton_self _))).bind fun v w hv => ?_
      exact .ofExcept (hv.property x)
  | index range b key =>
    rw [Expr.rewrite, expr, expr]
    refine (expr_together hcall b (h.child (by simp [Expr.children]))).bind fun v w hv => ?_
    refine (expr_together hcall key (h.child (by simp [Expr.children]))).bind fun k l hk => ?_
    exact .ofExcept (hv.index hk)
  | unary range op operand =>
    have ih := expr_together hcall operand (h.child (by simp [Expr.children]))
    have hr : ∀ r x, operand = .ident r x → (m.anchors x).isSome → m.readable x := by
      rintro r x rfl hx
      refine h.reads x ?_ hx
      exact Expr.mem_names_of_mem (Expr.mem_nodes_of_mem_children (List.mem_singleton_self _))
    rw [Expr.rewrite, expr, expr]
    refine Paired.env.bind fun E E' hE => ?_
    rw [typeofGlobal?_rewrite hE hr]
    have hv := ih.bind fun v w hv => Together.pure (I := Paired m base) (hv.applyUnary op)
    cases op with
    | typeof =>
      cases ht : typeofGlobal? E operand with
      | some v => exact .pure (like_refl H (isSource_of_isData (typeofGlobal?_isData ht)))
      | none => exact hv
    | _ => exact hv
  | binary range op left right =>
    rw [Expr.rewrite, expr, expr]
    refine (expr_together hcall left (h.child (by simp [Expr.children]))).bind fun v w hv => ?_
    have hs := hv.shortcut? op
    generalize op.shortcut? v = o at hs ⊢
    generalize op.shortcut? w = o' at hs ⊢
    cases hs with
    | some hu => exact .pure hu
    | none =>
      refine (expr_together hcall right (h.child (by simp [Expr.children]))).bind fun u t hu => ?_
      refine .pure ?_
      split
      · exact hu
      · exact Alike.applyBinary biUnique_eq op hv hu
  | conditional range test yes no =>
    rw [Expr.rewrite, expr, expr]
    refine (expr_together hcall test (h.child (by simp [Expr.children]))).bind fun v w hv => ?_
    rw [hv.truthy_eq]
    split
    · exact expr_together hcall yes (h.child (by simp [Expr.children]))
    · exact expr_together hcall no (h.child (by simp [Expr.children]))
  | array range items =>
    rw [Expr.rewrite, expr, expr]
    refine (exprs_together hcall items fun d hd => h.child hd).bind fun vs ws hvs => ?_
    exact stamped_together Paired.stampsAgree fun n => Builtin.fresh_alike hvs
  | object range entries =>
    rw [Expr.rewrite, expr, expr]
    refine (entryValues_together hcall entries fun d hd => ?_).bind fun vs ws hvs => ?_
    · exact h.child (List.mem_map_of_mem hd)
    · refine stamped_together Paired.stampsAgree fun n => ?_
      exact .ok ⟨1, rfl, rfl, fun _ => .object rfl hvs.ofList.keys hvs.ofList.items⟩
  | arrow range params body =>
    rw [Expr.rewrite, expr, expr]
    refine Paired.env.bind fun E E' hE => ?_
    refine stamped_together Paired.stampsAgree fun n => .ok ⟨1, rfl, rfl, fun _ => ?_⟩
    refine hE.arrow (fun x hx => h.binds x ?_) h.body
    exact Expr.params_subset_boundNames (Expr.self_mem_nodes _) hx
  | letIn range x value =>
    rw [Expr.rewrite, expr, expr]
    refine (expr_together hcall value (h.child (by simp [Expr.children]))).bind fun v w hv => ?_
    have hx := h.binds x (Expr.letIn_mem_boundNames (Expr.self_mem_nodes _))
    exact (Paired.writeShared hx hv).bind fun _ _ _ => .pure .undefined
  | sequence range items =>
    rw [Expr.rewrite, expr, expr]
    refine (exprs_together hcall items fun d hd => h.child hd).bind fun vs ws hvs => ?_
    exact .pure (getLast_like hvs)
  | call range callee args =>
    have hargs := exprs_together hcall args fun d hd => h.child (List.mem_cons_of_mem _ hd)
    have hcallee := h.child (List.mem_cons_self (a := callee) (l := args))
    have hother : (∀ r b x, callee ≠ .member r b x) →
        Together (Paired m base) (Like H.twins) (expr .none call (.call range callee args))
          (expr Store.accessor call' (Expr.rewrite m.anchors (.call range callee args))) := by
      intro hne
      rw [Expr.rewrite, expr_call _ _ hne, expr_call _ _ (rewrite_ne_member hne)]
      refine Paired.env.bind fun E E' hE => ?_
      rw [global?_rewrite hE]
      cases global? E callee with
      | some global =>
        refine hargs.bind fun vs ws hvs => ?_
        exact stamped_together Paired.stampsAgree fun n => Builtin.callFunction_alike _ hvs
      | none =>
        refine (expr_together hcall callee hcallee).bind fun v w hv => ?_
        exact hargs.bind fun vs ws hvs => hcall hv hvs
    cases callee with
    | member r b x =>
      rw [Expr.rewrite, Expr.rewrite, expr, expr]
      refine Paired.env.bind fun E E' hE => ?_
      rw [global?_rewrite hE]
      cases global? E b with
      | some global =>
        refine hargs.bind fun vs ws hvs => ?_
        exact stamped_together Paired.stampsAgree fun n => Builtin.callFunction_alike _ hvs
      | none =>
        have hb := hcallee.child (List.mem_singleton_self b)
        refine (expr_together hcall b hb).bind fun v w hv => ?_
        refine hargs.bind fun vs ws hvs => ?_
        exact callMethod_together Paired.stampsAgree hcall x hv hvs
    | _ => exact hother fun _ _ _ => Expr.noConfusion
  | assign range op target value =>
    have hvalue := expr_together hcall value (h.child (by simp [Expr.children]))
    have hself := Expr.self_mem_nodes (.assign range op target value)
    have hroot : ∀ x, target.rootName? = some x → (m.anchors x).isSome → m.writable x :=
      fun x hx => h.writes x (List.mem_filterMap.2 ⟨_, hself, hx⟩)
    rw [Expr.rewrite]
    cases ht : target.targetPath? m.anchors with
    | none =>
      rw [expr, expr]
      refine hvalue.bind fun v w hv => ?_
      refine (place_together hcall target (h.child (by simp [Expr.children])) hroot).bind ?_
      intro P P' hP
      refine assign_together hP fun u t hu => ?_
      cases op with
      | some op => exact Alike.applyBinary biUnique_eq op hu hv
      | none => exact hv
    | some p =>
      cases target with
      | ident r x =>
        have hx : m.anchors x = some p := ht
        cases op with
        | some op =>
          -- combining a declared value itself with an operator is not admitted
          have := h.steps x (List.mem_filterMap.2 ⟨_, hself, rfl⟩)
          rw [hx] at this
          cases this
        | none =>
          have hw : m.writable x := hroot x rfl (by rw [hx]; rfl)
          dsimp only
          rw [expr, expr]
          exact hvalue.bind fun v w hv => assignName_together hx hw hv
      | _ => cases ht
  | update range op before target =>
    have hself := Expr.self_mem_nodes (.update range op before target)
    have hroot : ∀ x, target.rootName? = some x → (m.anchors x).isSome → m.writable x :=
      fun x hx => h.writes x (List.mem_filterMap.2 ⟨_, hself, hx⟩)
    rw [Expr.rewrite]
    cases ht : target.targetPath? m.anchors with
    | none =>
      rw [expr, expr]
      refine (place_together hcall target (h.child (by simp [Expr.children])) hroot).bind ?_
      intro P P' hP
      have hstep : ∀ u t, Like H.twins u t → Like H.twins (.number (u.toNumber + op.delta))
          (.number (t.toNumber + op.delta)) := by
        intro u t hu
        rw [hu.toNumber_eq]
        exact .number _
      refine (assign_together hP hstep).bind fun u t hu => ?_
      refine .pure ?_
      split
      · exact hu
      · rw [hu.toNumber_eq]
        exact .number _
    | some p =>
      cases target with
      | ident r x =>
        have hx : m.anchors x = some p := ht
        -- stepping a declared value itself is not admitted
        have := h.steps x (List.mem_filterMap.2 ⟨_, hself, rfl⟩)
        rw [hx] at this
        cases this
      | _ => cases ht

/-- A target and its anchored form denote the same place. -/
theorem place_together (hcall : CallsTogether H.twins (Paired m base) call call') (e : Expr)
    (h : Fits H.kept m.anchors m.readable m.writable e)
    (hroot : ∀ x, e.rootName? = some x → (m.anchors x).isSome → m.writable x) :
    Together (Paired m base) (PlaceAlike m) (place .none call e)
      (place Store.accessor call' (e.rewrite m.anchors)) := by
  by_cases hp : isPlace e = false
  · rw [place_eq_fail _ _ hp, place_eq_fail _ _ (isPlace_rewrite hp)]
    exact .fail _
  cases e with
  | ident range x =>
    rw [Expr.rewrite, place]
    cases hx : m.anchors x with
    | some p =>
      dsimp only
      rw [place]
      exact .pure ⟨.anchored hx (hroot x rfl (by rw [hx]; rfl)), .nil⟩
    | none =>
      dsimp only
      rw [place]
      exact .pure ⟨.shared hx, .nil⟩
  | get range path =>
    have := h.source _ (Expr.self_mem_nodes _)
    cases this
  | member range b x =>
    rw [Expr.rewrite, place, place]
    refine (place_together hcall b (h.child (List.mem_singleton_self _)) hroot).bind ?_
    intro P P' hP
    exact .pure ⟨hP.root, List.rel_append hP.keys (.cons (.string x) .nil)⟩
  | index range b key =>
    rw [Expr.rewrite, place, place]
    refine (expr_together hcall key (h.child (by simp [Expr.children]))).bind fun k l hk => ?_
    refine (place_together hcall b (h.child (by simp [Expr.children])) hroot).bind ?_
    intro P P' hP
    exact .pure ⟨hP.root, List.rel_append hP.keys (.cons hk .nil)⟩
  | _ => exact absurd rfl hp

theorem exprs_together (hcall : CallsTogether H.twins (Paired m base) call call') (es : List Expr)
    (h : ∀ e ∈ es, Fits H.kept m.anchors m.readable m.writable e) :
    Together (Paired m base) (List.Forall₂ (Like H.twins)) (exprs .none call es)
      (exprs Store.accessor call' (Expr.rewriteAll m.anchors es)) := by
  cases es with
  | nil =>
    rw [Expr.rewriteAll, exprs, exprs]
    exact .pure .nil
  | cons e es =>
    rw [Expr.rewriteAll, exprs, exprs]
    refine (expr_together hcall e (h e (List.mem_cons_self ..))).bind fun v w hv => ?_
    have hs := exprs_together hcall es fun d hd => h d (List.mem_cons_of_mem _ hd)
    exact hs.bind fun vs ws hvs => .pure (.cons hv hvs)

theorem entryValues_together (hcall : CallsTogether H.twins (Paired m base) call call')
    (es : List (String × Expr)) (h : ∀ e ∈ es, Fits H.kept m.anchors m.readable m.writable e.2) :
    Together (Paired m base) (EntriesAlike Eq H.twins) (entryValues .none call es)
      (entryValues Store.accessor call' (Expr.rewriteEntries m.anchors es)) := by
  match es with
  | [] =>
    rw [Expr.rewriteEntries, entryValues, entryValues]
    exact .pure .nil
  | (key, e) :: es =>
    rw [Expr.rewriteEntries, entryValues, entryValues]
    refine (expr_together hcall e (h _ (List.mem_cons_self ..))).bind fun v w hv => ?_
    have hs := entryValues_together hcall es fun d hd => h d (List.mem_cons_of_mem _ hd)
    exact hs.bind fun vs ws hvs => .pure (.cons hv hvs)

end

end

/-! ## Calls -/

/-- The locals that alike functions have captured are paired in their bodies. -/
theorem capturedLocals_paired {Δ : Anchors} (hΔ : Δ = H.anchors ∨ Δ = fun _ => none)
    {exempt : String → Prop} (hex : ∀ x, exempt x ↔ (Δ x).isSome) {E E' : Env}
    {locals : String → Option (Value × Value)}
    (left : ∀ x, ¬exempt x → E.lookup x = (locals x).map Prod.fst)
    (right : ∀ x, ¬exempt x → E'.lookup x = (locals x).map Prod.snd)
    (shared : ∀ x p, locals x = some p → Like H.twins p.1 p.2)
    (fixed : ∀ x v, exempt x → H.twins.fixed x = some v → E.lookup x = some v) :
    LocalsPaired (Mode.inBody Δ hΔ) E E' := by
  have hkept : ∀ x p, Δ x = some p → x ∈ H.kept → E.lookup x = some (H.initial x) :=
    fun x p hx hk => fixed x _ ((hex x).2 (by rw [hx]; rfl)) (if_pos hk)
  refine ⟨fun x hx => ?_, fun x p hx hr => ⟨_, hkept x p hx hr⟩, hkept⟩
  have hx' : ¬exempt x := by
    rw [hex, show Δ x = none from hx]
    exact Bool.false_ne_true
  rw [left x hx', right x hx']
  cases hl : locals x with
  | none => exact .none
  | some p => exact .some (shared x p hl)

theorem call_eq_fail (acc : Accessor σ) (limit left : Nat) {v : Value} (args : List Value)
    (h : ∀ stamp params body env, v ≠ .function stamp params body env) :
    call acc limit left v args = .fail (.notCallable v.toText) := by
  cases v with
  | function stamp params body env => exact absurd rfl (h stamp params body env)
  | _ => cases left <;> rfl

/-- Calls run side by side, however deep they may still be nested. -/
theorem call_together (limit left : Nat) : ∀ (m : Mode H) (base : List (String × Value)),
    CallsTogether H.twins (Paired m base) (call .none limit left)
      (call Store.accessor limit left) := by
  induction left with
  | zero =>
    intro m base f f' args args' hf _
    have ht := hf.toText_eq
    cases hf with
    | function => exact .fail _
    | _ =>
      rw [call_eq_fail, call_eq_fail, ht]
      · exact .fail _
      all_goals exact fun _ _ _ _ => Value.noConfusion
  | succ left ih =>
    intro m base f f' args args' hf hargs
    have ht := hf.toText_eq
    cases hf with
    | function stamps exempt code locals hleft hright hshared hfixed =>
      obtain ⟨Δ, hΔ, hfits, hparams, rfl, hex⟩ := code
      intro F G hI
      have hE := (capturedLocals_paired hΔ hex hleft hright hshared hfixed).bindParams hparams hargs
      have hbody := expr_together (ih (Mode.inBody Δ hΔ) G.world.values) _ hfits
      obtain ⟨hr, hI'⟩ := hbody _ _ (hI.enter hΔ hE)
      exact ⟨hr, hI.leave hI'⟩
    | _ =>
      rw [call_eq_fail, call_eq_fail, ht]
      · exact .fail _
      all_goals exact fun _ _ _ _ => Value.noConfusion

end Eval

/-! ## Leaving out code -/

theorem map_eraseCode_eq_of_resultAlike {T : Twins} {r r' : Except EvalError Value}
    (h : ResultAlike (Eval.Like T) r r') : r.map eraseCode = r'.map eraseCode := by
  cases h with
  | ok h => exact congrArg Except.ok h.eraseCode_eq.symm
  | error e => rfl

theorem map_eraseCode_eq_of_rel {T : Twins} {o o' : Option Value}
    (h : Option.Rel (Eval.Like T) o o') : o.map eraseCode = o'.map eraseCode := by
  cases h with
  | some h => exact congrArg some h.eraseCode_eq.symm
  | none => rfl

/-! ## Anchoring -/

theorem eq_of_append_cons_eq {α : Type} {c : α} {l l' r r' : List α} (hl : c ∉ l) (hl' : c ∉ l')
    (h : l ++ c :: r = l' ++ c :: r') : r = r' := by
  rcases List.append_eq_append_iff.1 h with ⟨as, rfl, has⟩ | ⟨as, rfl, has⟩
  · cases as with
    | nil => exact (List.cons.inj has).2
    | cons a as => simp [(List.cons.inj has).1] at hl'
  · cases as with
    | nil => exact (List.cons.inj has).2.symm
    | cons a as => simp [(List.cons.inj has).1] at hl

/-- Paths of different names have different texts: a scope's number holds no dot. -/
theorem ValuePath.name_eq_of_toText_eq {i j : ScopeIndex} {x y : String}
    (h : (ValuePath.mk i [] x).toText = (ValuePath.mk j [] y).toText) : x = y := by
  have hdot : ∀ n : Nat, '.' ∉ n.repr.toList := by
    intro n hn
    rw [Nat.toList_repr] at hn
    exact absurd (Nat.isDigit_of_mem_toDigits (by decide) (by decide) hn) (by decide)
  have ht : ∀ (n : Nat) (z : String),
      (ValuePath.mk n [] z).toText.toList = n.repr.toList ++ '.' :: z.toList := by
    intro n z
    simp [ValuePath.toText, String.intercalate_cons_cons, String.intercalate_singleton]
  have hl := congrArg String.toList h
  rw [ht, ht] at hl
  exact String.toList_inj.1 (eq_of_append_cons_eq (hdot i) (hdot j) hl)

namespace Expr

/-- The names of an expression that stand for declared values. -/
def anchoredNames (r : Resolver) (e : Expr) : List String :=
  e.names.filter fun x => (e.anchors r x).isSome

/-- What a name stands for is a declared value of that name, and the name is neither bound nor
reserved. -/
theorem anchors_eq_some {r : Resolver} {e : Expr} {x : String} {p : ValuePath}
    (h : e.anchors r x = some p) : x ∈ e.names ∧ x ∉ e.boundNames ∧
      Reserved.isReserved x = false ∧ ∃ scope, p = ⟨scope, [], x⟩ := by
  rw [anchors] at h
  split at h
  · rename_i hx
    rw [Anchoring.Names.path?] at h
    split at h
    · rename_i hfree
      rw [Anchoring.Names.isFree, Bool.and_eq_true, Bool.not_eq_true', Bool.not_eq_true'] at hfree
      rw [Resolver.path?] at h
      split at h
      · cases h
        exact ⟨hx, by simpa using hfree.1, hfree.2, _, rfl⟩
      · cases h
    · cases h
  · cases h

theorem mem_anchoredNames {r : Resolver} {e : Expr} {x : String} :
    x ∈ e.anchoredNames r ↔ (e.anchors r x).isSome := by
  rw [anchoredNames, List.mem_filter]
  refine ⟨fun h => h.2, fun h => ⟨?_, h⟩⟩
  obtain ⟨p, hp⟩ := Option.isSome_iff_exists.1 h
  exact (anchors_eq_some hp).1

/-- Locals with the contents of some names added. -/
def withContents (contents : String → Value) (names : List String) (locals : Env) : Env :=
  names.foldl (fun env x => Keyed.insert x (contents x) env) locals

theorem lookup_withContents (contents : String → Value) (names : List String) (locals : Env)
    (x : String) : (withContents contents names locals).lookup x =
      if x ∈ names then some (contents x) else locals.lookup x := by
  induction names generalizing locals with
  | nil => rfl
  | cons y names ih =>
    rw [withContents, List.foldl_cons, ← withContents, ih]
    by_cases hx : x ∈ names
    · rw [if_pos hx, if_pos (List.mem_cons_of_mem _ hx)]
    · rw [if_neg hx]
      by_cases hxy : x = y
      · rw [hxy, Keyed.lookup_insert_self, if_pos (List.mem_cons_self ..)]
      · rw [Keyed.lookup_insert_of_ne hxy, if_neg]
        simp [hx, hxy]

/-- The homes of the names that anchoring an expression replaces. Those in the bodies of its
functions are kept. -/
def homes (r : Resolver) (e : Expr) (contents : String → Value)
    (hdata : ∀ x p, e.anchors r x = some p → (contents x).isData = true) : Homes where
  anchors := e.anchors r
  kept := e.arrowNames.filter fun x => (e.anchors r x).isSome
  initial := contents
  reserved _ _ h := (anchors_eq_some h).2.2.1
  injective x y p q hx hy h := by
    obtain ⟨-, -, -, i, rfl⟩ := anchors_eq_some hx
    obtain ⟨-, -, -, j, rfl⟩ := anchors_eq_some hy
    exact ValuePath.name_eq_of_toText_eq h
  source x hx := by
    obtain ⟨p, hp⟩ := Option.isSome_iff_exists.1 (List.mem_filter.1 hx).2
    exact isSource_of_isData (hdata x p hp)

/-- Outside of functions, all anchored names may be read, and all but the kept ones assigned. -/
def topMode (H : Homes) : Mode H where
  anchors := H.anchors
  readable _ := True
  writable x := x ∉ H.kept
  anchors_eq := .inl rfl
  kept_readable _ _ := trivial
  writable_readable _ _ := trivial
  writable_not_kept _ h := h

/-- Anchoring preserves meaning. Take an expression from the parser that neither steps the names
that it anchors nor combines them with an operator, and that assigns to none of those in the bodies
of its functions. Its evaluation with their contents as locals and the evaluation of the anchored
expression with the same contents in a store give the same value, up to the code of functions, or
the same error. Whichever it is, they leave the same in both homes of each anchored name and in
every other local. The functions among the other locals may not use declared values. -/
theorem eval_anchor {base : Position} {source : String} {e : Expr}
    (hparse : parse base source = .ok e) {r : Resolver} (hr : r.Plain) {t : Anchored}
    (ht : e.anchor r = .ok t) (hstep : ∀ x ∈ e.steppedNames, x ∉ e.anchoredNames r)
    (hassign : ∀ x ∈ e.arrowNames, x ∈ e.assignedNames → x ∉ e.anchoredNames r)
    {contents : String → Value} (hdata : ∀ x ∈ e.anchoredNames r, (contents x).isData = true)
    {locals : Env} (hlocals : EntriesSource locals) {store : Store}
    (hstore : ∀ x p, e.anchors r x = some p → store.values.lookup p.toText = some (contents x))
    (limit : Nat) (next : Stamp) :
    let here := (Eval.run .none limit e).run
      ⟨withContents contents (e.anchoredNames r) locals, next, ()⟩
    let there := (Eval.run Store.accessor limit t.expr).run ⟨locals, next, store⟩
    here.1.map eraseCode = there.1.map eraseCode ∧
      (∀ x p, e.anchors r x = some p → ∃ v w, here.2.env.lookup x = some v ∧
        there.2.world.values.lookup p.toText = some w ∧ v.eraseCode = w.eraseCode) ∧
      ∀ x ∉ e.anchoredNames r,
        (here.2.env.lookup x).map eraseCode = (there.2.env.lookup x).map eraseCode := by
  intro here there
  have hnone : ∀ x, x ∉ e.anchoredNames r ↔ e.anchors r x = none := by
    intro x
    rw [mem_anchoredNames, Option.not_isSome_iff_eq_none]
  have hdata' : ∀ x p, e.anchors r x = some p → (contents x).isData = true :=
    fun x p hp => hdata x (mem_anchoredNames.2 (by rw [hp]; rfl))
  let H := e.homes r contents hdata'
  let m := topMode H
  have hfits : Fits H.kept m.anchors m.readable m.writable e := by
    refine ⟨parse_isSource hparse, fun _ _ _ => trivial, fun x hx hs hk => ?_, fun x hx => ?_,
      fun x hx => ?_, fun x hx hs => ⟨List.mem_filter.2 ⟨hx, hs⟩, fun ha => ?_⟩⟩
    · exact hassign x (List.mem_filter.1 hk).1 hx (mem_anchoredNames.2 hs)
    · exact (hnone x).1 (hstep x hx)
    · cases hp : e.anchors r x with
      | none => exact hp
      | some p => exact absurd hx (anchors_eq_some hp).2.1
    · exact hassign x hx ha (mem_anchoredNames.2 hs)
  have hI : Paired m store.values ⟨withContents contents (e.anchoredNames r) locals, next, ()⟩
      ⟨locals, next, store⟩ := by
    have hin : ∀ x p, e.anchors r x = some p →
        (withContents contents (e.anchoredNames r) locals).lookup x = some (contents x) := by
      intro x p hp
      rw [lookup_withContents, if_pos (mem_anchoredNames.2 (by rw [hp]; rfl))]
    refine ⟨rfl, ⟨fun x hx => ?_, fun x p hx _ => ⟨_, hin x p hx⟩, fun x p hx _ => hin x p hx⟩,
      fun x p v hx _ hv => ?_, fun x p hx _ => hstore x p hx, fun _ _ => rfl⟩
    · rw [lookup_withContents, if_neg ((hnone x).2 hx)]
      cases hl : locals.lookup x with
      | none => exact .none
      | some v => exact .some (like_refl_lookup H hlocals hl)
    · cases (hin x p hx).symm.trans hv
      exact ⟨_, hstore x p hx, like_refl H (isSource_of_isData (hdata' x p hx))⟩
  have h := Eval.expr_together (Eval.call_together limit limit m store.values) e hfits _ _ hI
  have hrewrite : e.rewrite m.anchors = t.expr := (anchor_eq_rewrite hr ht).symm
  rw [hrewrite] at h
  obtain ⟨hresult, hI'⟩ := h
  refine ⟨?_, fun x p hx => ?_, fun x hx => ?_⟩
  · exact map_eraseCode_eq_of_resultAlike hresult
  · obtain ⟨v, hv⟩ := hI'.locals.present x p hx trivial
    obtain ⟨w, hw, hvw⟩ := hI'.held x p v hx trivial hv
    exact ⟨v, w, hv, hw, hvw.eraseCode_eq.symm⟩
  · exact map_eraseCode_eq_of_rel (hI'.locals.shared x ((hnone x).1 hx))

/-- Writing a member of one declared value with another: the object changes in both homes. -/
theorem eval_anchor_memberAssignment :
    let r : Resolver :=
      ⟨fun x => if x = "x" ∨ x = "y" then .value 0 else .unresolved, fun _ _ => none, fun _ _ => false⟩
    let contents : String → Value := fun x => if x = "y" then .object 5 [] else .string "text"
    let locals : Env := [("z", .null)]
    let store : Store := ⟨[("0.x", .string "text"), ("0.y", .object 5 [])], []⟩
    ∃ e t, parse .start "y.a = x" = .ok e ∧ e.anchor r = .ok t ∧ e.anchoredNames r = ["y", "x"] ∧
      let here := (Eval.run .none 128 e).run ⟨withContents contents (e.anchoredNames r) locals, 7, ()⟩
      let there := (Eval.run Store.accessor 128 t.expr).run ⟨locals, 7, store⟩
      here.1.map eraseCode = there.1.map eraseCode ∧ ∃ v w, here.2.env.lookup "y" = some v ∧
        there.2.world.values.lookup "0.y" = some w ∧ v.eraseCode = w.eraseCode := by
  intro r contents locals store
  let e : Expr := .assign ⟨⟨1, 1⟩, ⟨1, 8⟩⟩ none
    (.member ⟨⟨1, 1⟩, ⟨1, 4⟩⟩ (.ident ⟨⟨1, 1⟩, ⟨1, 2⟩⟩ "y") "a") (.ident ⟨⟨1, 7⟩, ⟨1, 8⟩⟩ "x")
  let t : Anchored := (e.anchor r).toOption.get rfl
  have hparse : parse .start "y.a = x" = .ok e := by with_unfolding_all rfl
  have ht : e.anchor r = .ok t := by with_unfolding_all rfl
  have hnames : e.anchoredNames r = ["y", "x"] := by with_unfolding_all rfl
  have hr : r.Plain := by
    intro x anchor target
    simp only [r]
    split <;> exact Resolution.noConfusion
  have hstep : ∀ x ∈ e.steppedNames, x ∉ e.anchoredNames r := by
    intro x hx
    cases hx
  have hassign : ∀ x ∈ e.arrowNames, x ∈ e.assignedNames → x ∉ e.anchoredNames r := by
    intro x hx
    cases hx
  have hdata : ∀ x ∈ e.anchoredNames r, (contents x).isData = true := by
    rw [hnames]
    decide
  have hlocals : EntriesSource locals := entriesSource_of_entriesData rfl
  have hstore : ∀ x p, e.anchors r x = some p → store.values.lookup p.toText = some (contents x) := by
    intro x p hp
    have hx : x ∈ e.anchoredNames r := mem_anchoredNames.2 (by rw [hp]; rfl)
    rw [hnames] at hx
    rcases List.mem_pair.1 hx with rfl | rfl
    all_goals
      cases hp
      rfl
  obtain ⟨hresult, hhomes, -⟩ :=
    eval_anchor hparse hr ht hstep hassign hdata hlocals hstore 128 7
  exact ⟨e, t, hparse, ht, hnames, hresult, hhomes "y" ⟨0, [], "y"⟩ rfl⟩

/-- A local function that reads a declared value finds it in the store alone: among the other locals such
a function makes a difference. -/
theorem eval_anchor_declaredLocal :
    let r : Resolver :=
      ⟨fun x => if x = "x" then .value 0 else .unresolved, fun _ _ => none, fun _ _ => false⟩
    let contents : String → Value := fun _ => .bool true
    let locals : Env := [("f", .function 3 [] (.get Range.initial ⟨0, [], "x"⟩) [])]
    let store : Store := ⟨[("0.x", .bool true)], []⟩
    ∃ e t, parse .start "[x, f()]" = .ok e ∧ e.anchor r = .ok t ∧ e.anchoredNames r = ["x"] ∧
      let here := (Eval.run .none 128 e).run ⟨withContents contents (e.anchoredNames r) locals, 7, ()⟩
      let there := (Eval.run Store.accessor 128 t.expr).run ⟨locals, 7, store⟩
      here.1 = .error (.unresolved ⟨0, [], "x"⟩) ∧
        there.1 = .ok (.array 7 [.bool true, .bool true]) ∧
        here.1.map eraseCode ≠ there.1.map eraseCode := by
  intro r contents locals store
  let e : Expr := .array ⟨⟨1, 1⟩, ⟨1, 9⟩⟩ [.ident ⟨⟨1, 2⟩, ⟨1, 3⟩⟩ "x",
    .call ⟨⟨1, 5⟩, ⟨1, 8⟩⟩ (.ident ⟨⟨1, 5⟩, ⟨1, 6⟩⟩ "f") []]
  let t : Anchored := (e.anchor r).toOption.get rfl
  have hparse : parse .start "[x, f()]" = .ok e := by with_unfolding_all rfl
  have ht : e.anchor r = .ok t := by with_unfolding_all rfl
  have hnames : e.anchoredNames r = ["x"] := by with_unfolding_all rfl
  have hhere : ((Eval.run .none 128 e).run
      ⟨withContents contents (e.anchoredNames r) locals, 7, ()⟩).1 =
        .error (.unresolved ⟨0, [], "x"⟩) := by with_unfolding_all rfl
  have hthere : ((Eval.run Store.accessor 128 t.expr).run ⟨locals, 7, store⟩).1 =
      .ok (.array 7 [.bool true, .bool true]) := by with_unfolding_all rfl
  refine ⟨e, t, hparse, ht, hnames, hhere, hthere, ?_⟩
  rw [hhere, hthere]
  intro h
  cases h

end Expr

end ReactiveMarkup
