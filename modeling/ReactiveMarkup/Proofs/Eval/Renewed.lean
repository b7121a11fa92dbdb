import ReactiveMarkup.Proofs.Eval.Anchored

/-!
# Which stamps are taken

Where an evaluation starts to take stamps does not matter to what it gives. Two evaluations of one
expression whose stamps to come correspond, in order, build corresponding containers, decide every
test in the same way and fail with the same errors.

Main definitions: `Twins.copies`, `EnvAlike`, `Level`, `Accessor.Corresponds`.
Main results: `Eval.expr_alike`, `Eval.call_alike`.
-/
namespace ReactiveMarkup

open Evaluation Value

/-- Only copies of one function may stand in for each other. -/
def Twins.copies : Twins where
  bodies _ body body' exempt := body = body' ∧ ∀ x, ¬exempt x
  fixed _ := .none

/-- Locals of both runs that are alike, name by name. -/
def EnvAlike (R : Stamp → Stamp → Prop) (E E' : Env) : Prop :=
  ∀ x, Option.Rel (Alike R .copies) (E.lookup x) (E'.lookup x)

namespace EnvAlike

variable {R : Stamp → Stamp → Prop} {E E' : Env}

theorem insert (h : EnvAlike R E E') (x : String) {v w : Value} (hv : Alike R .copies v w) :
    EnvAlike R (Keyed.insert x v E) (Keyed.insert x w E') := by
  intro y
  by_cases hxy : y = x
  · rw [hxy, Keyed.lookup_insert_self, Keyed.lookup_insert_self]
    exact .some hv
  · rw [Keyed.lookup_insert_of_ne hxy, Keyed.lookup_insert_of_ne hxy]
    exact h y

theorem bindParams (h : EnvAlike R E E') (params : List String) {args args' : List Value}
    (hargs : List.Forall₂ (Alike R .copies) args args') :
    EnvAlike R (Eval.bindParams E params args) (Eval.bindParams E' params args') := by
  induction params generalizing E E' args args' with
  | nil => exact h
  | cons x params ih =>
    rw [Eval.bindParams, Eval.bindParams]
    cases hargs with
    | nil => exact ih (h.insert x .undefined) .nil
    | cons hv hargs => exact ih (h.insert x hv) hargs

theorem isNone_eq (h : EnvAlike R E E') (x : String) :
    (E'.lookup x).isNone = (E.lookup x).isNone := by
  have hx := h x
  generalize E.lookup x = o at hx ⊢
  generalize E'.lookup x = o' at hx ⊢
  cases hx <;> rfl

theorem global?_eq (h : EnvAlike R E E') (e : Expr) : Eval.global? E' e = Eval.global? E e := by
  cases e with
  | ident r x => rw [Eval.global?, Eval.global?, Eval.isGlobal, Eval.isGlobal, h.isNone_eq x]
  | _ => rfl

theorem typeofGlobal?_eq (h : EnvAlike R E E') (e : Expr) :
    Eval.typeofGlobal? E' e = Eval.typeofGlobal? E e := by
  cases e with
  | ident r x => simp only [Eval.typeofGlobal?, h.isNone_eq x]
  | _ => rfl

/-- Copies of a function that are made with alike locals are alike. -/
theorem arrow (h : EnvAlike R E E') {s t : Stamp} (hst : R s t) (params : List String)
    (body : Expr) : Alike R .copies (.function s params body E) (.function t params body E') := by
  let locals : String → Option (Value × Value) := fun x =>
    (E.lookup x).bind fun v => (E'.lookup x).map fun w => (v, w)
  have hlocals : ∀ x, E.lookup x = (locals x).map Prod.fst ∧
      E'.lookup x = (locals x).map Prod.snd ∧ ∀ p, locals x = some p → Alike R .copies p.1 p.2 := by
    intro x
    have hx := h x
    simp only [locals]
    generalize E.lookup x = o at hx ⊢
    generalize E'.lookup x = o' at hx ⊢
    cases hx with
    | none => exact ⟨rfl, rfl, fun p hp => by cases hp⟩
    | some hv => exact ⟨rfl, rfl, fun p hp => by cases hp; exact hv⟩
  exact .function hst (fun _ => False) ⟨rfl, fun _ => id⟩ locals (fun x _ => (hlocals x).1)
    (fun x _ => (hlocals x).2.1) (fun x => (hlocals x).2.2) fun x v hx => absurd hx id

/-- The locals that alike copies of a function have captured. -/
theorem captured {s t : Stamp} {params params' : List String} {body body' : Expr}
    (h : Alike R .copies (.function s params body E) (.function t params' body' E')) :
    params = params' ∧ body = body' ∧ EnvAlike R E E' := by
  cases h with
  | function stamps exempt code locals left right shared fixed =>
    obtain ⟨rfl, hex⟩ := code
    refine ⟨rfl, rfl, fun x => ?_⟩
    rw [left x (hex x), right x (hex x)]
    have hx := shared x
    generalize locals x = o at hx ⊢
    cases o with
    | none => exact .none
    | some p => exact .some (hx p rfl)

end EnvAlike

/-! ## Frames and declared values -/

section

variable {σ τ : Type} {R : Stamp → Stamp → Prop} {J : σ → τ → Prop}

/-- Frames with alike locals, in related worlds, whose stamps to come correspond in order. -/
structure Level (R : Stamp → Stamp → Prop) (J : σ → τ → Prop) (f : Frame σ) (g : Frame τ) : Prop where
  locals : EnvAlike R f.env g.env
  stamps : ∀ k, R (f.stamps + k) (g.stamps + k)
  world : J f.world g.world

namespace Level

theorem env_together : Together (Level R J) (EnvAlike R) Evaluation.env Evaluation.env :=
  fun _ _ h => ⟨.ok h.locals, h⟩

theorem define_together (x : String) {v w : Value} (hv : Alike R .copies v w) :
    Together (Level R J) (fun _ _ => True) (Evaluation.define x v) (Evaluation.define x w) :=
  fun _ _ h => ⟨.ok trivial, h.locals.insert x hv, h.stamps, h.world⟩

/-- Results that take equally many stamps. -/
theorem stamped_together {α β : Type} {Q : α → β → Prop} {r : Stamp → Except EvalError (α × Stamp)}
    {r' : Stamp → Except EvalError (β × Stamp)}
    (h : ∀ n m, (∀ k, R (n + k) (m + k)) → StampedAlike R Q n m (r n) (r' m)) :
    Together (Level R J) Q (.stamped r) (.stamped r') := by
  intro f g hfg
  have hs := h f.stamps g.stamps hfg.stamps
  simp only [Evaluation.stamped]
  generalize r f.stamps = u at hs ⊢
  generalize r' g.stamps = v at hs ⊢
  cases hs with
  | @ok p p' h =>
    obtain ⟨a, next⟩ := p
    obtain ⟨b, next'⟩ := p'
    obtain ⟨k, rfl, rfl, hQ⟩ := h
    refine ⟨.ok (hQ fun i _ => hfg.stamps i), hfg.locals, fun i => ?_, hfg.world⟩
    rw [Nat.add_assoc, Nat.add_assoc]
    exact hfg.stamps (k + i)
  | error e => exact ⟨.error e, hfg⟩

end Level

/-- Both ways to reach declared values read alike values and write alike values. -/
structure Accessor.Corresponds (R : Stamp → Stamp → Prop) (J : σ → τ → Prop) (acc : Accessor σ)
    (acc' : Accessor τ) : Prop where
  read : ∀ p, Together (Level R J) (Alike R .copies) (acc.read p) (acc'.read p)
  write : ∀ p v w, Alike R .copies v w →
    Together (Level R J) (fun _ _ => True) (acc.write p v) (acc'.write p w)

end

namespace Eval

variable {σ τ : Type} {R : Stamp → Stamp → Prop} {J : σ → τ → Prop} {acc : Accessor σ}
  {acc' : Accessor τ} {call : Call σ} {call' : Call τ}

/-! ## Methods and assignments -/

/-- Calling alike functions with alike arguments gives alike results. -/
def CallsAlike (R : Stamp → Stamp → Prop) (J : σ → τ → Prop) (call : Call σ) (call' : Call τ) : Prop :=
  ∀ {f f' args args'}, Alike R .copies f f' → List.Forall₂ (Alike R .copies) args args' →
    Together (Level R J) (Alike R .copies) (call f args) (call' f' args')

theorem finish_alike (m : Iteration) {as bs : List Value}
    (h : List.Forall₂ (Alike R .copies) as bs) :
    Together (Level R J) (Alike R .copies) (m.finish as) (m.finish bs) := by
  cases m with
  | map | filter => exact Level.stamped_together fun n m _ => Builtin.fresh_alike h
  | find => exact .pure .undefined
  | findIndex => exact .pure (.number _)
  | some | every => exact .pure (.bool _)

theorem iteration_alike (hcall : CallsAlike R J call call') (m : Iteration) {f f' : Value}
    (hf : Alike R .copies f f') {as bs done done' : List Value}
    (h : List.Forall₂ (Alike R .copies) as bs) (hdone : List.Forall₂ (Alike R .copies) done done')
    (i : Nat) :
    Together (Level R J) (Alike R .copies) (m.run call f done i as) (m.run call' f' done' i bs) := by
  induction h generalizing done done' i with
  | nil => exact finish_alike m hdone
  | @cons v w as bs hv _ ih =>
    rw [Iteration.run, Iteration.run]
    refine (hcall hf (.cons hv (.cons (.number _) .nil))).bind fun r r' hr => ?_
    have hd := decided?_alike m i hv hr
    generalize m.decided? i v r = o at hd ⊢
    generalize m.decided? i w r' = o' at hd ⊢
    cases hd with
    | some h => exact .pure h
    | none => exact ih (List.rel_append hdone (collected_alike m hv hr)) (i + 1)

theorem callMethod_alike (hR : Relator.BiUnique R) (hcall : CallsAlike R J call call')
    (name : String) {v w : Value} (hv : Alike R .copies v w) {args args' : List Value}
    (h : List.Forall₂ (Alike R .copies) args args') :
    Together (Level R J) (Alike R .copies) (callMethod call v name args)
      (callMethod call' w name args') := by
  have hb : Together (Level R J) (Alike R .copies)
      (.stamped fun next => Builtin.callMethod name next v args)
      (.stamped fun next => Builtin.callMethod name next w args') :=
    Level.stamped_together fun n m _ => Builtin.callMethod_alike hR name hv h
  cases hv with
  | undefined => exact .fail _
  | null => exact .fail _
  | array stamps items =>
    rw [callMethod, callMethod]
    cases Iteration.ofName? name with
    | some m => exact iteration_alike hcall m (Builtin.arg_alike h 0) items .nil 0
    | none => exact hb
  | @object s t es fs stamps keys items =>
    rw [callMethod, callMethod]
    have hf := EntriesAlike.lookup ⟨keys, items⟩ name
    generalize es.lookup name = o at hf ⊢
    generalize fs.lookup name = o' at hf ⊢
    cases hf with
    | some hf => exact hcall hf h
    | none => exact hb
  | _ => exact hb

/-- Assignments to one variable, with alike keys. -/
structure Place.Corresponds (R : Stamp → Stamp → Prop) (p q : Place Root) : Prop where
  root : q.root = p.root
  keys : List.Forall₂ (Alike R .copies) p.keys q.keys

theorem name_alike (x : String) : Together (Level R J) (Alike R .copies)
    (name x : Evaluation σ Value) (name x : Evaluation τ Value) := by
  refine Level.env_together.bind fun E E' hE => ?_
  have hx := hE x
  generalize E.lookup x = o at hx ⊢
  generalize E'.lookup x = o' at hx ⊢
  cases hx with
  | some hv => exact .pure hv
  | none =>
    dsimp only
    split
    · exact .pure .undefined
    · exact .fail _

theorem readRoot_alike (hacc : Accessor.Corresponds R J acc acc') (r : Root) :
    Together (Level R J) (Alike R .copies) (readRoot acc r) (readRoot acc' r) := by
  cases r with
  | path path => exact hacc.read path
  | name x =>
    refine Level.env_together.bind fun E E' hE => ?_
    have hx := hE x
    generalize E.lookup x = o at hx ⊢
    generalize E'.lookup x = o' at hx ⊢
    cases hx with
    | some hv => exact .pure hv
    | none => exact .fail _

theorem writeRoot_alike (hacc : Accessor.Corresponds R J acc acc') (r : Root) {v w : Value}
    (hv : Alike R .copies v w) :
    Together (Level R J) (fun _ _ => True) (writeRoot acc r v) (writeRoot acc' r w) := by
  cases r with
  | path path => exact hacc.write path v w hv
  | name x => exact Level.define_together x hv

theorem assign_alike (hacc : Accessor.Corresponds R J acc acc') {p q : Place Root}
    (hp : Place.Corresponds R p q) {f g : Value → Value}
    (hf : ∀ v w, Alike R .copies v w → Alike R .copies (f v) (g w)) :
    Together (Level R J) (Alike R .copies) (assign acc p f) (assign acc' q g) := by
  obtain ⟨root, keys⟩ := p
  obtain ⟨root', keys'⟩ := q
  obtain ⟨hroot, hkeys⟩ := hp
  obtain rfl : root' = root := hroot
  refine (readRoot_alike hacc root').bind fun v w hv => ?_
  refine Together.bind (Q := fun r r' => Alike R .copies r.1 r'.1 ∧ Alike R .copies r.2 r'.2) ?_ ?_
  · refine Level.stamped_together fun n m hnm => ?_
    refine (hv.updateAt hf hkeys fun i _ => hnm i).bind fun r r' hr => ?_
    exact .ok ⟨keys.length, hr.2.2.1, hr.2.2.2, fun _ => ⟨hr.1, hr.2.1⟩⟩
  · rintro ⟨u, stored⟩ ⟨u', stored'⟩ ⟨hu, hstored⟩
    exact (writeRoot_alike hacc root' hu).bind fun _ _ _ => .pure hstored

/-! ## Expressions -/

theorem literal_alike {T : Twins} (v : Literal) : Alike R T v.value v.value := by
  cases v <;> constructor

theorem globalProperty_alike {T : Twins} (global x : String) :
    Alike R T (Builtin.globalProperty global x) (Builtin.globalProperty global x) := by
  rw [Builtin.globalProperty]
  split
  · exact .number _
  · split
    · exact .number _
    · exact .undefined

theorem typeofGlobal?_alike {T : Twins} {E : Env} {e : Expr} {v : Value}
    (h : typeofGlobal? E e = some v) : Alike R T v v := by
  cases e with
  | ident r x =>
    rw [typeofGlobal?] at h
    split at h
    · cases h
      exact .string _
    · cases h
  | _ => cases h

mutual

/-- Evaluating an expression in level frames gives alike values or the same error. -/
theorem expr_alike (hR : Relator.BiUnique R) (hacc : Accessor.Corresponds R J acc acc')
    (hcall : CallsAlike R J call call') (e : Expr) :
    Together (Level R J) (Alike R .copies) (expr acc call e) (expr acc' call' e) := by
  cases e with
  | literal range v =>
    rw [expr, expr]
    exact .pure (literal_alike v)
  | ident range x =>
    rw [expr, expr]
    exact name_alike x
  | get range path =>
    rw [expr, expr]
    exact hacc.read path
  | set range path value =>
    rw [expr, expr]
    refine (expr_alike hR hacc hcall value).bind fun v w hv => ?_
    exact (hacc.write path v w hv).bind fun _ _ _ => .pure hv
  | template range parts =>
    rw [expr, expr]
    exact (exprs_alike hR hacc hcall parts).bind fun vs ws hvs => .pure (itemTexts_like hvs)
  | member range b x =>
    rw [expr, expr]
    refine Level.env_together.bind fun E E' hE => ?_
    rw [hE.global?_eq]
    cases global? E b with
    | some global => exact .pure (globalProperty_alike global x)
    | none => exact (expr_alike hR hacc hcall b).bind fun v w hv => .ofExcept (hv.property x)
  | index range b key =>
    rw [expr, expr]
    refine (expr_alike hR hacc hcall b).bind fun v w hv => ?_
    exact (expr_alike hR hacc hcall key).bind fun k l hk => .ofExcept (hv.index hk)
  | call range callee args =>
    have hargs := exprs_alike hR hacc hcall args
    have hother : (∀ r b x, callee ≠ .member r b x) →
        Together (Level R J) (Alike R .copies) (expr acc call (.call range callee args))
          (expr acc' call' (.call range callee args)) := by
      intro hne
      rw [expr_call _ _ hne, expr_call _ _ hne]
      refine Level.env_together.bind fun E E' hE => ?_
      rw [hE.global?_eq]
      cases global? E callee with
      | some global =>
        refine hargs.bind fun vs ws hvs => ?_
        exact Level.stamped_together fun n m _ => Builtin.callFunction_alike _ hvs
      | none =>
        refine (expr_alike hR hacc hcall callee).bind fun f g hf => ?_
        exact hargs.bind fun vs ws hvs => hcall hf hvs
    cases callee with
    | member r b x =>
      rw [expr, expr]
      refine Level.env_together.bind fun E E' hE => ?_
      rw [hE.global?_eq]
      cases global? E b with
      | some global =>
        refine hargs.bind fun vs ws hvs => ?_
        exact Level.stamped_together fun n m _ => Builtin.callFunction_alike _ hvs
      | none =>
        refine (expr_alike hR hacc hcall b).bind fun v w hv => ?_
        exact hargs.bind fun vs ws hvs => callMethod_alike hR hcall x hv hvs
    | _ => exact hother fun _ _ _ => Expr.noConfusion
  | unary range op operand =>
    have hoperand : Together (Level R J) (Alike R .copies)
        (expr acc call operand >>= fun v => Pure.pure (op.apply v))
        (expr acc' call' operand >>= fun v => Pure.pure (op.apply v)) :=
      (expr_alike hR hacc hcall operand).bind fun v w hv => .pure (hv.applyUnary op)
    rw [expr, expr]
    refine Level.env_together.bind fun E E' hE => ?_
    cases op with
    | typeof =>
      rw [hE.typeofGlobal?_eq]
      cases ht : typeofGlobal? E operand with
      | some v => exact .pure (typeofGlobal?_alike ht)
      | none => exact hoperand
    | _ => exact hoperand
  | binary range op left right =>
    rw [expr, expr]
    refine (expr_alike hR hacc hcall left).bind fun a a' ha => ?_
    have hs := ha.shortcut? op
    generalize op.shortcut? a = o at hs ⊢
    generalize op.shortcut? a' = o' at hs ⊢
    cases hs with
    | some hu => exact .pure hu
    | none =>
      refine (expr_alike hR hacc hcall right).bind fun b b' hb => .pure ?_
      split
      · exact hb
      · exact Alike.applyBinary hR op ha hb
  | conditional range test yes no =>
    rw [expr, expr]
    refine (expr_alike hR hacc hcall test).bind fun t t' ht => ?_
    rw [ht.truthy_eq]
    split
    · exact expr_alike hR hacc hcall yes
    · exact expr_alike hR hacc hcall no
  | assign range op target value =>
    rw [expr, expr]
    refine (expr_alike hR hacc hcall value).bind fun v w hv => ?_
    refine (place_alike hR hacc hcall target).bind fun p q hp => ?_
    refine assign_alike hacc hp fun u u' hu => ?_
    cases op with
    | some op => exact Alike.applyBinary hR op hu hv
    | none => exact hv
  | update range op before target =>
    rw [expr, expr]
    have hstep : ∀ u w, Alike R .copies u w → Alike R .copies
        (.number (u.toNumber + op.delta)) (.number (w.toNumber + op.delta)) := by
      intro u w hu
      rw [hu.toNumber_eq]
      exact .number _
    refine (place_alike hR hacc hcall target).bind fun p q hp => ?_
    refine (assign_alike hacc hp hstep).bind fun new new' hnew => .pure ?_
    split
    · exact hnew
    · rw [hnew.toNumber_eq]
      exact .number _
  | array range items =>
    rw [expr, expr]
    refine (exprs_alike hR hacc hcall items).bind fun vs ws hvs => ?_
    exact Level.stamped_together fun n m _ => Builtin.fresh_alike hvs
  | object range entries =>
    rw [expr, expr]
    refine (entryValues_alike hR hacc hcall entries).bind fun vs ws hvs => ?_
    refine Level.stamped_together fun n m hnm => .ok ⟨1, rfl, rfl, fun _ => ?_⟩
    exact .object (hnm 0) hvs.ofList.keys hvs.ofList.items
  | arrow range params body =>
    rw [expr, expr]
    refine Level.env_together.bind fun E E' hE => ?_
    exact Level.stamped_together fun n m hnm =>
      .ok ⟨1, rfl, rfl, fun _ => hE.arrow (hnm 0) params body⟩
  | letIn range x value =>
    rw [expr, expr]
    refine (expr_alike hR hacc hcall value).bind fun v w hv => ?_
    exact (Level.define_together x hv).bind fun _ _ _ => .pure .undefined
  | sequence range items =>
    rw [expr, expr]
    exact (exprs_alike hR hacc hcall items).bind fun vs ws hvs => .pure (getLast_like hvs)

/-- A target is one variable in both runs, with alike keys. -/
theorem place_alike (hR : Relator.BiUnique R) (hacc : Accessor.Corresponds R J acc acc')
    (hcall : CallsAlike R J call call') (e : Expr) :
    Together (Level R J) (Place.Corresponds R) (place acc call e) (place acc' call' e) := by
  by_cases hp : isPlace e = false
  · rw [place_eq_fail _ _ hp, place_eq_fail _ _ hp]
    exact .fail _
  cases e with
  | ident range x =>
    rw [place, place]
    exact .pure ⟨rfl, .nil⟩
  | get range path =>
    rw [place, place]
    exact .pure ⟨rfl, .nil⟩
  | member range b x =>
    rw [place, place]
    refine (place_alike hR hacc hcall b).bind fun p q hp => .pure ?_
    exact ⟨hp.root, List.rel_append hp.keys (.cons (.string x) .nil)⟩
  | index range b key =>
    rw [place, place]
    refine (expr_alike hR hacc hcall key).bind fun k l hk => ?_
    refine (place_alike hR hacc hcall b).bind fun p q hp => .pure ?_
    exact ⟨hp.root, List.rel_append hp.keys (.cons hk .nil)⟩
  | _ => exact absurd rfl hp

theorem exprs_alike (hR : Relator.BiUnique R) (hacc : Accessor.Corresponds R J acc acc')
    (hcall : CallsAlike R J call call') (es : List Expr) :
    Together (Level R J) (List.Forall₂ (Alike R .copies)) (exprs acc call es)
      (exprs acc' call' es) := by
  cases es with
  | nil =>
    rw [exprs, exprs]
    exact .pure .nil
  | cons e es =>
    rw [exprs, exprs]
    refine (expr_alike hR hacc hcall e).bind fun v w hv => ?_
    exact (exprs_alike hR hacc hcall es).bind fun vs ws hvs => .pure (.cons hv hvs)

theorem entryValues_alike (hR : Relator.BiUnique R) (hacc : Accessor.Corresponds R J acc acc')
    (hcall : CallsAlike R J call call') (es : List (String × Expr)) :
    Together (Level R J) (EntriesAlike R .copies) (entryValues acc call es)
      (entryValues acc' call' es) := by
  match es with
  | [] =>
    rw [entryValues, entryValues]
    exact .pure .nil
  | (key, e) :: es =>
    rw [entryValues, entryValues]
    refine (expr_alike hR hacc hcall e).bind fun v w hv => ?_
    exact (entryValues_alike hR hacc hcall es).bind fun vs ws hvs => .pure (.cons hv hvs)

end

/-- Calls give alike values however deep they may still be nested. -/
theorem call_alike (hR : Relator.BiUnique R) (hacc : Accessor.Corresponds R J acc acc')
    (limit left : Nat) : CallsAlike R J (Eval.call acc limit left) (Eval.call acc' limit left) := by
  induction left with
  | zero =>
    intro f f' args args' hf _
    have ht := hf.toText_eq
    cases hf with
    | function => exact .fail _
    | _ =>
      rw [call_eq_fail, call_eq_fail, ht]
      · exact .fail _
      all_goals exact fun _ _ _ _ => Value.noConfusion
  | succ left ih =>
    intro f f' args args' hf hargs
    have ht := hf.toText_eq
    cases f with
    | function s params body env =>
      cases f' with
      | function t params' body' env' =>
        obtain ⟨rfl, rfl, henv⟩ := EnvAlike.captured hf
        intro F G hI
        obtain ⟨hr, hI'⟩ := expr_alike hR hacc ih body
          { F with env := bindParams env params args } { G with env := bindParams env' params args' }
          ⟨henv.bindParams params hargs, hI.stamps, hI.world⟩
        exact ⟨hr, hI.locals, hI'.stamps, hI'.world⟩
      | _ => cases hf
    | _ =>
      cases hf
      rw [call_eq_fail, call_eq_fail, ht]
      · exact .fail _
      all_goals exact fun _ _ _ _ => Value.noConfusion

end Eval

end ReactiveMarkup
