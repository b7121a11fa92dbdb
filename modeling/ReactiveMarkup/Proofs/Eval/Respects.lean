import ReactiveMarkup.Proofs.Eval.Anchored

/-!
# Two evaluations, step by step

The evaluator is made of a few kinds of steps: results, failures, uses of the locals, of the stamps,
of declared values, and calls of functions. A relation between computations in two worlds that holds
of these steps, and of two computations one after the other, holds of evaluating any expression. Of
the steps that set locals it need only hold for those that the expression sets.

Main definitions: `Eval.Respects`, `Eval.Keeps`.
Main results: `Eval.expr_respects`, `Eval.run_keeps`.
-/
namespace ReactiveMarkup

namespace Eval

open Evaluation

variable {σ τ : Type} {acc : Accessor σ} {acc' : Accessor τ} {call : Call σ} {call' : Call τ}
  {R : (α : Type) → Evaluation σ α → Evaluation τ α → Prop} {D : String → Prop}

/-- An assignment starts from the local that its target starts from. -/
theorem rootName?_of_canGive {e : Expr} {p : Place Root} (h : (place acc call e).CanGive p)
    {x : String} (hx : p.root = .name x) : e.rootName? = some x := by
  induction e using Expr.induction_children generalizing p with
  | step e ih =>
    by_cases hp : isPlace e = false
    · rw [place_eq_fail _ _ hp] at h
      obtain ⟨f, h⟩ := h
      cases h
    cases e with
    | ident range y =>
      rw [place] at h
      cases canGive_pure h
      cases hx
      rfl
    | get range path =>
      rw [place] at h
      cases canGive_pure h
      cases hx
    | member range b y =>
      rw [place] at h
      obtain ⟨q, hq, h⟩ := canGive_of_bind h
      cases canGive_pure h
      exact ih b (List.mem_singleton_self b) hq hx
    | index range b key =>
      rw [place] at h
      obtain ⟨k, hk, h⟩ := canGive_of_bind h
      obtain ⟨q, hq, h⟩ := canGive_of_bind h
      cases canGive_pure h
      exact ih b (List.mem_cons_self ..) hq hx
    | _ => exact absurd rfl hp

/-- The steps of evaluations in two worlds are related, those that set locals if the locals are in
`D`, and so are related computations one after the other. -/
structure Respects (R : (α : Type) → Evaluation σ α → Evaluation τ α → Prop) (D : String → Prop)
    (acc : Accessor σ) (acc' : Accessor τ) (call : Call σ) (call' : Call τ) : Prop where
  pure : ∀ {α : Type} (a : α), R α (Pure.pure a) (Pure.pure a)
  fail : ∀ {α : Type} (e : EvalError), R α (Evaluation.fail e) (Evaluation.fail e)
  bindGiven : ∀ {α β : Type} {p : Evaluation σ α} {q : Evaluation τ α} {k : α → Evaluation σ β}
    {l : α → Evaluation τ β}, R α p q → (∀ a, p.CanGive a → R β (k a) (l a)) →
    R β (p >>= k) (q >>= l)
  env : R Env Evaluation.env Evaluation.env
  define : ∀ x v, D x → R Unit (Evaluation.define x v) (Evaluation.define x v)
  stamped : ∀ {α : Type} (r : Stamp → Except EvalError (α × Stamp)),
    R α (Evaluation.stamped r) (Evaluation.stamped r)
  read : ∀ p, R Value (acc.read p) (acc'.read p)
  write : ∀ p v, R Unit (acc.write p v) (acc'.write p v)
  call : ∀ f args, R Value (call f args) (call' f args)

namespace Respects

theorem bind (h : Respects R D acc acc' call call') {α β : Type} {p : Evaluation σ α}
    {q : Evaluation τ α} {k : α → Evaluation σ β} {l : α → Evaluation τ β} (hp : R α p q)
    (hk : ∀ a, R β (k a) (l a)) : R β (p >>= k) (q >>= l) :=
  h.bindGiven hp fun a _ => hk a

theorem ofExcept (h : Respects R D acc acc' call call') {α : Type} (r : Except EvalError α) :
    R α (Evaluation.ofExcept r) (Evaluation.ofExcept r) := by
  cases r with
  | ok a => exact h.pure a
  | error e => exact h.fail e

end Respects

/-! ## Calls and assignments -/

theorem iteration_respects (h : Respects R D acc acc' call call') (m : Iteration) (f : Value)
    (items done : List Value) (i : Nat) :
    R Value (m.run call f done i items) (m.run call' f done i items) := by
  induction items generalizing done i with
  | nil =>
    rw [Iteration.run, Iteration.run]
    cases m with
    | map | filter =>
      rw [Iteration.finish, Iteration.finish]
      exact h.stamped _
    | find | findIndex | some | every => exact h.pure _
  | cons item items ih =>
    rw [Iteration.run, Iteration.run]
    refine h.bind (h.call f _) fun result => ?_
    cases m.decided? i item result with
    | some v => exact h.pure v
    | none => exact ih _ _

theorem callMethod_respects (h : Respects R D acc acc' call call') (receiver : Value) (name : String)
    (args : List Value) :
    R Value (callMethod call receiver name args) (callMethod call' receiver name args) := by
  have hb : R Value (.stamped fun next => Builtin.callMethod name next receiver args)
      (.stamped fun next => Builtin.callMethod name next receiver args) := h.stamped _
  cases receiver with
  | undefined | null => exact h.fail _
  | array stamp items =>
    rw [callMethod, callMethod]
    cases Iteration.ofName? name with
    | some m => exact iteration_respects h m _ items [] 0
    | none => exact hb
  | object stamp entries =>
    rw [callMethod, callMethod]
    cases entries.lookup name with
    | some f => exact h.call f args
    | none => exact hb
  | _ => exact hb

theorem name_respects (h : Respects R D acc acc' call call') (x : String) :
    R Value (name x) (name x) := by
  refine h.bind h.env fun E => ?_
  cases E.lookup x with
  | some v => exact h.pure v
  | none =>
    dsimp only
    split
    · exact h.pure _
    · exact h.fail _

theorem readRoot_respects (h : Respects R D acc acc' call call') (r : Root) :
    R Value (readRoot acc r) (readRoot acc' r) := by
  cases r with
  | path p => exact h.read p
  | name x =>
    refine h.bind h.env fun E => ?_
    cases E.lookup x with
    | some v => exact h.pure v
    | none => exact h.fail _

theorem writeRoot_respects (h : Respects R D acc acc' call call') {r : Root}
    (hr : ∀ x, r = .name x → D x) (v : Value) : R Unit (writeRoot acc r v) (writeRoot acc' r v) := by
  cases r with
  | path p => exact h.write p v
  | name x => exact h.define x v (hr x rfl)

theorem assign_respects (h : Respects R D acc acc' call call') {p : Place Root}
    (hp : ∀ x, p.root = .name x → D x) (f : Value → Value) :
    R Value (assign acc p f) (assign acc' p f) := by
  refine h.bind (readRoot_respects h p.root) fun root => h.bind (h.stamped _) fun r => ?_
  exact h.bind (writeRoot_respects h hp r.1) fun _ => h.pure r.2

/-! ## Expressions -/

/-- What a part sets, the whole sets. -/
theorem sets_of_parts {c e : Expr} (he : ∀ x, e.Sets x → D x) (hc : c ∈ e.parts) :
    ∀ x, c.Sets x → D x := fun x h => he x (.part hc h)

mutual

/-- What the steps of two evaluations respect, the evaluations respect. -/
theorem expr_respects (h : Respects R D acc acc' call call') (e : Expr)
    (he : ∀ x, e.Sets x → D x) : R Value (expr acc call e) (expr acc' call' e) := by
  cases e with
  | literal range v => exact h.pure _
  | ident range x => exact name_respects h x
  | get range path => exact h.read path
  | set range path value =>
    rw [expr, expr]
    refine h.bind (expr_respects h value (sets_of_parts he (List.mem_singleton_self _))) fun v => ?_
    exact h.bind (h.write path v) fun _ => h.pure v
  | template range parts =>
    rw [expr, expr]
    exact h.bind (exprs_respects h parts fun d hd => sets_of_parts he hd) fun vs => h.pure _
  | member range b x =>
    rw [expr, expr]
    refine h.bind h.env fun E => ?_
    cases global? E b with
    | some global => exact h.pure _
    | none =>
      have hb := expr_respects h b (sets_of_parts he (List.mem_singleton_self _))
      exact h.bind hb fun v => h.ofExcept _
  | index range b key =>
    have hb := expr_respects h b (sets_of_parts he (by simp [Expr.parts, Expr.children]))
    have hkey := expr_respects h key (sets_of_parts he (by simp [Expr.parts, Expr.children]))
    rw [expr, expr]
    exact h.bind hb fun v => h.bind hkey fun k => h.ofExcept _
  | call range callee args =>
    have hargs := exprs_respects h args fun d hd => sets_of_parts he (List.mem_cons_of_mem _ hd)
    have hcallee : ∀ x, callee.Sets x → D x := sets_of_parts he (List.mem_cons_self ..)
    have hother : (∀ r b x, callee ≠ .member r b x) →
        R Value (expr acc call (.call range callee args))
          (expr acc' call' (.call range callee args)) := by
      intro hne
      rw [expr_call _ _ hne, expr_call _ _ hne]
      refine h.bind h.env fun E => ?_
      cases global? E callee with
      | some global => exact h.bind hargs fun vs => h.stamped _
      | none =>
        refine h.bind (expr_respects h callee hcallee) fun f => ?_
        exact h.bind hargs fun vs => h.call f vs
    cases callee with
    | member r b method =>
      have hb := expr_respects h b (sets_of_parts hcallee (List.mem_singleton_self _))
      rw [expr, expr]
      refine h.bind h.env fun E => ?_
      cases global? E b with
      | some global => exact h.bind hargs fun vs => h.stamped _
      | none => exact h.bind hb fun v => h.bind hargs fun vs => callMethod_respects h v method vs
    | _ => exact hother fun r b x => Expr.noConfusion
  | unary range op operand =>
    have hoperand := expr_respects h operand (sets_of_parts he (List.mem_singleton_self _))
    rw [expr, expr]
    refine h.bind h.env fun E => ?_
    have hv := h.bind hoperand fun v => h.pure (op.apply v)
    cases op with
    | typeof =>
      cases typeofGlobal? E operand with
      | some v => exact h.pure v
      | none => exact hv
    | _ => exact hv
  | binary range op left right =>
    have hleft := expr_respects h left (sets_of_parts he (by simp [Expr.parts, Expr.children]))
    have hright := expr_respects h right (sets_of_parts he (by simp [Expr.parts, Expr.children]))
    rw [expr, expr]
    refine h.bind hleft fun a => ?_
    cases op.shortcut? a with
    | some v => exact h.pure v
    | none => exact h.bind hright fun b => h.pure _
  | conditional range test yes no =>
    have htest := expr_respects h test (sets_of_parts he (by simp [Expr.parts, Expr.children]))
    have hyes := expr_respects h yes (sets_of_parts he (by simp [Expr.parts, Expr.children]))
    have hno := expr_respects h no (sets_of_parts he (by simp [Expr.parts, Expr.children]))
    rw [expr, expr]
    refine h.bind htest fun t => ?_
    split
    · exact hyes
    · exact hno
  | assign range op target value =>
    have hvalue := expr_respects h value (sets_of_parts he (by simp [Expr.parts, Expr.children]))
    have htarget := place_respects h target (sets_of_parts he (List.mem_cons_self ..))
    rw [expr, expr]
    refine h.bind hvalue fun v => h.bindGiven htarget fun p hp => ?_
    exact assign_respects h (fun x hx => he x (.here (rootName?_of_canGive hp hx))) _
  | update range op before target =>
    have htarget := place_respects h target (sets_of_parts he (List.mem_singleton_self _))
    rw [expr, expr]
    refine h.bindGiven htarget fun p hp => ?_
    have hassign := assign_respects h (fun x hx => he x (.here (rootName?_of_canGive hp hx)))
    exact h.bind (hassign _) fun new => h.pure _
  | array range items =>
    rw [expr, expr]
    exact h.bind (exprs_respects h items fun d hd => sets_of_parts he hd) fun vs => h.stamped _
  | object range entries =>
    have hentries := entryValues_respects h entries fun d hd =>
      sets_of_parts he (List.mem_map_of_mem hd)
    rw [expr, expr]
    exact h.bind hentries fun vs => h.stamped _
  | arrow range params body =>
    rw [expr, expr]
    exact h.bind h.env fun E => h.stamped _
  | letIn range x value =>
    have hvalue := expr_respects h value (sets_of_parts he (List.mem_singleton_self _))
    rw [expr, expr]
    refine h.bind hvalue fun v => ?_
    exact h.bind (h.define x v (he x (.here rfl))) fun _ => h.pure _
  | sequence range items =>
    rw [expr, expr]
    exact h.bind (exprs_respects h items fun d hd => sets_of_parts he hd) fun vs => h.pure _

theorem place_respects (h : Respects R D acc acc' call call') (e : Expr)
    (he : ∀ x, e.Sets x → D x) : R (Place Root) (place acc call e) (place acc' call' e) := by
  by_cases hp : isPlace e = false
  · rw [place_eq_fail _ _ hp, place_eq_fail _ _ hp]
    exact h.fail _
  cases e with
  | ident range x => exact h.pure _
  | get range path => exact h.pure _
  | member range b x =>
    have hb := place_respects h b (sets_of_parts he (List.mem_singleton_self _))
    rw [place, place]
    exact h.bind hb fun p => h.pure _
  | index range b key =>
    have hkey := expr_respects h key (sets_of_parts he (by simp [Expr.parts, Expr.children]))
    have hb := place_respects h b (sets_of_parts he (List.mem_cons_self ..))
    rw [place, place]
    exact h.bind hkey fun k => h.bind hb fun p => h.pure _
  | _ => exact absurd rfl hp

theorem exprs_respects (h : Respects R D acc acc' call call') (es : List Expr)
    (he : ∀ e ∈ es, ∀ x, e.Sets x → D x) :
    R (List Value) (exprs acc call es) (exprs acc' call' es) := by
  cases es with
  | nil => exact h.pure []
  | cons e es =>
    have htail := exprs_respects h es fun d hd => he d (List.mem_cons_of_mem _ hd)
    rw [exprs, exprs]
    refine h.bind (expr_respects h e (he e (List.mem_cons_self ..))) fun v => ?_
    exact h.bind htail fun vs => h.pure (v :: vs)

theorem entryValues_respects (h : Respects R D acc acc' call call') (es : List (String × Expr))
    (he : ∀ e ∈ es, ∀ x, e.2.Sets x → D x) :
    R (List (String × Value)) (entryValues acc call es) (entryValues acc' call' es) := by
  match es with
  | [] => exact h.pure []
  | (key, e) :: es =>
    have htail := entryValues_respects h es fun d hd => he d (List.mem_cons_of_mem _ hd)
    rw [entryValues, entryValues]
    refine h.bind (expr_respects h e (he _ (List.mem_cons_self ..))) fun v => ?_
    exact h.bind htail fun vs => h.pure ((key, v) :: vs)

end

/-! ## Locals that are left alone -/

/-- However the computation ends, the local is what it was. -/
def Keeps (x : String) {α : Type} (p : Evaluation σ α) : Prop :=
  ∀ f, (p.run f).2.env.lookup x = f.env.lookup x

theorem keeps_bind {x : String} {α β : Type} {p : Evaluation σ α} {k : α → Evaluation σ β}
    (hp : Keeps x p) (hk : ∀ a, p.CanGive a → Keeps x (k a)) : Keeps x (p >>= k) :=
  fun f => snd_run_bind (hp f) fun a ha g hg => (hk a ha g).trans hg

/-- Only setting a local changes it. -/
theorem keeps_respects (acc : Accessor σ) (x : String) (hcall : ∀ v args, Keeps x (call v args)) :
    Respects (fun _ p _ => Keeps x p) (· ≠ x) acc acc call call where
  pure a f := rfl
  fail e f := rfl
  bindGiven := keeps_bind
  env f := rfl
  define y v hy f := Keyed.lookup_insert_of_ne hy.symm ..
  stamped r f := by
    simp only [Evaluation.stamped]
    cases r f.stamps <;> rfl
  read p f := rfl
  write p v f := rfl
  call := hcall

/-- A call has locals of its own. -/
theorem call_keeps (acc : Accessor σ) (limit left : Nat) (x : String) (v : Value)
    (args : List Value) : Keeps x (Eval.call acc limit left v args) := by
  intro f
  cases v with
  | function stamp params body env => cases left <;> rfl
  | _ => cases left <;> rfl

/-- An expression leaves every local alone that it does not set, whatever functions it calls. -/
theorem run_keeps (acc : Accessor σ) (limit : Nat) {e : Expr} {x : String} (h : ¬e.Sets x) :
    Keeps x (run acc limit e) :=
  expr_respects (keeps_respects acc x (call_keeps acc limit limit x)) e fun _ hy hyx =>
    h (hyx ▸ hy)

end Eval

end ReactiveMarkup
