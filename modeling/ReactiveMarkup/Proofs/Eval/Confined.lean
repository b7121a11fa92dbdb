import ReactiveMarkup.Proofs.Eval.Anchored
import ReactiveMarkup.Proofs.Expr.Dependencies

/-!
# What an evaluation can touch

An expression reads and writes only the declared values that it touches, also through the functions
that it makes. So two evaluations of it in worlds that agree on these values are the same: they give
the same value or the same error, and use the same declared values in the same order.

Main definitions: `Value.Confined`, `Abreast`, `Accessor.Agree`.
Main results: `Eval.expr_same`, `Eval.run_same`, `Expr.anchor_dependencies_suffice`.
-/
namespace ReactiveMarkup

open Evaluation Value

/-- A function stands in for itself if the declared values that its body touches satisfy `P`. -/
def Twins.touching (P : ValuePath → Prop) : Twins where
  bodies _ body body' exempt := body = body' ∧ (∀ p ∈ body.paths, P p) ∧ ∀ x, ¬exempt x
  fixed _ := .none

/-- The same on both sides, and related to itself. -/
def Both {α : Type} (Q : α → α → Prop) (a b : α) : Prop := a = b ∧ Q a a

theorem ResultAlike.both {α : Type} {Q : α → α → Prop} {r : Except EvalError α}
    (h : ResultAlike Q r r) : ResultAlike (Both Q) r r := by
  cases r with
  | error e => exact .error e
  | ok a =>
    cases h with
    | ok h => exact .ok ⟨rfl, h⟩

theorem ResultAlike.eq_of_both {α : Type} {Q : α → α → Prop} {r r' : Except EvalError α}
    (h : ResultAlike (Both Q) r r') : r = r' := by
  cases h with
  | ok h => rw [h.1]
  | error e => rfl

namespace Value

variable {P : ValuePath → Prop}

/-- A value whose functions touch only declared values that satisfy `P`. -/
abbrev Confined (P : ValuePath → Prop) (v : Value) : Prop := Eval.Like (.touching P) v v

mutual

theorem confined_of_isData : ∀ {v : Value}, v.isData = true → v.Confined P
  | undefined, _ => .undefined
  | null, _ => .null
  | bool b, _ => .bool b
  | number x, _ => .number x
  | string s, _ => .string s
  | array _ items, h => by
    rw [isData] at h
    exact .array rfl (confined_of_itemsData h)
  | object _ entries, h => by
    rw [isData] at h
    exact .object rfl rfl (confined_of_entriesData h).items

theorem confined_of_itemsData : ∀ {vs : List Value}, itemsData vs = true →
    List.Forall₂ (Eval.Like (.touching P)) vs vs
  | [], _ => .nil
  | v :: vs, h => by
    rw [itemsData, Bool.and_eq_true] at h
    exact .cons (confined_of_isData h.1) (confined_of_itemsData h.2)

theorem confined_of_entriesData : ∀ {es : List (String × Value)}, entriesData es = true →
    EntriesAlike Eq (.touching P) es es
  | [], _ => .nil
  | (_, v) :: es, h => by
    rw [entriesData, Bool.and_eq_true] at h
    exact .cons (confined_of_isData h.1) (confined_of_entriesData h.2)

end

end Value

/-- Locals whose functions touch only declared values that satisfy `P`. -/
def Env.Confined (P : ValuePath → Prop) (env : Env) : Prop :=
  ∀ x v, env.lookup x = some v → v.Confined P

namespace Env.Confined

variable {P : ValuePath → Prop} {env : Env}

theorem of_entriesData (h : entriesData env = true) : Env.Confined P env := by
  intro x v hv
  have hentries : EntriesAlike Eq (.touching P) env env := confined_of_entriesData h
  have hx := hentries.lookup x
  rw [hv] at hx
  cases hx with
  | some hv => exact hv

theorem insert (h : Env.Confined P env) (x : String) {v : Value} (hv : v.Confined P) :
    Env.Confined P (Keyed.insert x v env) := by
  intro y w hw
  by_cases hxy : y = x
  · rw [hxy, Keyed.lookup_insert_self] at hw
    cases hw
    exact hv
  · rw [Keyed.lookup_insert_of_ne hxy] at hw
    exact h y w hw

theorem bindParams (h : Env.Confined P env) (params : List String) {args : List Value}
    (hargs : List.Forall₂ (Eval.Like (.touching P)) args args) :
    Env.Confined P (Eval.bindParams env params args) := by
  induction params generalizing env args with
  | nil => exact h
  | cons x params ih =>
    rw [Eval.bindParams]
    cases hargs with
    | nil => exact ih (h.insert x .undefined) .nil
    | cons hv hargs => exact ih (h.insert x hv) hargs

/-- A function that captures such locals. -/
theorem arrow (h : Env.Confined P env) (stamp : Stamp) (params : List String) {body : Expr}
    (hbody : (∀ p ∈ body.paths, P p)) : (Value.function stamp params body env).Confined P := by
  refine .function rfl (fun _ => False) ⟨rfl, hbody, fun _ => id⟩
    (fun x => (env.lookup x).map fun v => (v, v)) ?_ ?_ ?_ fun x v hx => absurd hx id
  · intro x _
    cases env.lookup x <;> rfl
  · intro x _
    cases env.lookup x <;> rfl
  · intro x p hp
    obtain ⟨v, hv, rfl⟩ := Option.map_eq_some_iff.1 hp
    exact h x v hv

/-- The locals that such a function has captured. -/
theorem captured {stamp : Stamp} {params : List String} {body : Expr}
    (h : (Value.function stamp params body env).Confined P) :
    (∀ p ∈ body.paths, P p) ∧ Env.Confined P env := by
  cases h with
  | function stamps exempt code locals left right shared fixed =>
    obtain ⟨-, hbody, hex⟩ := code
    refine ⟨hbody, fun x v hv => ?_⟩
    have hl := left x (hex x)
    have hr := right x (hex x)
    rw [hv] at hl hr
    obtain ⟨⟨a, b⟩, hp, rfl⟩ := Option.map_eq_some_iff.1 hl.symm
    rw [hp] at hr
    cases hr
    exact shared x _ hp

end Env.Confined

section

variable {σ τ : Type} {P : ValuePath → Prop} {J : σ → τ → Prop}

/-- Frames with the same locals, all of them confined, and the same stamps, in related worlds. -/
structure Abreast (P : ValuePath → Prop) (J : σ → τ → Prop) (f : Frame σ) (g : Frame τ) : Prop where
  env : g.env = f.env
  locals : Env.Confined P f.env
  stamps : f.stamps = g.stamps
  world : J f.world g.world

/-- From related worlds, both ways to reach the declared values that satisfy `P` do the same with
them. -/
structure Accessor.Agree (P : ValuePath → Prop) (J : σ → τ → Prop) (acc : Accessor σ)
    (acc' : Accessor τ) : Prop where
  read : ∀ p, P p → Together (Abreast P J) (Both (Eval.Like (.touching P))) (acc.read p) (acc'.read p)
  write : ∀ p, P p → ∀ v, v.Confined P →
    Together (Abreast P J) (fun _ _ => True) (acc.write p v) (acc'.write p v)

namespace Abreast

theorem stampsAgree : Eval.StampsAgree (Abreast P J) :=
  ⟨fun h => h.stamps, fun h _ => ⟨h.env, h.locals, rfl, h.world⟩⟩

theorem env_same : Together (Abreast P J) (fun E E' => E = E' ∧ Env.Confined P E)
    Evaluation.env Evaluation.env :=
  fun _ _ h => ⟨.ok ⟨h.env.symm, h.locals⟩, h⟩

theorem define_same (x : String) {v : Value} (hv : v.Confined P) :
    Together (Abreast P J) (fun _ _ => True) (Evaluation.define x v) (Evaluation.define x v) := by
  intro f g h
  refine ⟨.ok trivial, congrArg (Keyed.insert x v) h.env, h.locals.insert x hv, h.stamps, h.world⟩

/-- A result that takes stamps, and that the stamps and what it is made of determine. -/
theorem stamped_same {α : Type} {Q : α → α → Prop} {r : Stamp → Except EvalError (α × Stamp)}
    (h : ∀ n, StampedAlike Eq Q n n (r n) (r n)) :
    Together (Abreast P J) (Both Q) (.stamped r) (.stamped r) := by
  intro f g hfg
  obtain ⟨hr, hI⟩ := Eval.stamped_together stampsAgree h f g hfg
  refine ⟨?_, hI⟩
  have heq : ((Evaluation.stamped r : Evaluation σ α).run f).1 =
      ((Evaluation.stamped r : Evaluation τ α).run g).1 := by
    simp only [Evaluation.stamped, ← hfg.stamps]
    cases r f.stamps <;> rfl
  rw [← heq] at hr ⊢
  exact hr.both

end Abreast

end

namespace Eval

variable {σ τ : Type} {P : ValuePath → Prop} {J : σ → τ → Prop} {acc : Accessor σ}
  {acc' : Accessor τ} {call : Call σ} {call' : Call τ}

/-- Calling a confined function with confined arguments is the same in both runs. -/
def CallsSame (P : ValuePath → Prop) (J : σ → τ → Prop) (call : Call σ) (call' : Call τ) : Prop :=
  ∀ {f args}, f.Confined P → List.Forall₂ (Like (.touching P)) args args →
    Together (Abreast P J) (Both (Like (.touching P))) (call f args) (call' f args)

theorem iteration_same (hcall : CallsSame P J call call') (m : Iteration) {f : Value}
    (hf : f.Confined P) {items done : List Value}
    (hitems : List.Forall₂ (Like (.touching P)) items items)
    (hdone : List.Forall₂ (Like (.touching P)) done done) (i : Nat) :
    Together (Abreast P J) (Both (Like (.touching P))) (m.run call f done i items)
      (m.run call' f done i items) := by
  induction items generalizing done i with
  | nil =>
    rw [Iteration.run, Iteration.run]
    cases m with
    | map | filter => exact Abreast.stamped_same fun n => Builtin.fresh_alike hdone
    | find => exact .pure ⟨rfl, .undefined⟩
    | findIndex => exact .pure ⟨rfl, .number _⟩
    | some | every => exact .pure ⟨rfl, .bool _⟩
  | cons v items ih =>
    cases hitems with
    | cons hv hitems =>
      rw [Iteration.run, Iteration.run]
      refine (hcall hf (.cons hv (.cons (.number _) .nil))).bind ?_
      rintro r _ ⟨rfl, hr⟩
      have hd := decided?_alike m i hv hr
      generalize m.decided? i v r = o at hd ⊢
      cases o with
      | some w =>
        cases hd with
        | some h => exact .pure ⟨rfl, h⟩
      | none => exact ih hitems (List.rel_append hdone (collected_alike m hv hr)) (i + 1)

theorem callMethod_same (hcall : CallsSame P J call call') (name : String) {v : Value}
    (hv : v.Confined P) {args : List Value}
    (hargs : List.Forall₂ (Like (.touching P)) args args) :
    Together (Abreast P J) (Both (Like (.touching P))) (callMethod call v name args)
      (callMethod call' v name args) := by
  have hb : Together (Abreast P J) (Both (Like (.touching P)))
      (.stamped fun next => Builtin.callMethod name next v args)
      (.stamped fun next => Builtin.callMethod name next v args) :=
    Abreast.stamped_same fun n => Builtin.callMethod_alike biUnique_eq name hv hargs
  cases v with
  | undefined => exact .fail _
  | null => exact .fail _
  | array stamp items =>
    rw [callMethod, callMethod]
    cases Iteration.ofName? name with
    | some m =>
      cases hv with
      | array _ hitems => exact iteration_same hcall m (Builtin.arg_alike hargs 0) hitems .nil 0
    | none => exact hb
  | object stamp entries =>
    rw [callMethod, callMethod]
    cases hf : entries.lookup name with
    | some f =>
      cases hv with
      | object _ keys hitems =>
        have h := EntriesAlike.lookup ⟨keys, hitems⟩ name
        rw [hf] at h
        cases h with
        | some h => exact hcall h hargs
    | none => exact hb
  | _ => exact hb

/-! ## Assignments -/

/-- A place in a local or in a declared value that satisfies `P`, with confined keys. -/
structure Place.Confined (P : ValuePath → Prop) (p : Place Root) : Prop where
  root : ∀ path, p.root = .path path → P path
  keys : List.Forall₂ (Like (.touching P)) p.keys p.keys

theorem name_same (x : String) : Together (Abreast P J) (Both (Like (.touching P)))
    (name x : Evaluation σ Value) (name x : Evaluation τ Value) := by
  refine Abreast.env_same.bind ?_
  rintro E _ ⟨rfl, hE⟩
  cases hx : E.lookup x with
  | some v => exact .pure ⟨rfl, hE x v hx⟩
  | none =>
    dsimp only
    split
    · exact .pure ⟨rfl, .undefined⟩
    · exact .fail _

theorem readRoot_same (hacc : Accessor.Agree P J acc acc') {r : Root}
    (h : ∀ path, r = .path path → P path) :
    Together (Abreast P J) (Both (Like (.touching P))) (readRoot acc r) (readRoot acc' r) := by
  cases r with
  | path path => exact hacc.read path (h path rfl)
  | name x =>
    refine Abreast.env_same.bind ?_
    rintro E _ ⟨rfl, hE⟩
    cases hx : E.lookup x with
    | some v => exact .pure ⟨rfl, hE x v hx⟩
    | none => exact .fail _

theorem writeRoot_same (hacc : Accessor.Agree P J acc acc') {r : Root}
    (h : ∀ path, r = .path path → P path) {v : Value} (hv : v.Confined P) :
    Together (Abreast P J) (fun _ _ => True) (writeRoot acc r v) (writeRoot acc' r v) := by
  cases r with
  | path path => exact hacc.write path (h path rfl) v hv
  | name x => exact Abreast.define_same x hv

theorem assign_same (hacc : Accessor.Agree P J acc acc') {p : Place Root}
    (hp : Place.Confined P p) {f : Value → Value}
    (hf : ∀ v w, Like (.touching P) v w → Like (.touching P) (f v) (f w)) :
    Together (Abreast P J) (Both (Like (.touching P))) (assign acc p f) (assign acc' p f) := by
  refine (readRoot_same hacc hp.root).bind ?_
  rintro v _ ⟨rfl, hv⟩
  refine Together.bind (Q := Both fun r r' => Like (.touching P) r.1 r'.1 ∧
    Like (.touching P) r.2 r'.2) ?_ ?_
  · refine Abreast.stamped_same fun n => ?_
    refine (hv.updateAt hf hp.keys fun _ _ => rfl).bind fun r r' hr => ?_
    exact .ok ⟨p.keys.length, hr.2.2.1, hr.2.2.2, fun _ => ⟨hr.1, hr.2.1⟩⟩
  · rintro ⟨root, stored⟩ _ ⟨rfl, hroot, hstored⟩
    refine (writeRoot_same hacc hp.root hroot).bind fun _ _ _ => ?_
    exact .pure ⟨rfl, hstored⟩

/-! ## Expressions -/

mutual

/-- An expression that touches only values that satisfy `P` does the same in both runs. -/
theorem expr_same (hacc : Accessor.Agree P J acc acc') (hcall : CallsSame P J call call')
    (e : Expr) (he : ∀ p ∈ e.paths, P p) :
    Together (Abreast P J) (Both (Like (.touching P))) (expr acc call e) (expr acc' call' e) := by
  have hpart {c : Expr} (hc : c ∈ e.children) : ∀ p ∈ c.paths, P p :=
    fun q hq => he q (Expr.paths_subset_of_mem_children hc hq)
  cases e with
  | literal range v =>
    rw [expr, expr]
    exact .pure ⟨rfl, confined_of_isData (by cases v <;> rfl)⟩
  | ident range x =>
    rw [expr, expr]
    exact name_same x
  | get range path =>
    rw [expr, expr]
    exact hacc.read path (he _ (Expr.mem_paths_get.2 rfl))
  | set range path value =>
    rw [expr, expr]
    refine (expr_same hacc hcall value (hpart (by simp [Expr.children]))).bind ?_
    rintro v _ ⟨rfl, hv⟩
    refine (hacc.write path (he _ (Expr.mem_paths_set.2 (.inl rfl))) v hv).bind fun _ _ _ => ?_
    exact .pure ⟨rfl, hv⟩
  | template range parts =>
    rw [expr, expr]
    refine (exprs_same hacc hcall parts fun d hd => hpart hd).bind ?_
    rintro vs _ ⟨rfl, -⟩
    exact .pure ⟨rfl, .string _⟩
  | member range b x =>
    rw [expr, expr]
    refine Abreast.env_same.bind ?_
    rintro E _ ⟨rfl, -⟩
    cases global? E b with
    | some global => exact .pure ⟨rfl, confined_of_isData (globalProperty_isData global x)⟩
    | none =>
      refine (expr_same hacc hcall b (hpart (by simp [Expr.children]))).bind ?_
      rintro v _ ⟨rfl, hv⟩
      exact .ofExcept (hv.property x).both
  | index range b key =>
    rw [expr, expr]
    refine (expr_same hacc hcall b (hpart (by simp [Expr.children]))).bind ?_
    rintro v _ ⟨rfl, hv⟩
    refine (expr_same hacc hcall key (hpart (by simp [Expr.children]))).bind ?_
    rintro k _ ⟨rfl, hk⟩
    exact .ofExcept (hv.index hk).both
  | call range callee args =>
    have hargs := exprs_same hacc hcall args fun d hd => hpart (List.mem_cons_of_mem _ hd)
    have hcallee : ∀ p ∈ callee.paths, P p := hpart (List.mem_cons_self ..)
    have hother : (∀ r b x, callee ≠ .member r b x) →
        Together (Abreast P J) (Both (Like (.touching P))) (expr acc call (.call range callee args))
          (expr acc' call' (.call range callee args)) := by
      intro hne
      rw [expr_call _ _ hne, expr_call _ _ hne]
      refine Abreast.env_same.bind ?_
      rintro E _ ⟨rfl, -⟩
      cases global? E callee with
      | some global =>
        refine hargs.bind ?_
        rintro vs _ ⟨rfl, hvs⟩
        exact Abreast.stamped_same fun n => Builtin.callFunction_alike _ hvs
      | none =>
        refine (expr_same hacc hcall callee hcallee).bind ?_
        rintro f _ ⟨rfl, hf⟩
        refine hargs.bind ?_
        rintro vs _ ⟨rfl, hvs⟩
        exact hcall hf hvs
    cases callee with
    | member r b x =>
      rw [expr, expr]
      refine Abreast.env_same.bind ?_
      rintro E _ ⟨rfl, -⟩
      cases global? E b with
      | some global =>
        refine hargs.bind ?_
        rintro vs _ ⟨rfl, hvs⟩
        exact Abreast.stamped_same fun n => Builtin.callFunction_alike _ hvs
      | none =>
        have hb : ∀ p ∈ b.paths, P p := fun q hq =>
          hcallee q (Expr.paths_subset_of_mem_children (e := .member r b x) (by simp [Expr.children]) hq)
        refine (expr_same hacc hcall b hb).bind ?_
        rintro v _ ⟨rfl, hv⟩
        refine hargs.bind ?_
        rintro vs _ ⟨rfl, hvs⟩
        exact callMethod_same hcall x hv hvs
    | _ => exact hother fun _ _ _ => Expr.noConfusion
  | unary range op operand =>
    have hoperand : Together (Abreast P J) (Both (Like (.touching P)))
        (expr acc call operand >>= fun v => Pure.pure (op.apply v))
        (expr acc' call' operand >>= fun v => Pure.pure (op.apply v)) := by
      refine (expr_same hacc hcall operand (hpart (by simp [Expr.children]))).bind ?_
      rintro v _ ⟨rfl, hv⟩
      exact .pure ⟨rfl, hv.applyUnary op⟩
    rw [expr, expr]
    refine Abreast.env_same.bind ?_
    rintro E _ ⟨rfl, -⟩
    cases op with
    | typeof =>
      cases ht : typeofGlobal? E operand with
      | some v => exact .pure ⟨rfl, confined_of_isData (typeofGlobal?_isData ht)⟩
      | none => exact hoperand
    | _ => exact hoperand
  | binary range op left right =>
    rw [expr, expr]
    refine (expr_same hacc hcall left (hpart (by simp [Expr.children]))).bind ?_
    rintro a _ ⟨rfl, ha⟩
    have hs := ha.shortcut? op
    generalize op.shortcut? a = o at hs ⊢
    cases o with
    | some u =>
      cases hs with
      | some hu => exact .pure ⟨rfl, hu⟩
    | none =>
      refine (expr_same hacc hcall right (hpart (by simp [Expr.children]))).bind ?_
      rintro b _ ⟨rfl, hb⟩
      refine .pure ⟨rfl, ?_⟩
      split
      · exact hb
      · exact Alike.applyBinary biUnique_eq op ha hb
  | conditional range test yes no =>
    rw [expr, expr]
    refine (expr_same hacc hcall test (hpart (by simp [Expr.children]))).bind ?_
    rintro t _ ⟨rfl, -⟩
    split
    · exact expr_same hacc hcall yes (hpart (by simp [Expr.children]))
    · exact expr_same hacc hcall no (hpart (by simp [Expr.children]))
  | assign range op target value =>
    rw [expr, expr]
    refine (expr_same hacc hcall value (hpart (by simp [Expr.children]))).bind ?_
    rintro v _ ⟨rfl, hv⟩
    refine (place_same hacc hcall target (hpart (by simp [Expr.children]))).bind ?_
    rintro p _ ⟨rfl, hp⟩
    refine assign_same hacc hp fun u w hu => ?_
    cases op with
    | some op => exact Alike.applyBinary biUnique_eq op hu hv
    | none => exact hv
  | update range op before target =>
    rw [expr, expr]
    refine (place_same hacc hcall target (hpart (by simp [Expr.children]))).bind ?_
    rintro p _ ⟨rfl, hp⟩
    have hstep : ∀ u w, Like (.touching P) u w → Like (.touching P)
        (.number (u.toNumber + op.delta)) (.number (w.toNumber + op.delta)) := by
      intro u w hu
      rw [hu.toNumber_eq]
      exact .number _
    refine (assign_same hacc hp hstep).bind ?_
    rintro new _ ⟨rfl, hnew⟩
    refine .pure ⟨rfl, ?_⟩
    split
    · exact hnew
    · exact .number _
  | array range items =>
    rw [expr, expr]
    refine (exprs_same hacc hcall items fun d hd => hpart hd).bind ?_
    rintro vs _ ⟨rfl, hvs⟩
    exact Abreast.stamped_same fun n => Builtin.fresh_alike hvs
  | object range entries =>
    rw [expr, expr]
    refine (entryValues_same hacc hcall entries fun d hd => hpart (List.mem_map_of_mem hd)).bind ?_
    rintro vs _ ⟨rfl, hvs⟩
    refine Abreast.stamped_same fun n => ?_
    exact .ok ⟨1, rfl, rfl, fun _ => .object rfl rfl hvs.ofList.items⟩
  | arrow range params body =>
    rw [expr, expr]
    refine Abreast.env_same.bind ?_
    rintro E _ ⟨rfl, hE⟩
    refine Abreast.stamped_same fun n => .ok ⟨1, rfl, rfl, fun _ => ?_⟩
    exact hE.arrow n params (hpart (by simp [Expr.children]))
  | letIn range x value =>
    rw [expr, expr]
    refine (expr_same hacc hcall value (hpart (by simp [Expr.children]))).bind ?_
    rintro v _ ⟨rfl, hv⟩
    exact (Abreast.define_same x hv).bind fun _ _ _ => .pure ⟨rfl, .undefined⟩
  | sequence range items =>
    rw [expr, expr]
    refine (exprs_same hacc hcall items fun d hd => hpart hd).bind ?_
    rintro vs _ ⟨rfl, hvs⟩
    exact .pure ⟨rfl, getLast_like hvs⟩

/-- A target that touches only values that satisfy `P` is the same place in both runs. -/
theorem place_same (hacc : Accessor.Agree P J acc acc') (hcall : CallsSame P J call call')
    (e : Expr) (he : ∀ p ∈ e.paths, P p) :
    Together (Abreast P J) (fun p q => p = q ∧ Place.Confined P p) (place acc call e)
      (place acc' call' e) := by
  have hpart {c : Expr} (hc : c ∈ e.children) : ∀ p ∈ c.paths, P p :=
    fun q hq => he q (Expr.paths_subset_of_mem_children hc hq)
  by_cases hp : isPlace e = false
  · rw [place_eq_fail _ _ hp, place_eq_fail _ _ hp]
    exact .fail _
  cases e with
  | ident range x =>
    rw [place, place]
    exact .pure ⟨rfl, fun _ h => Root.noConfusion h, .nil⟩
  | get range path =>
    rw [place, place]
    refine .pure ⟨rfl, fun q hq => ?_, .nil⟩
    cases hq
    exact he _ (Expr.mem_paths_get.2 rfl)
  | member range b x =>
    rw [place, place]
    refine (place_same hacc hcall b (hpart (by simp [Expr.children]))).bind ?_
    rintro p _ ⟨rfl, hp⟩
    exact .pure ⟨rfl, hp.root, List.rel_append hp.keys (.cons (.string x) .nil)⟩
  | index range b key =>
    rw [place, place]
    refine (expr_same hacc hcall key (hpart (by simp [Expr.children]))).bind ?_
    rintro k _ ⟨rfl, hk⟩
    refine (place_same hacc hcall b (hpart (by simp [Expr.children]))).bind ?_
    rintro p _ ⟨rfl, hp⟩
    exact .pure ⟨rfl, hp.root, List.rel_append hp.keys (.cons hk .nil)⟩
  | _ => exact absurd rfl hp

theorem exprs_same (hacc : Accessor.Agree P J acc acc') (hcall : CallsSame P J call call')
    (es : List Expr) (h : ∀ e ∈ es, ∀ p ∈ e.paths, P p) :
    Together (Abreast P J) (Both (List.Forall₂ (Like (.touching P)))) (exprs acc call es)
      (exprs acc' call' es) := by
  cases es with
  | nil =>
    rw [exprs, exprs]
    exact .pure ⟨rfl, .nil⟩
  | cons e es =>
    rw [exprs, exprs]
    refine (expr_same hacc hcall e (h e (List.mem_cons_self ..))).bind ?_
    rintro v _ ⟨rfl, hv⟩
    refine (exprs_same hacc hcall es fun d hd => h d (List.mem_cons_of_mem _ hd)).bind ?_
    rintro vs _ ⟨rfl, hvs⟩
    exact .pure ⟨rfl, .cons hv hvs⟩

theorem entryValues_same (hacc : Accessor.Agree P J acc acc') (hcall : CallsSame P J call call')
    (es : List (String × Expr)) (h : ∀ e ∈ es, ∀ p ∈ e.2.paths, P p) :
    Together (Abreast P J) (Both (EntriesAlike Eq (.touching P))) (entryValues acc call es)
      (entryValues acc' call' es) := by
  match es with
  | [] =>
    rw [entryValues, entryValues]
    exact .pure ⟨rfl, .nil⟩
  | (key, e) :: es =>
    rw [entryValues, entryValues]
    refine (expr_same hacc hcall e (h _ (List.mem_cons_self ..))).bind ?_
    rintro v _ ⟨rfl, hv⟩
    refine (entryValues_same hacc hcall es fun d hd => h d (List.mem_cons_of_mem _ hd)).bind ?_
    rintro vs _ ⟨rfl, hvs⟩
    exact .pure ⟨rfl, .cons hv hvs⟩

end

/-- Calls are the same, however deep they may still be nested. -/
theorem call_same (hacc : Accessor.Agree P J acc acc') (limit left : Nat) :
    CallsSame P J (Eval.call acc limit left) (Eval.call acc' limit left) := by
  induction left with
  | zero =>
    intro f args hf _
    cases f with
    | function => exact .fail _
    | _ => exact .fail _
  | succ left ih =>
    intro f args hf hargs
    cases f with
    | function stamp params body env =>
      obtain ⟨hbody, henv⟩ := Env.Confined.captured hf
      intro F G hI
      have hE := henv.bindParams params hargs
      obtain ⟨hr, hI'⟩ := expr_same hacc ih body hbody
        { F with env := bindParams env params args } { G with env := bindParams env params args }
        ⟨rfl, hE, hI.stamps, hI.world⟩
      exact ⟨hr, hI.env, hI.locals, hI'.stamps, hI'.world⟩
    | _ => exact .fail _

/-- Evaluating an expression that touches only values that satisfy `P` is the same in both worlds. -/
theorem run_same (hacc : Accessor.Agree P J acc acc') (limit : Nat) {e : Expr} (he : ∀ p ∈ e.paths, P p) :
    Together (Abreast P J) (Both (Like (.touching P))) (run acc limit e) (run acc' limit e) :=
  expr_same hacc (call_same hacc limit limit) e he

end Eval

/-! ## All declared values -/

namespace Value

variable {P : ValuePath → Prop}

mutual

/-- Where all declared values satisfy `P`, all values are confined. -/
theorem confined_of_forall (hP : ∀ p, P p) : ∀ v : Value, v.Confined P
  | undefined => .undefined
  | null => .null
  | bool b => .bool b
  | number x => .number x
  | string s => .string s
  | array _ items => .array rfl (confined_items_of_forall hP items)
  | object _ entries => .object rfl rfl (confined_entries_of_forall hP entries)
  | function stamp params _ env =>
    Env.Confined.arrow (confined_lookup_of_forall hP env) stamp params fun p _ => hP p

theorem confined_items_of_forall (hP : ∀ p, P p) :
    ∀ vs : List Value, List.Forall₂ (Eval.Like (.touching P)) vs vs
  | [] => .nil
  | v :: vs => .cons (confined_of_forall hP v) (confined_items_of_forall hP vs)

theorem confined_entries_of_forall (hP : ∀ p, P p) : ∀ es : List (String × Value),
    List.Forall₂ (Eval.Like (.touching P)) (es.map Prod.snd) (es.map Prod.snd)
  | [] => .nil
  | (_, v) :: es => .cons (confined_of_forall hP v) (confined_entries_of_forall hP es)

theorem confined_lookup_of_forall (hP : ∀ p, P p) : ∀ es : List (String × Value), Env.Confined P es
  | [], _, _, hv => by cases hv
  | (_, w) :: es, x, v, hv => by
    rw [List.lookup_cons] at hv
    split at hv
    · cases hv
      exact confined_of_forall hP w
    · exact confined_lookup_of_forall hP es x v hv

end

end Value

/-- Both ways to reach declared values do the same in worlds that satisfy `I`, and keep that. -/
structure Accessor.SameOn {σ : Type} (I : σ → Prop) (acc acc' : Accessor σ) : Prop where
  get : ∀ path next s, I s →
    acc.get path (next, s) = acc'.get path (next, s) ∧ I (acc.get path (next, s)).2.2
  set : ∀ path v next s, I s →
    acc.set path v (next, s) = acc'.set path v (next, s) ∧ I (acc.set path v (next, s)).2.2

/-- Frames abreast in one and the same world are the same. -/
theorem Abreast.eq {σ : Type} {P : ValuePath → Prop} {I : σ → Prop} {f g : Frame σ}
    (h : Abreast P (fun s t => s = t ∧ I s) f g) : g = f := by
  obtain ⟨env, stamps, world⟩ := f
  obtain ⟨env', stamps', world'⟩ := g
  obtain rfl : env' = env := h.env
  obtain rfl : stamps = stamps' := h.stamps
  obtain rfl : world = world' := h.world.1
  rfl

/-- An evaluation in a world that satisfies `I` is the same whichever of two ways declared values
are reached, if both ways are the same there, and it keeps `I`. -/
theorem Eval.run_sameOn {σ : Type} {I : σ → Prop} {acc acc' : Accessor σ}
    (h : Accessor.SameOn I acc acc') (limit : Nat) (e : Expr) {f : Frame σ} (hf : I f.world) :
    (run acc limit e).run f = (run acc' limit e).run f ∧ I ((run acc limit e).run f).2.world := by
  have hall (v : Value) : v.Confined fun _ => True := confined_of_forall (fun _ => trivial) v
  have hacc : Accessor.Agree (fun _ => True) (fun s t => s = t ∧ I s) acc acc' := by
    refine ⟨fun p _ _ g hI => ?_, fun p _ v _ _ g hI => ?_⟩
    · obtain rfl := hI.eq
      obtain ⟨heq, hI'⟩ := h.get p g.stamps g.world hI.world.2
      simp only [Accessor.read, ← heq]
      refine ⟨?_, rfl, hI.locals, rfl, rfl, hI'⟩
      cases (acc.get p (g.stamps, g.world)).1 with
      | ok v => exact .ok ⟨rfl, hall v⟩
      | error e => exact .error e
    · obtain rfl := hI.eq
      obtain ⟨heq, hI'⟩ := h.set p v g.stamps g.world hI.world.2
      simp only [Accessor.write, ← heq]
      refine ⟨?_, rfl, hI.locals, rfl, rfl, hI'⟩
      cases (acc.set p v (g.stamps, g.world)).1 with
      | ok v => exact .ok trivial
      | error e => exact .error e
  have hI : Abreast (fun _ => True) (fun s t => s = t ∧ I s) f f :=
    ⟨rfl, confined_lookup_of_forall (fun _ => trivial) f.env, rfl, rfl, hf⟩
  obtain ⟨hresult, hI'⟩ := run_same hacc limit (fun _ _ => trivial) f f hI
  exact ⟨Prod.ext hresult.eq_of_both hI'.eq.symm, hI'.world.2⟩

/-! ## Stores -/

/-- The text of the path that is used. -/
def StoreEvent.path : StoreEvent → String
  | get path | set path _ => path

/-- Stores that hold the same confined values at the paths of a list, and have been used in the same
way since their logs were `base` and `base'`: at these paths only. -/
structure Store.Level (ps : List ValuePath) (base base' : List StoreEvent) (s t : Store) : Prop where
  held : ∀ p ∈ ps, s.values.lookup p.toText = t.values.lookup p.toText
  confined : ∀ p ∈ ps, ∀ v, s.values.lookup p.toText = some v → v.Confined (· ∈ ps)
  log : ∃ events, s.log = base ++ events ∧ t.log = base' ++ events ∧
    ∀ event ∈ events, ∃ p ∈ ps, event.path = p.toText

namespace Store.Level

variable {ps : List ValuePath} {base base' : List StoreEvent} {s t : Store}

/-- One more use of both stores. -/
theorem use (h : Level ps base base' s t) {p : ValuePath} (hp : p ∈ ps) (event : StoreEvent)
    (hevent : event.path = p.toText) :
    Level ps base base' { s with log := s.log ++ [event] } { t with log := t.log ++ [event] } := by
  obtain ⟨events, hs, ht, hevents⟩ := h.log
  refine ⟨h.held, h.confined, events ++ [event], ?_, ?_, fun e he => ?_⟩
  · rw [hs, List.append_assoc]
  · rw [ht, List.append_assoc]
  · rcases List.mem_append.1 he with he | he
    · exact hevents e he
    · rw [List.mem_singleton.1 he]
      exact ⟨p, hp, hevent⟩

/-- One value set in both stores. -/
theorem insert (h : Level ps base base' s t) (text : String) {v : Value} (hv : v.Confined (· ∈ ps)) :
    Level ps base base' { s with values := Keyed.insert text v s.values }
      { t with values := Keyed.insert text v t.values } := by
  refine ⟨fun q hq => ?_, fun q hq w hw => ?_, h.log⟩
  · by_cases hqt : q.toText = text
    · rw [hqt, Keyed.lookup_insert_self, Keyed.lookup_insert_self]
    · rw [Keyed.lookup_insert_of_ne hqt, Keyed.lookup_insert_of_ne hqt]
      exact h.held q hq
  · by_cases hqt : q.toText = text
    · rw [hqt, Keyed.lookup_insert_self] at hw
      cases hw
      exact hv
    · rw [Keyed.lookup_insert_of_ne hqt] at hw
      exact h.confined q hq w hw

/-- Reading and writing in such stores is the same. -/
theorem agree (ps : List ValuePath) (base base' : List StoreEvent) :
    Accessor.Agree (· ∈ ps) (Level ps base base') Store.accessor Store.accessor where
  read p hp f g hI := by
    have hused := hI.world.use hp (.get p.toText) rfl
    have hheld := hI.world.held p hp
    simp only [Accessor.read, Store.accessor, ← hheld]
    cases hv : f.world.values.lookup p.toText with
    | some v =>
      exact ⟨.ok ⟨rfl, hI.world.confined p hp v hv⟩, hI.env, hI.locals, hI.stamps, hused⟩
    | none => exact ⟨.error _, hI.env, hI.locals, hI.stamps, hused⟩
  write p hp v hv f g hI :=
    ⟨.ok trivial, hI.env, hI.locals, hI.stamps,
      (hI.world.use hp (.set p.toText v) rfl).insert p.toText hv⟩

end Store.Level

namespace Expr

/-- What anchoring an expression from the parser notes is what its evaluation can touch. It notes
the declared values in the anchored expression, each of them once. Two evaluations of the anchored
expression in stores of data that agree on these values, with the same data as locals, give the same
value or the same error, and read and write the same, always at the paths of these values. -/
theorem anchor_dependencies_suffice {base : Position} {source : String} {e : Expr}
    (hparse : parse base source = .ok e) {r : Resolver} {t : Anchored} (ht : e.anchor r = .ok t) :
    t.notes.dependencies.Nodup ∧ (∀ p, p ∈ t.notes.dependencies ↔ p ∈ t.expr.paths) ∧
      ∀ store store' : Store,
        (∀ p ∈ t.notes.dependencies,
          store.values.lookup p.toText = store'.values.lookup p.toText) →
        (∀ p ∈ t.notes.dependencies, ∀ v, store.values.lookup p.toText = some v → v.isData = true) →
        ∀ locals : Env, entriesData locals = true → ∀ (limit : Nat) (next : Stamp),
          let here := (Eval.run Store.accessor limit t.expr).run ⟨locals, next, store⟩
          let there := (Eval.run Store.accessor limit t.expr).run ⟨locals, next, store'⟩
          here.1 = there.1 ∧ ∃ events, here.2.world.log = store.log ++ events ∧
            there.2.world.log = store'.log ++ events ∧
            ∀ event ∈ events, ∃ p ∈ t.notes.dependencies, event.path = p.toText := by
  obtain ⟨hnodup, hmem, -⟩ := anchor_dependencies (parse_isSource hparse) ht
  refine ⟨hnodup, hmem, fun store store' hagree hdata locals hlocals limit next => ?_⟩
  have hpaths : ∀ p ∈ t.expr.paths, p ∈ t.notes.dependencies := fun p hp => (hmem p).2 hp
  have hlevel : Store.Level t.notes.dependencies store.log store'.log store store' :=
    ⟨hagree, fun p hp v hv => confined_of_isData (hdata p hp v hv), [], by simp, by simp, by simp⟩
  have hI : Abreast (· ∈ t.notes.dependencies) (Store.Level t.notes.dependencies store.log store'.log)
      ⟨locals, next, store⟩ ⟨locals, next, store'⟩ :=
    ⟨rfl, .of_entriesData hlocals, rfl, hlevel⟩
  obtain ⟨hresult, hI'⟩ := Eval.run_same (Store.Level.agree _ _ _) limit hpaths _ _ hI
  exact ⟨hresult.eq_of_both, hI'.world.log⟩

/-- A function that is called on the items of one declared value reads another. A third one, which
differs in both stores, does not matter. -/
theorem anchor_dependencies_suffice_callback :
    let r : Resolver :=
      ⟨fun x => if x = "xs" ∨ x = "y" then .value 0 else .unresolved, fun _ _ => none, fun _ _ => false⟩
    let xs : Value := .array 3 [.number 1]
    let store : Store := ⟨[("0.xs", xs), ("0.y", .number 2), ("0.z", .null)], []⟩
    let store' : Store := ⟨[("0.xs", xs), ("0.y", .number 2), ("0.z", .bool true)], [.get "0.z"]⟩
    ∃ e t, parse .start "xs.map(x => y = x)" = .ok e ∧ e.anchor r = .ok t ∧
      t.notes.dependencies = [⟨0, [], "xs"⟩, ⟨0, [], "y"⟩] ∧
      let here := (Eval.run Store.accessor 128 t.expr).run ⟨[], 7, store⟩
      let there := (Eval.run Store.accessor 128 t.expr).run ⟨[], 7, store'⟩
      here.1 = there.1 ∧ ∃ events, here.2.world.log = store.log ++ events ∧
        there.2.world.log = store'.log ++ events ∧
        ∀ event ∈ events, ∃ p ∈ t.notes.dependencies, event.path = p.toText := by
  intro r xs store store'
  let e : Expr := .call ⟨⟨1, 1⟩, ⟨1, 19⟩⟩
    (.member ⟨⟨1, 1⟩, ⟨1, 7⟩⟩ (.ident ⟨⟨1, 1⟩, ⟨1, 3⟩⟩ "xs") "map")
    [.arrow ⟨⟨1, 8⟩, ⟨1, 18⟩⟩ ["x"] (.assign ⟨⟨1, 13⟩, ⟨1, 18⟩⟩ none
      (.ident ⟨⟨1, 13⟩, ⟨1, 14⟩⟩ "y") (.ident ⟨⟨1, 17⟩, ⟨1, 18⟩⟩ "x"))]
  let t : Anchored := (e.anchor r).toOption.get rfl
  have hparse : parse .start "xs.map(x => y = x)" = .ok e := by with_unfolding_all rfl
  have ht : e.anchor r = .ok t := by with_unfolding_all rfl
  have hdependencies : t.notes.dependencies = [⟨0, [], "xs"⟩, ⟨0, [], "y"⟩] := by
    with_unfolding_all rfl
  refine ⟨e, t, hparse, ht, hdependencies, ?_⟩
  refine (anchor_dependencies_suffice hparse ht).2.2 store store' ?_ ?_ [] rfl 128 7
  · rw [hdependencies]
    intro p hp
    rcases List.mem_pair.1 hp with rfl | rfl <;> rfl
  · rw [hdependencies]
    intro p hp v hv
    rcases List.mem_pair.1 hp with rfl | rfl
    all_goals
      cases hv
      rfl

end Expr

end ReactiveMarkup
