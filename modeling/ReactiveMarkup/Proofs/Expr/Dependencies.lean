import Mathlib.Data.List.Nodup
import ReactiveMarkup.Proofs.Expr.Nodes

/-!
# What anchoring notes

Anchoring notes each declared value that it puts into an expression once, and it puts in no other
ones than those that names and members of the expression denote.

Main definitions: `Expr.paths`, `Notes.Took`, `Anchoring.Gains`.
Main results: `Expr.anchor_dependencies`.
-/
namespace ReactiveMarkup

namespace Expr

/-- The declared value that a node stands for. -/
def path? : Expr → Option ValuePath
  | get _ path | set _ path _ => some path
  | _ => none

/-- The declared values that an expression touches. -/
def paths (e : Expr) : List ValuePath := e.nodes.filterMap path?

theorem paths_eq (e : Expr) : e.paths = e.path?.toList ++ e.children.flatMap paths := by
  rw [paths, nodes_eq, List.filterMap_cons, List.filterMap_flatMap]
  cases e.path? <;> rfl

/-- An expression touches what it stands for itself, and what its parts touch. -/
theorem mem_paths {e : Expr} {q : ValuePath} :
    q ∈ e.paths ↔ e.path? = some q ∨ ∃ c ∈ e.children, q ∈ c.paths := by
  rw [paths_eq, List.mem_append, Option.mem_toList, List.mem_flatMap]

theorem mem_paths_get {range : Range} {path q : ValuePath} : q ∈ (get range path).paths ↔ q = path := by
  simp [mem_paths (e := get range path), path?, children, eq_comm]

theorem mem_paths_set {range : Range} {path q : ValuePath} {value : Expr} :
    q ∈ (set range path value).paths ↔ q = path ∨ q ∈ value.paths := by
  simp [mem_paths (e := set range path value), path?, children, eq_comm]

theorem mem_paths_binary {range : Range} {op : BinaryOp} {left right : Expr} {q : ValuePath} :
    q ∈ (binary range op left right).paths ↔ q ∈ left.paths ∨ q ∈ right.paths := by
  simp [mem_paths (e := binary range op left right), path?, children]

theorem paths_subset_of_mem_children {c e : Expr} (h : c ∈ e.children) : c.paths ⊆ e.paths :=
  fun _ hq => mem_paths.2 (.inr ⟨c, h, hq⟩)

/-- An expression touches exactly the values in a list. -/
def Touches (e : Expr) (ps : List ValuePath) : Prop := ∀ q, q ∈ e.paths ↔ q ∈ ps

end Expr

/-- Notes with some more values, each of them once, and all of them satisfying `P`. -/
structure Notes.Took (P : ValuePath → Prop) (ps : List ValuePath) (n n' : Notes) : Prop where
  mem : ∀ q, q ∈ n'.dependencies ↔ q ∈ n.dependencies ∨ q ∈ ps
  holds : ∀ q ∈ ps, P q
  nodup : n.dependencies.Nodup → n'.dependencies.Nodup

namespace Notes.Took

variable {P : ValuePath → Prop} {ps qs : List ValuePath} {n n' n'' : Notes}

theorem nil (h : n'.dependencies = n.dependencies) : Took P [] n n' where
  mem q := by simp [h]
  holds q hq := by cases hq
  nodup := by
    rw [h]
    exact id

theorem append (h : Took P ps n n') (h' : Took P qs n' n'') : Took P (ps ++ qs) n n'' where
  mem q := by rw [h'.mem, h.mem, List.mem_append, or_assoc]
  holds q hq := by
    rcases List.mem_append.1 hq with hq | hq
    · exact h.holds q hq
    · exact h'.holds q hq
  nodup hn := h'.nodup (h.nodup hn)

end Notes.Took

theorem Notes.touch_took {P : ValuePath → Prop} {path : ValuePath} (hP : P path) (n : Notes) :
    Took P [path] n (n.touch path) := by
  have hholds : ∀ q ∈ [path], P q := by simpa using hP
  unfold touch
  split
  · rename_i h
    have hmem : path ∈ n.dependencies := by simpa using h
    exact ⟨fun q => by simp only [List.mem_singleton]; grind, hholds, id⟩
  · rename_i h
    have hnew : path ∉ n.dependencies := by simpa using h
    refine ⟨fun q => List.mem_append, hholds, fun hn => ?_⟩
    exact List.nodup_append.2 ⟨hn, List.nodup_singleton path, by grind⟩

namespace Anchoring

section

variable {α β γ : Type} {R : List γ → Notes → Notes → Prop} {Q : α → List γ → Prop}
  {Q' : β → List γ → Prop}

/-- If the step succeeds, it has passed through some list. `R` is what the list makes of the notes, and
`Q` how the result depends on it. -/
def Passes (R : List γ → Notes → Notes → Prop) (Q : α → List γ → Prop) (p : Step α) : Prop :=
  ∀ n a n', p.run n = .ok (a, n') → ∃ us, Q a us ∧ R us n n'

theorem passes_pure (hR : ∀ n, R [] n n) {a : α} (ha : Q a []) : Passes R Q (pure a) := by
  intro n b n' hrun
  cases hrun
  exact ⟨[], ha, hR n⟩

theorem passes_bind
    (hR : ∀ {us vs : List γ} {n n' n'' : Notes}, R us n n' → R vs n' n'' → R (us ++ vs) n n'')
    {p : Step α} {k : α → Step β} (hp : Passes R Q p)
    (hk : ∀ a us, Q a us → Passes R (fun b vs => Q' b (us ++ vs)) (k a)) : Passes R Q' (p >>= k) := by
  intro n b n'' hrun
  rw [StateT.run_bind] at hrun
  cases hp' : p.run n with
  | error e =>
    rw [hp'] at hrun
    cases hrun
  | ok u =>
    obtain ⟨a, n'⟩ := u
    rw [hp'] at hrun
    obtain ⟨us, ha, hus⟩ := hp n a n' hp'
    obtain ⟨vs, hb, hvs⟩ := hk a us ha n' b n'' hrun
    exact ⟨us ++ vs, hb, hR hus hvs⟩

/-- Looking up the value that an expression denotes changes no notes. -/
theorem passes_valuePath {names : Names} (e : Expr) {k : Option ValuePath → Step β}
    (hk : ∀ r, valuePath? names e = .ok r → Passes R Q' (k r)) :
    Passes R Q' (liftM (valuePath? names e) >>= k) := by
  intro n b n' hrun
  cases hr : valuePath? names e with
  | error error =>
    rw [hr] at hrun
    cases hrun
  | ok r =>
    rw [hr] at hrun
    exact hk r hr n b n' hrun

end

variable {α β : Type} {P : ValuePath → Prop}

/-- If the step succeeds, it has noted some values, all of which satisfy `P`. Its result and these
values are related by `Q`. -/
def Gains (P : ValuePath → Prop) (Q : α → List ValuePath → Prop) (p : Step α) : Prop :=
  ∀ n a n', p.run n = .ok (a, n') → ∃ ps, Q a ps ∧ Notes.Took P ps n n'

section

variable {Q : α → List ValuePath → Prop} {Q' : β → List ValuePath → Prop}

theorem gains_pure {a : α} (ha : Q a []) : Gains P Q (pure a) :=
  passes_pure (R := Notes.Took P) (fun _ => .nil rfl) ha

theorem gains_bind {p : Step α} {k : α → Step β} (hp : Gains P Q p)
    (hk : ∀ a ps, Q a ps → Gains P (fun b qs => Q' b (ps ++ qs)) (k a)) : Gains P Q' (p >>= k) :=
  passes_bind (R := Notes.Took P) .append hp hk

theorem gains_touch {path : ValuePath} (hP : P path) : Gains P (fun _ ps => ps = [path]) (touch path) := by
  intro n b n' hrun
  cases hrun
  exact ⟨[path], rfl, Notes.touch_took hP n⟩

theorem gains_leave (name : String) (range : Range) :
    Gains P (fun _ ps => ps = []) (modify (Notes.leave name range)) := by
  intro n b n' hrun
  cases hrun
  refine ⟨[], rfl, .nil ?_⟩
  rw [Notes.leave]
  split <;> rfl

/-- The value that an expression denotes, which is not noted yet. -/
theorem gains_valuePath {names : Names} (e : Expr) {k : Option ValuePath → Step β}
    (hk : ∀ r, valuePath? names e = .ok r → Gains P Q' (k r)) :
    Gains P Q' (liftM (valuePath? names e) >>= k) :=
  passes_valuePath (R := Notes.Took P) e hk

end

/-- Stepping a value touches nothing else. -/
theorem stepOf_touches (range : Range) (op : UpdateOp) (before : Bool) (targetRange : Range)
    (path : ValuePath) : (stepOf range op before targetRange path).Touches [path] := by
  intro q
  cases op <;> cases before <;>
    simp [stepOf, stepOps, Expr.paths, Expr.nodes, Expr.path?, eq_comm]

/-- What names and members of expressions denote satisfies `P`. -/
def Names.Denote (n : Names) (P : ValuePath → Prop) : Prop :=
  ∀ e path, valuePath? n e = .ok (some path) → P path

variable {n : Names}

mutual

/-- Anchoring an expression notes what it puts into it. -/
theorem expr_gains (hP : n.Denote P) (e : Expr) (he : e.IsSource) :
    Gains P Expr.Touches (expr n e) := by
  have hsource {c : Expr} (hc : c ∈ e.children) : c.IsSource :=
    he.of_mem (Expr.mem_nodes_of_mem_children hc)
  cases e with
  | literal range v => exact gains_pure fun q => by simp [Expr.paths, Expr.nodes, Expr.path?]
  | get range path => exact absurd (he _ (Expr.self_mem_nodes _)) Bool.noConfusion
  | set range path value => exact absurd (he _ (Expr.self_mem_nodes _)) Bool.noConfusion
  | ident range x =>
    rw [expr]
    refine gains_valuePath _ fun r hr => ?_
    cases r with
    | some path =>
      refine gains_bind (gains_touch (hP _ path hr)) fun _ ps hps => gains_pure fun q => ?_
      simp [hps, Expr.paths, Expr.nodes, Expr.path?, eq_comm]
    | none =>
      dsimp only
      split
      · refine gains_bind (gains_leave x range) fun _ ps hps => gains_pure fun q => ?_
        simp [hps, Expr.paths, Expr.nodes, Expr.path?]
      · exact gains_pure fun q => by simp [Expr.paths, Expr.nodes, Expr.path?]
  | member range b x =>
    rw [expr]
    refine gains_valuePath _ fun r hr => ?_
    cases r with
    | some path =>
      refine gains_bind (gains_touch (hP _ path hr)) fun _ ps hps => gains_pure fun q => ?_
      simp [hps, Expr.paths, Expr.nodes, Expr.path?, eq_comm]
    | none =>
      have hb : b.IsSource := hsource (List.mem_singleton_self b)
      refine gains_bind (expr_gains hP b hb) fun b' ps hps => gains_pure fun q => ?_
      simp [Expr.mem_paths (e := .member range b' x), Expr.path?, Expr.children, hps q]
  | template range parts =>
    rw [expr]
    refine gains_bind (exprs_gains hP parts fun c hc => hsource hc) fun vs ps hps => gains_pure fun q => ?_
    simp [Expr.mem_paths (e := .template range vs), Expr.path?, Expr.children, ← hps q]
  | index range b key =>
    rw [expr]
    have ha : b.IsSource := hsource (by simp [Expr.children])
    have hb : key.IsSource := hsource (by simp [Expr.children])
    refine gains_bind (expr_gains hP b ha) fun x ps hps => ?_
    refine gains_bind (expr_gains hP key hb) fun y qs hqs => gains_pure fun q => ?_
    simp [Expr.mem_paths (e := .index range x y), Expr.path?, Expr.children, hps q, hqs q]
  | call range callee args =>
    rw [expr]
    have hcallee : callee.IsSource := hsource (List.mem_cons_self ..)
    refine gains_bind (expr_gains hP callee hcallee) fun f ps hps => ?_
    refine gains_bind (exprs_gains hP args fun c hc => hsource (List.mem_cons_of_mem _ hc))
      fun vs qs hqs => gains_pure fun q => ?_
    simp [Expr.mem_paths (e := .call range f vs), Expr.path?, Expr.children, hps q, ← hqs q]
  | unary range op operand =>
    rw [expr]
    have hoperand : operand.IsSource := hsource (List.mem_singleton_self operand)
    refine gains_bind (expr_gains hP operand hoperand) fun v ps hps => gains_pure fun q => ?_
    simp [Expr.mem_paths (e := .unary range op v), Expr.path?, Expr.children, hps q]
  | binary range op left right =>
    rw [expr]
    have ha : left.IsSource := hsource (by simp [Expr.children])
    have hb : right.IsSource := hsource (by simp [Expr.children])
    refine gains_bind (expr_gains hP left ha) fun x ps hps => ?_
    refine gains_bind (expr_gains hP right hb) fun y qs hqs => gains_pure fun q => ?_
    simp [Expr.mem_paths (e := .binary range op x y), Expr.path?, Expr.children, hps q, hqs q]
  | conditional range test yes no =>
    rw [expr]
    have htest : test.IsSource := hsource (by simp [Expr.children])
    have hyes : yes.IsSource := hsource (by simp [Expr.children])
    have hno : no.IsSource := hsource (by simp [Expr.children])
    refine gains_bind (expr_gains hP test htest) fun x ps hps => ?_
    refine gains_bind (expr_gains hP yes hyes) fun y qs hqs => ?_
    refine gains_bind (expr_gains hP no hno) fun z rs hrs => gains_pure fun q => ?_
    simp [Expr.mem_paths (e := .conditional range x y z), Expr.path?, Expr.children, hps q, hqs q,
      hrs q]
  | assign range op target value =>
    rw [expr]
    have htarget : target.IsSource := hsource (by simp [Expr.children])
    have hvalue : value.IsSource := hsource (by simp [Expr.children])
    refine gains_bind (expr_gains hP value hvalue) fun v ps hps => ?_
    refine gains_valuePath _ fun r hr => ?_
    cases r with
    | some path =>
      refine gains_bind (gains_touch (hP _ path hr)) fun _ qs hqs => ?_
      cases op with
      | some op =>
        refine gains_pure fun q => ?_
        rw [Expr.mem_paths_set, Expr.mem_paths_binary, Expr.mem_paths_get, hps q, hqs]
        simp [or_comm]
      | none =>
        refine gains_pure fun q => ?_
        rw [Expr.mem_paths_set, hps q, hqs]
        simp [or_comm]
    | none =>
      refine gains_bind (expr_gains hP target htarget) fun t qs hqs => gains_pure fun q => ?_
      simp [Expr.mem_paths (e := .assign range op t v), Expr.path?, Expr.children, hps q, hqs q,
        or_comm]
  | update range op before target =>
    rw [expr]
    have htarget : target.IsSource := hsource (List.mem_singleton_self target)
    refine gains_valuePath _ fun r hr => ?_
    cases r with
    | some path =>
      refine gains_bind (gains_touch (hP _ path hr)) fun _ ps hps => gains_pure ?_
      rw [hps]
      exact stepOf_touches range op before target.range path
    | none =>
      refine gains_bind (expr_gains hP target htarget) fun t ps hps => gains_pure fun q => ?_
      simp [Expr.mem_paths (e := .update range op before t), Expr.path?, Expr.children, hps q]
  | array range items =>
    rw [expr]
    refine gains_bind (exprs_gains hP items fun c hc => hsource hc) fun vs ps hps => gains_pure fun q => ?_
    simp [Expr.mem_paths (e := .array range vs), Expr.path?, Expr.children, ← hps q]
  | object range es =>
    rw [expr]
    refine gains_bind (entries_gains hP es fun e he => hsource (List.mem_map_of_mem he))
      fun vs ps hps => gains_pure fun q => ?_
    rw [List.append_nil, ← hps q, Expr.paths_eq, Expr.children, List.flatMap_map]
    exact Iff.rfl
  | arrow range params body =>
    rw [expr]
    have hbody : body.IsSource := hsource (List.mem_singleton_self body)
    refine gains_bind (expr_gains hP body hbody) fun v ps hps => gains_pure fun q => ?_
    simp [Expr.mem_paths (e := .arrow range params v), Expr.path?, Expr.children, hps q]
  | letIn range x value =>
    rw [expr]
    have hvalue : value.IsSource := hsource (List.mem_singleton_self value)
    refine gains_bind (expr_gains hP value hvalue) fun v ps hps => gains_pure fun q => ?_
    simp [Expr.mem_paths (e := .letIn range x v), Expr.path?, Expr.children, hps q]
  | sequence range items =>
    rw [expr]
    refine gains_bind (exprs_gains hP items fun c hc => hsource hc) fun vs ps hps => gains_pure fun q => ?_
    simp [Expr.mem_paths (e := .sequence range vs), Expr.path?, Expr.children, ← hps q]

theorem exprs_gains (hP : n.Denote P) (es : List Expr) (hes : ∀ e ∈ es, e.IsSource) :
    Gains P (fun es ps => ∀ q, q ∈ es.flatMap Expr.paths ↔ q ∈ ps) (exprs n es) := by
  cases es with
  | nil => exact gains_pure fun q => .rfl
  | cons e es =>
    rw [exprs]
    refine gains_bind (expr_gains hP e (hes e (List.mem_cons_self ..))) fun e' ps hps => ?_
    refine gains_bind (exprs_gains hP es fun d hd => hes d (List.mem_cons_of_mem _ hd))
      fun es' qs hqs => gains_pure fun q => ?_
    rw [List.flatMap_cons, List.mem_append, List.append_nil, List.mem_append, hps q, hqs q]

theorem entries_gains (hP : n.Denote P) (es : List (String × Expr)) (hes : ∀ e ∈ es, e.2.IsSource) :
    Gains P (fun es ps => ∀ q, q ∈ es.flatMap (fun e => e.2.paths) ↔ q ∈ ps) (entries n es) := by
  match es with
  | [] => exact gains_pure fun q => .rfl
  | (key, e) :: es =>
    rw [entries]
    refine gains_bind (expr_gains hP e (hes _ (List.mem_cons_self ..))) fun e' ps hps => ?_
    refine gains_bind (entries_gains hP es fun d hd => hes d (List.mem_cons_of_mem _ hd))
      fun es' qs hqs => gains_pure fun q => ?_
    rw [List.flatMap_cons, List.mem_append, List.append_nil, List.mem_append, hps q, hqs q]

end

end Anchoring

/-- Anchoring notes each declared value that the anchored expression touches once, and nothing else.
All of them are denoted by names or members. -/
theorem Expr.anchor_dependencies {r : Resolver} {e : Expr} {t : Anchored} (he : e.IsSource)
    (ht : e.anchor r = .ok t) :
    t.notes.dependencies.Nodup ∧ (∀ p, p ∈ t.notes.dependencies ↔ p ∈ t.expr.paths) ∧
      ∀ path ∈ t.notes.dependencies,
        ∃ d, Anchoring.valuePath? ⟨e.boundNames, r⟩ d = .ok (some path) := by
  unfold Expr.anchor at ht
  cases hrun : (Anchoring.expr ⟨e.boundNames, r⟩ e).run .empty with
  | error error =>
    rw [hrun] at ht
    cases ht
  | ok u =>
    obtain ⟨e', notes⟩ := u
    rw [hrun] at ht
    cases ht
    have hdenote : Anchoring.Names.Denote ⟨e.boundNames, r⟩ fun path =>
        ∃ d, Anchoring.valuePath? ⟨e.boundNames, r⟩ d = .ok (some path) :=
      fun d path hd => ⟨d, hd⟩
    obtain ⟨ps, hps, htook⟩ := Anchoring.expr_gains hdenote e he .empty e' notes hrun
    have hmem : ∀ p, p ∈ notes.dependencies ↔ p ∈ ps := fun p => by
      rw [htook.mem]
      simp [Notes.empty]
    refine ⟨htook.nodup List.nodup_nil, fun p => ?_, fun p hp => htook.holds p ((hmem p).1 hp)⟩
    rw [hmem]
    exact (hps p).symm

end ReactiveMarkup
