import ReactiveMarkup.Proofs.Expr.Nodes

/-!
# Anchoring as a rewriting

Without aliases, anchoring cannot fail, and it replaces names by paths and does nothing else. The
notes that it takes play no part in that, so the replacement is a function of the expression alone.

Main definitions: `Anchors`, `Expr.rewrite`, `Resolver.path?`, `Resolver.Plain`,
`Anchoring.Names.Means`.
Main results: `Expr.anchor_eq_rewrite`.
-/
namespace ReactiveMarkup

/-- The paths that names are replaced by. -/
abbrev Anchors := String → Option ValuePath

namespace Expr

/-- The path that takes the place of a node that is assigned to. -/
def targetPath? (Δ : Anchors) : Expr → Option ValuePath
  | ident _ x => Δ x
  | _ => none

mutual

/-- Replaces names by paths: reading one by `get`, assigning to one by `set`. -/
def rewrite (Δ : Anchors) : Expr → Expr
  | literal range v => literal range v
  | ident range x =>
    match Δ x with
    | some path => get range path
    | none => ident range x
  | get range path => get range path
  | set range path value => set range path (value.rewrite Δ)
  | template range parts => template range (rewriteAll Δ parts)
  | member range base x => member range (base.rewrite Δ) x
  | index range base key => index range (base.rewrite Δ) (key.rewrite Δ)
  | call range callee args => call range (callee.rewrite Δ) (rewriteAll Δ args)
  | unary range op operand => unary range op (operand.rewrite Δ)
  | binary range op left right => binary range op (left.rewrite Δ) (right.rewrite Δ)
  | conditional range test yes no =>
    conditional range (test.rewrite Δ) (yes.rewrite Δ) (no.rewrite Δ)
  | assign range op target value =>
    match target.targetPath? Δ with
    | some path =>
      match op with
      | some op => set range path (binary range op (get target.range path) (value.rewrite Δ))
      | none => set range path (value.rewrite Δ)
    | none => assign range op (target.rewrite Δ) (value.rewrite Δ)
  | update range op before target =>
    match target.targetPath? Δ with
    | some path => Anchoring.stepOf range op before target.range path
    | none => update range op before (target.rewrite Δ)
  | array range items => array range (rewriteAll Δ items)
  | object range entries => object range (rewriteEntries Δ entries)
  | arrow range params body => arrow range params (body.rewrite Δ)
  | letIn range x value => letIn range x (value.rewrite Δ)
  | sequence range items => sequence range (rewriteAll Δ items)

/-- Replaces names in expressions. -/
def rewriteAll (Δ : Anchors) : List Expr → List Expr
  | [] => []
  | e :: es => e.rewrite Δ :: rewriteAll Δ es

/-- Replaces names in the values of entries. -/
def rewriteEntries (Δ : Anchors) : List (String × Expr) → List (String × Expr)
  | [] => []
  | (key, e) :: es => (key, e.rewrite Δ) :: rewriteEntries Δ es

end

mutual

/-- Where no name has a path, nothing is replaced. -/
theorem rewrite_none : ∀ e : Expr, e.rewrite (fun _ => none) = e
  | .literal .. | .get .. | .ident .. => rfl
  | .set _ _ value => by rw [rewrite, rewrite_none value]
  | .template _ parts => by rw [rewrite, rewriteAll_none parts]
  | .member _ base _ => by rw [rewrite, rewrite_none base]
  | .index _ base key => by rw [rewrite, rewrite_none base, rewrite_none key]
  | .call _ callee args => by rw [rewrite, rewrite_none callee, rewriteAll_none args]
  | .unary _ _ operand => by rw [rewrite, rewrite_none operand]
  | .binary _ _ left right => by rw [rewrite, rewrite_none left, rewrite_none right]
  | .conditional _ test yes no => by
    rw [rewrite, rewrite_none test, rewrite_none yes, rewrite_none no]
  | .assign _ _ target value => by
    have h : target.targetPath? (fun _ => none) = none := by cases target <;> rfl
    rw [rewrite, h, rewrite_none target, rewrite_none value]
  | .update _ _ _ target => by
    have h : target.targetPath? (fun _ => none) = none := by cases target <;> rfl
    rw [rewrite, h, rewrite_none target]
  | .array _ items => by rw [rewrite, rewriteAll_none items]
  | .object _ entries => by rw [rewrite, rewriteEntries_none entries]
  | .arrow _ _ body => by rw [rewrite, rewrite_none body]
  | .letIn _ _ value => by rw [rewrite, rewrite_none value]
  | .sequence _ items => by rw [rewrite, rewriteAll_none items]

theorem rewriteAll_none : ∀ es : List Expr, rewriteAll (fun _ => none) es = es
  | [] => rfl
  | e :: es => by rw [rewriteAll, rewrite_none e, rewriteAll_none es]

theorem rewriteEntries_none :
    ∀ es : List (String × Expr), rewriteEntries (fun _ => none) es = es
  | [] => rfl
  | (_, e) :: es => by rw [rewriteEntries, rewrite_none e, rewriteEntries_none es]

end

end Expr

/-! ## Resolvers without aliases -/

namespace Resolver

/-- No name stands for a scope. -/
def Plain (r : Resolver) : Prop := ∀ x anchor target, r.resolve x ≠ .scope anchor target

/-- The path that a name stands for, if it is a declared value. -/
def path? (r : Resolver) (x : String) : Option ValuePath :=
  match r.resolve x with
  | .value scope => some ⟨scope, [], x⟩
  | _ => none

end Resolver

namespace Anchoring

/-- The path of a name that is neither bound nor reserved. -/
def Names.path? (n : Names) (x : String) : Option ValuePath :=
  if n.isFree x then n.resolver.path? x else none

/-- In place of a name, if it is looked up, comes what `Δ` says, and that is no scope. -/
structure Names.Means (n : Names) (Δ : Anchors) (x : String) : Prop where
  eq_path? : Δ x = n.path? x
  not_scope : n.isFree x = true → ∀ anchor target, n.resolver.resolve x ≠ .scope anchor target

variable {n : Names} {Δ : Anchors}

/-- The names of a node below are among those of the whole. -/
theorem names_of_child {c e : Expr} (h : c ∈ e.children) (hΔ : ∀ x ∈ e.names, n.Means Δ x) :
    ∀ x ∈ c.names, n.Means Δ x :=
  fun x hx => hΔ x (Expr.names_subset (Expr.mem_nodes_of_mem_children h) hx)

theorem aliasChain?_eq_none (e : Expr) (hΔ : ∀ x ∈ e.names, n.Means Δ x) :
    aliasChain? n e = none := by
  fun_induction aliasChain? n e with
  | case1 range name hfree anchor target h =>
    have hx := Expr.mem_names_of_mem (Expr.self_mem_nodes (.ident range name))
    exact absurd h ((hΔ name hx).not_scope hfree anchor target)
  | case4 range e name c h ih =>
    rw [ih (names_of_child (List.mem_singleton_self _) hΔ)] at h
    cases h
  | _ => rfl

theorem valuePath?_eq (e : Expr) (hΔ : ∀ x ∈ e.names, n.Means Δ x) :
    valuePath? n e = .ok (e.targetPath? Δ) := by
  cases e with
  | ident range x =>
    have hx := hΔ x (Expr.mem_names_of_mem (Expr.self_mem_nodes _))
    rw [valuePath?, Expr.targetPath?, hx.eq_path?, Names.path?, Resolver.path?]
    by_cases h : n.isFree x
    · rw [if_pos h, if_pos h]
      cases hr : n.resolver.resolve x with
      | value scope => rfl
      | scope anchor target => exact absurd hr (hx.not_scope h anchor target)
      | unresolved => rfl
    · rw [if_neg h, if_neg h]
  | member range e x =>
    rw [valuePath?, aliasChain?_eq_none e (names_of_child (List.mem_singleton_self _) hΔ)]
    rfl
  | _ => rfl

/-! ## What anchoring yields -/

/-- Whatever was noted before, the step succeeds with the given result. -/
def Yields {α : Type} (p : Step α) (a : α) : Prop := ∀ notes, ∃ notes', p.run notes = .ok (a, notes')

section

variable {α β : Type}

theorem yields_pure (a : α) : Yields (pure a) a := fun notes => ⟨notes, rfl⟩

theorem yields_bind {p : Step α} {k : α → Step β} {a : α} {b : β} (hp : Yields p a)
    (hk : Yields (k a) b) : Yields (p >>= k) b := by
  intro notes
  obtain ⟨notes', h⟩ := hp notes
  obtain ⟨notes'', h'⟩ := hk notes'
  refine ⟨notes'', ?_⟩
  rw [StateT.run_bind, h]
  exact h'

theorem yields_modify (f : Notes → Notes) : Yields (modify f) () := fun notes => ⟨f notes, rfl⟩

theorem yields_valuePath (e : Expr) (hΔ : ∀ x ∈ e.names, n.Means Δ x) :
    Yields (liftM (valuePath? n e)) (e.targetPath? Δ) := by
  intro notes
  rw [valuePath?_eq e hΔ]
  exact ⟨notes, rfl⟩

end

mutual

/-- Anchoring without aliases is rewriting. -/
theorem expr_yields (e : Expr) (hΔ : ∀ x ∈ e.names, n.Means Δ x) :
    Yields (expr n e) (e.rewrite Δ) := by
  cases e with
  | literal range v => exact yields_pure _
  | get range path => exact yields_pure _
  | ident range x =>
    rw [expr, Expr.rewrite]
    refine yields_bind (yields_valuePath _ hΔ) ?_
    rw [Expr.targetPath?]
    cases Δ x with
    | some path => exact yields_bind (yields_modify _) (yields_pure _)
    | none =>
      dsimp only
      split
      · exact yields_bind (yields_modify _) (yields_pure _)
      · exact yields_pure _
  | member range e x =>
    rw [expr, Expr.rewrite]
    refine yields_bind (yields_valuePath _ hΔ) ?_
    have h := expr_yields e (names_of_child (List.mem_singleton_self _) hΔ)
    exact yields_bind h (yields_pure _)
  | set range path value =>
    rw [expr, Expr.rewrite]
    refine yields_bind (yields_modify _) ?_
    have h := expr_yields value (names_of_child (List.mem_singleton_self _) hΔ)
    exact yields_bind h (yields_pure _)
  | assign range op target value =>
    rw [expr, Expr.rewrite]
    have ht := names_of_child (c := target) (List.mem_cons_self ..) hΔ
    have hv := names_of_child (c := value) (List.mem_cons_of_mem _ (List.mem_singleton_self _)) hΔ
    refine yields_bind (expr_yields value hv) ?_
    refine yields_bind (yields_valuePath target ht) ?_
    cases target.targetPath? Δ with
    | some path =>
      refine yields_bind (yields_modify _) ?_
      cases op with
      | some op => exact yields_pure _
      | none => exact yields_pure _
    | none => exact yields_bind (expr_yields target ht) (yields_pure _)
  | update range op before target =>
    rw [expr, Expr.rewrite]
    have ht := names_of_child (c := target) (List.mem_singleton_self _) hΔ
    refine yields_bind (yields_valuePath target ht) ?_
    cases target.targetPath? Δ with
    | some path => exact yields_bind (yields_modify _) (yields_pure _)
    | none => exact yields_bind (expr_yields target ht) (yields_pure _)
  | template range parts =>
    rw [expr, Expr.rewrite]
    have h := exprs_yields parts fun e he => names_of_child (e := .template range parts) he hΔ
    exact yields_bind h (yields_pure _)
  | index range e key =>
    rw [expr, Expr.rewrite]
    have he := names_of_child (c := e) (List.mem_cons_self ..) hΔ
    have hk := names_of_child (c := key) (List.mem_cons_of_mem _ (List.mem_singleton_self _)) hΔ
    refine yields_bind (expr_yields e he) ?_
    exact yields_bind (expr_yields key hk) (yields_pure _)
  | call range callee args =>
    rw [expr, Expr.rewrite]
    have hc := names_of_child (c := callee) (List.mem_cons_self ..) hΔ
    refine yields_bind (expr_yields callee hc) ?_
    refine yields_bind (exprs_yields args fun e he => ?_) (yields_pure _)
    exact names_of_child (e := .call range callee args) (List.mem_cons_of_mem _ he) hΔ
  | unary range op operand =>
    rw [expr, Expr.rewrite]
    have h := expr_yields operand (names_of_child (List.mem_singleton_self _) hΔ)
    exact yields_bind h (yields_pure _)
  | binary range op left right =>
    rw [expr, Expr.rewrite]
    have hl := names_of_child (c := left) (List.mem_cons_self ..) hΔ
    have hright := names_of_child (c := right) (List.mem_cons_of_mem _ (List.mem_singleton_self _)) hΔ
    refine yields_bind (expr_yields left hl) ?_
    exact yields_bind (expr_yields right hright) (yields_pure _)
  | conditional range test yes no =>
    rw [expr, Expr.rewrite]
    have ht := names_of_child (c := test) (by simp [Expr.children]) hΔ
    have hy := names_of_child (c := yes) (by simp [Expr.children]) hΔ
    have hn := names_of_child (c := no) (by simp [Expr.children]) hΔ
    refine yields_bind (expr_yields test ht) ?_
    refine yields_bind (expr_yields yes hy) ?_
    exact yields_bind (expr_yields no hn) (yields_pure _)
  | array range items =>
    rw [expr, Expr.rewrite]
    have h := exprs_yields items fun e he => names_of_child (e := .array range items) he hΔ
    exact yields_bind h (yields_pure _)
  | object range es =>
    rw [expr, Expr.rewrite]
    refine yields_bind (entries_yields es fun e he => ?_) (yields_pure _)
    exact names_of_child (List.mem_map_of_mem he) hΔ
  | arrow range params body =>
    rw [expr, Expr.rewrite]
    have h := expr_yields body (names_of_child (List.mem_singleton_self _) hΔ)
    exact yields_bind h (yields_pure _)
  | letIn range x value =>
    rw [expr, Expr.rewrite]
    have h := expr_yields value (names_of_child (List.mem_singleton_self _) hΔ)
    exact yields_bind h (yields_pure _)
  | sequence range items =>
    rw [expr, Expr.rewrite]
    have h := exprs_yields items fun e he => names_of_child (e := .sequence range items) he hΔ
    exact yields_bind h (yields_pure _)

theorem exprs_yields (es : List Expr) (hΔ : ∀ e ∈ es, ∀ x ∈ e.names, n.Means Δ x) :
    Yields (exprs n es) (Expr.rewriteAll Δ es) := by
  cases es with
  | nil => exact yields_pure _
  | cons e es =>
    rw [exprs, Expr.rewriteAll]
    refine yields_bind (expr_yields e (hΔ e (List.mem_cons_self ..))) ?_
    refine yields_bind (exprs_yields es fun d hd => ?_) (yields_pure _)
    exact hΔ d (List.mem_cons_of_mem _ hd)

theorem entries_yields (es : List (String × Expr))
    (hΔ : ∀ e ∈ es, ∀ x ∈ e.2.names, n.Means Δ x) :
    Yields (entries n es) (Expr.rewriteEntries Δ es) := by
  match es with
  | [] => exact yields_pure _
  | (key, e) :: es =>
    rw [entries, Expr.rewriteEntries]
    refine yields_bind (expr_yields e (hΔ _ (List.mem_cons_self ..))) ?_
    refine yields_bind (entries_yields es fun d hd => ?_) (yields_pure _)
    exact hΔ d (List.mem_cons_of_mem _ hd)

end

end Anchoring

namespace Expr

/-- The declared values that the names of an expression stand for. -/
def anchors (r : Resolver) (e : Expr) : Anchors := fun x =>
  if x ∈ e.names then Anchoring.Names.path? ⟨e.boundNames, r⟩ x else none

/-- Without aliases, anchoring an expression replaces the names that stand for declared values. -/
theorem anchor_eq_rewrite {r : Resolver} (hr : r.Plain) {e : Expr} {t : Anchored}
    (h : e.anchor r = .ok t) : t.expr = e.rewrite (e.anchors r) := by
  have hΔ : ∀ x ∈ e.names, Anchoring.Names.Means ⟨e.boundNames, r⟩ (e.anchors r) x :=
    fun x hx => ⟨if_pos hx, fun _ => hr x⟩
  obtain ⟨notes, hy⟩ := Anchoring.expr_yields (n := ⟨e.boundNames, r⟩) e hΔ .empty
  rw [anchor, hy] at h
  cases h
  rfl

end Expr

end ReactiveMarkup
