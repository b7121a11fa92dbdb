import Mathlib.Data.List.Nodup
import ReactiveMarkup.Expr.Parse
import ReactiveMarkup.Proofs.Expr.Dependencies
import ReactiveMarkup.Proofs.Expr.Rewrite

/-!
# Anchoring settles an expression

What anchoring leaves of the names of an expression has no meaning for the resolver, so anchoring
once more finds nothing to replace. A name that is left may stand in a place where anchoring looks
at a whole chain of members, or at the target of an assignment, before it looks at the name; no such
chain starts with a name without a meaning.

Main definitions: `Expr.visits`, `Notes.noted`, `Anchoring.Leaves`, `Anchoring.Settles`.
Main results: `Expr.anchor_settles`.
-/
namespace ReactiveMarkup

namespace Expr

mutual

/-- The names of an expression with their ranges, in the order in which anchoring comes to them:
that of the text, but for assignments, where the value comes before the target. -/
def visits : Expr → List (String × Range)
  | literal .. | get .. => []
  | ident range x => [(x, range)]
  | set _ _ value => value.visits
  | template _ parts => visitsAll parts
  | member _ base _ => base.visits
  | index _ base key => base.visits ++ key.visits
  | call _ callee args => callee.visits ++ visitsAll args
  | unary _ _ operand => operand.visits
  | binary _ _ left right => left.visits ++ right.visits
  | conditional _ test yes no => test.visits ++ yes.visits ++ no.visits
  | assign _ _ target value => value.visits ++ target.visits
  | update _ _ _ target => target.visits
  | array _ items => visitsAll items
  | object _ entries => visitsEntries entries
  | arrow _ _ body => body.visits
  | letIn _ _ value => value.visits
  | sequence _ items => visitsAll items

/-- The names of expressions. -/
def visitsAll : List Expr → List (String × Range)
  | [] => []
  | e :: es => e.visits ++ visitsAll es

/-- The names of the values of entries. -/
def visitsEntries : List (String × Expr) → List (String × Range)
  | [] => []
  | (_, e) :: es => e.visits ++ visitsEntries es

end

theorem visitsAll_eq (es : List Expr) : visitsAll es = es.flatMap visits := by
  induction es with
  | nil => rfl
  | cons e es ih => rw [visitsAll, ih, List.flatMap_cons]

theorem visitsEntries_eq (es : List (String × Expr)) :
    visitsEntries es = (es.map Prod.snd).flatMap visits := by
  induction es with
  | nil => rfl
  | cons e es ih => rw [visitsEntries, ih, List.map_cons, List.flatMap_cons]

/-- Anchoring comes to every name of an expression, and to nothing else. -/
theorem mem_visits {e : Expr} {x : String} {range : Range} :
    (x, range) ∈ e.visits ↔ ident range x ∈ e.nodes := by
  induction e using induction_children with
  | step e ih =>
    have hchildren : ident range x ∈ e.children.flatMap nodes ↔
        ∃ c ∈ e.children, (x, range) ∈ c.visits := by
      rw [List.mem_flatMap]
      exact exists_congr fun c => and_congr_right fun hc => (ih c hc).symm
    rw [nodes_eq, List.mem_cons, hchildren]
    cases e <;>
      simp [visits, visitsAll_eq, visitsEntries_eq, children, or_comm, and_comm, eq_comm]

theorem mem_names_iff {e : Expr} {x : String} :
    x ∈ e.names ↔ x ∈ e.visits.map Prod.fst := by
  simp only [names, List.mem_filterMap, List.mem_map, Prod.exists, exists_and_right, exists_eq_right,
    mem_visits]
  constructor
  · rintro ⟨d, hd, hx⟩
    cases d <;> cases hx
    exact ⟨_, hd⟩
  · rintro ⟨range, hd⟩
    exact ⟨_, hd, rfl⟩

end Expr

/-! ## What is left -/

namespace Notes

/-- Names that are left, after one more has been come to. -/
def noted (us : List (String × Range)) (u : String × Range) : List (String × Range) :=
  if us.any fun v => v.1 == u.1 then us else us ++ [u]

theorem unresolved_leave (x : String) (range : Range) (n : Notes) :
    (n.leave x range).unresolved = noted n.unresolved (x, range) := by
  rw [leave, noted]
  split <;> rfl

theorem unresolved_touch (path : ValuePath) (n : Notes) :
    (n.touch path).unresolved = n.unresolved := by
  rw [touch]
  split <;> rfl

theorem mem_noted {us : List (String × Range)} {u : String × Range} {x : String} :
    x ∈ (noted us u).map Prod.fst ↔ x ∈ us.map Prod.fst ∨ x = u.1 := by
  unfold noted
  split
  · rename_i h
    refine ⟨.inl, fun hx => hx.elim id fun hx => ?_⟩
    obtain ⟨v, hv, hvu⟩ := List.any_eq_true.1 h
    exact List.mem_map.2 ⟨v, hv, (eq_of_beq hvu).trans hx.symm⟩
  · rw [List.map_append, List.mem_append, List.map_singleton, List.mem_singleton]

theorem nodup_noted {us : List (String × Range)} (h : (us.map Prod.fst).Nodup) (u : String × Range) :
    ((noted us u).map Prod.fst).Nodup := by
  unfold noted
  split
  · exact h
  · rename_i hnew
    rw [List.map_append, List.map_singleton]
    refine h.append (List.nodup_singleton _) (List.disjoint_singleton.2 fun hu => hnew ?_)
    obtain ⟨v, hv, hvu⟩ := List.mem_map.1 hu
    exact List.any_eq_true.2 ⟨v, hv, beq_of_eq hvu⟩

/-- Exactly the names that were come to are left. -/
theorem mem_foldl_noted {us vs : List (String × Range)} {x : String} :
    x ∈ (vs.foldl noted us).map Prod.fst ↔ x ∈ us.map Prod.fst ∨ x ∈ vs.map Prod.fst := by
  induction vs generalizing us with
  | nil => simp
  | cons v vs ih => rw [List.foldl_cons, ih, mem_noted, List.map_cons, List.mem_cons, or_assoc]

/-- Each name is left once. -/
theorem nodup_foldl_noted {us vs : List (String × Range)} (h : (us.map Prod.fst).Nodup) :
    ((vs.foldl noted us).map Prod.fst).Nodup := by
  induction vs generalizing us with
  | nil => exact h
  | cons v vs ih => exact ih (nodup_noted h v)

end Notes

namespace Anchoring

variable {α β : Type}

/-- If the step succeeds, it has come to some names that it leaves. Its result and these names are
related by `Q`. -/
def Leaves (Q : α → List (String × Range) → Prop) (p : Step α) : Prop :=
  Passes (fun us n n' => n'.unresolved = us.foldl Notes.noted n.unresolved) Q p

section

variable {Q : α → List (String × Range) → Prop} {Q' : β → List (String × Range) → Prop}

theorem leaves_pure {a : α} (ha : Q a []) : Leaves Q (pure a) := passes_pure (fun _ => rfl) ha

theorem leaves_bind {p : Step α} {k : α → Step β} (hp : Leaves Q p)
    (hk : ∀ a us, Q a us → Leaves (fun b vs => Q' b (us ++ vs)) (k a)) : Leaves Q' (p >>= k) :=
  passes_bind (fun hus hvs => by rw [hvs, hus, List.foldl_append]) hp hk

/-- A last step whose result is only wrapped. -/
theorem leaves_map {p : Step α} {f : α → β} (hp : Leaves Q p) (hf : ∀ a us, Q a us → Q' (f a) us) :
    Leaves Q' (p >>= fun a => pure (f a)) :=
  leaves_bind hp fun a us ha => leaves_pure (by simpa using hf a us ha)

theorem leaves_touch (path : ValuePath) : Leaves (fun _ us => us = []) (touch path) := by
  intro n b n' hrun
  cases hrun
  exact ⟨[], rfl, Notes.unresolved_touch path n⟩

theorem leaves_leave (x : String) (range : Range) :
    Leaves (fun _ us => us = [(x, range)]) (modify (Notes.leave x range)) := by
  intro n b n' hrun
  cases hrun
  exact ⟨[(x, range)], rfl, Notes.unresolved_leave x range n⟩

/-- Looking up the value that an expression denotes leaves nothing. -/
theorem leaves_valuePath {names : Names} (e : Expr) {k : Option ValuePath → Step β}
    (hk : ∀ r, valuePath? names e = .ok r → Leaves Q' (k r)) :
    Leaves Q' (liftM (valuePath? names e) >>= k) := passes_valuePath e hk

end

/-! ## What becomes of the names -/

/-- What becomes of the names of a part. With `us` the names of the result, the free ones among them
have no meaning and are the ones that are left; and what binds names stays. -/
structure Settles (n : Names) (bound bound' : List String) (us left : List (String × Range)) :
    Prop where
  bound_eq : bound' = bound
  unresolved : ∀ u ∈ us, n.isFree u.1 → n.resolver.resolve u.1 = .unresolved
  left_eq : left = us.filter fun u => n.isFree u.1

variable {n : Names}

namespace Settles

variable {b b' c c' : List String} {us vs left left' : List (String × Range)}

/-- Without names, nothing is left. -/
theorem nil : Settles n b b [] [] := ⟨rfl, fun _ h => (nomatch h), rfl⟩

theorem append (h : Settles n b b' us left) (h' : Settles n c c' vs left') :
    Settles n (b ++ c) (b' ++ c') (us ++ vs) (left ++ left') where
  bound_eq := by rw [h.bound_eq, h'.bound_eq]
  unresolved u hu := (List.mem_append.1 hu).elim (h.unresolved u) (h'.unresolved u)
  left_eq := by rw [h.left_eq, h'.left_eq, List.filter_append]

/-- The value of an assignment is anchored before its target, which binds its names first. -/
theorem append_swap (h : Settles n c c' vs left') (h' : Settles n b b' us left) :
    Settles n (b ++ c) (b' ++ c') (vs ++ us) (left' ++ left) where
  bound_eq := (h'.append h).bound_eq
  unresolved := (h.append h').unresolved
  left_eq := (h.append h').left_eq

/-- A node may bind names of its own. -/
theorem binds (h : Settles n b b' us left) (own : List String) :
    Settles n (own ++ b) (own ++ b') us left where
  bound_eq := by rw [h.bound_eq]
  unresolved := h.unresolved
  left_eq := h.left_eq

end Settles

theorem boundNames_of_aliasChain? {e : Expr} {c : AliasChain} (h : aliasChain? n e = some c) :
    e.boundNames = [] := by
  fun_induction aliasChain? n e generalizing c with
  | case4 range e name c' hc' ih => exact ih hc'
  | _ => first | rfl | cases h

/-- What denotes a declared value binds nothing. -/
theorem boundNames_of_valuePath? {e : Expr} {path : ValuePath}
    (h : valuePath? n e = .ok (some path)) : e.boundNames = [] := by
  cases e with
  | member range b x =>
    rw [valuePath?] at h
    cases hc : aliasChain? n b with
    | none =>
      rw [hc] at h
      cases h
    | some c => exact boundNames_of_aliasChain? (e := b) hc
  | ident range x => rfl
  | _ => cases h

/-- A free name that does not denote a declared value, and is no alias either, has no meaning. -/
theorem unresolved_of_valuePath? {range : Range} {x : String}
    (h : valuePath? n (.ident range x) = .ok none) (hx : n.isFree x) :
    n.resolver.resolve x = .unresolved := by
  rw [valuePath?, if_pos hx] at h
  cases hr : n.resolver.resolve x with
  | unresolved => rfl
  | value scope =>
    rw [hr] at h
    cases h
  | scope anchor target =>
    rw [hr] at h
    cases h

theorem stepOf_settles (range : Range) (op : UpdateOp) (before : Bool) (targetRange : Range)
    (path : ValuePath) :
    Settles n [] (stepOf range op before targetRange path).boundNames
      (stepOf range op before targetRange path).visits [] := by
  cases op <;> cases before <;> exact .nil

mutual

/-- Anchoring settles the names of an expression. -/
theorem expr_leaves (e : Expr) :
    Leaves (fun t => Settles n e.boundNames t.boundNames t.visits) (expr n e) := by
  cases e with
  | literal range v => exact leaves_pure .nil
  | get range path => exact leaves_pure .nil
  | ident range x =>
    rw [expr]
    refine leaves_valuePath _ fun r hr => ?_
    cases r with
    | some path =>
      refine leaves_map (leaves_touch path) ?_
      rintro - _ rfl
      exact .nil
    | none =>
      have hx : ∀ u ∈ [(x, range)], n.isFree u.1 → n.resolver.resolve u.1 = .unresolved := by
        rintro _ (_ | _) hfree
        · exact unresolved_of_valuePath? hr hfree
        · contradiction
      dsimp only
      split
      · rename_i hfree
        refine leaves_map (leaves_leave x range) ?_
        rintro - _ rfl
        exact ⟨rfl, hx, (List.filter_eq_self.2 (by simpa using hfree)).symm⟩
      · rename_i hfree
        refine leaves_pure ⟨rfl, hx, ?_⟩
        exact (List.filter_eq_nil_iff.2 (by simpa [Expr.visits] using hfree)).symm
  | member range b x =>
    rw [expr]
    refine leaves_valuePath _ fun r hr => ?_
    cases r with
    | some path =>
      refine leaves_map (leaves_touch path) ?_
      rintro - _ rfl
      rw [boundNames_of_valuePath? hr]
      exact .nil
    | none => exact leaves_map (expr_leaves b) fun _ _ h => h
  | set range path value =>
    rw [expr]
    refine leaves_bind (leaves_touch path) ?_
    rintro - _ rfl
    exact leaves_map (expr_leaves value) fun _ _ h => h
  | assign range op target value =>
    rw [expr]
    refine leaves_bind (expr_leaves value) fun v us hv => ?_
    refine leaves_valuePath _ fun r hr => ?_
    cases r with
    | some path =>
      refine leaves_bind (leaves_touch path) ?_
      rintro - _ rfl
      rw [Expr.boundNames, boundNames_of_valuePath? hr]
      cases op with
      | some op => exact leaves_pure (by simpa [Expr.boundNames, Expr.visits] using hv)
      | none => exact leaves_pure (by simpa [Expr.boundNames, Expr.visits] using hv)
    | none => exact leaves_map (expr_leaves target) fun _ _ ht => hv.append_swap ht
  | update range op before target =>
    rw [expr]
    refine leaves_valuePath _ fun r hr => ?_
    cases r with
    | some path =>
      refine leaves_map (leaves_touch path) ?_
      rintro - _ rfl
      rw [Expr.boundNames, boundNames_of_valuePath? hr]
      exact stepOf_settles range op before target.range path
    | none => exact leaves_map (expr_leaves target) fun _ _ h => h
  | template range parts =>
    rw [expr]
    exact leaves_map (exprs_leaves parts) fun _ _ h => h
  | index range b key =>
    rw [expr]
    refine leaves_bind (expr_leaves b) fun _ _ hb => ?_
    exact leaves_map (expr_leaves key) fun _ _ hkey => hb.append hkey
  | call range callee args =>
    rw [expr]
    refine leaves_bind (expr_leaves callee) fun _ _ hcallee => ?_
    exact leaves_map (exprs_leaves args) fun _ _ hargs => hcallee.append hargs
  | unary range op operand =>
    rw [expr]
    exact leaves_map (expr_leaves operand) fun _ _ h => h
  | binary range op left right =>
    rw [expr]
    refine leaves_bind (expr_leaves left) fun _ _ hleft => ?_
    exact leaves_map (expr_leaves right) fun _ _ hright => hleft.append hright
  | conditional range test yes no =>
    rw [expr]
    refine leaves_bind (expr_leaves test) fun _ us htest => ?_
    refine leaves_bind (expr_leaves yes) fun _ vs hyes => ?_
    refine leaves_map (expr_leaves no) fun _ ws hno => ?_
    rw [← List.append_assoc]
    exact (htest.append hyes).append hno
  | array range items =>
    rw [expr]
    exact leaves_map (exprs_leaves items) fun _ _ h => h
  | object range es =>
    rw [expr]
    exact leaves_map (entries_leaves es) fun _ _ h => h
  | arrow range params body =>
    rw [expr]
    exact leaves_map (expr_leaves body) fun _ _ h => h.binds params
  | letIn range x value =>
    rw [expr]
    exact leaves_map (expr_leaves value) fun _ _ h => h.binds [x]
  | sequence range items =>
    rw [expr]
    exact leaves_map (exprs_leaves items) fun _ _ h => h

theorem exprs_leaves (es : List Expr) :
    Leaves (fun ts => Settles n (Expr.boundNamesAll es) (Expr.boundNamesAll ts) (Expr.visitsAll ts))
      (exprs n es) := by
  cases es with
  | nil => exact leaves_pure .nil
  | cons e es =>
    rw [exprs]
    refine leaves_bind (expr_leaves e) fun _ _ he => ?_
    exact leaves_map (exprs_leaves es) fun _ _ hes => he.append hes

theorem entries_leaves (es : List (String × Expr)) :
    Leaves (fun ts => Settles n (Expr.boundNamesEntries es) (Expr.boundNamesEntries ts)
      (Expr.visitsEntries ts)) (entries n es) := by
  match es with
  | [] => exact leaves_pure .nil
  | (key, e) :: es =>
    rw [entries]
    refine leaves_bind (expr_leaves e) fun _ _ he => ?_
    exact leaves_map (entries_leaves es) fun _ _ hes => he.append hes

end

/-- Where no free name has a meaning, nothing is replaced. -/
theorem expr_yields_self {e : Expr}
    (h : ∀ u ∈ e.visits, n.isFree u.1 → n.resolver.resolve u.1 = .unresolved) :
    Yields (expr n e) e := by
  have hmeans : ∀ x ∈ e.names, n.Means (fun _ => none) x := by
    intro x hx
    obtain ⟨u, hu, rfl⟩ := List.mem_map.1 (Expr.mem_names_iff.1 hx)
    refine ⟨?_, fun hfree anchor target hscope => ?_⟩
    · rw [Names.path?, Resolver.path?]
      split
      · rename_i hfree
        rw [h u hu hfree]
      · rfl
    · rw [h u hu hfree] at hscope
      cases hscope
  have hyields := expr_yields e hmeans
  rwa [Expr.rewrite_none] at hyields

end Anchoring

namespace Expr

open Anchoring

/-- What an anchored expression has left of its names. -/
theorem anchor_leaves {r : Resolver} {e : Expr} {t : Anchored} (h : e.anchor r = .ok t) :
    ∃ left, Settles ⟨e.boundNames, r⟩ e.boundNames t.expr.boundNames t.expr.visits left ∧
      t.notes.unresolved = left.foldl Notes.noted [] := by
  unfold anchor at h
  cases hrun : (expr ⟨e.boundNames, r⟩ e).run .empty with
  | error error =>
    rw [hrun] at h
    cases h
  | ok u =>
    obtain ⟨e', notes⟩ := u
    rw [hrun] at h
    cases h
    exact expr_leaves e .empty e' notes hrun

/-- An anchored expression binds what it did before. None of its names that are neither bound nor
reserved stands for a declared value or a scope, these are the ones that are noted as unresolved,
each once, and anchoring the expression again gives the same expression and notes the same ones. -/
theorem anchor_settles {r : Resolver} {e : Expr} {t : Anchored} (h : e.anchor r = .ok t) :
    t.expr.boundNames = e.boundNames ∧
    (∀ range x, ident range x ∈ t.expr.nodes → x ∉ e.boundNames → Reserved.isReserved x = false →
      r.resolve x = .unresolved) ∧
    (t.notes.unresolved.map Prod.fst).Nodup ∧
    (∀ x, x ∈ t.notes.unresolved.map Prod.fst ↔
      x ∈ t.expr.names ∧ x ∉ e.boundNames ∧ Reserved.isReserved x = false) ∧
    ∃ u, t.expr.anchor r = .ok u ∧ u.expr = t.expr ∧ u.notes.unresolved = t.notes.unresolved := by
  obtain ⟨left, hsettles, hleft⟩ := anchor_leaves h
  have hfree : ∀ x, Names.isFree ⟨e.boundNames, r⟩ x ↔
      x ∉ e.boundNames ∧ Reserved.isReserved x = false := by
    simp [Names.isFree]
  refine ⟨hsettles.bound_eq, fun range x hx hbound hreserved => ?_, ?_, fun x => ?_, ?_⟩
  · exact hsettles.unresolved (x, range) (mem_visits.2 hx) ((hfree x).2 ⟨hbound, hreserved⟩)
  · rw [hleft]
    exact Notes.nodup_foldl_noted List.nodup_nil
  · rw [hleft, Notes.mem_foldl_noted, ← hfree, mem_names_iff, hsettles.left_eq]
    simp
  · obtain ⟨notes, hrun⟩ := expr_yields_self hsettles.unresolved .empty
    have hagain : t.expr.anchor r = .ok ⟨t.expr, notes⟩ := by
      rw [anchor, hsettles.bound_eq, hrun]
      rfl
    obtain ⟨left', hsettles', hleft'⟩ := anchor_leaves hagain
    refine ⟨_, hagain, rfl, ?_⟩
    rw [hleft', hleft, hsettles'.left_eq, hsettles.left_eq, hsettles.bound_eq]

/-- A value behind an alias is assigned to, and another one is stepped; a name that stands for nothing
begins the target of an assignment and occurs in its value, where it is come to first. -/
theorem anchor_settles_assignment :
    let r : Resolver :=
      ⟨fun x => if x = "n" then .value 0 else if x = "b" then .scope 0 1 else .unresolved,
        fun _ _ => none, fun scope x => scope = 1 ∧ x = "t"⟩
    ∃ e t, parse .start "b.t = g.x = n++ + g" = .ok e ∧ e.anchor r = .ok t ∧
      t.expr.paths = [⟨0, ["b"], "t"⟩, ⟨0, [], "n"⟩, ⟨0, [], "n"⟩] ∧
      t.notes.unresolved = [("g", ⟨⟨1, 19⟩, ⟨1, 20⟩⟩)] ∧
      ∃ u, t.expr.anchor r = .ok u ∧ u.expr = t.expr ∧
        u.notes.unresolved = t.notes.unresolved := by
  intro r
  let e : Expr := .assign ⟨⟨1, 1⟩, ⟨1, 20⟩⟩ none
    (.member ⟨⟨1, 1⟩, ⟨1, 4⟩⟩ (.ident ⟨⟨1, 1⟩, ⟨1, 2⟩⟩ "b") "t")
    (.assign ⟨⟨1, 7⟩, ⟨1, 20⟩⟩ none
      (.member ⟨⟨1, 7⟩, ⟨1, 10⟩⟩ (.ident ⟨⟨1, 7⟩, ⟨1, 8⟩⟩ "g") "x")
      (.binary ⟨⟨1, 13⟩, ⟨1, 20⟩⟩ .add
        (.update ⟨⟨1, 13⟩, ⟨1, 16⟩⟩ .increment false (.ident ⟨⟨1, 13⟩, ⟨1, 14⟩⟩ "n"))
        (.ident ⟨⟨1, 19⟩, ⟨1, 20⟩⟩ "g")))
  let t : Anchored := (e.anchor r).toOption.get rfl
  have hparse : parse .start "b.t = g.x = n++ + g" = .ok e := by with_unfolding_all rfl
  have ht : e.anchor r = .ok t := by with_unfolding_all rfl
  refine ⟨e, t, hparse, ht, by with_unfolding_all rfl, by with_unfolding_all rfl, ?_⟩
  exact (anchor_settles ht).2.2.2.2

end Expr

end ReactiveMarkup
