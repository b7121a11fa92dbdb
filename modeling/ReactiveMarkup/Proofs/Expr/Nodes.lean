import ReactiveMarkup.Expr.Anchor

/-!
# Nodes of expressions

What an expression mentions, assigns and steps can be read off the list of all its nodes.

Main definitions: `Expr.nodes`, `Expr.names`, `Expr.arrowNames`, `Expr.assignedNames`,
`Expr.steppedNames`, `Expr.IsSource`, `Expr.Sets`.
Main results: `Expr.forall_nodes_iff`, `Expr.params_subset_boundNames`.
-/
namespace ReactiveMarkup

namespace Expr

mutual

/-- All nodes of an expression, itself first. -/
def nodes : Expr → List Expr
  | e@(literal ..) | e@(ident ..) | e@(get ..) => [e]
  | e@(set _ _ value) => e :: value.nodes
  | e@(template _ parts) => e :: nodesAll parts
  | e@(member _ base _) => e :: base.nodes
  | e@(index _ base key) => e :: (base.nodes ++ key.nodes)
  | e@(call _ callee args) => e :: (callee.nodes ++ nodesAll args)
  | e@(unary _ _ operand) => e :: operand.nodes
  | e@(binary _ _ left right) => e :: (left.nodes ++ right.nodes)
  | e@(conditional _ test yes no) => e :: (test.nodes ++ yes.nodes ++ no.nodes)
  | e@(assign _ _ target value) => e :: (target.nodes ++ value.nodes)
  | e@(update _ _ _ target) => e :: target.nodes
  | e@(array _ items) => e :: nodesAll items
  | e@(object _ entries) => e :: nodesEntries entries
  | e@(arrow _ _ body) => e :: body.nodes
  | e@(letIn _ _ value) => e :: value.nodes
  | e@(sequence _ items) => e :: nodesAll items

/-- All nodes of expressions. -/
def nodesAll : List Expr → List Expr
  | [] => []
  | e :: es => e.nodes ++ nodesAll es

/-- All nodes of the values of entries. -/
def nodesEntries : List (String × Expr) → List Expr
  | [] => []
  | (_, e) :: es => e.nodes ++ nodesEntries es

end

/-- The name that a node is. -/
def identName? : Expr → Option String
  | ident _ x => some x
  | _ => none

/-- The variable that an assignment to a node changes: the one that its members and indexes start
from. -/
def rootName? : Expr → Option String
  | ident _ x => some x
  | member _ base _ => base.rootName?
  | index _ base _ => base.rootName?
  | _ => none

/-- The variable that a node assigns to, directly or in a part of it. -/
def assigned? : Expr → Option String
  | assign _ _ target _ => target.rootName?
  | update _ _ _ target => target.rootName?
  | _ => none

/-- The variable that a node itself steps or combines with an operator. -/
def stepped? : Expr → Option String
  | assign _ (some _) target _ => target.identName?
  | update _ _ _ target => target.identName?
  | _ => none

/-- The names in the body of an arrow function that a node is. -/
def bodyNames : Expr → List String
  | arrow _ _ body => body.nodes.filterMap identName?
  | _ => []

/-- The names that an expression mentions. -/
def names (e : Expr) : List String := e.nodes.filterMap identName?

/-- The names that occur in the bodies of arrow functions. -/
def arrowNames (e : Expr) : List String := e.nodes.flatMap bodyNames

/-- The names that are assigned to, directly or in a part. -/
def assignedNames (e : Expr) : List String := e.nodes.filterMap assigned?

/-- The names that are stepped, or combined with an operator, themselves. -/
def steppedNames (e : Expr) : List String := e.nodes.filterMap stepped?

/-- Whether a node stands for a declared value. -/
def isAnchored : Expr → Bool
  | get .. | set .. => true
  | _ => false

/-- An expression in which nothing stands for a declared value yet. -/
def IsSource (e : Expr) : Prop := ∀ d ∈ e.nodes, d.isAnchored = false

/-! ## Nodes below a node -/

/-- The nodes directly below a node. -/
def children : Expr → List Expr
  | literal .. | ident .. | get .. => []
  | set _ _ value => [value]
  | template _ parts => parts
  | member _ base _ => [base]
  | index _ base key => [base, key]
  | call _ callee args => callee :: args
  | unary _ _ operand => [operand]
  | binary _ _ left right => [left, right]
  | conditional _ test yes no => [test, yes, no]
  | assign _ _ target value => [target, value]
  | update _ _ _ target => [target]
  | array _ items => items
  | object _ entries => entries.map Prod.snd
  | arrow _ _ body => [body]
  | letIn _ _ value => [value]
  | sequence _ items => items

theorem sizeOf_lt_of_mem_children {c e : Expr} (h : c ∈ e.children) : sizeOf c < sizeOf e := by
  cases e with
  | template _ items | array _ items | sequence _ items =>
    rw [children] at h
    have := List.sizeOf_lt_of_mem h
    simp only [template.sizeOf_spec, array.sizeOf_spec, sequence.sizeOf_spec]
    omega
  | call _ callee args =>
    simp only [call.sizeOf_spec]
    rcases List.mem_cons.1 h with rfl | h
    · omega
    · have := List.sizeOf_lt_of_mem h
      omega
  | object _ entries =>
    obtain ⟨⟨key, c⟩, hm, rfl⟩ := List.mem_map.1 h
    have : sizeOf (key, c) < sizeOf entries := List.sizeOf_lt_of_mem hm
    simp only [object.sizeOf_spec, Prod.mk.sizeOf_spec] at this ⊢
    omega
  | _ => simp [children] at h <;> grind

/-- What holds of a node whenever it holds of the nodes directly below it holds of all. -/
theorem induction_children {P : Expr → Prop} (step : ∀ e, (∀ c ∈ e.children, P c) → P e) (e : Expr) :
    P e :=
  step e fun c _ => induction_children step c
termination_by e
decreasing_by exact sizeOf_lt_of_mem_children ‹_›

theorem nodesAll_eq (es : List Expr) : nodesAll es = es.flatMap nodes := by
  induction es with
  | nil => rfl
  | cons e es ih => rw [nodesAll, ih, List.flatMap_cons]

theorem nodesEntries_eq (es : List (String × Expr)) :
    nodesEntries es = (es.map Prod.snd).flatMap nodes := by
  induction es with
  | nil => rfl
  | cons e es ih => rw [nodesEntries, ih, List.map_cons, List.flatMap_cons]

theorem nodes_eq (e : Expr) : e.nodes = e :: e.children.flatMap nodes := by
  cases e <;> simp only [nodes, children, nodesAll_eq, nodesEntries_eq, List.flatMap_cons,
    List.flatMap_nil, List.append_nil, List.append_assoc]

theorem self_mem_nodes (e : Expr) : e ∈ e.nodes := by
  rw [nodes_eq]
  exact List.mem_cons_self ..

theorem nodes_subset_of_mem_children {c e : Expr} (h : c ∈ e.children) : c.nodes ⊆ e.nodes := by
  intro d hd
  rw [nodes_eq e]
  exact List.mem_cons_of_mem _ (List.mem_flatMap.2 ⟨c, h, hd⟩)

/-- The nodes of a node are nodes of the whole. -/
theorem nodes_subset {d e : Expr} (h : d ∈ e.nodes) : d.nodes ⊆ e.nodes := by
  induction e using induction_children with
  | step e ih =>
    rw [nodes_eq] at h
    rcases List.mem_cons.1 h with rfl | h
    · exact List.Subset.refl _
    · obtain ⟨c, hc, hd⟩ := List.mem_flatMap.1 h
      exact List.Subset.trans (ih c hc hd) (nodes_subset_of_mem_children hc)

theorem names_subset {d e : Expr} (h : d ∈ e.nodes) : d.names ⊆ e.names := by
  intro x hx
  obtain ⟨c, hc, hcx⟩ := List.mem_filterMap.1 hx
  exact List.mem_filterMap.2 ⟨c, nodes_subset h hc, hcx⟩

theorem mem_names_of_mem {range : Range} {x : String} {e : Expr} (h : ident range x ∈ e.nodes) :
    x ∈ e.names := List.mem_filterMap.2 ⟨_, h, rfl⟩

theorem mem_nodes_of_mem_children {c e : Expr} (h : c ∈ e.children) : c ∈ e.nodes :=
  nodes_subset_of_mem_children h (self_mem_nodes c)

/-! ## Bound names -/

theorem boundNamesAll_eq (es : List Expr) : boundNamesAll es = es.flatMap boundNames := by
  induction es with
  | nil => rfl
  | cons e es ih => rw [boundNamesAll, ih, List.flatMap_cons]

theorem boundNamesEntries_eq (es : List (String × Expr)) :
    boundNamesEntries es = (es.map Prod.snd).flatMap boundNames := by
  induction es with
  | nil => rfl
  | cons e es ih => rw [boundNamesEntries, ih, List.map_cons, List.flatMap_cons]

theorem boundNames_subset_of_mem_children {c e : Expr} (h : c ∈ e.children) :
    c.boundNames ⊆ e.boundNames := by
  intro x hx
  have hflat : x ∈ e.children.flatMap boundNames := List.mem_flatMap.2 ⟨c, h, hx⟩
  cases e <;> simp_all [children, boundNames, boundNamesAll_eq, boundNamesEntries_eq]

/-- What a node binds, the whole expression binds. -/
theorem boundNames_subset {d e : Expr} (h : d ∈ e.nodes) : d.boundNames ⊆ e.boundNames := by
  induction e using induction_children with
  | step e ih =>
    rw [nodes_eq] at h
    rcases List.mem_cons.1 h with rfl | h
    · exact List.Subset.refl _
    · obtain ⟨c, hc, hd⟩ := List.mem_flatMap.1 h
      exact List.Subset.trans (ih c hc hd) (boundNames_subset_of_mem_children hc)

theorem params_subset_boundNames {e body : Expr} {range : Range} {params : List String}
    (h : arrow range params body ∈ e.nodes) : params ⊆ e.boundNames := by
  refine List.Subset.trans ?_ (boundNames_subset h)
  rw [boundNames]
  exact List.subset_append_left ..

theorem letIn_mem_boundNames {e value : Expr} {range : Range} {x : String}
    (h : letIn range x value ∈ e.nodes) : x ∈ e.boundNames := by
  refine boundNames_subset h ?_
  rw [boundNames]
  exact List.mem_cons_self ..

/-! ## Locals that are set -/

/-- The nodes directly below a node that run when it does. -/
def parts : Expr → List Expr
  | arrow .. => []
  | e => e.children

/-- The local that a node declares, or that it assigns to, directly or in a part of it. -/
def set? : Expr → Option String
  | letIn _ x _ => some x
  | e => e.assigned?

/-- Running an expression may set a local: some node of it outside of its functions does. -/
inductive Sets (x : String) : Expr → Prop
  | here {e : Expr} (h : e.set? = some x) : Sets x e
  | part {c e : Expr} (hc : c ∈ e.parts) (h : Sets x c) : Sets x e

theorem parts_subset_children (e : Expr) : e.parts ⊆ e.children := by
  cases e with
  | arrow => exact List.nil_subset _
  | _ => exact List.Subset.refl _

theorem assignedNames_subset {d e : Expr} (h : d ∈ e.nodes) :
    d.assignedNames ⊆ e.assignedNames := by
  intro x hx
  obtain ⟨c, hc, hcx⟩ := List.mem_filterMap.1 hx
  exact List.mem_filterMap.2 ⟨c, nodes_subset h hc, hcx⟩

/-- A local that is set is assigned to or bound. -/
theorem Sets.mem {x : String} {e : Expr} (h : Sets x e) :
    x ∈ e.assignedNames ∨ x ∈ e.boundNames := by
  induction h with
  | @here e h =>
    cases e with
    | letIn range y value =>
      cases h
      exact .inr (letIn_mem_boundNames (self_mem_nodes _))
    | _ => exact .inl (List.mem_filterMap.2 ⟨_, self_mem_nodes _, h⟩)
  | part hc h ih =>
    have hmem := mem_nodes_of_mem_children (parts_subset_children _ hc)
    exact ih.imp (fun hx => assignedNames_subset hmem hx) (fun hx => boundNames_subset hmem hx)

/-! ## What the parser makes -/

/-- What all nodes of an expression satisfy, by what is directly below it. -/
theorem forall_nodes_iff {p : Expr → Prop} {e : Expr} :
    (∀ d ∈ e.nodes, p d) ↔ p e ∧ ∀ c ∈ e.children, ∀ d ∈ c.nodes, p d := by
  rw [nodes_eq]
  simp only [List.mem_cons, List.mem_flatMap, forall_eq_or_imp, forall_exists_index, and_imp]
  exact and_congr_right fun _ => ⟨fun h c hc d hd => h d c hc hd, fun h d c hc hd => h c hc d hd⟩

theorem isSource_iff {e : Expr} :
    IsSource e ↔ e.isAnchored = false ∧ ∀ c ∈ e.children, IsSource c := forall_nodes_iff

theorem IsSource.of_mem {d e : Expr} (h : IsSource e) (hd : d ∈ e.nodes) : IsSource d :=
  fun _ hc => h _ (nodes_subset hd hc)

end Expr

end ReactiveMarkup
