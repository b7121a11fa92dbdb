import ReactiveMarkup.Proofs.Compile.Undisturbed

/-!
# Aliases that are taken

When two scopes below one have the same alias, it stays with the first of them, and an error is
reported. The template of each scope keeps its alias all the same.

Main definitions: `ScopeTree.FirstNamed`, `ScopeTree.AliasesApart`, `ScopeTemplate.Copies`.
Main results: `Outline.Visits.named`, `Outline.ofDocument_named`, `Outline.copies_emit`.
-/
namespace ReactiveMarkup

namespace ScopeTree

variable {t : ScopeTree} {s : Scope} {i p : ScopeIndex} {name : String}

/-- The alias that a scope has. -/
def ownAlias? (t : ScopeTree) (i : ScopeIndex) : Option String := (t.get? i).bind (·.ownAlias)

/-- The scope that another one exposes under an alias. -/
def aliasOf? (t : ScopeTree) (i : ScopeIndex) (name : String) : Option ScopeIndex :=
  (t.get? i).bind fun s => s.aliases.lookup name

/-- Scopes come after those that they are below, and an alias leads to the first scope below that has
it. -/
structure FirstNamed (t : ScopeTree) : Prop where
  below : ∀ i, ∀ c ∈ t.parts i, i < c ∧ c < t.size
  first : ∀ i name, t.aliasOf? i name = (t.parts i).find? fun c => t.ownAlias? c = some name

/-- No two scopes below one have the same alias. -/
def AliasesApart (t : ScopeTree) : Prop :=
  ∀ i, ∀ c ∈ t.parts i, ∀ c' ∈ t.parts i, ∀ name, t.ownAlias? c = some name →
    t.ownAlias? c' = some name → c = c'

/-- Where aliases are apart, each leads to the only scope below that has it. -/
theorem FirstNamed.aliasOf?_eq (h : t.FirstNamed) (hapart : t.AliasesApart) {c : ScopeIndex}
    (hc : c ∈ t.parts i) (hname : t.ownAlias? c = some name) : t.aliasOf? i name = some c := by
  rw [h.first]
  cases hfind : (t.parts i).find? fun c => t.ownAlias? c = some name with
  | none => simpa [hname] using List.find?_eq_none.1 hfind c hc
  | some c' =>
    have hname' : t.ownAlias? c' = some name := by simpa using List.find?_some hfind
    rw [hapart i c hc c' (List.mem_of_find?_eq_some hfind) name hname hname']

/-! ## One more scope -/

theorem get?_size (t : ScopeTree) : t.get? t.size = none := List.getElem?_eq_none (Nat.le_refl _)

/-- Entering an alias changes no scope but for its aliases. -/
theorem enter_views (t : ScopeTree) (s : Scope) : (t.enter s).size = t.size ∧
    ∀ i, (t.enter s).parts i = t.parts i ∧ (t.enter s).ownAlias? i = t.ownAlias? i := by
  unfold enter
  split
  · split
    · exact ⟨rfl, fun _ => ⟨rfl, rfl⟩⟩
    · refine ⟨size_modify .., fun i => ⟨parts_modify fun _ => rfl, ?_⟩⟩
      rw [ownAlias?, get?_modify, ownAlias?, Option.bind_map]
      congr 1
      funext q
      dsimp only [Function.comp_apply]
      split <;> rfl
  · exact ⟨rfl, fun _ => ⟨rfl, rfl⟩⟩

theorem ownAlias?_push (t : ScopeTree) (s : Scope) (i : ScopeIndex) :
    (t.push s).ownAlias? i = if i = t.size then s.ownAlias else t.ownAlias? i := by
  rw [ownAlias?, get?_push]
  split
  · rfl
  · rw [ownAlias?, Option.bind_map]
    congr 1
    funext q
    dsimp only [Function.comp_apply]
    split <;> rfl

theorem aliasOf?_push (t : ScopeTree) (s : Scope) (i : ScopeIndex) (name : String) :
    (t.push s).aliasOf? i name = if i = t.size then s.aliases.lookup name else t.aliasOf? i name := by
  rw [aliasOf?, get?_push]
  split
  · rfl
  · rw [aliasOf?, Option.bind_map]
    congr 1
    funext q
    dsimp only [Function.comp_apply]
    split <;> rfl

/-- An alias that another scope has stays with that one. -/
theorem aliasOf?_enter (hparent : ∀ p, s.parent = some p → p < t.size) :
    (t.enter s).aliasOf? i name = (t.aliasOf? i name).or
      (if s.parent = some i ∧ s.ownAlias = some name then some t.size else none) := by
  unfold enter
  cases hown : s.ownAlias with
  | none => simp
  | some own =>
    cases hp : s.parent with
    | none => simp
    | some p =>
      have hlive : ∃ q, t.get? p = some q := ⟨_, List.getElem?_eq_getElem (hparent p hp)⟩
      obtain ⟨q, hq⟩ := hlive
      simp only [hq, Option.bind_some, Option.some.injEq]
      by_cases hhere : p = i ∧ own = name
      · obtain ⟨rfl, rfl⟩ := hhere
        cases htaken : q.aliases.lookup own with
        | some c => simp [aliasOf?, hq, htaken]
        | none => simp [aliasOf?, get?_modify, hq, htaken]
      · rw [if_neg hhere, Option.or_none]
        split
        · rfl
        · rw [aliasOf?, get?_modify, aliasOf?, Option.bind_map]
          congr 1
          funext r
          dsimp only [Function.comp_apply]
          split
          · rename_i hi
            exact Keyed.lookup_insert_of_ne (fun heq => hhere ⟨hi.symm, heq.symm⟩) ..
          · rfl

/-- What is below a scope in a tree with one more. -/
theorem parts_enter_push (hchildren : s.children = []) (hparent : ∀ p, s.parent = some p → p < t.size) :
    ((t.enter s).push s).parts i = t.parts i ++ if s.parent = some i then [t.size] else [] := by
  obtain ⟨hsize, hviews⟩ := t.enter_views s
  rw [parts_push, hsize, (hviews i).1, hchildren]
  split
  · rename_i hi
    have hnew : s.parent ≠ some i := fun hp => Nat.lt_irrefl _ (hi ▸ hparent i hp)
    rw [if_neg hnew, hi, parts, get?_size]
    rfl
  · by_cases hp : s.parent = some i <;> simp [hp, hparent]

theorem ownAlias?_enter_push :
    ((t.enter s).push s).ownAlias? i = if i = t.size then s.ownAlias else t.ownAlias? i := by
  obtain ⟨hsize, hviews⟩ := t.enter_views s
  rw [ownAlias?_push, hsize, (hviews i).2]

theorem FirstNamed.enter_push (h : t.FirstNamed) (hchildren : s.children = []) (haliases : s.aliases = [])
    (hparent : ∀ p, s.parent = some p → p < t.size) : ((t.enter s).push s).FirstNamed where
  below i c hc := by
    rw [size_push, (t.enter_views s).1]
    rw [parts_enter_push hchildren hparent] at hc
    rcases List.mem_append.1 hc with hc | hc
    · exact ⟨(h.below i c hc).1, Nat.lt_succ_of_lt (h.below i c hc).2⟩
    · split at hc
      · rename_i hp
        obtain rfl := List.mem_singleton.1 hc
        exact ⟨hparent i hp, Nat.lt_succ_self _⟩
      · cases hc
  first i name := by
    have hold : (t.parts i).find? (fun c => ((t.enter s).push s).ownAlias? c = some name) =
        t.aliasOf? i name := by
      rw [h.first, ← List.head?_filter, ← List.head?_filter]
      congr 1
      refine List.filter_congr fun c hc => ?_
      rw [ownAlias?_enter_push, if_neg (Nat.ne_of_lt (h.below i c hc).2)]
    rw [parts_enter_push hchildren hparent, List.find?_append, hold, aliasOf?_push,
      (t.enter_views s).1, haliases]
    split
    · rename_i hi
      have hnew : s.parent ≠ some i := fun hp => Nat.lt_irrefl _ (hi ▸ hparent i hp)
      rw [if_neg hnew, hi, aliasOf?, get?_size]
      rfl
    · rw [aliasOf?_enter hparent]
      congr 1
      by_cases hp : s.parent = some i <;> by_cases hown : s.ownAlias = some name <;>
        simp [hp, hown, ownAlias?_enter_push]

/-- A scope whose alias is not taken keeps aliases apart. -/
theorem AliasesApart.enter_push (h : t.AliasesApart) (ht : t.FirstNamed) (hchildren : s.children = [])
    (hparent : ∀ p, s.parent = some p → p < t.size)
    (hfree : ∀ p name, s.parent = some p → s.ownAlias = some name → t.aliasOf? p name = none) :
    ((t.enter s).push s).AliasesApart := by
  intro i
  rw [parts_enter_push hchildren hparent]
  by_cases hp : s.parent = some i
  · -- none of the scopes that are below already has the alias of the new one
    have hother (c : ScopeIndex) (hc : c ∈ t.parts i) (name : String) (hown : s.ownAlias = some name) :
        t.ownAlias? c ≠ some name := by
      have hnone := hfree i name hp hown
      rw [ht.first] at hnone
      simpa using List.find?_eq_none.1 hnone c hc
    have hold (c : ScopeIndex) (hc : c ∈ t.parts i) : c ≠ t.size := Nat.ne_of_lt (ht.below i c hc).2
    rw [if_pos hp]
    intro c hc c' hc' name hname hname'
    rw [ownAlias?_enter_push] at hname hname'
    rcases List.mem_append.1 hc with hc | hc <;> rcases List.mem_append.1 hc' with hc' | hc'
    · rw [if_neg (hold c hc)] at hname
      rw [if_neg (hold c' hc')] at hname'
      exact h i c hc c' hc' name hname hname'
    · rw [List.mem_singleton.1 hc', if_pos rfl] at hname'
      rw [if_neg (hold c hc)] at hname
      exact absurd hname (hother c hc name hname')
    · rw [List.mem_singleton.1 hc, if_pos rfl] at hname
      rw [if_neg (hold c' hc')] at hname'
      exact absurd hname' (hother c' hc' name hname)
    · rw [List.mem_singleton.1 hc, List.mem_singleton.1 hc']
  · rw [if_neg hp, List.append_nil]
    intro c hc c' hc' name hname hname'
    rw [ownAlias?_enter_push, if_neg (Nat.ne_of_lt (ht.below i c hc).2)] at hname
    rw [ownAlias?_enter_push, if_neg (Nat.ne_of_lt (ht.below i c' hc').2)] at hname'
    exact h i c hc c' hc' name hname hname'

end ScopeTree

/-! ## Templates -/

/-- A template under which all scopes of a tree that are below its own have theirs, in order and with
their aliases. -/
inductive ScopeTemplate.Copies (t : ScopeTree) : ScopeTemplate → Prop
  | intro {u : ScopeTemplate} (parts : u.children.map (·.index) = t.parts u.index)
      (aliases : ∀ c ∈ u.children, c.ownAlias = t.ownAlias? c.index)
      (below : ∀ c ∈ u.children, Copies t c) : Copies t u

namespace ScopeTree

variable {t : ScopeTree} {i : ScopeIndex}

theorem ownAlias_assemble (templates : List (List ValueTemplate × List EventTemplate)) (depth : Nat)
    (i : ScopeIndex) : (t.assemble templates (depth + 1) i).ownAlias = t.ownAlias? i := by
  rw [assemble, ownAlias?]
  cases t.get? i <;> rfl

/-- Nothing is cut off from a template that is made down to as many levels as scopes come after it. -/
theorem FirstNamed.copies_assemble (h : t.FirstNamed)
    (templates : List (List ValueTemplate × List EventTemplate)) {depth : Nat} (hi : i < t.size)
    (hdepth : t.size ≤ i + depth) : (t.assemble templates depth i).Copies t := by
  induction depth generalizing i with
  | zero => exact absurd hi (Nat.not_lt.2 hdepth)
  | succ depth ih =>
    obtain ⟨ownAlias, heq⟩ := assemble_succ (t := t) templates depth i
    have hbelow (c : ScopeIndex) (hc : c ∈ t.parts i) : c < t.size ∧ t.size ≤ c + depth := by
      obtain ⟨hlt, hsize⟩ := h.below i c hc
      have hnext : t.size ≤ i + 1 + depth := by
        rw [Nat.add_right_comm]
        exact hdepth
      exact ⟨hsize, Nat.le_trans hnext (Nat.add_le_add_right hlt depth)⟩
    rw [heq]
    refine .intro ?_ (fun u hu => ?_) fun u hu => ?_
    · rw [List.map_map]
      exact (List.map_congr_left fun j _ => index_assemble templates depth j).trans (List.map_id _)
    · obtain ⟨c, hc, rfl⟩ := List.mem_map.1 hu
      obtain ⟨hlt, hle⟩ := hbelow c hc
      cases depth with
      | zero => exact absurd hlt (Nat.not_lt.2 hle)
      | succ depth => rw [index_assemble, ownAlias_assemble]
    · obtain ⟨c, hc, rfl⟩ := List.mem_map.1 hu
      exact ih (hbelow c hc).1 (hbelow c hc).2

end ScopeTree

/-! ## The outline -/

namespace Scope

variable {s : Scope}

/-- What reading an element leaves of a scope: its parent, and that nothing is below it yet. -/
structure Bare (parent : Option ScopeIndex) (s : Scope) : Prop where
  parent_eq : s.parent = parent
  children : s.children = []
  aliases : s.aliases = []

namespace Bare

variable {parent : Option ScopeIndex}

theorem declare (h : s.Bare parent) (name : String) : (s.declare name).Bare parent := by
  rw [ScopeDraft.declare_eq]
  exact { h with }

theorem foldl_declare {α : Type} (h : s.Bare parent) (name : α → String) (xs : List α) :
    (xs.foldl (fun s x => s.declare (name x)) s).Bare parent := by
  induction xs generalizing s with
  | nil => exact h
  | cons x xs ih => exact ih (h.declare _)

theorem readAttribute (h : s.Bare parent) (a : String × String) : (s.readAttribute a).Bare parent := by
  unfold Scope.readAttribute
  split
  · exact h.declare _
  · exact h.declare _
  · exact { h with }
  · exact h
  · exact h
  · exact h

theorem foldl_readAttribute (h : s.Bare parent) (as : List (String × String)) :
    (as.foldl Scope.readAttribute s).Bare parent := by
  induction as generalizing s with
  | nil => exact h
  | cons a as ih => exact ih (h.readAttribute a)

theorem addCompanions (h : s.Bare parent) : s.addCompanions.Bare parent := by
  unfold Scope.addCompanions
  split
  · exact h.foldl_declare PendingValue.name _
  · exact h

end Bare

end Scope

theorem Document.bare_scopeOf (d : Document) (parent : Option ScopeIndex) (n : NodeId) :
    (d.scopeOf parent n).Bare parent := by
  have hempty : ({ Scope.empty parent with ownAlias := d.implicitAlias? n } : Scope).Bare parent :=
    ⟨rfl, rfl, rfl⟩
  have hread := (hempty.foldl_readAttribute (d.attributes n)).foldl_declare
    (fun t => ValueName.text t.2) (Outline.texts d n)
  exact { hread.addCompanions with }

namespace Outline

variable {o : CompileOptions} {source : Option String} {d : Document} {root n : NodeId}
  {done : List NodeId} {l : Outline}

/-- An alias that is taken is reported. -/
theorem duplicateAlias_mem_enterAlias {s : ScopeDraft} {p : ScopeIndex} {name : String}
    (hparent : s.scope.parent = some p) (hown : s.scope.ownAlias = some name)
    (htaken : (l.tree.aliasOf? p name).isSome) :
    ∃ e ∈ (l.enterAlias o s).errors, e.cause.isDuplicateAlias := by
  unfold enterAlias
  rw [hown, hparent]
  dsimp only
  rw [ScopeTree.aliasOf?] at htaken
  rw [if_pos htaken]
  exact ⟨_, List.mem_append_right _ (List.mem_singleton_self _), rfl⟩

/-- The tree of an outline while its elements are visited: aliases lead to the first scopes that have
them, and are apart unless an error tells otherwise. -/
structure Named (l : Outline) : Prop where
  firstNamed : l.tree.FirstNamed
  apart : (∀ e ∈ l.errors, e.cause.isDuplicateAlias = false) → l.tree.AliasesApart

theorem Visits.named (h : Visits o source d root done l) (hd : d.IsTree) (hnames : d.UniqueNames)
    (hroot : d.isElement root) : Named l := by
  induction h with
  | start =>
    have hparts (i : ScopeIndex) : ScopeTree.empty.parts i = [] := rfl
    refine ⟨⟨fun i c hc => ?_, fun _ _ => rfl⟩, fun _ i c hc => ?_⟩
    · rw [hparts] at hc
      cases hc
    · rw [hparts] at hc
      cases hc
  | @skip done l n before next plain ih =>
    obtain ⟨herrors, htree, -⟩ := findElement_eq n l
    refine ⟨htree ▸ ih.firstNamed, fun hnone => htree ▸ ih.apart (herrors ▸ hnone)⟩
  | @scope done l n parent before next annotated under old ih =>
    obtain ⟨herrors, htree, hdocument⟩ := findElement_eq n l
    obtain ⟨e, -, he', hnode⟩ :=
      ((before.progress hd hnames hroot).congr hdocument htree).standing hd hroot next
    generalize hl' : (l.findElement n).2.addScope o n parent (l.findElement n).1 = l'
    obtain ⟨l₁, s, htree₁, hscope, hadded, hentered⟩ :=
      addScope_enters o parent (l.findElement n).1 he' hnode
    have hpush : l'.tree = (l.tree.enter s.scope).push s.scope := by
      rw [← hl', hadded, enterAlias_tree, htree₁, htree]
    have hbare : s.scope.Bare parent := hscope ▸ Document.bare_scopeOf ..
    have hparent (p : ScopeIndex) (hp : s.scope.parent = some p) : p < l.tree.size :=
      old p (hbare.parent_eq.symm.trans hp)
    refine ⟨?_, fun hnone => ?_⟩
    · rw [hpush]
      exact ih.firstNamed.enter_push hbare.children hbare.aliases hparent
    · have hkept : l.errors ⊆ l'.errors := by
        obtain ⟨-, -, taken, heq⟩ := addScope_drafts o parent (l.findElement n).1 he' hnode
        rw [← hl', heq, herrors, List.append_assoc]
        exact List.subset_append_left ..
      rw [hpush]
      refine (ih.apart fun e he => hnone e (hkept he)).enter_push ih.firstNamed hbare.children hparent
        fun p name hp hown => ?_
      rw [← hl'] at hnone
      by_contra hsome
      rw [← ne_eq, Option.ne_none_iff_isSome, ← htree, ← htree₁] at hsome
      obtain ⟨e, he, hduplicate⟩ := duplicateAlias_mem_enterAlias (o := o) hp hown hsome
      rw [hnone e (hentered he)] at hduplicate
      cases hduplicate

/-- The outline of any tree. -/
theorem ofDocument_named (o : CompileOptions) (source : Option String) (hd : d.IsTree)
    (hnames : d.UniqueNames) : Named (ofDocument o source d) := by
  cases hroot : d.documentElement? with
  | none =>
    have hstart : ofDocument o source d = ⟨d, source.map .ofSource, .empty, [], []⟩ := by
      rw [ofDocument, hroot]
    rw [hstart]
    exact ⟨⟨fun i c hc => (by cases hc), fun _ _ => rfl⟩, fun _ i c hc => by cases hc⟩
  | some root => exact (ofDocument_visits source hd hnames hroot).named hd hnames (List.find?_some hroot)

/-- The program of any outline has the aliases of its tree. -/
theorem copies_emit (h : Named l) {t : ScopeTemplate} (ht : (l.emit o).program.root = some t) :
    t.Copies l.tree ∧ t.index = 0 := by
  rw [(emit_eq o l).2] at ht
  split at ht
  · cases ht
  · rename_i hsize
    obtain rfl := Option.some.inj ht
    exact ⟨h.firstNamed.copies_assemble _ (Nat.pos_of_ne_zero hsize) (Nat.le_of_eq (Nat.zero_add _).symm),
      ScopeTree.index_assemble ..⟩

end Outline

end ReactiveMarkup
