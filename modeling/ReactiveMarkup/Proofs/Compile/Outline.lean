import ReactiveMarkup.Compile.Outline
import ReactiveMarkup.Proofs.Document.Tree
import ReactiveMarkup.Proofs.Basic
import ReactiveMarkup.Proofs.Scope.Tree

/-!
# What an outline tells about its document

The scopes of an outline are numbered in the order in which their elements are met, so parents come
first. Each scope has one element, which is marked with its number and stands below the element of
its parent, and what waits for names in a scope is what the scope declares.

Main definitions: `Document.MarkerFree`, `ScopeDraft.Sound`, `Outline.Faithful`.
Main results: `Outline.readElement_faithful`, `Outline.ofDocument_faithful`.
-/
namespace ReactiveMarkup

namespace Document

variable {d d' : Document} {n : NodeId}

/-- No element has an attribute that marks elements, and no declared value writes to one. -/
structure MarkerFree (d : Document) (mark : String) : Prop where
  static : ∀ n, ∀ a ∈ d.attributes n, a.1 ≠ mark ∧ a.1 ≠ Marker.clone
  bound : ∀ n, ∀ a ∈ d.attributes n, ∀ name kind,
    Declaration.classify a.1 a.2 = .declares (.value name kind) → kind.Spares mark

theorem attributes_congr (h : d'.kind? n = d.kind? n) :
    d'.attributes n = d.attributes n := by
  rw [attributes, attributes, element?, element?, h]

theorem lt_size_of_mem_attributes {a : String × String} (h : a ∈ d.attributes n) : n < d.nodes.size := by
  cases hn : d.get? n with
  | none => simp [attributes, element?, kind?, hn] at h
  | some x => exact lt_size hn


instance (mark : String) (kind : ValueKind) : Decidable (kind.Spares mark) :=
  inferInstanceAs (Decidable (∀ name ∈ kind.attribute?, name ≠ mark ∧ name ≠ Marker.clone))

/-- Whether what an attribute is for leaves marks alone. -/
def sparesMarks (mark : String) : AttributeRole → Bool
  | .declares (.value _ kind) => kind.Spares mark
  | _ => true

theorem sparesMarks_iff {mark : String} {role : AttributeRole} : sparesMarks mark role = true ↔
    ∀ name kind, role = .declares (.value name kind) → kind.Spares mark := by
  constructor
  · rintro h name kind rfl
    exact of_decide_eq_true h
  · intro h
    unfold sparesMarks
    split
    · rename_i name kind
      exact decide_eq_true (h name kind rfl)
    · rfl

/-- Whether a document is free of marks can be told from its nodes. -/
theorem markerFree_iff {mark : String} : d.MarkerFree mark ↔
    ∀ n < d.nodes.size, ∀ a ∈ d.attributes n, (a.1 ≠ mark ∧ a.1 ≠ Marker.clone) ∧
      sparesMarks mark (Declaration.classify a.1 a.2) = true := by
  constructor
  · exact fun h n _ a ha => ⟨h.static n a ha, sparesMarks_iff.2 (h.bound n a ha)⟩
  · intro h
    refine ⟨fun n a ha => ?_, fun n a ha => ?_⟩
    · exact (h n (lt_size_of_mem_attributes ha) a ha).1
    · exact sparesMarks_iff.1 (h n (lt_size_of_mem_attributes ha) a ha).2

instance (mark : String) : Decidable (d.MarkerFree mark) := decidable_of_iff' _ markerFree_iff

theorem attribute?_eq_lookup (d : Document) (n : NodeId) (name : String) :
    d.attribute? n name = (d.attributes n).lookup name := by
  rw [attribute?, attributes]
  cases d.element? n <;> rfl

theorem attribute?_congr_attributes (h : d'.attributes n = d.attributes n) (name : String) :
    d'.attribute? n name = d.attribute? n name := by
  rw [attribute?_eq_lookup, attribute?_eq_lookup, h]

/-- So no element is marked yet. -/
theorem MarkerFree.attribute?_eq_none {mark : String} (h : d.MarkerFree mark) (n : NodeId) :
    d.attribute? n mark = none ∧ d.attribute? n Marker.clone = none := by
  rw [attribute?_eq_lookup, attribute?_eq_lookup, List.lookup_eq_none_iff, List.lookup_eq_none_iff]
  refine ⟨fun a ha => ?_, fun a ha => ?_⟩
  · exact bne_iff_ne.2 (Ne.symm (h.static n a ha).1)
  · exact bne_iff_ne.2 (Ne.symm (h.static n a ha).2)

end Document

/-- A kind that the text of a declaration may give to a value of some name. -/
def ValueKind.Befits (name : String) : ValueKind → Prop
  | .data => name = ValueName.data
  | .handler _ => False
  | _ => True

/-! ## Drafts -/

namespace ScopeDraft

variable {mark : String} {parent : Option ScopeIndex} {s : ScopeDraft}

/-- What holds of a scope under a parent while its element is read. -/
structure Sound (mark : String) (parent : Option ScopeIndex) (s : ScopeDraft) : Prop where
  parent_eq : s.scope.parent = parent
  children : s.scope.children = []
  aliases : s.scope.aliases = []
  declared : ∀ x, x ∈ s.scope.declared ↔ ∃ v ∈ s.pending.values, v.name = x
  spares : ∀ v ∈ s.pending.values, ∀ kind, v.kind = .known kind → kind.Spares mark
  befits : ∀ v ∈ s.pending.values, ∀ kind, v.kind = .known kind → kind.Befits v.name

theorem mem_declare {s : Scope} {name x : String} :
    x ∈ (s.declare name).declared ↔ x ∈ s.declared ∨ x = name := by
  unfold Scope.declare
  split
  · rename_i h
    have hname : name ∈ s.declared := by simpa using h
    refine ⟨.inl, fun hx => ?_⟩
    rcases hx with hx | rfl
    · exact hx
    · exact hname
  · simp

/-- A scope with one more name is otherwise the same. -/
theorem declare_eq (s : Scope) (name : String) :
    s.declare name = { s with declared := (s.declare name).declared } := by
  unfold Scope.declare
  split <;> rfl

theorem Sound.addValue (h : Sound mark parent s) {v : PendingValue}
    (hspares : ∀ kind, v.kind = .known kind → kind.Spares mark)
    (hbefits : ∀ kind, v.kind = .known kind → kind.Befits v.name) :
    Sound mark parent (s.addValue v) where
  parent_eq := by
    rw [ScopeDraft.addValue, declare_eq]
    exact h.parent_eq
  children := by
    rw [ScopeDraft.addValue, declare_eq]
    exact h.children
  aliases := by
    rw [ScopeDraft.addValue, declare_eq]
    exact h.aliases
  declared x := by
    change x ∈ (s.scope.declare v.name).declared ↔ ∃ w ∈ s.pending.values ++ [v], w.name = x
    rw [mem_declare, h.declared]
    simp [or_and_right, exists_or, eq_comm]
  spares w hw := by
    rcases List.mem_append.1 hw with hw | hw
    · exact h.spares w hw
    · rw [List.mem_singleton.1 hw]
      exact hspares
  befits w hw := by
    rcases List.mem_append.1 hw with hw | hw
    · exact h.befits w hw
    · rw [List.mem_singleton.1 hw]
      exact hbefits

end ScopeDraft

namespace Declaration

theorem befits_kindOf (name : String) : (kindOf name).Befits name := by
  unfold kindOf
  split
  · assumption
  · split <;> trivial

theorem befits_of_mem_forms {form : String × (String → Declaration)} (h : form ∈ forms)
    {rest x : String} {kind : ValueKind} (hmake : form.2 rest = .value x kind) : kind.Befits x := by
  simp only [forms, List.mem_cons, List.not_mem_nil, or_false] at h
  rcases h with rfl | rfl | rfl | rfl | rfl <;> cases hmake <;> trivial

/-- What an attribute declares has a kind that befits its name. -/
theorem befits_of_classify {name text x : String} {kind : ValueKind}
    (h : classify name text = .declares (.value x kind)) : kind.Befits x := by
  unfold classify at h
  split at h
  · rename_i rest _
    split at h
    · rename_i declared hname
      obtain rfl := AttributeRole.declares.inj h
      unfold ofName? at hname
      split at hname
      · cases hname
      · split at hname
        · rename_i start make hfind
          dsimp only at hname
          split at hname
          · cases hname
          · exact befits_of_mem_forms (List.mem_of_find?_eq_some hfind) (Option.some.inj hname)
        · dsimp only at hname
          split at hname
          · cases hname
          · obtain ⟨rfl, rfl⟩ := Declaration.value.inj (Option.some.inj hname)
            exact befits_kindOf _
    · cases h
  · split at h
    · obtain ⟨rfl, rfl⟩ := Declaration.value.inj (AttributeRole.declares.inj h)
      trivial
    · cases h

end Declaration

namespace ScopeDraft

variable {mark : String} {parent : Option ScopeIndex} {s : ScopeDraft}

/-- What an attribute declares. -/
theorem Sound.add (h : Sound mark parent s) {name raw : String} {d : Declaration} (place : Option Nat)
    (hd : Declaration.classify name raw = .declares d)
    (hspares : ∀ x kind, d = .value x kind → kind.Spares mark) : Sound mark parent (s.add d raw place) := by
  cases d with
  | value x kind =>
    refine h.addValue (fun k hk => ?_) fun k hk => ?_
    · obtain rfl := PendingKind.known.inj hk
      exact hspares x kind rfl
    · obtain rfl := PendingKind.known.inj hk
      exact Declaration.befits_of_classify hd
  | handler x watched => exact h.addValue (fun _ hk => by cases hk) fun _ hk => by cases hk
  | event x => exact { h with }
  | ownAlias => exact { h with }

/-! ### Companions -/

/-- Adding values declares their names, and forgets none. -/
theorem mem_declared_foldl_addValue (vs : List PendingValue) (s : ScopeDraft) (x : String) :
    x ∈ (vs.foldl (fun s v => s.addValue v) s).scope.declared ↔
      x ∈ s.scope.declared ∨ ∃ v ∈ vs, v.name = x := by
  induction vs generalizing s with
  | nil => simp
  | cons v vs ih =>
    rw [List.foldl_cons, ih, addValue, mem_declare]
    simp [or_assoc, eq_comm]

theorem Sound.foldl_addValue (h : Sound mark parent s) {vs : List PendingValue} (hvs : vs ⊆ companions) :
    Sound mark parent (vs.foldl (fun s v => s.addValue v) s) := by
  induction vs generalizing s with
  | nil => exact h
  | cons v vs ih =>
    refine ih (h.addValue ?_ ?_) fun w hw => hvs (List.mem_cons_of_mem _ hw)
    all_goals
      have hv := hvs (List.mem_cons_self ..)
      simp only [companions, List.mem_cons, List.not_mem_nil, or_false] at hv
      intro kind hkind
      rcases hv with rfl | rfl | rfl <;> obtain rfl := PendingKind.known.inj hkind
    · exact fun _ hk => by cases hk
    · exact fun _ hk => by cases hk
    · exact fun _ hk => by cases hk
    · rfl
    · trivial
    · trivial

theorem Sound.addCompanions (h : Sound mark parent s) : Sound mark parent s.addCompanions := by
  unfold ScopeDraft.addCompanions
  dsimp only
  split
  · exact h.foldl_addValue (List.filter_sublist.subset)
  · exact h

/-- Where there is data, the window of its list is declared. -/
theorem window_addCompanions (h : ValueName.data ∈ s.addCompanions.scope.declared) :
    ValueName.dataOffset ∈ s.addCompanions.scope.declared ∧
      ValueName.dataLength ∈ s.addCompanions.scope.declared := by
  unfold ScopeDraft.addCompanions at h ⊢
  dsimp only at h ⊢
  split at h
  · rename_i hneeded
    rw [if_pos hneeded]
    have hall (v : PendingValue) (hv : v ∈ companions) : v.name ∈ ((companions.filter fun v =>
        !s.scope.declared.contains v.name).foldl (fun s v => s.addValue v) s).scope.declared := by
      rw [mem_declared_foldl_addValue]
      by_cases hd : v.name ∈ s.scope.declared
      · exact .inl hd
      · exact .inr ⟨v, List.mem_filter.2 ⟨hv, by simpa using hd⟩, rfl⟩
    exact ⟨hall _ (.tail _ (.head _)), hall _ (.tail _ (.tail _ (.head _)))⟩
  · rename_i hneeded
    refine absurd ?_ hneeded
    simp [h]

end ScopeDraft

/-! ## Reading one element -/

namespace Outline

variable {o : CompileOptions} {node : NodeId} {l l' l'' : Outline}

/-- An outline that may have lost attributes of one element, and texts. -/
structure Trims (node : NodeId) (l l' : Outline) : Prop where
  tree : l'.tree = l.tree
  pending : l'.pending = l.pending
  size : l'.document.nodes.size = l.document.nodes.size
  parent : ∀ n, l'.document.parent? n = l.document.parent? n
  children : ∀ n, l'.document.children n = l.document.children n
  attributes : ∀ n, n ≠ node → l'.document.attributes n = l.document.attributes n
  removed : ∀ name, l.document.attribute? node name = none → l'.document.attribute? node name = none

namespace Trims

theorem refl (node : NodeId) (l : Outline) : Trims node l l :=
  ⟨rfl, rfl, rfl, fun _ => rfl, fun _ => rfl, fun _ _ => rfl, fun _ h => h⟩

theorem trans (h : Trims node l l') (h' : Trims node l' l'') : Trims node l l'' where
  tree := h'.tree.trans h.tree
  pending := h'.pending.trans h.pending
  size := h'.size.trans h.size
  parent n := (h'.parent n).trans (h.parent n)
  children n := (h'.children n).trans (h.children n)
  attributes n hn := (h'.attributes n hn).trans (h.attributes n hn)
  removed name hname := h'.removed name (h.removed name hname)

end Trims

/-- A change without an error was made, and there was no error before. -/
theorem change_eq_of_errors {place : Option Nat} {f : Document → Document.Change}
    (h : (l.change o place f).errors = []) : l.errors = [] ∧
      ∃ document, f l.document = .ok document ∧ l.change o place f = { l with document } := by
  unfold change at h ⊢
  cases hf : f l.document with
  | error e =>
    rw [hf] at h
    simp [report] at h
  | ok document =>
    rw [hf] at h
    exact ⟨h, document, rfl, rfl⟩

/-- Taking an attribute out of the element. -/
theorem Trims.removeAttribute {name : String} {document : Document}
    (h : l.document.removeAttribute node name = .ok document) :
    Trims node l { l with document } := by
  obtain ⟨hsize, hparent, hchildren, e, he, hkind⟩ := Document.modifyElement_eq_ok h
  refine ⟨rfl, rfl, hsize, hparent, hchildren, fun n hn => Document.attributes_congr ?_, fun other hother => ?_⟩
  · rw [hkind, if_neg hn]
  · rw [Document.attribute?, Document.element?, he] at hother
    rw [Document.attribute?, Document.element?, hkind, if_pos rfl]
    by_cases hname : other = name
    · rw [hname]
      exact Element.attribute?_removeAttribute_self e name
    · exact (Element.attribute?_removeAttribute_of_ne hname).trans hother

/-- Emptying a text. -/
theorem Trims.setText {text : NodeId} {s : String} {document : Document}
    (h : l.document.setText text s = .ok document) : Trims node l { l with document } := by
  obtain ⟨hsize, hparent, hchildren, helement, -⟩ := Document.setText_eq_ok h
  refine ⟨rfl, rfl, hsize, hparent, hchildren, fun n _ => ?_, fun name hname => ?_⟩
  · rw [Document.attributes, Document.attributes, helement]
  · rw [Document.attribute?, helement]
    exact hname

variable {mark : String} {parent : Option ScopeIndex} {s : ScopeDraft}

/-- Reading an attribute without an error. -/
theorem readAttribute_trims {a : String × String} (h : (readAttribute o node (l, s) a).1.errors = []) :
    l.errors = [] ∧ Trims node l (readAttribute o node (l, s) a).1 := by
  obtain ⟨name, raw⟩ := a
  unfold readAttribute at h ⊢
  dsimp only at h ⊢
  cases hrole : Declaration.classify name raw with
  | static =>
    rw [hrole] at h
    exact ⟨h, .refl node l⟩
  | nameless =>
    rw [hrole] at h
    obtain ⟨hreport, -⟩ := change_eq_of_errors h
    simp [report] at hreport
  | declares d =>
    rw [hrole] at h
    obtain ⟨hl, document, hdocument, heq⟩ := change_eq_of_errors h
    dsimp only
    rw [heq]
    exact ⟨hl, .removeAttribute hdocument⟩

theorem readAttributes_trims (node : NodeId) (as : List (String × String))
    (h : (as.foldl (readAttribute o node) (l, s)).1.errors = []) :
    l.errors = [] ∧ Trims node l (as.foldl (readAttribute o node) (l, s)).1 := by
  induction as generalizing l s with
  | nil => exact ⟨h, .refl node l⟩
  | cons a as ih =>
    rw [List.foldl_cons] at h ⊢
    obtain ⟨hl₁, htrims₁⟩ := ih h
    obtain ⟨hl, htrims⟩ := readAttribute_trims hl₁
    exact ⟨hl, htrims.trans htrims₁⟩

/-- What attributes declare goes into the draft. -/
theorem readAttributes_sound (node : NodeId) (as : List (String × String)) (hs : s.Sound mark parent)
    (hspares : ∀ a ∈ as, ∀ x kind, Declaration.classify a.1 a.2 = .declares (.value x kind) →
      kind.Spares mark) : (as.foldl (readAttribute o node) (l, s)).2.Sound mark parent := by
  induction as generalizing l s with
  | nil => exact hs
  | cons a as ih =>
    obtain ⟨name, raw⟩ := a
    refine ih ?_ fun b hb => hspares b (List.mem_cons_of_mem _ hb)
    change (readAttribute o node (l, s) (name, raw)).2.Sound mark parent
    unfold readAttribute
    dsimp only
    cases hrole : Declaration.classify name raw with
    | static => exact hs
    | nameless => exact hs
    | declares d =>
      refine hs.add _ hrole fun x kind hd => hspares _ (List.mem_cons_self ..) x kind ?_
      rw [hrole, hd]

/-- Reading texts without an error. -/
theorem readTexts_trims (node : NodeId) (ts : List ((NodeId × String) × Nat))
    (h : (ts.foldl (readText o) (l, s)).1.errors = []) :
    l.errors = [] ∧ Trims node l (ts.foldl (readText o) (l, s)).1 := by
  induction ts generalizing l s with
  | nil => exact ⟨h, .refl node l⟩
  | cons t ts ih =>
    obtain ⟨⟨text, raw⟩, place⟩ := t
    rw [List.foldl_cons] at h ⊢
    obtain ⟨hl₁, htrims₁⟩ := ih h
    obtain ⟨hl, document, hdocument, heq⟩ := change_eq_of_errors hl₁
    refine ⟨hl, .trans ?_ htrims₁⟩
    change Trims node l (l.change o s.pending.element (·.setText text ""))
    rw [heq]
    exact .setText hdocument

theorem readTexts_sound (ts : List ((NodeId × String) × Nat)) (hs : s.Sound mark parent) :
    (ts.foldl (readText o) (l, s)).2.Sound mark parent := by
  induction ts generalizing l s with
  | nil => exact hs
  | cons t ts ih =>
    refine ih (hs.addValue (fun kind hkind => ?_) fun kind hkind => ?_)
    · obtain rfl := PendingKind.known.inj hkind
      exact fun _ hk => by cases hk
    · obtain rfl := PendingKind.known.inj hkind
      trivial

theorem errors_of_enterAlias (h : (l.enterAlias o s).errors = []) : l.errors = [] := by
  unfold enterAlias at h
  split at h
  · dsimp only at h
    split at h
    · simp [report] at h
    · exact h
  · exact h

/-- Entering an alias and then the scope makes the tree grow. -/
theorem enterAlias_spec (h : (l.enterAlias o s).errors = [])
    (hparent : ∀ p, s.scope.parent = some p → p < l.tree.size) (hchildren : s.scope.children = [])
    (haliases : s.scope.aliases = []) :
    l.enterAlias o s = { l with tree := (l.enterAlias o s).tree } ∧
      (l.enterAlias o s).tree.size = l.tree.size ∧
      l.tree.Grows s.scope ((l.enterAlias o s).tree.push s.scope) := by
  unfold enterAlias at h ⊢
  cases hown : s.scope.ownAlias with
  | none =>
    refine ⟨rfl, rfl, fun j => ?_, hparent, hchildren, haliases, fun p q name _ _ hname => ?_⟩
    · rw [ScopeTree.get?_push]
      simp only [hown, Scope.adopt]
    · rw [hown] at hname
      cases hname
  | some name =>
    cases hp : s.scope.parent with
    | none =>
      refine ⟨rfl, rfl, fun j => ?_, hparent, hchildren, haliases, fun p q name hp' _ _ => ?_⟩
      · rw [ScopeTree.get?_push]
        simp [hp]
      · rw [hp] at hp'
        cases hp'
    | some p =>
      rw [hown, hp] at h
      dsimp only at h ⊢
      split at h
      · simp [report] at h
      · rename_i hfree
        rw [if_neg hfree]
        refine ⟨rfl, ScopeTree.size_modify .., fun j => ?_, hparent, hchildren, haliases,
          fun p' q name' hp' hq hname' => ?_⟩
        · rw [ScopeTree.get?_push, ScopeTree.get?_modify, ScopeTree.size_modify, Option.map_map, hown, hp]
          split
          · rfl
          · refine Option.map_congr fun q _ => ?_
            by_cases hj : j = p
            · simp [hj, Scope.adopt]
            · simp [hj, Ne.symm hj]
        · rw [hp] at hp'
          obtain rfl := Option.some.inj hp'
          rw [hown] at hname'
          obtain rfl := Option.some.inj hname'
          rw [hq] at hfree
          exact Option.not_isSome_iff_eq_none.1 hfree

/-- What waits for names in a scope is what the scope declares. -/
structure Drafted (mark : String) (s : Scope) (p : PendingScope) : Prop where
  declared : ∀ x, x ∈ s.declared ↔ ∃ v ∈ p.values, v.name = x
  spares : ∀ v ∈ p.values, ∀ kind, v.kind = .known kind → kind.Spares mark
  unknown : ∀ v ∈ p.values, ∀ watched, v.kind ≠ .known (.handler watched)
  window : ∀ v ∈ p.values, v.kind = .known .data →
    ValueName.dataOffset ∈ s.declared ∧ ValueName.dataLength ∈ s.declared

theorem errors_of_addScope {element : Option Nat} (h : (l.addScope o node parent element).errors = []) :
    l.errors = [] := by
  unfold addScope at h
  dsimp only at h
  obtain ⟨hentered, -⟩ := change_eq_of_errors h
  exact (readAttributes_trims node _ (readTexts_trims node _ (errors_of_enterAlias hentered)).1).1

/-- Making the scope of an element. -/
theorem addScope_spec (mark : String) {element : Option Nat}
    (h : (l.addScope o node parent element).errors = [])
    (hparent : ∀ p, parent = some p → p < l.tree.size)
    (hspares : ∀ a ∈ l.document.attributes node, ∀ x kind,
      Declaration.classify a.1 a.2 = .declares (.value x kind) → kind.Spares mark) :
    ∃ (l₁ : Outline) (s : ScopeDraft), Trims node l l₁ ∧ s.scope.parent = parent ∧
      Drafted mark s.scope s.pending ∧
      l.tree.Grows s.scope (l.addScope o node parent element).tree ∧
      (l.addScope o node parent element).pending = l.pending ++ [s.pending] ∧
      l₁.document.setAttribute node o.scopeAttribute (toString l.tree.size) =
        .ok (l.addScope o node parent element).document := by
  unfold addScope at h ⊢
  dsimp only at h ⊢
  generalize hs₀ : (ScopeDraft.setAlias (l.document.implicitAlias? node)
    ⟨.empty parent, ⟨[], [], element⟩⟩) = s₀ at h ⊢
  have hsound₀ : s₀.Sound mark parent := by
    rw [← hs₀]
    exact ⟨rfl, rfl, rfl, fun x => by simp [ScopeDraft.setAlias, Scope.empty],
      fun v hv => (by cases hv), fun v hv => by cases hv⟩
  generalize hu : (l.document.attributes node).foldl (readAttribute o node) (l, s₀) = u at h ⊢
  obtain ⟨l₁, s₁⟩ := u
  dsimp only at h ⊢
  generalize hv : (texts l₁.document node).foldl (readText o) (l₁, s₁) = v at h ⊢
  obtain ⟨l₂, s₂⟩ := v
  dsimp only at h ⊢
  generalize hs : s₂.addCompanions.setAlias (s₂.addCompanions.scope.ownAlias.filter
    fun a => !a.isEmpty) = s at h ⊢
  -- the errors of every step are among those at the end
  obtain ⟨herrors₃, document, hset, heq⟩ := change_eq_of_errors h
  have htrims : Trims node l l₂ := by
    have htrims₂ := readTexts_trims node (texts l₁.document node) (o := o) (l := l₁) (s := s₁)
    have htrims₁ := readAttributes_trims node (l.document.attributes node) (o := o) (l := l) (s := s₀)
    rw [hv] at htrims₂
    rw [hu] at htrims₁
    obtain ⟨herrors₁, htrims₂⟩ := htrims₂ (errors_of_enterAlias herrors₃)
    exact (htrims₁ herrors₁).2.trans htrims₂
  have hsound : s.Sound mark parent := by
    have hsound₁ := readAttributes_sound node (o := o) (l := l) _ hsound₀ hspares
    rw [hu] at hsound₁
    have hsound₂ := readTexts_sound (o := o) (l := l₁) (texts l₁.document node) hsound₁
    rw [hv] at hsound₂
    rw [← hs]
    exact { hsound₂.addCompanions with }
  have hdrafted : Drafted mark s.scope s.pending := by
    refine ⟨hsound.declared, hsound.spares, fun v hv _ hkind => hsound.befits v hv _ hkind,
      fun v hv hkind => ?_⟩
    have hdata : ValueName.data ∈ s.scope.declared :=
      (hsound.declared _).2 ⟨v, hv, hsound.befits v hv _ hkind⟩
    rw [← hs] at hdata ⊢
    exact ScopeDraft.window_addCompanions hdata
  obtain ⟨hentered, hsize, hgrows⟩ := enterAlias_spec herrors₃ (fun p hp => by
    rw [htrims.tree]
    exact hparent p (hsound.parent_eq.symm.trans hp)) hsound.children hsound.aliases
  rw [htrims.tree] at hgrows hsize
  rw [heq]
  rw [hsize] at hset
  refine ⟨l₂, s, htrims, hsound.parent_eq, hdrafted, hgrows, ?_, ?_⟩
  · rw [hentered]
    exact congrArg (· ++ [s.pending]) htrims.pending
  · rw [hentered] at hset
    exact hset

/-! ## Reading all elements -/

/-- What an outline tells about the document that it is read from; `homes` are the elements of its
scopes. -/
structure Faithful (d : Document) (mark : String) (homes : List NodeId) (l : Outline) : Prop where
  size : l.document.nodes.size = d.nodes.size
  parent : ∀ n, l.document.parent? n = d.parent? n
  children : ∀ n, l.document.children n = d.children n
  attributes : ∀ n, n ∉ homes → l.document.attributes n = d.attributes n
  marked : ∀ (i : ScopeIndex) n, homes[i]? = some n → l.document.attribute? n mark = some (toString i)
  clone : mark ≠ Marker.clone → ∀ n, l.document.attribute? n Marker.clone = none
  length : homes.length = l.tree.size
  tree : l.tree.Sound
  below : ∀ i s p, l.tree.get? i = some s → s.parent = some p → ∃ n m c k, homes[p]? = some n ∧
    homes[i]? = some m ∧ c ∈ d.children n ∧ d.Open k c m ∧ k < d.nodes.size
  pending_length : l.pending.length = l.tree.size
  pending : ∀ i s p, l.tree.get? i = some s → l.pending[i]? = some p → Drafted mark s p

/-- A node stands below the element of a scope, with room for so many nodes further down. -/
def Stands (d : Document) (homes : List NodeId) (parent : Option ScopeIndex) (node : NodeId)
    (room : Nat) : Prop :=
  ∀ p, parent = some p → ∃ n c k, homes[p]? = some n ∧ c ∈ d.children n ∧ d.Open k c node ∧
    k + room < d.nodes.size

theorem Stands.append {d : Document} {homes : List NodeId} {room : Nat}
    (h : Stands d homes parent node room) (new : List NodeId) :
    Stands d (homes ++ new) parent node room := by
  intro p hp
  obtain ⟨n, c, k, hn, hrest⟩ := h p hp
  refine ⟨n, c, k, ?_, hrest⟩
  rw [List.getElem?_append_left (List.getElem?_eq_some_iff.1 hn).1]
  exact hn

namespace Faithful

variable {d : Document} {homes : List NodeId}

theorem findElement (h : Faithful d mark homes l) (node : NodeId) :
    Faithful d mark homes (l.findElement node).2 := by
  unfold Outline.findElement
  split <;> exact { h with }

/-- The scope of an element that has none yet. -/
theorem addScope (h : Faithful d o.scopeAttribute homes l) (hd : d.MarkerFree o.scopeAttribute)
    {element : Option Nat} {room : Nat} (hnode : node ∉ homes)
    (hstands : Stands d homes parent node room)
    (herrors : (l.addScope o node parent element).errors = []) :
    Faithful d o.scopeAttribute (homes ++ [node]) (l.addScope o node parent element) := by
  have hlt (p : ScopeIndex) (hp : parent = some p) : p < l.tree.size := by
    obtain ⟨n, -, -, hn, -⟩ := hstands p hp
    rw [← h.length]
    exact (List.getElem?_eq_some_iff.1 hn).1
  obtain ⟨l₁, s, htrims, hparent, hdrafted, hgrows, hpending, hset⟩ :=
    addScope_spec o.scopeAttribute herrors hlt fun a ha x kind hrole => by
      rw [h.attributes node hnode] at ha
      exact hd.bound node a ha x kind hrole
  obtain ⟨hsize, hparents, hchildren, e, he, hkind⟩ := Document.modifyElement_eq_ok hset
  have hattributes (n : NodeId) (hn : n ≠ node) :
      (l.addScope o node parent element).document.attributes n = l.document.attributes n := by
    refine (Document.attributes_congr ?_).trans (htrims.attributes n hn)
    rw [hkind, if_neg hn]
  have hself (name : String) : (l.addScope o node parent element).document.attribute? node name =
      (e.setAttribute o.scopeAttribute (toString l.tree.size)).attribute? name := by
    simp [Document.attribute?, Document.element?, hkind]
  have hold {i : Nat} {n : NodeId} (hn : homes[i]? = some n) : (homes ++ [node])[i]? = some n := by
    rw [List.getElem?_append_left (List.getElem?_eq_some_iff.1 hn).1]
    exact hn
  have hlast : (homes ++ [node])[l.tree.size]? = some node := by
    rw [← h.length]
    exact List.getElem?_concat_length
  exact {
    size := hsize.trans (htrims.size.trans h.size)
    parent := fun n => (hparents n).trans ((htrims.parent n).trans (h.parent n))
    children := fun n => (hchildren n).trans ((htrims.children n).trans (h.children n))
    attributes := by
      intro n hn
      simp only [List.mem_append, List.mem_singleton, not_or] at hn
      exact (hattributes n hn.2).trans (h.attributes n hn.1)
    marked := by
      intro i n hi
      rcases of_getElem?_concat hi with hhome | ⟨rfl, rfl⟩
      · have hne : n ≠ node := by
          rintro rfl
          exact hnode (List.mem_of_getElem? hhome)
        rw [Document.attribute?_congr_attributes (hattributes n hne)]
        exact h.marked i n hhome
      · rw [hself, h.length, Element.attribute?_setAttribute_self]
    clone := by
      intro hmark n
      by_cases hn : n = node
      · rw [hn, hself, Element.attribute?_setAttribute_of_ne (Ne.symm hmark)]
        have hnone := htrims.removed _ (h.clone hmark node)
        rw [Document.attribute?, Document.element?, he] at hnone
        exact hnone
      · rw [Document.attribute?_congr_attributes (hattributes n hn)]
        exact h.clone hmark n
    length := by
      rw [hgrows.size_eq, ← h.length, List.length_append, List.length_singleton]
    tree := h.tree.grow hgrows
    below := by
      intro i s' p hs' hp
      rcases hgrows.cases hs' with ⟨rfl, rfl⟩ | ⟨q, hq, rfl⟩
      · obtain ⟨n, c, k, hn, hc, hopen, hk⟩ := hstands p (hparent.symm.trans hp)
        exact ⟨n, node, c, k, hold hn, hlast, hc, hopen, by omega⟩
      · rw [(ScopeTree.Grows.adopt_ite s.scope _ i q).1] at hp
        obtain ⟨n, m, c, k, hn, hm, hrest⟩ := h.below i q p hq hp
        exact ⟨n, m, c, k, hold hn, hold hm, hrest⟩
    pending_length := by
      rw [hpending, hgrows.size_eq, List.length_append, h.pending_length, List.length_singleton]
    pending := by
      intro i s' p hs' hp
      rw [hpending] at hp
      rcases hgrows.cases hs' with ⟨rfl, rfl⟩ | ⟨q, hq, rfl⟩
      · rw [← h.pending_length, List.getElem?_concat_length] at hp
        exact Option.some.inj hp ▸ hdrafted
      · have hlt := ScopeTree.lt_size hq
        rw [List.getElem?_append_left (by rw [h.pending_length]; exact hlt)] at hp
        have hdrafted' := h.pending i q p hq hp
        split
        · exact { hdrafted' with }
        · exact hdrafted' }

end Faithful

/-- Reading an element: finding its tag, making its scope if it gets one, and reading the elements
under it. -/
theorem readElement_succ (o : CompileOptions) (depth : Nat) (parent : Option ScopeIndex) (l : Outline)
    (node : NodeId) : ∃ element l₁, l.findElement node = (element, l₁) ∧
      readElement o (depth + 1) parent l node =
        if l₁.document.isAnnotated node then
          let l₂ := l₁.addScope o node parent element
          (l₂.document.elementChildren node).foldl (readElement o depth (some l₁.tree.size)) l₂
        else (l₁.document.elementChildren node).foldl (readElement o depth parent) l₁ := by
  rcases hfind : l.findElement node with ⟨element, l₁⟩
  refine ⟨element, l₁, rfl, ?_⟩
  rw [readElement, hfind]
  dsimp only
  split <;> rfl

theorem findElement_eq (node : NodeId) (l : Outline) :
    (l.findElement node).2.errors = l.errors ∧ (l.findElement node).2.tree = l.tree ∧
      (l.findElement node).2.document = l.document := by
  unfold findElement
  split <;> exact ⟨rfl, rfl, rfl⟩

/-- Whatever an element holds, reading it keeps earlier errors. -/
theorem errors_of_readElement {depth : Nat} (h : (readElement o depth parent l node).errors = []) :
    l.errors = [] := by
  induction depth generalizing parent l node with
  | zero => exact h
  | succ depth ih =>
    have hall {scope : Option ScopeIndex} {nodes : List NodeId} {l : Outline}
        (h : (nodes.foldl (readElement o depth scope) l).errors = []) : l.errors = [] := by
      induction nodes generalizing l with
      | nil => exact h
      | cons n nodes ih' => exact ih (ih' h)
    obtain ⟨element, l₁, hfind, heq⟩ := readElement_succ o depth parent l node
    have hsame := (findElement_eq node l).1
    rw [hfind] at hsame
    rw [heq] at h
    rw [← hsame]
    split at h
    · exact errors_of_addScope (hall h)
    · exact hall h

/-- Reading elements that stand under the same one. -/
theorem errors_of_readElements {depth : Nat} {nodes : List NodeId}
    (h : (nodes.foldl (readElement o depth parent) l).errors = []) : l.errors = [] := by
  induction nodes generalizing l with
  | nil => exact h
  | cons n nodes ih => exact errors_of_readElement (ih h)

variable {d : Document}

/-- Reading an element without an error, down to some levels, makes scopes for elements below it
only. -/
def Reads (o : CompileOptions) (d : Document) (depth : Nat) : Prop :=
  ∀ {parent : Option ScopeIndex} {node : NodeId} {homes : List NodeId} {l : Outline},
    Faithful d o.scopeAttribute homes l → (∀ x ∈ homes, ¬d.Below node x) →
    Stands d homes parent node depth → (readElement o depth parent l node).errors = [] →
    ∃ new, (∀ x ∈ new, d.Below node x) ∧
      Faithful d o.scopeAttribute (homes ++ new) (readElement o depth parent l node)

/-- Reading elements that stand under the same one, which have nothing below them in common. -/
theorem Reads.forall {depth : Nat} {homes nodes : List NodeId} (hread : Reads o d depth)
    (hd : d.IsTree) (hnodup : nodes.Nodup) (hsub : nodes ⊆ d.children node)
    (h : Faithful d o.scopeAttribute homes l) (hapart : ∀ n ∈ nodes, ∀ x ∈ homes, ¬d.Below n x)
    (hstands : ∀ n ∈ nodes, Stands d homes parent n depth)
    (herrors : (nodes.foldl (readElement o depth parent) l).errors = []) :
    ∃ new, (∀ x ∈ new, d.Below node x) ∧ Faithful d o.scopeAttribute (homes ++ new)
      (nodes.foldl (readElement o depth parent) l) := by
  induction nodes generalizing l homes with
  | nil => exact ⟨[], fun x hx => (by cases hx), by rwa [List.append_nil]⟩
  | cons n nodes ih =>
    rw [List.nodup_cons] at hnodup
    obtain ⟨hn, hrest⟩ := List.cons_subset.1 hsub
    obtain ⟨new, hnew, hfirst⟩ := hread h (hapart n (List.mem_cons_self ..))
      (hstands n (List.mem_cons_self ..)) (errors_of_readElements herrors)
    have hapart' (m : NodeId) (hm : m ∈ nodes) (x : NodeId) (hx : x ∈ homes ++ new) : ¬d.Below m x := by
      rcases List.mem_append.1 hx with hx | hx
      · exact hapart m (List.mem_cons_of_mem _ hm) x hx
      · refine hd.not_below_both hn (hrest hm) ?_ (hnew x hx)
        rintro rfl
        exact hnodup.1 hm
    obtain ⟨new', hnew', hothers⟩ := ih hnodup.2 hrest hfirst hapart'
      (fun m hm => (hstands m (List.mem_cons_of_mem _ hm)).append new) herrors
    refine ⟨new ++ new', fun x hx => ?_, ?_⟩
    · rcases List.mem_append.1 hx with hx | hx
      · exact .head hn (hnew x hx)
      · exact hnew' x hx
    · rw [← List.append_assoc]
      exact hothers

theorem readElement_faithful (hd : d.IsTree) (hfree : d.MarkerFree o.scopeAttribute) {depth : Nat}
    (hdepth : depth ≤ d.nodes.size) : Reads o d depth := by
  induction depth with
  | zero => exact fun h _ _ _ => ⟨[], fun x hx => (by cases hx), by rwa [List.append_nil]⟩
  | succ depth ih =>
    intro parent node homes l h hapart hstands herrors
    have hread : Reads o d depth := ih (Nat.le_of_succ_le hdepth)
    have hopen (n : NodeId) : d.attribute? n Marker.clone = none := (hfree.attribute?_eq_none n).2
    obtain ⟨element, l₁, hfind, heq⟩ := readElement_succ o depth parent l node
    have hl₁ : Faithful d o.scopeAttribute homes l₁ := by
      have := h.findElement node
      rwa [hfind] at this
    have helements {l : Outline} {homes : List NodeId} (h : Faithful d o.scopeAttribute homes l) :
        (l.document.elementChildren node).Nodup ∧ l.document.elementChildren node ⊆ d.children node := by
      rw [Document.elementChildren, h.children]
      exact ⟨(hd.nodup node).filter _, List.filter_sublist.subset⟩
    have hunder {n x : NodeId} (hn : n ∈ d.children node) (hx : x ∈ homes) : ¬d.Below n x :=
      fun hbelow => hapart x hx (.head hn hbelow)
    rw [heq] at herrors ⊢
    split at herrors
    · rename_i hannotated
      rw [if_pos hannotated]
      have hnode : node ∉ homes := fun hmem => hapart node hmem .refl
      have hadded := hl₁.addScope hfree hnode hstands (errors_of_readElements herrors)
      obtain ⟨hnodup, hsub⟩ := helements hadded
      have hapart' (n : NodeId) (hn : n ∈ (l₁.addScope o node parent element).document.elementChildren node)
          (x : NodeId) (hx : x ∈ homes ++ [node]) : ¬d.Below n x := by
        rcases List.mem_append.1 hx with hx | hx
        · exact hunder (hsub hn) hx
        · obtain rfl := List.mem_singleton.1 hx
          exact hd.not_below_child (hsub hn)
      obtain ⟨new, hnew, hothers⟩ := hread.forall hd hnodup hsub hadded hapart'
        (fun n hn p hp => ⟨node, n, 0, by
          obtain rfl := Option.some.inj hp
          rw [← hl₁.length]
          exact List.getElem?_concat_length, hsub hn, .here (hopen n), by omega⟩) herrors
      refine ⟨node :: new, fun x hx => ?_, ?_⟩
      · rcases List.mem_cons.1 hx with rfl | hx
        · exact .refl
        · exact hnew x hx
      · rw [List.append_cons]
        exact hothers
    · rename_i hplain
      rw [if_neg hplain]
      obtain ⟨hnodup, hsub⟩ := helements hl₁
      refine hread.forall hd hnodup hsub hl₁ (fun n hn x hx => hunder (hsub hn) hx)
        (fun n hn p hp => ?_) herrors
      obtain ⟨m, c, k, hm, hc, hpath, hk⟩ := hstands p hp
      exact ⟨m, c, k + 0 + 1, hm, hc, hpath.trans (hsub hn) (.here (hopen n)), by omega⟩

/-- The outline of a tree, if it has no error, is faithful to it. -/
theorem ofDocument_faithful {source : Option String} (hd : d.IsTree)
    (hfree : d.MarkerFree o.scopeAttribute) (herrors : (ofDocument o source d).errors = []) :
    ∃ homes, Faithful d o.scopeAttribute homes (ofDocument o source d) := by
  have hempty : Faithful d o.scopeAttribute [] ⟨d, source.map .ofSource, .empty, [], []⟩ := by
    have hnone {i : ScopeIndex} {s : Scope} (hs : ScopeTree.empty.get? i = some s) : False := by
      cases hs
    refine ⟨rfl, fun _ => rfl, fun _ => rfl, fun _ _ => rfl, fun i n hn => (by cases hn), fun _ n => ?_,
      rfl, ?_, ?_, rfl, ?_⟩
    · exact (hfree.attribute?_eq_none n).2
    · exact ⟨fun _ _ _ hs => (hnone hs).elim, fun _ _ _ hs => (hnone hs).elim,
        fun _ _ _ _ hs => (hnone hs).elim⟩
    · exact fun _ _ _ hs => (hnone hs).elim
    · exact fun _ _ _ hs => (hnone hs).elim
  unfold ofDocument at herrors ⊢
  dsimp only at herrors ⊢
  split at herrors
  · rename_i root _
    obtain ⟨new, -, hread⟩ := readElement_faithful hd hfree (Nat.le_refl _) hempty (fun _ hx => (List.not_mem_nil hx).elim)
      (fun _ hp => (Option.some_ne_none _ hp.symm).elim) herrors
    exact ⟨new, hread⟩
  · exact ⟨[], hempty⟩

end Outline

end ReactiveMarkup
