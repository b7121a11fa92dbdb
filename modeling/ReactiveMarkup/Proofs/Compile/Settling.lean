import ReactiveMarkup.Proofs.Compile.Outline
import ReactiveMarkup.Proofs.Scope.Numbering

/-!
# What the scope of an element does to the document

Making the scope of an element takes the declarations out of the element and its texts and marks the
element with the number of the scope. Nothing of this is refused, whatever errors there are, and no
other node changes.

Main definitions: `Document.SameShape`, `Document.Becomes`, `Element.settled`.
Main results: `Outline.addScope_document`, `Outline.addScope_tree`.
-/
namespace ReactiveMarkup

namespace Declaration

/-- What does not begin with a colon. -/
theorem startsWith_colon_eq_false {cs : List Char} (h : ∀ rest, cs ≠ ':' :: rest) :
    Search.startsWith [':'] cs = false := by
  rw [Search.startsWith]
  cases cs with
  | nil => rfl
  | cons c cs =>
    have hc : c ≠ ':' := fun heq => h cs (heq ▸ rfl)
    simp [List.isPrefixOf, Ne.symm hc]

/-- An attribute is static if its name begins with no colon and its value holds no expression. -/
theorem classify_eq_static_iff {name text : String} :
    classify name text = .static ↔ isDynamic name text = false := by
  rw [classify, isDynamic]
  split
  · rename_i rest hname
    rw [hname, Search.startsWith]
    split <;> simp [List.isPrefixOf]
  · rename_i hname
    rw [startsWith_colon_eq_false hname, Bool.false_or]
    split <;> simp_all

end Declaration

namespace Element

/-- What the scope of an element leaves of it: what declares nothing, and the mark with the number of
the scope. -/
def settled (mark : String) (index : ScopeIndex) (e : Element) : Element :=
  setAttribute ⟨e.tag, e.attributes.filter fun a => !Declaration.isDynamic a.1 a.2⟩ mark (toString index)

end Element

/-! ## Documents of one shape -/

namespace Document

/-- Documents with the same nodes in the same places. -/
structure SameShape (d d' : Document) : Prop where
  size : d'.nodes.size = d.nodes.size
  parent : ∀ n, d'.parent? n = d.parent? n
  children : ∀ n, d'.children n = d.children n

/-- A document in which one node is of another kind, perhaps. -/
structure Becomes (d : Document) (id : NodeId) (k : NodeKind) (d' : Document) : Prop
    extends SameShape d d' where
  kind : ∀ n, d'.kind? n = if n = id then some k else d.kind? n

variable {d d' d'' : Document} {id n : NodeId} {k k' : NodeKind} {e : Element} {s : String}

namespace SameShape

theorem refl (d : Document) : SameShape d d := ⟨rfl, fun _ => rfl, fun _ => rfl⟩

theorem trans (h : SameShape d d') (h' : SameShape d' d'') : SameShape d d'' where
  size := h'.size.trans h.size
  parent n := (h'.parent n).trans (h.parent n)
  children n := (h'.children n).trans (h.children n)

end SameShape

namespace Becomes

theorem refl (h : d.kind? id = some k) : Becomes d id k d where
  toSameShape := .refl d
  kind n := by
    split
    · rename_i hn
      rw [hn, h]
    · rfl

theorem trans (h : Becomes d id k d') (h' : Becomes d' id k' d'') : Becomes d id k' d'' where
  toSameShape := h.toSameShape.trans h'.toSameShape
  kind n := by
    rw [h'.kind]
    split
    · rfl
    · rename_i hn
      rw [h.kind, if_neg hn]

end Becomes

theorem becomes_modify (h : d.kind? id = some k) (k' : NodeKind) :
    Becomes d id k' (d.modify id fun n => { n with kind := k' }) where
  size := size_modify ..
  parent _ := parent?_modify (by intro n; rfl)
  children _ := children_modify (by intro n; rfl)
  kind n := by
    obtain ⟨data, hdata, -⟩ := Option.map_eq_some_iff.1 h
    rw [kind?, get?_modify, hdata]
    split <;> rfl

/-- An element may be changed. -/
theorem modifyElement_becomes (h : d.kind? id = some (.element e)) (f : Element → Element) :
    ∃ d', d.modifyElement id f = .ok d' ∧ Becomes d id (.element (f e)) d' := by
  rw [modifyElement, h]
  exact ⟨_, rfl, becomes_modify h _⟩

/-- A text may be changed. -/
theorem setText_becomes (h : d.kind? id = some (.text s)) (s' : String) :
    ∃ d', d.setText id s' = .ok d' ∧ Becomes d id (.text s') d' := by
  rw [setText, h]
  exact ⟨_, rfl, becomes_modify h _⟩

end Document

/-! ## Drafts -/

namespace ScopeDraft

variable {parent : Option ScopeIndex} {s : ScopeDraft}

/-- A draft of a scope under a parent, with nothing below it. -/
structure Under (parent : Option ScopeIndex) (s : ScopeDraft) : Prop where
  parent_eq : s.scope.parent = parent
  children : s.scope.children = []

namespace Under

theorem addValue (h : Under parent s) (v : PendingValue) : Under parent (s.addValue v) := by
  refine ⟨?_, ?_⟩ <;> rw [ScopeDraft.addValue, declare_eq]
  · exact h.parent_eq
  · exact h.children

theorem setAlias (h : Under parent s) (ownAlias : Option String) : Under parent (s.setAlias ownAlias) :=
  ⟨h.parent_eq, h.children⟩

theorem add (h : Under parent s) (d : Declaration) (raw : String) (place : Option Nat) :
    Under parent (s.add d raw place) := by
  cases d with
  | value => exact h.addValue _
  | handler => exact h.addValue _
  | event => exact ⟨h.parent_eq, h.children⟩
  | ownAlias => exact h.setAlias _

theorem addCompanions (h : Under parent s) : Under parent s.addCompanions := by
  have hfold (vs : List PendingValue) {s : ScopeDraft} (h : Under parent s) :
      Under parent (vs.foldl (fun s v => s.addValue v) s) := by
    induction vs generalizing s with
    | nil => exact h
    | cons v vs ih => exact ih (h.addValue v)
  unfold ScopeDraft.addCompanions
  dsimp only
  split
  · exact hfold _ h
  · exact h

end Under

end ScopeDraft

/-! ## Reading one element -/

namespace Outline

variable {o : CompileOptions} {node : NodeId} {l : Outline} {s : ScopeDraft} {e : Element}
  {parent : Option ScopeIndex} {place : Option Nat}

theorem tree_change (f : Document → Document.Change) : (l.change o place f).tree = l.tree := by
  unfold change
  split <;> rfl

theorem document_change {f : Document → Document.Change} {d : Document} (h : f l.document = .ok d) :
    (l.change o place f).document = d := by
  rw [change, h]

/-- An attribute that declares something is taken out, also if a name in it is empty. -/
theorem readAttribute_becomes (a : String × String) (he : l.document.kind? node = some (.element e)) :
    l.document.Becomes node
      (.element (if Declaration.isDynamic a.1 a.2 then e.removeAttribute a.1 else e))
      (readAttribute o node (l, s) a).1.document := by
  obtain ⟨name, raw⟩ := a
  obtain ⟨d, hd, hbecomes⟩ := Document.modifyElement_becomes he (·.removeAttribute name)
  unfold readAttribute
  dsimp only
  cases hrole : Declaration.classify name raw with
  | static =>
    rw [Declaration.classify_eq_static_iff.1 hrole]
    exact .refl he
  | nameless | declares _ =>
    have hdynamic : Declaration.isDynamic name raw = true := by
      rw [← Bool.not_eq_false, ← Declaration.classify_eq_static_iff, hrole]
      exact AttributeRole.noConfusion
    rw [hdynamic, if_pos rfl]
    dsimp only
    rw [document_change hd]
    exact hbecomes

theorem readAttribute_tree (a : String × String) :
    (readAttribute o node (l, s) a).1.tree = l.tree := by
  unfold readAttribute
  dsimp only
  split
  · rfl
  · exact tree_change _
  · exact tree_change _

theorem readAttribute_under (h : s.Under parent) (a : String × String) :
    (readAttribute o node (l, s) a).2.Under parent := by
  unfold readAttribute
  dsimp only
  split
  · exact h
  · exact h
  · exact h.add ..

/-- Reading attributes one after the other. -/
theorem readAttributes_becomes (as : List (String × String))
    (he : l.document.kind? node = some (.element e)) :
    l.document.Becomes node (.element ⟨e.tag, e.attributes.filter fun b =>
        as.all fun a => !Declaration.isDynamic a.1 a.2 || b.1 != a.1⟩)
      (as.foldl (readAttribute o node) (l, s)).1.document := by
  induction as generalizing l s e with
  | nil => exact .refl (he.trans (by simp))
  | cons a as ih =>
    have hfirst := readAttribute_becomes (o := o) (s := s) a he
    have hrest := ih (s := (readAttribute o node (l, s) a).2) ((hfirst.kind node).trans (if_pos rfl))
    have heq : e.attributes.filter (fun b =>
          (a :: as).all fun a => !Declaration.isDynamic a.1 a.2 || b.1 != a.1) =
        (if Declaration.isDynamic a.1 a.2 then e.removeAttribute a.1 else e).attributes.filter fun b =>
          as.all fun a => !Declaration.isDynamic a.1 a.2 || b.1 != a.1 := by
      split
      · rename_i hdynamic
        simp [Element.removeAttribute, List.filter_filter, hdynamic, Bool.and_comm]
      · rename_i hstatic
        simp [hstatic]
    have htag : (if Declaration.isDynamic a.1 a.2 then e.removeAttribute a.1 else e).tag = e.tag := by
      split <;> rfl
    rw [heq, ← htag]
    exact hfirst.trans hrest

theorem readAttributes_tree (as : List (String × String)) :
    (as.foldl (readAttribute o node) (l, s)).1.tree = l.tree := by
  induction as generalizing l s with
  | nil => rfl
  | cons a as ih => exact ih.trans (readAttribute_tree a)

theorem readAttributes_under (h : s.Under parent) (as : List (String × String)) :
    (as.foldl (readAttribute o node) (l, s)).2.Under parent := by
  induction as generalizing l s with
  | nil => exact h
  | cons a as ih => exact ih (readAttribute_under h a)

/-- Where no two attributes have one name, those that are left are those that declare nothing. -/
theorem filter_attributes {as : List (String × String)} (h : (as.map Prod.fst).Nodup) :
    (as.filter fun b => as.all fun a => !Declaration.isDynamic a.1 a.2 || b.1 != a.1) =
      as.filter fun b => !Declaration.isDynamic b.1 b.2 := by
  refine List.filter_congr fun b hb => ?_
  rw [Bool.eq_iff_iff, List.all_eq_true]
  constructor
  · intro hall
    simpa using hall b hb
  · intro hstatic a ha
    by_cases hname : b.1 = a.1
    · obtain rfl := List.inj_on_of_nodup_map h hb ha hname
      rw [hstatic]
      rfl
    · simp [hname]

/-- Reading texts one after the other empties them. -/
theorem readTexts_kind (ts : List ((NodeId × String) × Nat))
    (hts : ∀ t ∈ ts, ∃ s, l.document.kind? t.1.1 = some (.text s)) :
    l.document.SameShape (ts.foldl (readText o) (l, s)).1.document ∧
      ∀ n, (ts.foldl (readText o) (l, s)).1.document.kind? n =
        if n ∈ ts.map (·.1.1) then some (.text "") else l.document.kind? n := by
  induction ts generalizing l s with
  | nil => exact ⟨.refl _, fun n => by simp⟩
  | cons t ts ih =>
    obtain ⟨⟨c, raw⟩, place⟩ := t
    obtain ⟨raw', hc⟩ := hts _ (List.mem_cons_self ..)
    obtain ⟨d, hd, hbecomes⟩ := Document.setText_becomes hc ""
    have hdocument : (readText o (l, s) ((c, raw), place)).1.document = d := document_change hd
    rw [← hdocument] at hbecomes
    obtain ⟨hshape, hkind⟩ := ih (l := (readText o (l, s) ((c, raw), place)).1)
      (s := (readText o (l, s) ((c, raw), place)).2) fun t ht => by
        rw [hbecomes.kind]
        split
        · exact ⟨"", rfl⟩
        · exact hts t (List.mem_cons_of_mem _ ht)
    refine ⟨hbecomes.toSameShape.trans hshape, fun n => ?_⟩
    rw [List.foldl_cons, hkind, hbecomes.kind]
    by_cases hn : n ∈ ts.map (·.1.1) <;> simp [hn]

theorem readTexts_tree (ts : List ((NodeId × String) × Nat)) :
    (ts.foldl (readText o) (l, s)).1.tree = l.tree := by
  induction ts generalizing l s with
  | nil => rfl
  | cons t ts ih => exact ih.trans (tree_change _)

theorem readTexts_under (h : s.Under parent) (ts : List ((NodeId × String) × Nat)) :
    (ts.foldl (readText o) (l, s)).2.Under parent := by
  induction ts generalizing l s with
  | nil => exact h
  | cons t ts ih => exact ih (h.addValue _)

theorem kind?_of_expressionText? {d : Document} {n : NodeId} {raw : String}
    (h : d.expressionText? n = some raw) : d.kind? n = some (.text raw) := by
  unfold Document.expressionText? at h
  split at h
  · rename_i t ht
    split at h
    · cases h
      exact ht
    · cases h
  · cases h

/-- The texts that are read are those under the element that hold expressions. -/
theorem map_texts (d : Document) (node : NodeId) : (texts d node).map (·.1.1) =
    (d.children node).filter fun c => (d.expressionText? c).isSome := by
  have hclone (c : NodeId) (h : (d.expressionText? c).isSome) :
      (d.attribute? c Marker.clone).isNone := by
    obtain ⟨raw, hraw⟩ := Option.isSome_iff_exists.1 h
    rw [Document.attribute?, Document.element?, kind?_of_expressionText? hraw]
    rfl
  have hplaces (own : List NodeId) (k : Nat) : ((own.zipIdx k).filterMap fun x =>
        (d.expressionText? x.1).map fun raw => ((x.1, raw), x.2)).map (·.1.1) =
      own.filter fun c => (d.expressionText? c).isSome := by
    induction own generalizing k with
    | nil => rfl
    | cons c own ih =>
      rw [List.zipIdx_cons, List.filterMap_cons, List.filter_cons]
      dsimp only
      cases d.expressionText? c with
      | none => exact ih (k + 1)
      | some raw => exact congrArg (c :: ·) (ih (k + 1))
  refine (hplaces _ 0).trans ?_
  rw [List.filter_filter]
  refine List.filter_congr fun c _ => ?_
  cases h : (d.expressionText? c).isSome with
  | false => rfl
  | true => rw [hclone c h, Bool.and_self]

theorem mem_texts {d : Document} {n : NodeId} : n ∈ (texts d node).map (·.1.1) ↔
    n ∈ d.children node ∧ (d.expressionText? n).isSome := by
  rw [map_texts, List.mem_filter]

theorem kind?_of_mem_texts {d : Document} {t : (NodeId × String) × Nat} (h : t ∈ texts d node) :
    ∃ raw, d.kind? t.1.1 = some (.text raw) := by
  obtain ⟨-, hsome⟩ := mem_texts.1 (List.mem_map_of_mem h)
  obtain ⟨raw, hraw⟩ := Option.isSome_iff_exists.1 hsome
  exact ⟨raw, kind?_of_expressionText? hraw⟩

/-- Entering an alias changes no document, and of the tree only aliases. -/
theorem enterAlias_eq (o : CompileOptions) (s : ScopeDraft) (l : Outline) :
    (l.enterAlias o s).document = l.document ∧ (l.enterAlias o s).tree.size = l.tree.size ∧
      ∀ i, (l.enterAlias o s).tree.parts i = l.tree.parts i ∧
        (l.enterAlias o s).tree.parentOf? i = l.tree.parentOf? i := by
  unfold enterAlias
  split
  · dsimp only
    split
    · exact ⟨rfl, rfl, fun _ => ⟨rfl, rfl⟩⟩
    · exact ⟨rfl, ScopeTree.size_modify .., fun i =>
        ⟨ScopeTree.parts_modify fun _ => rfl, ScopeTree.parentOf?_modify fun _ => rfl⟩⟩
  · exact ⟨rfl, rfl, fun _ => ⟨rfl, rfl⟩⟩

/-- Making a scope is to read the attributes and the texts, which changes no scope, and then to mark the
element and to enter the scope. -/
theorem addScope_eq (o : CompileOptions) (node : NodeId) (parent : Option ScopeIndex)
    (element : Option Nat) (l : Outline) : ∃ (l₁ : Outline) (s : ScopeDraft),
      s.Under parent ∧ l₁.tree = l.tree ∧
      (∀ e, l.document.kind? node = some (.element e) → (e.attributes.map Prod.fst).Nodup →
        l.document.SameShape l₁.document ∧ ∀ n, l₁.document.kind? n =
          if n = node then
            some (.element ⟨e.tag, e.attributes.filter fun a => !Declaration.isDynamic a.1 a.2⟩)
          else if n ∈ l.document.children node ∧ (l.document.expressionText? n).isSome
            then some (.text "")
          else l.document.kind? n) ∧
      let l₂ := (l₁.enterAlias o s).change o element
        (·.setAttribute node o.scopeAttribute (toString (l₁.enterAlias o s).tree.size))
      l.addScope o node parent element =
        { l₂ with tree := l₂.tree.push s.scope, pending := l₂.pending ++ [s.pending] } := by
  unfold addScope
  dsimp only
  generalize hs₀ : (ScopeDraft.setAlias (l.document.implicitAlias? node)
    ⟨.empty parent, ⟨[], [], element⟩⟩) = s₀
  have hunder₀ : s₀.Under parent := by
    rw [← hs₀]
    exact ⟨rfl, rfl⟩
  have htree₁ : ((l.document.attributes node).foldl (readAttribute o node) (l, s₀)).1.tree = l.tree :=
    readAttributes_tree _
  have hunder₁ : ((l.document.attributes node).foldl (readAttribute o node) (l, s₀)).2.Under parent :=
    readAttributes_under hunder₀ _
  have hbecomes₁ {e : Element} (he : l.document.kind? node = some (.element e)) :=
    readAttributes_becomes (o := o) (s := s₀) (l.document.attributes node) he
  generalize (l.document.attributes node).foldl (readAttribute o node) (l, s₀) = u
    at htree₁ hunder₁ hbecomes₁ ⊢
  obtain ⟨l₁, s₁⟩ := u
  have htree₂ := readTexts_tree (o := o) (l := l₁) (s := s₁) (texts l₁.document node)
  have hunder₂ := readTexts_under (o := o) (l := l₁) hunder₁ (texts l₁.document node)
  obtain ⟨hshape₂, hkind₂⟩ := readTexts_kind (o := o) (l := l₁) (s := s₁) (texts l₁.document node)
    fun t ht => kind?_of_mem_texts ht
  dsimp only at htree₁ hunder₁ hbecomes₁ htree₂ hunder₂ hshape₂ hkind₂ ⊢
  generalize (texts l₁.document node).foldl (readText o) (l₁, s₁) = v
    at htree₂ hunder₂ hshape₂ hkind₂ ⊢
  obtain ⟨l₂, s₂⟩ := v
  refine ⟨l₂, s₂.addCompanions.setAlias (s₂.addCompanions.scope.ownAlias.filter fun a => !a.isEmpty),
    hunder₂.addCompanions.setAlias _, htree₂.trans htree₁, fun e he hnames => ?_, rfl⟩
  have hattributes : l.document.attributes node = e.attributes := by
    rw [Document.attributes, Document.element?, he]
    rfl
  have hfirst := hbecomes₁ he
  rw [hattributes, filter_attributes hnames] at hfirst
  refine ⟨hfirst.toSameShape.trans hshape₂, fun n => ?_⟩
  rw [hkind₂, if_congr mem_texts rfl rfl, hfirst.children, hfirst.kind]
  by_cases hn : n = node
  · -- the element is no text
    have hnone : l₁.document.expressionText? n = none := by
      rw [Document.expressionText?, hfirst.kind, if_pos hn]
    rw [hnone, if_pos hn, if_pos hn, if_neg (fun h => Bool.noConfusion h.2)]
  · have hsame : l₁.document.expressionText? n = l.document.expressionText? n := by
      rw [Document.expressionText?, hfirst.kind, if_neg hn, Document.expressionText?]
    rw [hsame, if_neg hn, if_neg hn]

/-- Making a scope adds one to the tree. -/
theorem addScope_tree (o : CompileOptions) (node : NodeId) (parent : Option ScopeIndex)
    (element : Option Nat) (l : Outline) :
    l.tree.OneMore parent (l.addScope o node parent element).tree := by
  obtain ⟨l₁, s, hunder, htree, -, heq⟩ := addScope_eq o node parent element l
  obtain ⟨-, hsize, hviews⟩ := enterAlias_eq o s l₁
  rw [htree] at hsize
  rw [heq]
  dsimp only
  rw [tree_change]
  refine ⟨?_, fun i => ?_, fun i => ?_⟩
  · rw [ScopeTree.size_push, hsize]
  · rw [ScopeTree.parts_push, (hviews i).1, hsize, hunder.children, hunder.parent_eq, htree]
  · rw [ScopeTree.parentOf?_push, (hviews i).2, hsize, hunder.parent_eq, htree]

/-- Making a scope settles its element, empties the texts under it that hold expressions, and changes
nothing else. -/
theorem addScope_document (o : CompileOptions) (parent : Option ScopeIndex) (element : Option Nat)
    (he : l.document.kind? node = some (.element e)) (hnames : (e.attributes.map Prod.fst).Nodup) :
    l.document.SameShape (l.addScope o node parent element).document ∧
      ∀ n, (l.addScope o node parent element).document.kind? n =
        if n = node then some (.element (e.settled o.scopeAttribute l.tree.size))
        else if n ∈ l.document.children node ∧ (l.document.expressionText? n).isSome
          then some (.text "")
        else l.document.kind? n := by
  obtain ⟨l₁, s, -, htree, hread, heq⟩ := addScope_eq o node parent element l
  obtain ⟨hdocument, hsize, -⟩ := enterAlias_eq o s l₁
  obtain ⟨hshape, hkind⟩ := hread e he hnames
  have hstripped : (l₁.enterAlias o s).document.kind? node =
      some (.element ⟨e.tag, e.attributes.filter fun a => !Declaration.isDynamic a.1 a.2⟩) := by
    rw [hdocument, hkind, if_pos rfl]
  obtain ⟨d, hd, hbecomes⟩ := Document.modifyElement_becomes hstripped
    (·.setAttribute o.scopeAttribute (toString l.tree.size))
  rw [hdocument] at hbecomes
  have hfinal : (l.addScope o node parent element).document = d := by
    rw [heq]
    refine document_change ?_
    rw [hsize, htree]
    exact hd
  rw [hfinal]
  refine ⟨hshape.trans hbecomes.toSameShape, fun n => ?_⟩
  rw [hbecomes.kind, hkind]
  split <;> rfl

end Outline

end ReactiveMarkup
