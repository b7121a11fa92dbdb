import ReactiveMarkup.Compile.Compilation
import ReactiveMarkup.Proofs.Compile.Settling
import ReactiveMarkup.Proofs.Document.Elements
import ReactiveMarkup.Proofs.Document.Markup
import ReactiveMarkup.Proofs.Text.Search

/-!
# What compilation makes of a document

The annotated elements of a document are numbered in document order, and each scope has the scope of
the nearest annotated element above as its parent. The walk goes from element to element; when some of
them have been read, the annotated ones among them are settled, the texts under them that hold
expressions are empty, and all other nodes are as they were.

Main definitions: `Document.annotated`, `Document.ScopeParent`, `Compilation.Annotates`.
Main results: `Outline.settles`, `Document.compile_annotates`.
-/
namespace ReactiveMarkup

/-! ## Annotated elements -/

namespace Document

/-- The elements of a subtree that get scopes, in document order. -/
def annotated (d : Document) (id : NodeId) : List NodeId := (d.elements id).filter d.isAnnotated

/-- `m` is the nearest annotated element above `n`. -/
structure NearestAnnotated (d : Document) (id n m : NodeId) : Prop where
  mem : m ∈ d.annotated id
  ne : m ≠ n
  below : d.Below m n
  nearest : ∀ k ∈ d.annotated id, k ≠ n → d.Below k n → d.Below k m

/-- A parent for the scope of `n`: the number of the nearest annotated element above, and none if there
is no such element. -/
def ScopeParent (d : Document) (id n : NodeId) (parent : Option ScopeIndex) : Prop :=
  ∀ p, parent = some p ↔ ∃ m, (d.annotated id)[p]? = some m ∧ d.NearestAnnotated id n m

variable {d : Document} {id n m c p k : NodeId}

namespace IsTree

theorem below_antisymm (h : d.IsTree) (hn : d.Below m n) (hm : d.Below n m) : m = n := by
  rcases Relation.reflTransGen_iff_eq_or_transGen.1 hn with heq | hn
  · exact heq.symm
  · exact absurd (hn.trans_left hm) (h.acyclic m)

/-- What is above a node is above the one that it stands under. -/
theorem below_parent (h : d.IsTree) (hc : c ∈ d.children p) (hne : k ≠ c) (hk : d.Below k c) :
    d.Below k p := by
  rcases Relation.ReflTransGen.cases_tail hk with rfl | ⟨q, hq, hcq⟩
  · exact absurd rfl hne
  · obtain rfl := h.linked.parent_unique hc hcq
    exact hq

/-- The nearest annotated element above what stands under an annotated element. -/
theorem nearestAnnotated_child (h : d.IsTree) (hp : p ∈ d.annotated id) (hc : c ∈ d.children p) :
    d.NearestAnnotated id c m ↔ m = p := by
  have hne : p ≠ c := by
    rintro rfl
    exact h.not_below_child hc .refl
  constructor
  · intro hm
    exact h.below_antisymm (h.below_parent hc hm.ne hm.below) (hm.nearest p hp hne (.single hc))
  · rintro rfl
    exact ⟨hp, hne, .single hc, fun k _ hk hkc => h.below_parent hc hk hkc⟩

/-- What stands under an element that is not annotated has the same nearest annotated element above. -/
theorem nearestAnnotated_skip (h : d.IsTree) (hp : p ∉ d.annotated id) (hc : c ∈ d.children p) :
    d.NearestAnnotated id c m ↔ d.NearestAnnotated id p m := by
  have hne {k : NodeId} (hk : k ∈ d.annotated id) : k ≠ p := by
    rintro rfl
    exact hp hk
  have hchild {k : NodeId} (hk : d.Below k p) : k ≠ c := by
    rintro rfl
    exact h.not_below_child hc hk
  constructor
  · intro hm
    exact ⟨hm.mem, hne hm.mem, h.below_parent hc hm.ne hm.below,
      fun k hk _ hkp => hm.nearest k hk (hchild hkp) (hkp.tail hc)⟩
  · intro hm
    exact ⟨hm.mem, hchild hm.below, hm.below.tail hc,
      fun k hk hkc hbelow => hm.nearest k hk (hne hk) (h.below_parent hc hkc hbelow)⟩

end IsTree

end Document

/-! ## The walk -/

namespace Outline

variable {o : CompileOptions} {d : Document} {root node n : NodeId} {mark : String}
  {done : List NodeId} {l l' : Outline} {e : Element} {parent : Option ScopeIndex}

/-- What holds when the elements of `done` have been read. -/
structure Progress (d : Document) (root : NodeId) (mark : String) (done : List NodeId) (l : Outline) :
    Prop where
  shape : d.SameShape l.document
  elements : ∀ n ∈ done, d.isElement n
  settled : ∀ (i : ScopeIndex) n e, (done.filter d.isAnnotated)[i]? = some n →
    d.kind? n = some (.element e) → l.document.kind? n = some (.element (e.settled mark i))
  emptied : ∀ p ∈ done, ∀ c ∈ d.children p, (d.expressionText? c).isSome →
    l.document.kind? c = some (.text "")
  kept : ∀ n, n ∉ done.filter d.isAnnotated →
    (∀ p ∈ done, n ∈ d.children p → d.expressionText? n = none) → l.document.kind? n = d.kind? n
  size : l.tree.size = (done.filter d.isAnnotated).length
  parent : ∀ (i : ScopeIndex) n, (done.filter d.isAnnotated)[i]? = some n →
    d.ScopeParent root n (l.tree.parentOf? i)
  linked : l.tree.Linked

theorem expressionText?_of_element (h : d.kind? n = some (.element e)) :
    d.expressionText? n = none := by
  rw [Document.expressionText?, h]

namespace Progress

/-- What has become of a node: it is a settled element, an emptied text, or as it was. -/
theorem kind_cases (h : Progress d root mark done l) (n : NodeId) :
    (∃ i e, d.kind? n = some (.element e) ∧ l.document.kind? n = some (.element (e.settled mark i))) ∨
    (∃ p ∈ done, n ∈ d.children p ∧ (d.expressionText? n).isSome ∧
      l.document.kind? n = some (.text "")) ∨ l.document.kind? n = d.kind? n := by
  by_cases hmem : n ∈ done.filter d.isAnnotated
  · obtain ⟨e, he⟩ := Document.kind?_of_isElement (h.elements n (List.mem_filter.1 hmem).1)
    obtain ⟨i, hi⟩ := List.mem_iff_getElem?.1 hmem
    exact .inl ⟨i, e, he, h.settled i n e hi he⟩
  · by_cases hp : ∃ p ∈ done, n ∈ d.children p ∧ (d.expressionText? n).isSome
    · obtain ⟨p, hp, hn, hsome⟩ := hp
      exact .inr (.inl ⟨p, hp, hn, hsome, h.emptied p hp n hn hsome⟩)
    · refine .inr (.inr (h.kept n hmem fun p hp' hn => ?_))
      rw [← Option.not_isSome_iff_eq_none]
      exact fun hsome => hp ⟨p, hp', hn, hsome⟩

theorem tag? (h : Progress d root mark done l) (n : NodeId) : l.document.tag? n = d.tag? n := by
  rcases h.kind_cases n with ⟨i, e, he, hl⟩ | ⟨p, -, -, hsome, hl⟩ | hl
  · simp only [Document.tag?, Document.element?, he, hl]
    rfl
  · obtain ⟨raw, hraw⟩ := Option.isSome_iff_exists.1 hsome
    simp only [Document.tag?, Document.element?, kind?_of_expressionText? hraw, hl]
  · simp only [Document.tag?, Document.element?, hl]

theorem isElement (h : Progress d root mark done l) : l.document.isElement = d.isElement := by
  funext n
  have htag := congrArg Option.isSome (h.tag? n)
  simpa [Document.tag?, Document.isElement] using htag

/-- An element that has not been read is as it was. -/
theorem kind?_of_notMem (h : Progress d root mark done l) (he : d.kind? n = some (.element e))
    (hn : n ∉ done) : l.document.kind? n = some (.element e) := by
  rw [← he]
  exact h.kept n (fun hmem => hn (List.mem_filter.1 hmem).1) fun _ _ _ => expressionText?_of_element he

/-- A text under an element that has not been read is as it was. -/
theorem expressionText?_of_notMem (h : Progress d root mark done l) (hd : d.IsTree) (hnode : node ∉ done)
    (hn : n ∈ d.children node) : l.document.expressionText? n = d.expressionText? n := by
  rcases h.kind_cases n with ⟨i, e, he, hl⟩ | ⟨p, hp, hnp, -⟩ | hl
  · rw [expressionText?_of_element he, expressionText?_of_element hl]
  · obtain rfl := hd.linked.parent_unique hn hnp
    exact absurd hp hnode
  · rw [Document.expressionText?, hl, Document.expressionText?]

theorem documentElement? (h : Progress d root mark done l) :
    l.document.documentElement? = d.documentElement? := by
  rw [Document.documentElement?, h.shape.children, h.isElement, Document.documentElement?]

theorem implicitAlias? (h : Progress d root mark done l) (n : NodeId) :
    l.document.implicitAlias? n = d.implicitAlias? n := by
  simp only [Document.implicitAlias?, h.tag?, h.documentElement?, h.shape.parent]

/-- Whether an element that has not been read gets a scope can still be told. -/
theorem isAnnotated (h : Progress d root mark done l) (hd : d.IsTree) (hnode : node ∉ done)
    (he : d.kind? node = some (.element e)) : l.document.isAnnotated node = d.isAnnotated node := by
  have hattributes : l.document.attributes node = d.attributes node :=
    Document.attributes_congr ((h.kind?_of_notMem he hnode).trans he.symm)
  have htexts : (d.children node).any (fun c => (l.document.expressionText? c).isSome) =
      (d.children node).any fun c => (d.expressionText? c).isSome := by
    rw [Bool.eq_iff_iff, List.any_eq_true, List.any_eq_true]
    refine exists_congr fun c => and_congr_right fun hc => ?_
    rw [h.expressionText?_of_notMem hd hnode hc]
  rw [Document.isAnnotated, h.documentElement?, h.implicitAlias?, hattributes, h.shape.children, htexts,
    Document.isAnnotated]

theorem elementChildren (h : Progress d root mark done l) (n : NodeId) :
    l.document.elementChildren n = d.elementChildren n := by
  rw [Document.elementChildren, h.shape.children, h.isElement, Document.elementChildren]

/-- Looking for a tag in the source changes nothing else. -/
theorem congr (h : Progress d root mark done l) (hdocument : l'.document = l.document)
    (htree : l'.tree = l.tree) : Progress d root mark done l' := by
  obtain ⟨_, _, _, _, _⟩ := l
  obtain ⟨_, _, _, _, _⟩ := l'
  obtain rfl : _ = _ := hdocument
  obtain rfl : _ = _ := htree
  exact { h with }

/-- Before the first element nothing has been read. -/
theorem start (d : Document) (root : NodeId) (mark : String) (source : Option String) :
    Progress d root mark [] ⟨d, source.map .ofSource, .empty, [], []⟩ := by
  have hnone (i : ScopeIndex) (n : NodeId) : ([].filter d.isAnnotated)[i]? ≠ some n :=
    Option.some_ne_none n ∘ Eq.symm
  exact {
    shape := .refl d
    elements := fun _ hn => absurd hn List.not_mem_nil
    settled := fun i n _ hi => absurd hi (hnone i n)
    emptied := fun _ hp => absurd hp List.not_mem_nil
    kept := fun _ _ _ => rfl
    size := rfl
    parent := fun i n hi => absurd hi (hnone i n)
    linked := fun i c => by simp [ScopeTree.parts, ScopeTree.parentOf?, ScopeTree.get?, ScopeTree.empty] }

/-- Reading an element that gets no scope. -/
theorem skip (h : Progress d root mark done l) (he : d.kind? node = some (.element e))
    (hplain : d.isAnnotated node = false) : Progress d root mark (done ++ [node]) l := by
  have hfilter : (done ++ [node]).filter d.isAnnotated = done.filter d.isAnnotated := by
    rw [List.filter_append, List.filter_cons_of_neg (by simp [hplain]), List.filter_nil,
      List.append_nil]
  have hempty {c : NodeId} (hc : c ∈ d.children node) : d.expressionText? c = none := by
    have hany : (d.children node).any (fun c => (d.expressionText? c).isSome) = false :=
      (Bool.or_eq_false_iff.1 hplain).2
    rw [← Option.not_isSome_iff_eq_none]
    exact fun hsome => absurd (List.any_eq_true.2 ⟨c, hc, hsome⟩) (by rw [hany]; exact Bool.false_ne_true)
  exact {
    shape := h.shape
    elements := List.forall_mem_append.2
      ⟨h.elements, List.forall_mem_singleton.2 (Document.isElement_of_kind? he)⟩
    settled := by
      rw [hfilter]
      exact h.settled
    emptied := List.forall_mem_append.2 ⟨h.emptied, List.forall_mem_singleton.2 fun c hc hsome => by
      rw [hempty hc] at hsome
      cases hsome⟩
    kept := by
      intro n hn htext
      rw [hfilter] at hn
      exact h.kept n hn fun p hp => htext p (List.mem_append_left _ hp)
    size := by
      rw [hfilter]
      exact h.size
    parent := by
      rw [hfilter]
      exact h.parent
    linked := h.linked }

/-- Reading an element that gets a scope. -/
theorem addScope (h : Progress d root o.scopeAttribute done l) (hd : d.IsTree)
    (he : d.kind? node = some (.element e)) (hnames : (e.attributes.map Prod.fst).Nodup)
    (hnode : node ∉ done) (hannotated : d.isAnnotated node) (hparent : d.ScopeParent root node parent)
    (hlt : ∀ p, parent = some p → p < l.tree.size) (element : Option Nat) :
    Progress d root o.scopeAttribute (done ++ [node]) (l.addScope o node parent element) := by
  have hfilter : (done ++ [node]).filter d.isAnnotated = done.filter d.isAnnotated ++ [node] := by
    rw [List.filter_append, List.filter_cons_of_pos hannotated, List.filter_nil]
  have helement := h.kind?_of_notMem he hnode
  obtain ⟨hshape, hkind⟩ := addScope_document o parent element helement hnames
  have htree := addScope_tree o node parent element l
  -- nothing but the element and the texts under it changes
  have hother {n : NodeId} (hne : n ≠ node)
      (htext : n ∈ d.children node → l.document.expressionText? n = none) :
      (l.addScope o node parent element).document.kind? n = l.document.kind? n := by
    rw [hkind, if_neg hne, if_neg]
    rintro ⟨hn, hsome⟩
    rw [h.shape.children] at hn
    rw [htext hn] at hsome
    cases hsome
  have hne {n : NodeId} (hn : n ∈ done) : n ≠ node := by
    rintro rfl
    exact hnode hn
  exact {
    shape := h.shape.trans hshape
    elements := List.forall_mem_append.2
      ⟨h.elements, List.forall_mem_singleton.2 (Document.isElement_of_kind? he)⟩
    settled := by
      intro i n e' hi he'
      rw [hfilter] at hi
      rcases of_getElem?_concat hi with hold | ⟨rfl, rfl⟩
      · have hsettled := h.settled i n e' hold he'
        rw [hother (hne (List.mem_filter.1 (List.mem_of_getElem? hold)).1)
          fun _ => expressionText?_of_element hsettled]
        exact hsettled
      · rw [he] at he'
        cases he'
        rw [hkind, if_pos rfl, h.size]
    emptied := by
      refine List.forall_mem_append.2 ⟨fun p hp c hc hsome => ?_,
        List.forall_mem_singleton.2 fun c hc hsome => ?_⟩
      · have hempty := h.emptied p hp c hc hsome
        have hc : c ∉ d.children node := fun hc' => hne hp (hd.linked.parent_unique hc hc')
        rw [hother ?_ fun hc' => absurd hc' hc]
        · exact hempty
        · rintro rfl
          rw [helement] at hempty
          cases hempty
      · have hne : c ≠ node := by
          rintro rfl
          exact hd.not_below_child hc .refl
        rw [hkind, if_neg hne, if_pos]
        rw [h.shape.children, h.expressionText?_of_notMem hd hnode hc]
        exact ⟨hc, hsome⟩
    kept := by
      intro n hn htext
      rw [hfilter, List.mem_append, List.mem_singleton, not_or] at hn
      rw [hother hn.2 fun hc => ?_]
      · exact h.kept n hn.1 fun p hp => htext p (List.mem_append_left _ hp)
      · rw [h.expressionText?_of_notMem hd hnode hc]
        exact htext node (List.mem_append_right _ (List.mem_singleton.2 rfl)) hc
    size := by
      rw [htree.size, hfilter, h.size, List.length_append, List.length_singleton]
    parent := by
      intro i n hi
      rw [hfilter] at hi
      rw [htree.parentOf]
      rcases of_getElem?_concat hi with hold | ⟨rfl, rfl⟩
      · rw [if_neg]
        · exact h.parent i n hold
        · rw [h.size]
          exact Nat.ne_of_lt (List.getElem?_eq_some_iff.1 hold).1
      · rw [if_pos h.size.symm]
        exact hparent
    linked := htree.linked h.linked hlt }

end Progress

/-- Reading an element down to some levels, when all before it in document order have been read, reads
the elements of its subtree, and adds their scopes in that order. -/
def Settles (o : CompileOptions) (d : Document) (root : NodeId) (depth : Nat) : Prop :=
  ∀ {parent : Option ScopeIndex} {node : NodeId} {done : List NodeId} {l : Outline},
    Progress d root o.scopeAttribute done l → done ++ d.elementsTo depth node <+: d.elements root →
    d.isElement node → d.ScopeParent root node parent → (∀ p, parent = some p → p < l.tree.size) →
    ∃ tops, (depth ≠ 0 → d.isAnnotated node → tops = [l.tree.size]) ∧
      l.tree.Adds parent tops (readElement o depth parent l node).tree ∧
      Progress d root o.scopeAttribute (done ++ d.elementsTo depth node)
        (readElement o depth parent l node)

/-- Reading elements one after the other whose scopes have the same parent. -/
theorem Settles.forall {depth : Nat} (h : Settles o d root depth) {nodes : List NodeId}
    (hl : Progress d root o.scopeAttribute done l)
    (hfront : done ++ nodes.flatMap (d.elementsTo depth) <+: d.elements root)
    (helement : ∀ n ∈ nodes, d.isElement n) (hparent : ∀ n ∈ nodes, d.ScopeParent root n parent)
    (hlt : ∀ p, parent = some p → p < l.tree.size) :
    ∃ tops, l.tree.Adds parent tops (nodes.foldl (readElement o depth parent) l).tree ∧
      Progress d root o.scopeAttribute (done ++ nodes.flatMap (d.elementsTo depth))
        (nodes.foldl (readElement o depth parent) l) := by
  induction nodes generalizing done l with
  | nil =>
    rw [List.flatMap_nil, List.append_nil]
    exact ⟨[], .refl _ _, hl⟩
  | cons n nodes ih =>
    rw [List.flatMap_cons, ← List.append_assoc] at hfront ⊢
    obtain ⟨tops, -, hadds, hfirst⟩ := h hl ((List.prefix_append ..).trans hfront)
      (helement n (List.mem_cons_self ..)) (hparent n (List.mem_cons_self ..)) hlt
    obtain ⟨tops', hadds', hothers⟩ := ih hfirst hfront
      (fun m hm => helement m (List.mem_cons_of_mem _ hm))
      (fun m hm => hparent m (List.mem_cons_of_mem _ hm))
      fun p hp => Nat.lt_of_lt_of_le (hlt p hp) hadds.spans.le
    exact ⟨tops ++ tops', hadds.append hadds' hlt, hothers⟩

/-- Nothing is above the outermost element. -/
theorem scopeParent_root (hd : d.IsTree) (hroot : d.isElement root) : d.ScopeParent root root none := by
  intro p
  refine iff_of_false (Option.some_ne_none p ∘ Eq.symm) ?_
  rintro ⟨m, -, hm⟩
  have hbelow := (Document.within_of_mem_elementsTo hroot (List.mem_filter.1 hm.mem).1).2.below
  exact hm.ne (hd.below_antisymm hm.below hbelow)

/-- The number of an annotated element tells how many come before it. -/
theorem scopeParent_child (hd : d.IsTree) (hroot : d.isElement root) {rest : List NodeId}
    (hsplit : d.annotated root = done ++ node :: rest) {c : NodeId} (hc : c ∈ d.children node) :
    d.ScopeParent root c (some done.length) := by
  have hnodup : (d.annotated root).Nodup := (hd.nodup_elements hroot).filter _
  have hplace : (d.annotated root)[done.length]? = some node := by
    rw [hsplit, List.getElem?_append_right (Nat.le_refl _), Nat.sub_self]
    rfl
  have hlt : done.length < (d.annotated root).length := (List.getElem?_eq_some_iff.1 hplace).1
  intro p
  simp only [hd.nearestAnnotated_child (List.mem_of_getElem? hplace) hc, exists_eq_right,
    Option.some.injEq]
  constructor
  · rintro rfl
    exact hplace
  · intro hp
    exact (List.getElem?_inj hlt hnodup).1 (hplace.trans hp.symm)

theorem settles (hd : d.IsTree) (hnames : d.UniqueNames)
    (hroot : d.isElement root) (depth : Nat) : Settles o d root depth := by
  induction depth with
  | zero =>
    intro parent node done l hl _ _ _ _
    rw [Document.elementsTo, List.append_nil]
    exact ⟨[], fun hdepth => absurd rfl hdepth, .refl _ _, hl⟩
  | succ depth ih =>
    intro parent node done l hl hfront helement hparent hlt
    obtain ⟨e, he⟩ := Document.kind?_of_isElement helement
    have hnames : (e.attributes.map Prod.fst).Nodup := by
      have := hnames node
      rwa [Document.attributes, Document.element?, he] at this
    rw [Document.elementsTo] at hfront ⊢
    have hnode : node ∉ done := fun hmem =>
      (List.nodup_append.1 ((hd.nodup_elements hroot).sublist hfront.sublist)).2.2 node hmem node
        (List.mem_cons_self ..) rfl
    have hchildren {c : NodeId} (hc : c ∈ d.elementChildren node) :
        c ∈ d.children node ∧ d.isElement c := Document.mem_elementChildren.1 hc
    obtain ⟨element, l₁, hfind, heq⟩ := readElement_succ o depth parent l node
    obtain ⟨-, htree₁, hdocument₁⟩ := findElement_eq node l
    rw [hfind] at htree₁ hdocument₁
    have hl₁ : Progress d root o.scopeAttribute done l₁ := hl.congr hdocument₁ htree₁
    rw [List.append_cons] at hfront ⊢
    rw [heq, hl₁.isAnnotated hd hnode he]
    cases hannotated : d.isAnnotated node with
    | true =>
      have hl₂ := hl₁.addScope hd he hnames hnode hannotated hparent (htree₁ ▸ hlt) element
      have hmore := addScope_tree o node parent element l₁
      obtain ⟨rest, hsplit⟩ := hfront.filter d.isAnnotated
      rw [List.filter_append, List.filter_append, List.filter_cons_of_pos hannotated, List.filter_nil,
        List.append_assoc, List.append_assoc, List.singleton_append] at hsplit
      dsimp only
      rw [if_pos rfl, hl₂.elementChildren]
      have hparent' (c : NodeId) (hc : c ∈ d.elementChildren node) :
          d.ScopeParent root c (some l₁.tree.size) := by
        rw [hl₁.size]
        exact scopeParent_child hd hroot hsplit.symm (hchildren hc).1
      have hlt' (p : ScopeIndex) (hp : some l₁.tree.size = some p) :
          p < (l₁.addScope o node parent element).tree.size := by
        rw [hmore.size, ← Option.some.inj hp]
        exact Nat.lt_succ_self _
      obtain ⟨tops, hadds, hothers⟩ := ih.forall hl₂ hfront (fun c hc => (hchildren hc).2) hparent' hlt'
      rw [← htree₁]
      refine ⟨[l₁.tree.size], fun _ _ => rfl, hmore.adds.nest hadds ?_ hmore.size, hothers⟩
      rw [hmore.parts, if_pos rfl]
    | false =>
      have hplain : node ∉ d.annotated root := fun hmem => by
        rw [(List.mem_filter.1 hmem).2] at hannotated
        cases hannotated
      rw [if_neg Bool.false_ne_true, hl₁.elementChildren, ← htree₁]
      have hparent' (c : NodeId) (hc : c ∈ d.elementChildren node) : d.ScopeParent root c parent := by
        intro p
        simp only [hd.nearestAnnotated_skip hplain (hchildren hc).1]
        exact hparent p
      obtain ⟨tops, hadds, hothers⟩ := ih.forall (hl₁.skip he hannotated) hfront
        (fun c hc => (hchildren hc).2) hparent' (htree₁ ▸ hlt)
      exact ⟨tops, fun _ h => absurd h Bool.false_ne_true, hadds, hothers⟩

/-- When the outline is made, all elements of the subtree of the outermost one have been read. -/
theorem ofDocument_progress (source : Option String) (hd : d.IsTree)
    (hnames : d.UniqueNames) (hroot : d.documentElement? = some root) :
    Progress d root o.scopeAttribute (d.elements root) (ofDocument o source d) ∧
      (ofDocument o source d).tree.Spans [0] 0 (ofDocument o source d).tree.size := by
  have helement : d.isElement root := List.find?_some hroot
  have hannotated : d.isAnnotated root := by
    rw [Document.isAnnotated, hroot]
    simp
  have hsize : d.nodes.size ≠ 0 := by
    obtain ⟨n, hn⟩ := Document.contains_iff.1 (Document.contains_of_isElement helement)
    exact Nat.ne_of_gt (Nat.zero_lt_of_lt (Document.lt_size hn))
  obtain ⟨tops, htops, hadds, hprogress⟩ := settles hd hnames helement d.nodes.size (.start ..)
    (List.prefix_refl _) helement (scopeParent_root hd helement)
    fun _ hp => absurd hp.symm (Option.some_ne_none _)
  have heq : ofDocument o source d =
      readElement o d.nodes.size none ⟨d, source.map .ofSource, .empty, [], []⟩ root := by
    rw [ofDocument, hroot]
  rw [heq]
  refine ⟨hprogress, ?_⟩
  have hspans := hadds.spans
  rw [htops hsize hannotated] at hspans
  exact hspans

/-- The templates of a program are those of the scopes. -/
theorem emit_scopes (h : l.tree.size ≠ 0) : ∃ templates, (l.emit o).program.scopes =
    ScopeTemplate.walkAll ([0].map (l.tree.assemble templates l.tree.size)) := by
  obtain ⟨templates, hroot⟩ : ∃ templates,
      (l.emit o).program.root = some (l.tree.assemble templates l.tree.size 0) := ⟨_, if_neg h⟩
  refine ⟨templates, ?_⟩
  rw [Program.scopes, hroot, List.map_singleton, ScopeTemplate.walkAll, ScopeTemplate.walkAll,
    List.append_nil]

end Outline

/-! ## The annotated document -/

namespace Document

variable {d : Document} {root n : NodeId}

/-- An element of the subtree stands under an element of it, unless it is the outermost one. -/
theorem Within.parent? (hn : d.Within root n) (hd : d.IsTree) (hne : n ≠ root) :
    ∃ p, d.parent? n = some p ∧ n ∈ d.children p ∧ d.isElement p ∧ d.Within root p := by
  rcases Relation.ReflTransGen.cases_tail hn with rfl | ⟨p, hp, helement, hc⟩
  · exact absurd rfl hne
  · exact ⟨p, hd.linked p n hc, hc, helement, hp⟩

/-- Under the outermost element of a page, its head and its body have aliases. -/
theorem isSome_implicitAlias? (hd : d.IsTree) (hroot : d.documentElement? = some root)
    (hn : d.Within root n) (hne : n ≠ root) : (d.implicitAlias? n).isSome ↔
      d.tag? root = some "html" ∧ n ∈ d.children root ∧
        (d.tag? n = some "head" ∨ d.tag? n = some "body") := by
  obtain ⟨p, hp, hc, -⟩ := hn.parent? hd hne
  have hunder : root = p ↔ n ∈ d.children root := by
    constructor
    · rintro rfl
      exact hc
    · exact fun hc' => hd.linked.parent_unique hc' hc
  rw [implicitAlias?, hroot, hp, ← hunder]
  cases htag : d.tag? n with
  | none => simp
  | some tag =>
    simp only [Option.bind_eq_bind, Option.bind_some, Option.some.injEq]
    rw [if_neg (Ne.symm hne)]
    split
    · rename_i hplace
      obtain ⟨rfl, hplace⟩ := hplace
      exact iff_of_true rfl ⟨hplace.1, rfl, hplace.2⟩
    · rename_i hplace
      refine iff_of_false Bool.false_ne_true ?_
      rintro ⟨hpage, rfl, hrole⟩
      exact hplace ⟨rfl, hpage, hrole⟩

/-- Which elements are annotated: the outermost one, its head and body if it is a page, and those that
declare something by an attribute or by a text directly under them. -/
theorem isAnnotated_iff (hd : d.IsTree) (hroot : d.documentElement? = some root)
    (hn : d.Within root n) : d.isAnnotated n ↔ n = root ∨
      (d.tag? root = some "html" ∧ n ∈ d.children root ∧
        (d.tag? n = some "head" ∨ d.tag? n = some "body")) ∨
      (∃ a ∈ d.attributes n, Search.startsWith [':'] a.1.toList ∨ Declaration.hasExpression a.2) ∨
      ∃ c ∈ d.children n, ∃ s, d.kind? c = some (.text s) ∧ Declaration.hasExpression s := by
  have htext (c : NodeId) : (d.expressionText? c).isSome ↔
      ∃ s, d.kind? c = some (.text s) ∧ Declaration.hasExpression s := by
    rw [expressionText?]
    split
    · rename_i s hs
      split <;> simp_all
    · rename_i hno
      refine iff_of_false Bool.false_ne_true ?_
      rintro ⟨s, hs, -⟩
      exact hno s hs
  by_cases hne : n = root
  · refine iff_of_true ?_ (.inl hne)
    rw [isAnnotated, hroot, hne]
    simp
  · have hfirst : (d.documentElement? == some n) = false := by
      rw [hroot, beq_eq_false_iff_ne]
      exact fun heq => hne (Option.some.inj heq).symm
    rw [isAnnotated, hfirst, Bool.false_or, Bool.or_eq_true, Bool.or_eq_true,
      isSome_implicitAlias? hd hroot hn hne, List.any_eq_true, List.any_eq_true, or_assoc,
      or_iff_right hne]
    simp only [Declaration.isDynamic, Bool.or_eq_true, htext]

end Document

/-! ### Settled elements -/

namespace Declarations

variable {name value : String} {ds : Declarations}

theorem mem_set {a : String × String} (h : a ∈ set name value ds) : a = (name, value) ∨ a ∈ ds := by
  induction ds with
  | nil => exact .inl (List.mem_singleton.1 h)
  | cons b ds ih =>
    obtain ⟨n, v⟩ := b
    rw [set] at h
    split at h
    · rename_i hn
      rcases List.mem_cons.1 h with rfl | h
      · exact .inl (by rw [hn])
      · exact .inr (List.mem_cons_of_mem _ h)
    · rcases List.mem_cons.1 h with rfl | h
      · exact .inr (List.mem_cons_self ..)
      · exact (ih h).imp_right (List.mem_cons_of_mem _)

/-- Setting a property leaves the others as they are. -/
theorem filter_set : (set name value ds).filter (·.1 != name) = ds.filter (·.1 != name) := by
  induction ds with
  | nil => simp [set]
  | cons b ds ih =>
    obtain ⟨n, v⟩ := b
    rw [set]
    split
    · rename_i hn
      simp [hn]
    · rw [List.filter_cons, List.filter_cons, ih]

end Declarations

namespace Declaration

theorem hasExpression_iff {s : String} : hasExpression s ↔ Marker.opening <:+: s.toList := by
  have hnone : Search.cut? Marker.opening s.toList = none ↔ ¬Marker.opening <:+: s.toList :=
    Search.cut?_eq_none_iff (by decide)
  rw [hasExpression, Search.occurs, Option.isSome_iff_ne_none, Ne, hnone, not_not]

/-- No number holds an expression. -/
theorem hasExpression_toString (i : Nat) : hasExpression (toString i) = false := by
  rw [← Bool.not_eq_true, hasExpression_iff]
  intro h
  have hbracket : '[' ∈ (toString i).toList := h.subset (List.mem_cons_self ..)
  rw [Nat.toString_eq_repr, Nat.toList_repr] at hbracket
  exact absurd (Nat.isDigit_of_mem_toDigits (by decide) (by decide) hbracket) (by decide)

end Declaration

namespace Element

variable {mark : String} {i : ScopeIndex} {e : Element}

/-- A settled element declares nothing. -/
theorem isDynamic_of_mem_settled (hmark : Search.startsWith [':'] mark.toList = false)
    {a : String × String} (h : a ∈ (e.settled mark i).attributes) :
    Declaration.isDynamic a.1 a.2 = false := by
  rcases Declarations.mem_set h with rfl | h
  · rw [Declaration.isDynamic, hmark, Declaration.hasExpression_toString, Bool.or_false]
  · simpa using (List.mem_filter.1 h).2

/-- But for the mark, a settled element has the attributes that declare nothing. -/
theorem filter_settled : (e.settled mark i).attributes.filter (fun a => a.1 != mark) =
    e.attributes.filter fun a => a.1 != mark && !Declaration.isDynamic a.1 a.2 := by
  rw [settled, setAttribute, Declarations.filter_set, List.filter_filter]

end Element

/-! ## The compiled document -/

/-- What the compilation of a document is to its scopes; `root` is the outermost element, and `mark` the
attribute that holds the numbers of scopes. -/
structure Compilation.Annotates (d : Document) (root : NodeId) (mark : String) (t : ScopeTree)
    (c : Compilation) : Prop where
  /-- where only elements have something under them, the subtree is all that is below its root, and its
  elements are in document order -/
  subtree : (∀ p, ∀ c ∈ d.children p, p ≠ Document.root → d.isElement p) →
    (∀ n, d.Within root n ↔ d.Below root n) ∧
      d.elements root = (d.descendants root).filter d.isElement
  /-- the annotated elements -/
  mem_annotated : ∀ n, n ∈ d.annotated root ↔ d.isElement n ∧ d.Within root n ∧ (n = root ∨
    (d.tag? root = some "html" ∧ n ∈ d.children root ∧
      (d.tag? n = some "head" ∨ d.tag? n = some "body")) ∨
    (∃ a ∈ d.attributes n, Search.startsWith [':'] a.1.toList ∨ Declaration.hasExpression a.2) ∨
    ∃ c ∈ d.children n, ∃ s, d.kind? c = some (.text s) ∧ Declaration.hasExpression s)
  nodup_annotated : (d.annotated root).Nodup
  /-- they are numbered in document order -/
  marked : ∀ (i : ScopeIndex) n, (d.annotated root)[i]? = some n →
    c.document.attribute? n mark = some (toString i)
  size : t.size = (d.annotated root).length
  parent : ∀ (i : ScopeIndex) n, (d.annotated root)[i]? = some n →
    d.ScopeParent root n (t.parentOf? i)
  listed : c.program.scopes.map (·.index) = List.range t.size
  nested : ∀ u ∈ c.program.scopes, ∀ i, i ∈ u.children.map (·.index) ↔ t.parentOf? i = some u.index
  /-- nothing in the subtree declares anything any more -/
  static : ∀ n, d.Within root n → ∀ a ∈ c.document.attributes n,
    Search.startsWith [':'] a.1.toList = false ∧ Declaration.hasExpression a.2 = false
  silent : ∀ n, d.Within root n → ∀ s, c.document.kind? n = some (.text s) →
    Declaration.hasExpression s = false
  /-- all else is as it was -/
  attributes : ∀ n, d.Within root n → (c.document.attributes n).filter (fun a => a.1 != mark) =
    (d.attributes n).filter fun a => a.1 != mark && !Declaration.isDynamic a.1 a.2
  text : ∀ n s, d.Within root n → d.kind? n = some (.text s) →
    c.document.kind? n = some (.text (if Declaration.hasExpression s then "" else s))
  unannotated : ∀ n, n ∉ d.annotated root → (∀ s, d.kind? n ≠ some (.text s)) →
    c.document.kind? n = d.kind? n
  outside : ∀ n, ¬d.Within root n → c.document.kind? n = d.kind? n
  tag : ∀ n, c.document.tag? n = d.tag? n
  shape : d.SameShape c.document

namespace Outline.Progress

variable {d : Document} {root n : NodeId} {mark : String} {done : List NodeId} {l : Outline}

/-- When all elements have been read, those that declared something are settled. -/
theorem attributes_cases (h : Progress d root mark (d.elements root) l) (hd : d.IsTree)
    (hroot : d.isElement root) (hn : d.Within root n) :
    (∃ i e, d.attributes n = e.attributes ∧
      l.document.attributes n = (Element.settled mark i e).attributes) ∨
    (∀ a ∈ d.attributes n, Declaration.isDynamic a.1 a.2 = false) ∧
      l.document.attributes n = d.attributes n := by
  by_cases helement : d.isElement n
  · obtain ⟨e, he⟩ := Document.kind?_of_isElement helement
    by_cases hmem : n ∈ d.annotated root
    · obtain ⟨i, hi⟩ := List.mem_iff_getElem?.1 hmem
      refine .inl ⟨i, e, ?_, ?_⟩
      · rw [Document.attributes, Document.element?, he]
        rfl
      · rw [Document.attributes, Document.element?, h.settled i n e hi he]
        rfl
    · have hplain : d.isAnnotated n = false := by
        rw [Bool.eq_false_iff]
        exact fun hannotated => hmem (List.mem_filter.2
          ⟨(hd.mem_elements hroot).2 ⟨helement, hn⟩, hannotated⟩)
      have hany : (d.attributes n).any (fun a => Declaration.isDynamic a.1 a.2) = false :=
        (Bool.or_eq_false_iff.1 (Bool.or_eq_false_iff.1 hplain).1).2
      refine .inr ⟨fun a ha => ?_, Document.attributes_congr (h.kept n hmem fun _ _ _ =>
        expressionText?_of_element he)⟩
      simpa using List.any_eq_false.1 hany a ha
  · have hnone {d : Document} (helement : ¬d.isElement n) : d.attributes n = [] := by
      rw [Document.attributes, Option.not_isSome_iff_eq_none.1 helement]
      rfl
    rw [hnone helement, hnone (by rwa [h.isElement])]
    exact .inr ⟨fun a ha => absurd ha List.not_mem_nil, rfl⟩

/-- When all elements have been read, the texts of the subtree that held expressions are empty. -/
theorem kind?_of_text (h : Progress d root mark (d.elements root) l) (hd : d.IsTree)
    (hroot : d.isElement root) (hn : d.Within root n) {s : String} (hs : d.kind? n = some (.text s)) :
    l.document.kind? n = some (.text (if Declaration.hasExpression s then "" else s)) := by
  have hne : n ≠ root := by
    rintro rfl
    obtain ⟨e, he⟩ := Document.kind?_of_isElement hroot
    rw [he] at hs
    cases hs
  obtain ⟨p, -, hc, helement, hp⟩ := hn.parent? hd hne
  split
  · rename_i hexpression
    refine h.emptied p ((hd.mem_elements hroot).2 ⟨helement, hp⟩) n hc ?_
    rw [Document.expressionText?, hs]
    simp [hexpression]
  · rename_i hexpression
    have hnone : d.expressionText? n = none := by
      rw [Document.expressionText?, hs]
      simp [hexpression]
    rw [h.kept n (fun hmem => ?_) fun _ _ _ => hnone, hs]
    obtain ⟨e, he⟩ := Document.kind?_of_isElement (h.elements n (List.mem_filter.1 hmem).1)
    rw [he] at hs
    cases hs

/-- A text of the subtree was a text before. -/
theorem exists_text (h : Progress d root mark done l) {s : String}
    (hs : l.document.kind? n = some (.text s)) : ∃ s', d.kind? n = some (.text s') := by
  rcases h.kind_cases n with ⟨i, e, -, hl⟩ | ⟨p, -, -, hsome, -⟩ | hl
  · rw [hs] at hl
    cases hl
  · obtain ⟨raw, hraw⟩ := Option.isSome_iff_exists.1 hsome
    exact ⟨raw, kind?_of_expressionText? hraw⟩
  · exact ⟨s, hl.symm.trans hs⟩

end Outline.Progress

/-- Compilation annotates a document, whatever errors there are. -/
theorem Document.compile_annotates (o : CompileOptions) (source : Option String) {d : Document}
    {root : NodeId} (hd : d.IsTree) (hnames : d.UniqueNames)
    (hroot : d.documentElement? = some root)
    (hmark : Search.startsWith [':'] o.scopeAttribute.toList = false) :
    (d.compile o source).Annotates d root o.scopeAttribute (Outline.ofDocument o source d).tree := by
  have helement : d.isElement root := List.find?_some hroot
  obtain ⟨h, hspans⟩ := Outline.ofDocument_progress (o := o) source hd hnames hroot
  have hmem (n : NodeId) : n ∈ d.annotated root ↔ (d.isElement n ∧ d.Within root n) ∧ d.isAnnotated n := by
    rw [annotated, List.mem_filter, hd.mem_elements helement]
  have hsize : (Outline.ofDocument o source d).tree.size ≠ 0 := by
    cases hspans with
    | cons below rest =>
      have := below.le
      have := rest.le
      omega
  obtain ⟨templates, hscopes⟩ := Outline.emit_scopes (o := o) hsize
  obtain ⟨hlisted, hnested⟩ := hspans.walk templates (Nat.le_of_eq (Nat.zero_add _).symm)
  rw [← hscopes] at hlisted hnested
  rw [compile]
  exact {
    subtree := fun hleaf => hd.within_root hleaf hroot
    mem_annotated := by
      intro n
      rw [hmem, and_assoc]
      refine and_congr_right fun _ => and_congr_right fun hn => ?_
      rw [isAnnotated_iff hd hroot hn]
    nodup_annotated := (hd.nodup_elements helement).filter _
    marked := by
      intro i n hi
      obtain ⟨e, he⟩ := Document.kind?_of_isElement ((hmem n).1 (List.mem_of_getElem? hi)).1.1
      change (Outline.ofDocument o source d).document.attribute? n o.scopeAttribute = _
      rw [attribute?, element?, h.settled i n e hi he]
      exact Element.attribute?_setAttribute_self ..
    size := h.size
    parent := h.parent
    listed := by
      rw [hlisted, Nat.sub_zero, List.range_eq_range']
    nested := by
      intro u hu i
      rw [hnested u hu]
      exact h.linked ..
    static := by
      intro n hn a ha
      have hstatic : Declaration.isDynamic a.1 a.2 = false := by
        rcases h.attributes_cases hd helement hn with ⟨i, e, -, hl⟩ | ⟨hstatic, hl⟩
        · exact Element.isDynamic_of_mem_settled hmark (hl ▸ ha)
        · exact hstatic a (hl ▸ ha)
      exact Bool.or_eq_false_iff.1 hstatic
    silent := by
      intro n hn s hs
      obtain ⟨s', hs'⟩ := h.exists_text hs
      have heq := (h.kind?_of_text hd helement hn hs').symm.trans hs
      cases heq
      split
      · decide
      · rename_i hexpression
        exact Bool.eq_false_iff.2 hexpression
    attributes := by
      intro n hn
      change ((Outline.ofDocument o source d).document.attributes n).filter _ = _
      rcases h.attributes_cases hd helement hn with ⟨i, e, he, hl⟩ | ⟨hstatic, hl⟩
      · rw [hl, he, Element.filter_settled]
      · rw [hl]
        refine List.filter_congr fun a ha => ?_
        rw [hstatic a ha, Bool.not_false, Bool.and_true]
    text := fun n s hn hs => h.kind?_of_text hd helement hn hs
    unannotated := by
      intro n hn htext
      refine h.kept n hn fun p _ _ => Option.eq_none_iff_forall_ne_some.2 fun s hs => ?_
      exact htext s (Outline.kind?_of_expressionText? hs)
    outside := by
      intro n hn
      refine h.kept n (fun hn' => hn ((hmem n).1 hn').1.2) fun p hp hc => absurd ?_ hn
      obtain ⟨hp, hwithin⟩ := (hd.mem_elements helement).1 hp
      exact hwithin.tail ⟨hp, hc⟩
    tag := h.tag?
    shape := h.shape }

/-- A page whose body has a variable, which a text under a paragraph in it shows. -/
theorem Document.compile_annotates_page :
    let d := Document.ofMarkup [.element "html" [] [.element "head" [] [],
      .element "body" [(":x", "[[1]]"), ("class", "c")]
        [.element "b" [] [.element "p" [("title", "t")] [.text "[[x]]", .comment "[[y]]"]]]]]
    d.IsTree ∧ d.UniqueNames ∧ d.documentElement? = some 1 ∧ d.annotated 1 = [1, 2, 3, 5] ∧
      (d.compile .standard none).Annotates d 1 Marker.scope (Outline.ofDocument .standard none d).tree := by
  intro d
  have hmade : d.WellMade := Document.wellMade_ofMarkup _
  have hroot : d.documentElement? = some 1 := by decide +kernel
  exact ⟨hmade.layered.isTree, hmade.names, hroot, by decide +kernel,
    Document.compile_annotates .standard none hmade.layered.isTree hmade.names hroot (by decide)⟩

/-- A paragraph that was put under a text is below the outermost element and keeps what it declares: the
walk does not go through texts. -/
theorem Document.compile_annotates_underText :
    ∃ d, (Document.ofMarkup [.element "div" [] [.text "a"], .element "p" [(":x", "[[1]]")] []]).append 2 3 =
        .ok d ∧
      d.IsTree ∧ d.UniqueNames ∧ d.documentElement? = some 1 ∧
      ¬∀ n, d.Below 1 n → ∀ a ∈ (d.compile .standard none).document.attributes n,
        Search.startsWith [':'] a.1.toList = false := by
  let apart := Document.ofMarkup [.element "div" [] [.text "a"], .element "p" [(":x", "[[1]]")] []]
  let d : Document := (apart.append 2 3).toOption.get (by decide +kernel)
  have hmade : apart.WellMade := Document.wellMade_ofMarkup _
  have happend : apart.append 2 3 = .ok d := by with_unfolding_all rfl
  have hbelow : d.Below 1 3 := .tail (.single (by decide +kernel : 2 ∈ d.children 1)) (by decide +kernel)
  have hkept : (":x", "[[1]]") ∈ (d.compile .standard none).document.attributes 3 := by decide +kernel
  refine ⟨d, happend, hmade.layered.isTree.append happend, by decide +kernel, by decide +kernel,
    fun h => ?_⟩
  cases h 3 hbelow _ hkept

end ReactiveMarkup
