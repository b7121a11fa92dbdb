import ReactiveMarkup.Proofs.Document.Elements
import ReactiveMarkup.Proofs.Document.Serialization

/-!
# Where the nodes of a document are written

In the text of a document each node has its place behind what is written before it. Where values and
texts are written as they are and nothing but an element looks like an opening tag, the opening tags in
the text are those of the elements in document order, with nothing between them that looks like one.

Main definitions: `isTagless`, `Document.IsVerbatim`, `Document.WrittenAfter`, `Document.Trail`.
Main results: `Document.IsVerbatim.written_element`, `Document.WrittenAfter.exists_rest`,
`Document.IsVerbatim.trail_elements`.
-/
namespace ReactiveMarkup

/-! ## Text without tags -/

/-- Whether no opening tag can begin in a text, or at its end: each opening bracket is followed by a
character that is no letter. -/
def isTagless : List Char → Bool
  | [] => true
  | c :: cs => (c != '<' || cs.head?.any fun d => !d.isAlpha) && isTagless cs

theorem isTagless_of_notMem {cs : List Char} (h : '<' ∉ cs) : isTagless cs := by
  induction cs with
  | nil => rfl
  | cons c cs ih =>
    rw [List.mem_cons, not_or] at h
    simp [isTagless, ih h.2, Ne.symm h.1]

theorem isTagless_append {cs ds : List Char} (h : isTagless cs) (h' : isTagless ds) :
    isTagless (cs ++ ds) := by
  induction cs with
  | nil => exact h'
  | cons c cs ih =>
    rw [isTagless, Bool.and_eq_true] at h
    rw [List.cons_append, isTagless, ih h.2, Bool.and_true]
    cases cs with
    | nil => simp_all
    | cons d cs => exact h.1

/-- Behind an opening bracket stands no letter. -/
theorem isTagless_suffix {front back : List Char} (h : isTagless (front ++ '<' :: back)) :
    ∃ c rest, back = c :: rest ∧ c.isAlpha = false := by
  induction front with
  | nil =>
    rw [List.nil_append, isTagless, Bool.and_eq_true] at h
    cases back with
    | nil => simp at h
    | cons c rest => exact ⟨c, rest, rfl, by simpa using h.1⟩
  | cons c front ih =>
    rw [List.cons_append, isTagless, Bool.and_eq_true] at h
    exact ih h.2

/-! ## Documents that are written as they are -/

/-- An element whose tag begins with a letter, whose text and values are written as they are, and whose
attributes do not look like opening tags. -/
structure Element.IsVerbatim (e : Element) : Prop where
  letter : e.tag.toList.head?.any Char.isAlpha
  tag : '<' ∉ e.tag.toList
  text : Element.isRawText e.tag = false
  attributes : ∀ a ∈ e.attributes, '<' ∉ a.1.toList ∧ isTagless (a.2.toList ++ ['"']) ∧
    Document.escapeAttribute a.2 = a.2

instance (e : Element) : Decidable e.IsVerbatim :=
  decidable_of_iff ((e.tag.toList.head?.any Char.isAlpha ∧ '<' ∉ e.tag.toList) ∧
      Element.isRawText e.tag = false ∧ ∀ a ∈ e.attributes,
        '<' ∉ a.1.toList ∧ isTagless (a.2.toList ++ ['"']) ∧ Document.escapeAttribute a.2 = a.2)
    ⟨fun h => ⟨h.1.1, h.1.2, h.2.1, h.2.2⟩, fun h => ⟨⟨h.letter, h.tag⟩, h.text, h.attributes⟩⟩

/-- Elements and texts that are written as they are, and types of documents. -/
def NodeKind.IsVerbatim : NodeKind → Prop
  | .text s => Document.escapeText s = s
  | .element e => e.IsVerbatim
  | .doctype name => '<' ∉ name.toList
  | .document | .comment _ => False

instance (k : NodeKind) : Decidable k.IsVerbatim :=
  match k with
  | .text s => inferInstanceAs (Decidable (Document.escapeText s = s))
  | .element e => inferInstanceAs (Decidable e.IsVerbatim)
  | .doctype name => inferInstanceAs (Decidable ('<' ∉ name.toList))
  | .document | .comment _ => inferInstanceAs (Decidable False)

namespace Document

variable {d : Document} {id p c n : NodeId} {e : Element} {before : List Char}

/-- A tree of such nodes under its root, in which nothing stands under an element without content. -/
structure IsVerbatim (d : Document) : Prop where
  tree : d.IsTree
  root : d.kind? root = some .document
  nodes : ∀ id k, d.Below Document.root id → id ≠ Document.root → d.kind? id = some k → k.IsVerbatim
  void : ∀ id e, d.kind? id = some (.element e) → Element.isVoid e.tag → d.children id = []

theorem isVerbatim_of_kinds (htree : d.IsTree) (hroot : d.kind? root = some .document)
    (hall : ∀ id < d.nodes.size, id ≠ root → ∀ k ∈ d.kind? id, k.IsVerbatim)
    (hvoid : ∀ id < d.nodes.size, ∀ e ∈ d.element? id, Element.isVoid e.tag → d.children id = []) :
    d.IsVerbatim := by
  refine ⟨htree, hroot, fun id k _ hne hk => hall id ?_ hne k hk, fun id e he => hvoid id ?_ e ?_⟩
  · obtain ⟨n, hn, -⟩ := Option.map_eq_some_iff.1 hk
    exact lt_size hn
  · obtain ⟨n, hn, -⟩ := Option.map_eq_some_iff.1 he
    exact lt_size hn
  · rw [Option.mem_def, element?, he]

/-- What is written of a node and all under it. -/
def written (d : Document) (id : NodeId) : List Char := (d.outerHtml id).toList

/-- In the text of a document, a node under the root or under an element stands behind some characters. -/
inductive WrittenAfter (d : Document) : NodeId → List Char → Prop
  | top {c : NodeId} {left right : List NodeId} (hc : d.children root = left ++ c :: right) :
      d.WrittenAfter c (left.flatMap d.written)
  | under {p c : NodeId} {e : Element} {before : List Char} {left right : List NodeId}
      (above : d.WrittenAfter p before) (he : d.kind? p = some (.element e))
      (hc : d.children p = left ++ c :: right) :
      d.WrittenAfter c (before ++ (openingTag e).toList ++ left.flatMap d.written)

theorem WrittenAfter.below_root (h : d.WrittenAfter n before) : d.Below root n := by
  induction h with
  | top hc => exact .single (by rw [hc]; simp)
  | under above he hc ih => exact ih.tail (by rw [hc]; simp)

theorem WrittenAfter.contains (h : d.WrittenAfter n before) (hd : d.IsTree) : d.contains n := by
  cases h with
  | top hc => exact hd.contains_of_mem (p := root) (by rw [hc]; simp)
  | @under p c e before left right above he hc => exact hd.contains_of_mem (p := p) (by rw [hc]; simp)

theorem WrittenAfter.ne_root (h : d.WrittenAfter n before) (hd : d.IsTree) : n ≠ root := by
  cases h with
  | top hc => exact hd.ne_root .refl (by rw [hc]; simp)
  | @under p c e before left right above he hc =>
    exact hd.ne_root above.below_root (by rw [hc]; simp)

/-- Behind the tag of an element there are its attributes and the end of its opening tag. -/
theorem exists_openingTag (h : e.IsVerbatim) :
    ∃ rest, (openingTag e).toList = '<' :: e.tag.toList ++ rest ∧ isTagless rest ∧
      ∃ c cs, rest = c :: cs ∧ (c = ' ' ∨ c = '>') := by
  have hattribute : ∀ a ∈ e.attributes, isTagless (attributeText a).toList := by
    intro a ha
    obtain ⟨hname, hvalue, hescaped⟩ := h.attributes a ha
    have hchars : (attributeText a).toList =
        [' '] ++ a.1.toList ++ ['=', '"'] ++ (a.2.toList ++ ['"']) := by
      simp [attributeText, hescaped]
    rw [hchars]
    exact isTagless_append (isTagless_append (isTagless_append (by decide) (isTagless_of_notMem hname))
      (by decide)) hvalue
  have hall (as : List (String × String)) (has : ∀ a ∈ as, isTagless (attributeText a).toList) :
      isTagless (as.flatMap (fun a => (attributeText a).toList) ++ ['>']) := by
    induction as with
    | nil => rfl
    | cons a as ih =>
      obtain ⟨ha, has⟩ := List.forall_mem_cons.1 has
      rw [List.flatMap_cons, List.append_assoc]
      exact isTagless_append ha (ih has)
  refine ⟨e.attributes.flatMap (fun a => (attributeText a).toList) ++ ['>'], ?_, hall _ hattribute, ?_⟩
  · have hopening := toList_openingTag e []
    rw [List.append_nil] at hopening
    rw [hopening, List.cons_append]
  · cases e.attributes with
    | nil => exact ⟨'>', [], rfl, .inr rfl⟩
    | cons a as =>
      have hspace : (attributeText a).toList = ' ' :: (a.1 ++ "=\"" ++ escapeAttribute a.2 ++ "\"").toList := by
        simp [attributeText]
      rw [List.flatMap_cons, hspace]
      exact ⟨' ', _, rfl, .inl rfl⟩

namespace IsVerbatim

theorem rooted (h : d.IsVerbatim) : d.Rooted where
  tree := h.tree
  root := h.root
  only id hid hkind := by
    by_cases hroot : id = Document.root
    · exact hroot
    · exact (h.nodes id _ hid hroot hkind).elim

theorem kind (h : d.IsVerbatim) (hn : d.WrittenAfter n before) {k : NodeKind}
    (hk : d.kind? n = some k) : k.IsVerbatim := h.nodes n k hn.below_root (hn.ne_root h.tree) hk

/-- What is written of nodes is what is written of their trees, however far these go down, if that is
far enough. -/
theorem flatMap_written (h : d.IsVerbatim) {level : NodeId → Nat}
    (hlevel : ∀ p, ∀ c ∈ d.children p, level p < level c)
    (hlast : ∀ x < d.nodes.size, level x < d.nodes.size) {cs : List NodeId} {depth : Nat}
    (hcs : ∀ c ∈ cs, ∃ p, d.Below Document.root p ∧ c ∈ d.children p ∧
      d.nodes.size ≤ level p + 1 + depth) :
    cs.flatMap d.written = Markup.charsAll false (cs.filterMap (d.markupTo depth)) := by
  have hjoin : (String.join (cs.map (d.htmlTo d.nodes.size false))).toList =
      Markup.charsAll false (cs.filterMap (d.markupTo depth)) := by
    refine toList_join_htmlTo fun c hc => ?_
    obtain ⟨p, hp, hc, hdepth⟩ := hcs c hc
    have hlt := hlevel p c hc
    exact h.rooted.toList_htmlTo hlevel hlast (hp.tail hc) (h.tree.ne_root hp hc)
      (h.tree.contains_of_mem hc) (by omega) (by omega)
  rw [← hjoin, String.toList_join, List.flatMap_map]
  rfl

/-- The text of a document is what is written of the nodes under its root. -/
theorem toList_toHtml_eq (h : d.IsVerbatim) :
    d.toHtml.toList = (d.children Document.root).flatMap d.written := by
  obtain ⟨level, hlevel, -, hlast⟩ := h.tree.exists_level
  rw [toList_toHtml h.rooted, toMarkup]
  exact (h.flatMap_written hlevel hlast fun c hc => ⟨_, .refl, hc, by omega⟩).symm

/-- An element is written as its opening tag, what stands under it and its closing tag; nothing but
the opening tag if it has no content. -/
theorem written_element (h : d.IsVerbatim) (hn : d.WrittenAfter n before)
    (he : d.kind? n = some (.element e)) :
    d.written n = (openingTag e).toList ++ (d.children n).flatMap d.written ++
      if Element.isVoid e.tag then [] else ("</" ++ e.tag ++ ">").toList := by
  obtain ⟨level, hlevel, -, hlast⟩ := h.tree.exists_level
  have hbelow := hn.below_root
  have hroot := hn.ne_root h.tree
  have hcontains := hn.contains h.tree
  obtain ⟨data, hdata⟩ := contains_iff.1 hcontains
  have hlt := lt_size hdata
  obtain ⟨depth, hdepth⟩ := Nat.exists_eq_succ_of_ne_zero (Nat.ne_of_gt (Nat.zero_lt_of_lt hlt))
  obtain ⟨m, hm, hchars⟩ : ∃ m, d.markupTo (depth + 1) n = some m ∧
      (d.htmlTo d.nodes.size false n).toList = m.chars false :=
    h.rooted.toList_htmlTo hlevel hlast hbelow hroot hcontains (by omega) (by omega)
  have hkind : data.kind = .element e := Option.some.inj ((kind?_of_get? hdata).symm.trans he)
  rw [markupTo, hdata] at hm
  dsimp only at hm
  rw [hkind] at hm
  cases hm
  have hchildren : (d.children n).flatMap d.written =
      Markup.charsAll false (data.children.filterMap (d.markupTo depth)) := by
    rw [← children_of_get? hdata]
    exact h.flatMap_written hlevel hlast fun c hc => ⟨n, hbelow, hc, by omega⟩
  rw [written, outerHtml, hchars, Markup.chars, (h.kind hn he).text, hchildren]
  split
  · rename_i hvoid
    rw [← children_of_get? hdata, h.void n e he hvoid, List.filterMap_nil, Markup.charsAll,
      List.append_nil, List.append_nil]
  · rw [List.append_assoc]

/-- No text is written with an opening bracket. -/
theorem notMem_escapeText (s : String) : '<' ∉ (escapeText s).toList := by
  rw [toList_escapeText, List.mem_flatMap]
  rintro ⟨c, -, hc⟩
  rw [toList_escapeTextChar] at hc
  split at hc
  · simp at hc
  · split at hc
    · simp at hc
    · split at hc
      · simp at hc
      · rw [List.mem_singleton] at hc
        exact absurd hc.symm ‹_›

/-- A node that is no element is written as a text that is tagless; a text as it is. -/
theorem written_leaf (h : d.IsVerbatim) (hn : d.WrittenAfter n before) (hleaf : d.isElement n = false) :
    isTagless (d.written n) ∧ ∀ s, d.kind? n = some (.text s) → d.written n = s.toList := by
  obtain ⟨data, hdata⟩ := contains_iff.1 (hn.contains h.tree)
  have hkind := kind?_of_get? hdata
  have hverbatim := h.kind hn hkind
  have hlt := lt_size hdata
  obtain ⟨depth, hdepth⟩ := Nat.exists_eq_succ_of_ne_zero (Nat.ne_of_gt (Nat.zero_lt_of_lt hlt))
  rw [written, outerHtml, hdepth, htmlTo, hdata]
  dsimp only
  rw [hkind]
  cases hk : data.kind with
  | document | comment =>
    rw [hk] at hverbatim
    exact hverbatim.elim
  | element e =>
    rw [isElement, element?, hkind, hk] at hleaf
    cases hleaf
  | doctype name =>
    rw [hk] at hverbatim
    refine ⟨?_, fun s hs => by cases hs⟩
    have hname : isTagless name.toList := isTagless_of_notMem hverbatim
    simp only [String.toList_append]
    exact isTagless_append (isTagless_append (by decide) hname) (by decide)
  | text s =>
    rw [hk] at hverbatim
    have hs : escapeText s = s := hverbatim
    dsimp only
    rw [if_neg Bool.false_ne_true, hs]
    refine ⟨isTagless_of_notMem ?_, fun s' hs' => by cases hs'; rfl⟩
    rw [← hs]
    exact notMem_escapeText s

end IsVerbatim

/-- What is written before a node and of it is the front of the text of the document. -/
theorem WrittenAfter.exists_rest (h : d.WrittenAfter n before) (hd : d.IsVerbatim) :
    ∃ after, d.toHtml.toList = before ++ d.written n ++ after := by
  induction h with
  | @top c left right hc =>
    refine ⟨right.flatMap d.written, ?_⟩
    rw [hd.toList_toHtml_eq, hc]
    simp
  | @under p c e before left right above he hc ih =>
    obtain ⟨after, hhtml⟩ := ih
    refine ⟨right.flatMap d.written ++
      (if Element.isVoid e.tag then [] else ("</" ++ e.tag ++ ">").toList) ++ after, ?_⟩
    rw [hhtml, hd.written_element above he, hc]
    simp

/-! ## The tags in the text -/

/-- Going through the text of a document from behind one front of it to behind another one, one comes by
the opening tags of some elements one after the other, and nothing else looks like an opening tag. -/
inductive Trail (d : Document) : List Char → List NodeId → List Char → Prop
  | done {before gap : List Char} (hgap : isTagless gap) : d.Trail before [] (before ++ gap)
  | tag {before gap after : List Char} {n : NodeId} {e : Element} {ns : List NodeId}
      (hgap : isTagless gap) (hn : d.WrittenAfter n (before ++ gap))
      (he : d.kind? n = some (.element e))
      (rest : d.Trail (before ++ gap ++ '<' :: e.tag.toList) ns after) : d.Trail before (n :: ns) after

namespace Trail

variable {gap middle after : List Char} {ns ms : List NodeId}

theorem behind (hgap : isTagless gap) (h : d.Trail (before ++ gap) ns after) :
    d.Trail before ns after := by
  cases h with
  | done hgap' =>
    rw [List.append_assoc]
    exact .done (isTagless_append hgap hgap')
  | tag hgap' hn he rest =>
    rw [List.append_assoc before] at hn rest
    exact .tag (isTagless_append hgap hgap') hn he rest

theorem append (h : d.Trail before ns middle) (h' : d.Trail middle ms after) :
    d.Trail before (ns ++ ms) after := by
  induction h with
  | done hgap => exact h'.behind hgap
  | tag hgap hn he _ ih => exact .tag hgap hn he (ih h')

end Trail

namespace IsVerbatim

/-- Nodes that are written one after the other. -/
theorem trail_flatMap (h : d.IsVerbatim) {depth : Nat} {cs : List NodeId}
    (hcs : ∀ left c right, cs = left ++ c :: right → d.WrittenAfter c (before ++ left.flatMap d.written))
    (hdown : ∀ c ∈ cs, ∀ before e, d.WrittenAfter c before → d.kind? c = some (.element e) →
      d.Trail before (d.elementsTo depth c) (before ++ d.written c)) :
    d.Trail before ((cs.filter d.isElement).flatMap (d.elementsTo depth))
      (before ++ cs.flatMap d.written) := by
  induction cs generalizing before with
  | nil => exact .done rfl
  | cons c cs ih =>
    have hc : d.WrittenAfter c before := by simpa using hcs [] c cs rfl
    have hrest : d.Trail (before ++ d.written c) ((cs.filter d.isElement).flatMap (d.elementsTo depth))
        (before ++ d.written c ++ cs.flatMap d.written) :=
      ih (fun left c' right heq => by simpa using hcs (c :: left) c' right (by rw [heq]; rfl))
        fun c' hc' => hdown c' (List.mem_cons_of_mem _ hc')
    rw [List.flatMap_cons, ← List.append_assoc]
    cases helement : d.isElement c with
    | false =>
      rw [List.filter_cons_of_neg (by simp [helement])]
      exact hrest.behind (h.written_leaf hc helement).1
    | true =>
      obtain ⟨e, he⟩ := kind?_of_isElement helement
      rw [List.filter_cons_of_pos helement, List.flatMap_cons]
      exact (hdown c (List.mem_cons_self ..) before e hc he).append hrest

/-- In the text of an element the opening tags are those of its elements in document order. -/
theorem trail_elementsTo (h : d.IsVerbatim) {level : NodeId → Nat}
    (hlevel : ∀ p, ∀ c ∈ d.children p, level p < level c)
    (hlast : ∀ x < d.nodes.size, level x < d.nodes.size) {depth : Nat}
    (hdepth : d.nodes.size ≤ level n + depth) (hn : d.WrittenAfter n before)
    (he : d.kind? n = some (.element e)) :
    d.Trail before (d.elementsTo depth n) (before ++ d.written n) := by
  induction depth generalizing n before e with
  | zero =>
    obtain ⟨data, hdata⟩ := contains_iff.1 (hn.contains h.tree)
    have := hlast n (lt_size hdata)
    omega
  | succ depth ih =>
    obtain ⟨rest, hopening, hrest, -⟩ := exists_openingTag (h.kind hn he)
    have hclosing : isTagless (if Element.isVoid e.tag then [] else ("</" ++ e.tag ++ ">").toList) := by
      split
      · rfl
      · simp only [String.toList_append]
        exact isTagless_append (isTagless_append (by decide) (isTagless_of_notMem (h.kind hn he).tag))
          (by decide)
    have hchildren : d.Trail (before ++ (openingTag e).toList)
        ((d.elementChildren n).flatMap (d.elementsTo depth))
          (before ++ (openingTag e).toList ++ (d.children n).flatMap d.written) := by
      refine h.trail_flatMap (fun left c right hc => .under hn he hc) fun c hc before' e' hc' he' => ?_
      have hlt := hlevel n c hc
      exact ih (by omega) hc' he'
    rw [elementsTo, ← List.append_nil ((d.elementChildren n).flatMap _), h.written_element hn he]
    have htag := hchildren.append (.done hclosing)
    rw [hopening, ← List.append_assoc] at htag
    have htag := Trail.behind hrest htag
    have hn' : d.WrittenAfter n (before ++ []) := by rwa [List.append_nil]
    refine .tag (by rfl) hn' he ?_
    rw [hopening]
    simpa using htag

end IsVerbatim

/-- In the text of a document the opening tags up to the end of its element are those of its elements. -/
theorem IsVerbatim.trail_elements (h : d.IsVerbatim) {r : NodeId} (hr : d.documentElement? = some r) :
    ∃ after, d.Trail [] (d.elements r) after := by
  obtain ⟨level, hlevel, -, hlast⟩ := h.tree.exists_level
  obtain ⟨helement, left, right, hchildren, hleft⟩ := List.find?_eq_some_iff_append.1 hr
  obtain ⟨e, he⟩ := kind?_of_isElement helement
  have hn : d.WrittenAfter r (left.flatMap d.written) := .top hchildren
  have hplain : left.filter d.isElement = [] := by simpa using hleft
  -- what stands before the element has no tags
  have hfront : d.Trail [] ((left.filter d.isElement).flatMap (d.elementsTo 0))
      ([] ++ left.flatMap d.written) := by
    refine h.trail_flatMap (fun left' c right' heq => ?_) fun c hc _ e' _ he' => ?_
    · have hc : d.children Document.root = left' ++ c :: (right' ++ r :: right) := by
        rw [hchildren, heq, List.append_assoc, List.cons_append]
      exact .top hc
    · exact absurd (isElement_of_kind? he') (by simpa using hleft c hc)
  rw [hplain] at hfront
  exact ⟨_, hfront.append (h.trail_elementsTo hlevel hlast (by omega) hn he)⟩

end Document

end ReactiveMarkup
