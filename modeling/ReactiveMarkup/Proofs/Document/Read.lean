import ReactiveMarkup.Document.Read
import ReactiveMarkup.Proofs.Document.Tree

/-!
# Documents that are read are trees

Reading HTML only adds nodes, each under one that is there already, and takes the content out of
templates. So every node stands under an earlier one.

Main definitions: `Document.Layered`, `HtmlBuilder.Sound`.
Main results: `Document.isTree_ofPage`, `Document.isTree_ofFragment`.
-/
namespace ReactiveMarkup

namespace Document

variable {d d' : Document} {id p c : NodeId}

/-- A document in which every node stands under an earlier one. -/
structure Layered (d : Document) : Prop where
  linked : d.Linked
  nodup : ∀ p, (d.children p).Nodup
  later : ∀ p, ∀ c ∈ d.children p, p < c

namespace Layered

theorem isTree (h : d.Layered) : d.IsTree where
  linked := h.linked
  nodup := h.nodup
  acyclic p hp := by
    have hlt {q : NodeId} (hq : Relation.TransGen (fun p c => c ∈ d.children p) p q) : p < q := by
      induction hq with
      | single hc => exact h.later _ _ hc
      | tail _ hc ih => exact Nat.lt_trans ih (h.later _ _ hc)
    exact Nat.lt_irrefl p (hlt hp)

theorem empty : Document.empty.Layered where
  linked p c hc := by simp at hc
  nodup p := by simp
  later p c hc := by simp at hc

theorem congr (h : d.Layered) (hparent : ∀ j, d'.parent? j = d.parent? j)
    (hchildren : ∀ j, d'.children j = d.children j) : d'.Layered where
  linked := h.linked.congr hparent hchildren
  nodup p := by
    rw [hchildren]
    exact h.nodup p
  later p c hc := by
    rw [hchildren] at hc
    exact h.later p c hc

/-- Putting a node that stands nowhere under an earlier one. -/
theorem link (h : d.Layered) (hc : d.contains c) (hp : d.contains p) (hlt : p < c)
    (hfree : ∀ q, c ∉ d.children q) (place : Nat) : (d.link p c place).Layered := by
  refine ⟨h.linked.link hc hp hfree place, fun q => ?_, fun q x hx => ?_⟩
  · rw [children_link hp]
    split
    · exact nodup_insertIdx (h.nodup p) (hfree p)
    · exact h.nodup q
  · rw [children_link hp] at hx
    split at hx
    · rename_i hq
      rw [hq]
      rcases mem_of_mem_insertIdx hx with rfl | hx
      · exact hlt
      · exact h.later p x hx
    · exact h.later q x hx

/-- A new node at the end under one that is there. -/
theorem linkLast (h : d.Layered) (hp : d.contains p) (kind : NodeKind) :
    ((d.create kind).2.link p d.nodes.size ((d.create kind).2.children p).length).Layered := by
  have hnew : (d.create kind).2.contains d.nodes.size := by
    rw [contains_iff, get?_create, if_pos rfl]
    exact ⟨_, rfl⟩
  obtain ⟨n, hn⟩ := contains_iff.1 hp
  have hlt : p < d.nodes.size := Document.lt_size hn
  have hp' : (d.create kind).2.contains p := by
    rw [contains_iff, get?_create, if_neg (Nat.ne_of_lt hlt)]
    exact ⟨n, hn⟩
  have hfree (q : NodeId) : d.nodes.size ∉ (d.create kind).2.children q := by
    rw [children_create]
    exact fun hmem => Nat.lt_irrefl _ (h.linked.lt_size hmem)
  exact (h.congr (parent?_create d kind) (children_create d kind)).link hnew hp' hlt hfree _

end Layered

/-- What is further down in a subtree stands under its root or under something further down. -/
theorem mem_descendants_drop (h : c ∈ (d.descendants id).drop 1) :
    c ∈ d.children id ∨ ∃ q ∈ (d.descendants id).drop 1, c ∈ d.children q := by
  unfold descendants at h ⊢
  obtain ⟨depth, hdepth⟩ : ∃ depth, depth = d.nodes.size := ⟨_, rfl⟩
  rw [← hdepth] at h ⊢
  cases depth with
  | zero => cases h
  | succ depth =>
    rw [descendantsTo] at h ⊢
    cases hn : d.get? id with
    | none =>
      rw [hn] at h
      cases h
    | some n =>
      rw [hn] at h
      simp only [List.drop_succ_cons, List.drop_zero, List.mem_flatMap] at h ⊢
      have hchildren : d.children id = n.children := by rw [children, hn]; rfl
      obtain ⟨k, hk, hc⟩ := h
      rcases mem_descendantsTo hc with rfl | ⟨q, hq, hcq⟩
      · exact .inl (by rwa [hchildren])
      · exact .inr ⟨q, ⟨k, hk, hq⟩, hcq⟩

/-- A node without what stands under it. -/
def clear (d : Document) (id : NodeId) : Document :=
  (d.free ((d.descendants id).drop 1)).modify id fun n => { n with children := [] }

/-- Taking out what stands under a node. -/
theorem Layered.clear (h : d.Layered) (id : NodeId) : (d.clear id).Layered := by
  unfold Document.clear
  obtain ⟨gone, hgone⟩ : ∃ gone, gone = (d.descendants id).drop 1 := ⟨_, rfl⟩
  rw [← hgone]
  have hchildren (q : NodeId) : ((d.free gone).modify id fun n => { n with children := [] }).children q =
      if q = id ∨ q ∈ gone then [] else d.children q := by
    rw [children, get?_modify]
    by_cases hq : q = id
    · rw [if_pos hq, if_pos (.inl hq)]
      cases (d.free gone).get? id <;> rfl
    · rw [if_neg hq, ← children, children_free]
      simp [hq]
  have hkept {q c : NodeId} (hc : c ∈ ((d.free gone).modify id fun n =>
      { n with children := [] }).children q) : c ∈ d.children q ∧ q ≠ id ∧ q ∉ gone := by
    rw [hchildren] at hc
    split at hc
    · cases hc
    · rename_i hq
      exact ⟨hc, not_or.1 hq⟩
  refine ⟨fun q c hc => ?_, fun q => ?_, fun q c hc => h.later q c (hkept hc).1⟩
  · obtain ⟨hc, hid, hq⟩ := hkept hc
    rw [parent?_modify (by intro n; rfl), parent?_free, if_neg]
    · exact h.linked q c hc
    · -- what is gone stands under the node itself or under something gone
      intro hmem
      rw [hgone] at hmem
      rcases mem_descendants_drop hmem with hc' | ⟨r, hr, hc'⟩
      · exact hid (h.linked.parent_unique hc hc')
      · rw [← hgone, ← h.linked.parent_unique hc hc'] at hr
        exact hq hr
  · rw [hchildren]
    split
    · exact List.nodup_nil
    · exact h.nodup q

theorem Layered.dropTemplateContent (h : d.Layered) : d.dropTemplateContent.Layered := by
  have hall (ids : List NodeId) {d : Document} (h : d.Layered) : (ids.foldl Document.clear d).Layered := by
    induction ids generalizing d with
    | nil => exact h
    | cons id ids ih => exact ih (h.clear id)
  exact hall _ h

end Document

namespace HtmlBuilder

variable {b : HtmlBuilder}

/-- A builder whose open elements are there. -/
structure Sound (b : HtmlBuilder) : Prop where
  layered : b.doc.Layered
  root : b.doc.contains Document.root
  stack : ∀ n ∈ b.stack, b.doc.contains n

namespace Sound

theorem current (h : b.Sound) : b.doc.contains b.current := by
  unfold HtmlBuilder.current
  cases hstack : b.stack with
  | nil => exact h.root
  | cons n stack => exact h.stack n (by simp [hstack])

theorem outermost (h : b.Sound) : b.doc.contains (b.stack.getLast?.getD Document.root) := by
  cases hlast : b.stack.getLast? with
  | none => exact h.root
  | some n => exact h.stack n (List.mem_of_getLast? hlast)

theorem withStack (h : b.Sound) {stack : List NodeId} (hstack : stack ⊆ b.stack) (part : PagePart) :
    Sound { b with stack, part } :=
  ⟨h.layered, h.root, fun n hn => h.stack n (hstack hn)⟩

theorem withPart (h : b.Sound) (part : PagePart) : Sound { b with part } :=
  h.withStack (List.Subset.refl _) part

theorem addUnder (h : b.Sound) {parent : NodeId} (hp : b.doc.contains parent) (kind : NodeKind) :
    (b.addUnder parent kind).2.Sound ∧ (b.addUnder parent kind).2.doc.contains (b.addUnder parent kind).1 := by
  have hcontains (n : NodeId) : (b.addUnder parent kind).2.doc.contains n ↔
      n = b.doc.nodes.size ∨ b.doc.contains n := by
    unfold HtmlBuilder.addUnder
    dsimp only
    rw [Document.contains_link, Document.contains_iff, Document.get?_create, Document.contains_iff]
    split
    · rename_i hn
      simp [hn]
    · rename_i hn
      simp [hn]
  refine ⟨⟨h.layered.linkLast hp kind, (hcontains _).2 (.inr h.root), fun n hn => ?_⟩,
    (hcontains _).2 (.inl rfl)⟩
  exact (hcontains n).2 (.inr (h.stack n hn))

theorem addText (h : b.Sound) (cs : List Char) : (b.addText cs).Sound := by
  unfold HtmlBuilder.addText
  split
  · exact h
  · dsimp only
    split
    · rename_i last _
      split
      · have hcontains (n : NodeId) (hn : b.doc.contains n) (s : String) :
            (b.doc.modify last fun n => { n with kind := .text s }).contains n := by
          obtain ⟨x, hx⟩ := Document.contains_iff.1 hn
          rw [Document.contains_iff, Document.get?_modify]
          split
          · rename_i hlast
            exact ⟨_, by rw [← hlast, hx]; rfl⟩
          · exact ⟨x, hx⟩
        refine ⟨h.layered.congr (fun _ => Document.parent?_modify fun _ => rfl)
          fun _ => Document.children_modify fun _ => rfl, hcontains _ h.root _, fun n hn => ?_⟩
        exact hcontains n (h.stack n hn) _
      · exact (h.addUnder h.current _).1
    · exact (h.addUnder h.current _).1

theorem addComment (h : b.Sound) {parent : NodeId} (hp : b.doc.contains parent) (cs : List Char) :
    (b.addComment parent cs).Sound := (h.addUnder hp _).1

theorem addElement (h : b.Sound) (tag : String) (attributes : List (String × String)) :
    (b.addElement tag attributes).2.Sound := (h.addUnder h.current _).1

theorem openElement (h : b.Sound) (tag : String) (attributes : List (String × String)) :
    (b.openElement tag attributes).Sound := by
  obtain ⟨hadded, hnew⟩ := h.addUnder h.current (.element ⟨tag, attributes⟩)
  refine ⟨hadded.layered, hadded.root, fun n hn => ?_⟩
  rcases List.mem_cons.1 hn with rfl | hn
  · exact hnew
  · exact hadded.stack n hn

theorem closing (h : b.Sound) (p : NodeId → Bool) :
    Sound { b with stack := (b.stack.dropWhile p).drop 1 } :=
  h.withStack (fun _ hn => (List.dropWhile_sublist p).subset (List.mem_of_mem_drop hn)) b.part

theorem closeElement (h : b.Sound) (tag : String) : (b.closeElement tag).Sound := by
  unfold HtmlBuilder.closeElement
  split
  · exact h.closing _
  · exact h

theorem closeWithin (h : b.Sound) (tags borders : List String) : (b.closeWithin tags borders).Sound := by
  unfold HtmlBuilder.closeWithin
  split
  · exact h.closing _
  · exact h

theorem ite {P : Prop} [Decidable P] {b' : HtmlBuilder} (h : b.Sound) (h' : b'.Sound) :
    (if P then b else b').Sound := by
  split
  · exact h
  · exact h'

theorem openTableParts (h : b.Sound) (tag : String) : (b.openTableParts tag).Sound := by
  unfold HtmlBuilder.openTableParts
  dsimp only
  have hclosed := (h.closeWithin ["td", "th"] ["table"]).ite (P := tag == "td" || tag == "th")
    ((h.closeWithin ["tr"] ["table"]).ite (P := tag == "tr")
      (h.closeWithin (["caption", "colgroup"] ++ rowGroupTags) ["table"]))
  exact .ite (.openElement (.ite (hclosed.openElement "tbody" []) hclosed) "tr" [])
    (.ite (hclosed.openElement "tbody" []) hclosed)

theorem bodyOpening (h : b.Sound) (tag : String) (attributes : List (String × String)) :
    (b.bodyOpening tag attributes).Sound := by
  unfold HtmlBuilder.bodyOpening
  dsimp only
  refine h.ite (h.ite ?_)
  have htable := (h.openTableParts tag).ite (P := tableTags.contains tag) h
  have hitem := (htable.closeWithin ["li"] itemBorders).ite (P := tag == "li") htable
  have hterm := (hitem.closeWithin ["dd", "dt"] itemBorders).ite (P := tag == "dd" || tag == "dt") hitem
  have hoption := (hterm.closeWithin ["option"] ["select"]).ite (P := tag == "option") hterm
  have hblock := (hoption.closeWithin ["p"] paragraphBorders).ite (P := blockTags.contains tag) hoption
  exact (hblock.addElement tag attributes).ite (hblock.openElement tag attributes)

theorem bodyClosing (h : b.Sound) (tag : String) : (b.bodyClosing tag).Sound := by
  unfold HtmlBuilder.bodyClosing
  exact (h.addElement "p" []).ite ((h.addElement "br" []).ite (h.closeElement tag))

theorem fragmentToken (h : b.Sound) (token : HtmlToken) : (b.fragmentToken token).Sound := by
  cases token with
  | doctype name => exact h
  | comment cs => exact h.addComment h.current cs
  | text cs => exact h.addText cs
  | opening tag attributes => exact h.bodyOpening tag attributes
  | closing tag => exact h.bodyClosing tag

theorem enterImplied (h : b.Sound) : b.enterImplied.Sound := by
  unfold HtmlBuilder.enterImplied
  split
  · exact (h.openElement "html" []).withPart _
  · exact (h.openElement "head" []).withPart _
  · exact h.withStack (List.drop_subset ..) _
  · exact (h.openElement "body" []).withPart _
  all_goals exact h.withPart _

/-- What follows white space is kept as it is, or goes on in the element that is implied. -/
theorem afterGap (h : b.Sound) (cs : List Char) {next : List Char → HtmlBuilder}
    (hnext : ∀ rest, (next rest).Sound) :
    (match cs.dropWhile HtmlToken.isGap with
      | [] => b
      | rest => next rest).Sound := by
  split
  · exact h
  · exact hnext _

theorem pageToken (steps : Nat) (h : b.Sound) (token : HtmlToken) : (pageToken steps b token).Sound := by
  induction steps generalizing b token with
  | zero => exact h
  | succ steps ih =>
    have hnext := ih h.enterImplied token
    have hgap (cs : List Char) {kept : HtmlBuilder} (hkept : kept.Sound) :=
      hkept.afterGap cs fun rest => ih hkept.enterImplied (.text rest)
    unfold HtmlBuilder.pageToken
    dsimp only
    split
    · exact (h.addUnder h.root _).1
    · exact h
    · exact h.addComment h.root _
    · exact hgap _ h
    · exact .ite ((h.openElement "html" _).withPart _) hnext
    · exact .ite hnext h
    · exact h.addComment h.current _
    · exact hgap _ h
    · exact .ite ((h.openElement "head" _).withPart _) hnext
    · exact .ite hnext h
    · exact h.addComment h.current _
    · exact .ite (h.addText _) (hgap _ (h.addText _))
    · exact .ite h (.ite (.ite (h.addElement _ _) (h.openElement _ _)) hnext)
    · exact .ite h.enterImplied (.ite (h.closeElement _) (.ite hnext h))
    · exact h.addComment h.current _
    · exact hgap _ (h.addText _)
    · exact .ite ((h.openElement "body" _).withPart _) (.ite h hnext)
    · exact .ite hnext h
    · exact h.addComment h.current _
    · exact h.addText _
    · exact h.bodyOpening _ _
    · exact .ite (h.withPart _) (.ite (h.withPart _) (h.bodyClosing _))
    · exact h.addComment h.outermost _
    · exact .ite (h.withPart _) hnext
    · exact h.addComment h.root _
    · exact .ite ((h.addText _).withPart _) hnext
    · exact hnext

theorem finishPage (steps : Nat) (h : b.Sound) : (HtmlBuilder.finishPage steps b).Sound := by
  induction steps generalizing b with
  | zero => exact h
  | succ steps ih =>
    unfold HtmlBuilder.finishPage
    split
    all_goals first | exact ih h.enterImplied | exact h

theorem empty (part : PagePart) : Sound ⟨.empty, [], part⟩ := ⟨.empty, rfl, fun n hn => by cases hn⟩

theorem foldl {step : HtmlBuilder → HtmlToken → HtmlBuilder}
    (hstep : ∀ {b : HtmlBuilder} (token : HtmlToken), b.Sound → (step b token).Sound)
    (tokens : List HtmlToken) (h : b.Sound) : (tokens.foldl step b).Sound := by
  induction tokens generalizing b with
  | nil => exact h
  | cons token tokens ih => exact ih (hstep token h)

end Sound

end HtmlBuilder

namespace Document

/-- The document of a page is a tree. -/
theorem isTree_ofPage (s : String) : (ofPage s).IsTree := by
  have hread := HtmlBuilder.Sound.foldl (fun token h => h.pageToken 8 token) (HtmlToken.scan s) (.empty .start)
  exact (hread.finishPage 8).layered.dropTemplateContent.isTree

/-- The document of a fragment is a tree. -/
theorem isTree_ofFragment (s : String) : (ofFragment s).IsTree := by
  have hread := HtmlBuilder.Sound.foldl (fun token h => h.fragmentToken token) (HtmlToken.scan s)
    (.empty .body)
  exact hread.layered.dropTemplateContent.isTree

end Document

end ReactiveMarkup
