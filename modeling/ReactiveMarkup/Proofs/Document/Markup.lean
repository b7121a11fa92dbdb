import ReactiveMarkup.Document.Markup
import ReactiveMarkup.Proofs.Document.Read

/-!
# Documents that are built from markup

Building a document from markup trees adds each node under one that is there already. Only elements
get something under them, and as attributes are set where one of their name stands, no element gets
two of one name.

Main definitions: `Document.UniqueNames`, `Document.WellMade`.
Main results: `Document.wellMade_ofMarkup`.
-/
namespace ReactiveMarkup

namespace Element

variable {e : Element}

/-- Setting an attribute adds its name at the end, if it is new. -/
theorem names_setAttribute (e : Element) (name value : String) :
    (e.setAttribute name value).attributes.map Prod.fst =
      if name ∈ e.attributes.map Prod.fst then e.attributes.map Prod.fst
      else e.attributes.map Prod.fst ++ [name] :=
  Declarations.names_set name value e.attributes

theorem nodup_setAttribute (h : (e.attributes.map Prod.fst).Nodup) (name value : String) :
    ((e.setAttribute name value).attributes.map Prod.fst).Nodup := by
  rw [names_setAttribute]
  split
  · exact h
  · rename_i hname
    exact List.nodup_append.2 ⟨h, by simp, fun a ha b hb heq =>
      hname (List.mem_singleton.1 hb ▸ heq ▸ ha)⟩

end Element

namespace Document

variable {d d' : Document}

/-- No element has two attributes of one name. -/
def UniqueNames (d : Document) : Prop := ∀ n, ((d.attributes n).map Prod.fst).Nodup

/-- Whether names are unique can be told from the nodes. -/
theorem uniqueNames_iff :
    d.UniqueNames ↔ ∀ n < d.nodes.size, ((d.attributes n).map Prod.fst).Nodup := by
  refine ⟨fun h n _ => h n, fun h n => ?_⟩
  rcases Nat.lt_or_ge n d.nodes.size with hlt | hge
  · exact h n hlt
  · rw [attributes, element?, kind?, get?_eq_none_of_size_le hge]
    exact List.nodup_nil

instance : Decidable d.UniqueNames := decidable_of_iff' _ uniqueNames_iff

namespace UniqueNames

theorem congr (h : d.UniqueNames) (hkind : ∀ n, d'.kind? n = d.kind? n) : d'.UniqueNames := by
  intro n
  rw [attributes, element?, hkind]
  exact h n

theorem create (h : d.UniqueNames) {kind : NodeKind}
    (hkind : ∀ e, kind = .element e → (e.attributes.map Prod.fst).Nodup) :
    (d.create kind).2.UniqueNames := by
  have hnew : (d.create kind).2.kind? d.nodes.size = some kind := by
    rw [kind?, get?_create, if_pos rfl]
    rfl
  intro n
  by_cases hn : n = d.nodes.size
  · subst hn
    rw [attributes, element?, hnew]
    cases kind with
    | element e => exact hkind e rfl
    | _ => exact List.nodup_nil
  · rw [attributes, element?, kind?, get?_create, if_neg hn]
    exact h n

end UniqueNames

/-! ## Building -/

/-- A tree with unique names in which only the root and elements have something under them. -/
structure WellMade (d : Document) : Prop where
  layered : d.Layered
  names : d.UniqueNames
  leaf : ∀ p, ∀ c ∈ d.children p, p ≠ root → d.isElement p

/-- A document that has more nodes, and the same ones otherwise but for what is under them. -/
structure Sprouts (d d' : Document) : Prop where
  size_le : d.nodes.size ≤ d'.nodes.size
  kind : ∀ n < d.nodes.size, d'.kind? n = d.kind? n
  parent : ∀ n < d.nodes.size, d'.parent? n = d.parent? n

variable {d'' : Document} {parent id : NodeId}

namespace Sprouts

theorem refl (d : Document) : Sprouts d d := ⟨Nat.le_refl _, fun _ _ => rfl, fun _ _ => rfl⟩

theorem trans (h : Sprouts d d') (h' : Sprouts d' d'') : Sprouts d d'' where
  size_le := Nat.le_trans h.size_le h'.size_le
  kind n hn := (h'.kind n (Nat.lt_of_lt_of_le hn h.size_le)).trans (h.kind n hn)
  parent n hn := (h'.parent n (Nat.lt_of_lt_of_le hn h.size_le)).trans (h.parent n hn)

theorem create (d : Document) (kind : NodeKind) : Sprouts d (d.create kind).2 where
  size_le := by
    rw [size_create]
    exact Nat.le_succ _
  kind n hn := by
    rw [kind?, get?_create, if_neg (Nat.ne_of_lt hn), kind?]
  parent n _ := parent?_create d kind n

/-- What was there is there. -/
theorem contains (h : Sprouts d d') (hid : d.contains id) : d'.contains id := by
  obtain ⟨n, hn⟩ := contains_iff.1 hid
  rw [contains_iff_kind?, h.kind id (Document.lt_size hn), ← contains_iff_kind?]
  exact hid

theorem isElement (h : Sprouts d d') (hid : d.isElement id) : d'.isElement id := by
  have hlt : id < d.nodes.size := by
    by_contra hge
    rw [Document.isElement, element?, kind?, get?_eq_none_of_size_le (Nat.not_lt.1 hge)] at hid
    cases hid
  rw [Document.isElement, element?, h.kind id hlt]
  exact hid

end Sprouts

namespace WellMade

theorem empty : Document.empty.WellMade where
  layered := .empty
  names := by decide
  leaf p c hc := by simp at hc

theorem create (h : d.WellMade) {kind : NodeKind}
    (hkind : ∀ e, kind = .element e → (e.attributes.map Prod.fst).Nodup) :
    (d.create kind).2.WellMade where
  layered := h.layered.congr (parent?_create d kind) (children_create d kind)
  names := h.names.create hkind
  leaf p c hc hp := by
    rw [children_create] at hc
    exact (Sprouts.create d kind).isElement (h.leaf p c hc hp)

/-- Putting a node that stands nowhere under an earlier one. -/
theorem link (h : d.WellMade) (hid : d.contains id) (hp : d.contains parent) (hlt : parent < id)
    (hfree : d.parent? id = none) (hleaf : parent ≠ root → d.isElement parent) (place : Nat) :
    (d.link parent id place).WellMade where
  layered := h.layered.link hid hp hlt (fun _ => h.layered.linked.notMem_of_parent?_eq_none hfree) place
  names := h.names.congr fun n => kind?_link ..
  leaf p c hc hpr := by
    have helement (n : NodeId) : (d.link parent id place).isElement n = d.isElement n := by
      rw [isElement, element?, kind?_link, isElement, element?]
    rw [helement]
    rw [children_link hp] at hc
    split at hc
    · rename_i hparent
      rw [hparent] at hpr ⊢
      exact hleaf hpr
    · exact h.leaf p c hc hpr

end WellMade

/-- What adding a tree that stands under nothing gives: its outermost node is the first new one. -/
structure Grown (d : Document) (r : NodeId × Document) : Prop where
  first : r.1 = d.nodes.size
  wellMade : r.2.WellMade
  sprouts : Sprouts d r.2
  contains : r.2.contains r.1
  free : r.2.parent? r.1 = none

namespace WellMade

/-- One node. -/
theorem grown_create (h : d.WellMade) {kind : NodeKind}
    (hkind : ∀ e, kind = .element e → (e.attributes.map Prod.fst).Nodup) : Grown d (d.create kind) where
  first := rfl
  wellMade := h.create hkind
  sprouts := .create d kind
  contains := by
    rw [contains_iff, get?_create]
    exact ⟨_, if_pos rfl⟩
  free := by
    rw [parent?_create]
    exact congrArg (Option.bind · NodeData.parent) (get?_eq_none_of_size_le (Nat.le_refl _))

mutual

/-- Adding a tree, by induction on it. -/
theorem createMarkup : (m : Markup) → {d : Document} → d.WellMade → Grown d (d.createMarkup m)
  | .text s, d, h => by
    rw [Document.createMarkup]
    exact h.grown_create fun _ => nofun
  | .comment s, d, h => by
    rw [Document.createMarkup]
    exact h.grown_create fun _ => nofun
  | .doctype name, d, h => by
    rw [Document.createMarkup]
    exact h.grown_create fun _ => nofun
  | .element tag attributes children, d, h => by
    have hnames (e : Element) (he : (e.attributes.map Prod.fst).Nodup) :
        ((attributes.foldl (fun e a => e.setAttribute a.1 a.2) e).attributes.map Prod.fst).Nodup := by
      induction attributes generalizing e with
      | nil => exact he
      | cons a attributes ih => exact ih _ (Element.nodup_setAttribute he a.1 a.2)
    rw [Document.createMarkup]
    obtain ⟨e, he⟩ : ∃ e, e = attributes.foldl (fun e a => e.setAttribute a.1 a.2) (Element.mk tag []) :=
      ⟨_, rfl⟩
    rw [← he]
    have hcreated : Grown d (d.create (.element e)) :=
      h.grown_create fun e' he' => by
        cases he'
        rw [he]
        exact hnames _ List.nodup_nil
    have helement : (d.create (.element e)).2.isElement d.nodes.size := by
      rw [isElement, element?, kind?, get?_create, if_pos rfl]
      rfl
    obtain ⟨hadded, hsprouts⟩ := addMarkups children d.nodes.size hcreated.wellMade hcreated.contains
      fun _ => helement
    exact {
      first := rfl
      wellMade := hadded
      sprouts := hcreated.sprouts.trans hsprouts
      contains := hsprouts.contains hcreated.contains
      free := (hsprouts.parent _ (by simp)).trans hcreated.free }

/-- Adding trees under a node, by induction on them. -/
theorem addMarkups : (ms : List Markup) → {d : Document} → (parent : NodeId) → d.WellMade →
    d.contains parent → (parent ≠ root → d.isElement parent) →
    (d.addMarkups parent ms).WellMade ∧ Sprouts d (d.addMarkups parent ms)
  | [], d, _, h, _, _ => ⟨h, .refl d⟩
  | m :: ms, d, parent, h, hp, hleaf => by
    rw [Document.addMarkups]
    have hm : Grown d (d.createMarkup m) := createMarkup m h
    generalize d.createMarkup m = r at hm ⊢
    obtain ⟨id, d₁⟩ := r
    obtain ⟨rfl, hmade, hsprouts, hid, hfree⟩ := hm
    dsimp only at hmade hsprouts hid hfree ⊢
    obtain ⟨n, hn⟩ := contains_iff.1 hp
    have hlinked := hmade.link hid (hsprouts.contains hp) (Document.lt_size hn) hfree
      (fun hpr => hsprouts.isElement (hleaf hpr)) (d₁.children parent).length
    have hsprouts' : Sprouts d (d₁.link parent d.nodes.size (d₁.children parent).length) := {
      size_le := by
        rw [size_link]
        exact hsprouts.size_le
      kind := fun n hn => (kind?_link ..).trans (hsprouts.kind n hn)
      parent := fun n hn => by
        rw [parent?_link hid, if_neg (Nat.ne_of_lt hn)]
        exact hsprouts.parent n hn }
    obtain ⟨hadded, hrest⟩ := addMarkups ms parent hlinked (hsprouts'.contains hp)
      fun hpr => hsprouts'.isElement (hleaf hpr)
    exact ⟨hadded, hsprouts'.trans hrest⟩

end

end WellMade

/-- Documents that are built from markup are well made. -/
theorem wellMade_ofMarkup (ms : List Markup) : (ofMarkup ms).WellMade :=
  (WellMade.addMarkups ms root .empty (by decide) fun h => absurd rfl h).1

end Document

end ReactiveMarkup
