import Mathlib
import ReactiveMarkup.Proofs.Compile.Undisturbed
import ReactiveMarkup.Proofs.Document.Written
import ReactiveMarkup.Proofs.Text.Position
import ReactiveMarkup.Proofs.Text.Search

/-!
# Where elements and declarations are found

A source is searched for the opening tags of the elements in document order, and for the text of each
declaration from the tag of its element on. In the text of the document itself every element is found
where it is written. A declaration is found where its text stands first from there on, which is not
behind the place where the declaration is written, but may be before it.

Main definitions: `Document.PlacedAt`, `Outline.Follows`, `Document.OwnText`.
Main results: `SourceMap.element_eq`, `SourceMap.find?_eq`, `Outline.Visits.follows`,
`Document.IsVerbatim.placed_sites`, `Document.OwnText.stands`, `Document.exists_ownText`.
-/
namespace ReactiveMarkup

/-! ## Upper and lower case -/

section

theorem toLower_of_not_isAlpha {c : Char} (h : c.isAlpha = false) : c.toLower = c := by
  refine Char.toLower_eq_of_not_isUpper ?_
  rw [Char.isAlpha, Bool.or_eq_false_iff] at h
  simp [h.1]

theorem utf8Size_toLower (c : Char) : c.toLower.utf8Size = c.utf8Size := by
  unfold Char.toLower
  split
  · simp only [Char.utf8Size]
    grind
  · rfl

theorem size_map_toLower (cs : List Char) : Utf8.size (cs.map Char.toLower) = Utf8.size cs := by
  induction cs with
  | nil => rfl
  | cons c cs ih => rw [List.map_cons, Utf8.size_cons, Utf8.size_cons, utf8Size_toLower, ih]

/-- Small letters do not make a tag. -/
theorem isTagless_map_toLower {cs : List Char} (h : isTagless cs) : isTagless (cs.map Char.toLower) := by
  induction cs with
  | nil => rfl
  | cons c cs ih =>
    rw [isTagless, Bool.and_eq_true] at h
    rw [List.map_cons, isTagless, ih h.2, Bool.and_true]
    have hbracket : c.toLower = '<' → c = '<' := by
      intro hc
      have halpha := Char.isAlpha_toLower_eq_isAlpha c
      rw [hc] at halpha
      rw [← toLower_of_not_isAlpha halpha.symm, hc]
    have hhead : ((cs.map Char.toLower).head?.any fun d => !d.isAlpha) =
        cs.head?.any fun d => !d.isAlpha := by
      cases cs with
      | nil => rfl
      | cons d cs => simp
    rw [hhead]
    by_cases hc : c = '<'
    · subst hc
      simpa using h.1
    · have hne : c.toLower ≠ '<' := fun hlower => hc (hbracket hlower)
      simp [hne]

end

/-! ## Searching a source -/

namespace SourceMap

variable {m : SourceMap} {tag raw : String} {front gap rest own : List Char}

/-- Nothing that is tagless makes an opening tag with what stands behind it. -/
theorem cut?_tag {c : Char} {cs : List Char} (hgap : isTagless gap) (hc : c.isAlpha) :
    Search.cut? ('<' :: c :: cs) (gap ++ '<' :: c :: cs ++ rest) = some (gap, rest) := by
  refine Search.cut?_append (List.cons_ne_nil _ _) fun before back hback hne hprefix => ?_
  obtain ⟨b, back, rfl⟩ := List.exists_cons_of_ne_nil hne
  obtain ⟨rfl, hletter⟩ := List.cons_prefix_cons.1 hprefix
  obtain ⟨d, back, rfl, hd⟩ := isTagless_suffix (hback ▸ hgap)
  obtain ⟨hcd, -⟩ := List.cons_prefix_cons.1 hletter
  rw [← hcd, hc] at hd
  cases hd

/-- An opening tag is found behind what is tagless. -/
theorem element_eq (hsource : m.source.toList = front ++ gap ++ '<' :: tag.toList ++ rest)
    (hcursor : m.cursor = Utf8.size front) (hgap : isTagless gap)
    (htag : tag.toList.head?.any Char.isAlpha)
    (hrest : ∃ c cs, rest = c :: cs ∧ (c = ' ' ∨ c = '>')) :
    m.element tag = (some (Utf8.size (front ++ gap)),
      { m with cursor := Utf8.size (front ++ gap ++ '<' :: tag.toList) }) := by
  have hlower : m.source.toList.map Char.toLower = front.map Char.toLower ++ (gap.map Char.toLower ++
      ('<' :: tag.toList).map Char.toLower ++ rest.map Char.toLower) := by
    rw [hsource]
    simp only [List.map_append, List.append_assoc]
  have hdrop : Utf8.drop? m.cursor (m.source.toList.map Char.toLower) = some (gap.map Char.toLower ++
      ('<' :: tag.toList).map Char.toLower ++ rest.map Char.toLower) := by
    rw [hlower, hcursor, ← size_map_toLower front, Utf8.drop?_size_append]
  have hends : endsName (rest.map Char.toLower) := by
    obtain ⟨c, cs, rfl, rfl | rfl⟩ := hrest <;> rfl
  have hcut : Search.cut? (('<' :: tag.toList).map Char.toLower) (gap.map Char.toLower ++
      ('<' :: tag.toList).map Char.toLower ++ rest.map Char.toLower) =
        some (gap.map Char.toLower, rest.map Char.toLower) := by
    cases hlist : tag.toList with
    | nil =>
      rw [hlist] at htag
      cases htag
    | cons c cs =>
      rw [hlist] at htag
      exact cut?_tag (isTagless_map_toLower hgap) ((Char.isAlpha_toLower_eq_isAlpha c).trans (by simpa using htag))
  have hfrom : tagFrom? (('<' :: tag.toList).map Char.toLower) m.cursor (gap.map Char.toLower ++
      ('<' :: tag.toList).map Char.toLower ++ rest.map Char.toLower) =
        some (Utf8.size (front ++ gap)) := by
    rw [tagFrom?, dif_neg (by simp)]
    split
    · rename_i hnone
      cases hcut.symm.trans hnone
    · rename_i before after hsome
      cases hcut.symm.trans hsome
      dsimp only
      rw [if_pos hends, hcursor, size_map_toLower, Utf8.size_append]
  rw [element, hdrop, Option.bind_some, hfrom, size_map_toLower]
  dsimp only
  rw [← Utf8.size_append]

/-- A text is found where it stands first. -/
theorem find?_eq (hraw : raw ≠ "") (hfront : front <+: own)
    (hown : own ++ raw.toList <+: m.source.toList) :
    ∃ found, m.find? (Utf8.size front) raw = some (Utf8.size found) ∧
      Search.First m.source.toList front raw.toList found ∧ found <+: own := by
  obtain ⟨rest, before, after, hrest, hcut, hfirst, hle⟩ := Search.exists_first hfront hown
  refine ⟨front ++ before, ?_, hfirst, hle⟩
  rw [find?, if_neg (by simpa using hraw), hrest, Utf8.drop?_size_append]
  simp [hcut, Utf8.size_append]

end SourceMap

/-! ## Elements in the text of their document -/

variable {o : CompileOptions} {d : Document} {root n : NodeId} {e : Element} {done : List NodeId}
  {l : Outline}

/-- The tag of a node stands at a byte of the text of the document. -/
def Document.PlacedAt (d : Document) (n : NodeId) (place : Option Nat) : Prop :=
  ∃ before, d.WrittenAfter n before ∧ place = some (Utf8.size before)

/-- The search in the text of a document goes on where the opening tags are those of the elements that
have not been visited. -/
def Document.Ahead (d : Document) (root : NodeId) (done : List NodeId) (source : Option SourceMap) :
    Prop :=
  ∃ front, source = some ⟨d.toHtml, Utf8.size front⟩ ∧
    ∀ rest, d.elements root = done ++ rest → ∃ after, d.Trail front rest after

namespace Outline

/-- The search has come to the elements that have not been visited, and of the scopes so far it is known
where the tags of their elements stand. -/
structure Follows (d : Document) (root : NodeId) (done : List NodeId) (l : Outline) : Prop where
  ahead : d.Ahead root done l.source
  places : List.Forall₂ d.PlacedAt (done.filter d.isAnnotated) (l.pending.map (·.element))

/-- The tag of the next element is found where it is written. -/
theorem findElement_placed (hd : d.IsVerbatim) (h : d.Ahead root done l.source)
    (next : done ++ [n] <+: d.elements root) (he : d.kind? n = some (.element e))
    (hkept : l.document.kind? n = some (.element e)) :
    d.PlacedAt n (l.findElement n).1 ∧ d.Ahead root (done ++ [n]) (l.findElement n).2.source := by
  obtain ⟨front, hsource, htrail⟩ := h
  obtain ⟨rest, hrest⟩ := next
  rw [List.append_assoc, List.singleton_append] at hrest
  obtain ⟨after, htrail⟩ := htrail _ hrest.symm
  cases htrail with
  | @tag _ gap _ _ e' _ hgap hn he' hafter =>
    cases he.symm.trans he'
    -- behind the place the document goes on with the tag
    obtain ⟨more, hhtml⟩ := hn.exists_rest hd
    obtain ⟨opening, hopening, -, c, cs, rfl, hends⟩ := Document.exists_openingTag (hd.kind hn he)
    rw [hd.written_element hn he, hopening] at hhtml
    have hbehind : ∃ rest, d.toHtml.toList = front ++ gap ++ '<' :: e.tag.toList ++ c :: rest :=
      ⟨_, by simpa using hhtml⟩
    obtain ⟨rest, hhtml⟩ := hbehind
    have hfound := SourceMap.element_eq (m := ⟨d.toHtml, Utf8.size front⟩) hhtml rfl hgap
      (hd.kind hn he).letter ⟨c, rest, rfl, hends⟩
    have htag : l.document.tag? n = some e.tag := by
      rw [Document.tag?, Document.element?, hkept]
      rfl
    have hfind : l.findElement n = (some (Utf8.size (front ++ gap)),
        { l with source := some ⟨d.toHtml, Utf8.size (front ++ gap ++ '<' :: e.tag.toList)⟩ }) := by
      rw [findElement, hsource, htag]
      dsimp only
      rw [hfound]
    rw [hfind]
    refine ⟨⟨_, hn, rfl⟩, _, rfl, fun rest' hrest' => ⟨after, ?_⟩⟩
    rw [← hrest, List.append_assoc, List.singleton_append] at hrest'
    rwa [← (List.cons.inj (List.append_cancel_left hrest')).2]

/-- In the text of the document itself each element is found where it is written. -/
theorem Visits.follows (h : Visits o (some d.toHtml) d root done l) (hd : d.IsVerbatim)
    (hnames : d.UniqueNames) (hroot : d.documentElement? = some root) : Follows d root done l := by
  have helement : d.isElement root := List.find?_some hroot
  induction h with
  | start =>
    refine ⟨⟨[], rfl, fun rest hrest => ?_⟩, .nil⟩
    obtain rfl : d.elements root = rest := hrest
    exact hd.trail_elements hroot
  | @skip done l n before next plain ih =>
    obtain ⟨e, he, hkept, -⟩ := (before.progress hd.tree hnames helement).standing hd.tree helement next
    obtain ⟨-, hahead⟩ := findElement_placed hd ih.ahead next he hkept
    refine ⟨hahead, ?_⟩
    rw [(findElement_source n l).2, List.filter_append, List.filter_cons_of_neg (by simp [plain]),
      List.filter_nil, List.append_nil]
    exact ih.places
  | @scope done l n parent before next annotated under old ih =>
    obtain ⟨e, he, hkept, -⟩ := (before.progress hd.tree hnames helement).standing hd.tree helement next
    obtain ⟨hplaced, hahead⟩ := findElement_placed hd ih.ahead next he hkept
    obtain ⟨hsource, -, hplaces⟩ := before.addScope hd.tree hnames helement next parent (l.findElement n).1
    refine ⟨by rwa [hsource], ?_⟩
    rw [hplaces, List.filter_append, List.filter_cons_of_pos annotated, List.filter_nil]
    exact List.rel_append ih.places (.cons hplaced .nil)

/-- The texts of an element are texts under it. -/
theorem mem_children_of_mem_texts {t : (NodeId × String) × Nat} (h : t ∈ texts d n) :
    t.1.1 ∈ d.children n ∧ d.kind? t.1.1 = some (.text t.1.2) := by
  obtain ⟨hchild, -⟩ := mem_texts.1 (List.mem_map_of_mem h)
  obtain ⟨⟨c, k⟩, -, ht⟩ := List.mem_filterMap.1 h
  obtain ⟨raw, hraw, rfl⟩ := Option.map_eq_some_iff.1 ht
  exact ⟨hchild, kind?_of_expressionText? hraw⟩

end Outline

namespace Document

/-- The sites of a document have the places where their elements are written in its text. -/
theorem IsVerbatim.placed_sites (hd : d.IsVerbatim) (hnames : d.UniqueNames) (o : CompileOptions)
    {s : Site} (hs : s ∈ d.sites o (some d.toHtml)) : d.PlacedAt s.node s.element := by
  obtain ⟨⟨⟨n, element⟩, i⟩, hmem, rfl⟩ := List.mem_map.1 hs
  have hmem : (n, element) ∈ d.scopeElements.zip _ := List.fst_mem_of_mem_zipIdx hmem
  rw [scopeElements] at hmem
  split at hmem
  · rename_i root hroot
    have hfollows := (Outline.ofDocument_visits (o := o) (some d.toHtml) hd.tree hnames hroot).follows hd
      hnames hroot
    exact (List.forall₂_zip hfollows.places) hmem
  · simp at hmem

end Document

/-! ## Declarations in the text of their document -/

/-- The text of the markup by which something is declared, and the byte of the source where it is said to
stand. -/
def Declared.markup? : Declared → Option (String × Option Nat)
  | .value ⟨_, _, .markup raw place⟩ => some (raw, place)
  | .value ⟨_, _, .implied _⟩ => none
  | .event e => some (e.raw, e.place)
  | .nameless _ => none

namespace Document

/-- Where something that an element declares is written: as the value of an attribute or as a text under
it. `own` is what stands before `raw` then; `before` is what stands before the element. -/
inductive OwnText (d : Document) (place : String → Option Nat) (n : NodeId) (before : List Char) :
    Declared → String → List Char → Prop
  | value {e : Element} {left right : List (String × String)} {name raw : String} {x : Declared}
      (he : d.kind? n = some (.element e)) (ha : e.attributes = left ++ (name, raw) :: right)
      (hx : Declared.ofAttribute? place (name, raw) = some x) :
      d.OwnText place n before x raw (before ++ '<' :: e.tag.toList ++
        left.flatMap (fun a => (attributeText a).toList) ++ (" " ++ name ++ "=\"").toList)
  | text {e : Element} {left right : List NodeId} {c : NodeId} {raw : String} {k : Nat}
      (he : d.kind? n = some (.element e)) (hc : d.children n = left ++ c :: right)
      (hx : ((c, raw), k) ∈ Outline.texts d n) :
      d.OwnText place n before (.ofText place ((c, raw), k)) raw
        (before ++ (openingTag e).toList ++ left.flatMap d.written)

/-- What is declared stands in the text of the document, behind the tag of its element. -/
theorem OwnText.stands {place : String → Option Nat} {before own : List Char} {x : Declared}
    {raw : String} (h : d.OwnText place n before x raw own) (hd : d.IsVerbatim)
    (hn : d.WrittenAfter n before) : before <+: own ∧ own ++ raw.toList <+: d.toHtml.toList := by
  cases h with
  | @value e left right name _ _ he ha hx =>
    obtain ⟨after, hhtml⟩ := hn.exists_rest hd
    obtain ⟨-, -, hescaped⟩ := (hd.kind hn he).attributes (name, raw) (by rw [ha]; simp)
    have hopening := toList_openingTag e []
    rw [List.append_nil] at hopening
    rw [hd.written_element hn he, hopening, ha] at hhtml
    refine ⟨by simp only [List.append_assoc]; exact List.prefix_append .., ?_⟩
    have hchars : (attributeText (name, raw)).toList = (" " ++ name ++ "=\"").toList ++ raw.toList ++ ['"'] := by
      dsimp only at hescaped
      simp [attributeText, hescaped]
    rw [hhtml, List.flatMap_append, List.flatMap_cons, hchars]
    simp
  | @text e left right c _ k he hc hx =>
    obtain ⟨-, hkind⟩ := Outline.mem_children_of_mem_texts hx
    have hleaf : d.isElement c = false := by
      rw [isElement, element?, hkind]
      rfl
    have hwritten := (hd.written_leaf (.under hn he hc) hleaf).2 _ hkind
    obtain ⟨after, hhtml⟩ := (WrittenAfter.under hn he hc).exists_rest hd
    rw [hwritten] at hhtml
    refine ⟨by simp only [List.append_assoc]; exact List.prefix_append .., ?_⟩
    rw [hhtml]
    exact List.prefix_append ..

/-- What an element declares by a text of the markup is written there. -/
theorem exists_ownText {place : String → Option Nat} (before : List Char) {x : Declared} {raw : String}
    {at? : Option Nat} (he : d.kind? n = some (.element e)) (hx : x ∈ d.declared place n)
    (hmarkup : x.markup? = some (raw, at?)) :
    at? = place raw ∧ ∃ own, d.OwnText place n before x raw own := by
  rcases List.mem_append.1 hx with hx | hx
  · rcases List.mem_append.1 hx with hx | hx
    · -- the value of an attribute
      obtain ⟨⟨name, value⟩, ha, hdeclares⟩ := List.mem_filterMap.1 hx
      have hattributes : d.attributes n = e.attributes := by
        rw [attributes, element?, he]
        rfl
      rw [hattributes] at ha
      obtain ⟨left, right, hsplit⟩ := List.append_of_mem ha
      obtain ⟨rfl, rfl⟩ : raw = value ∧ at? = place value := by
        unfold Declared.ofAttribute? at hdeclares
        dsimp only at hdeclares
        split at hdeclares <;> cases hdeclares <;> cases hmarkup <;> exact ⟨rfl, rfl⟩
      exact ⟨rfl, _, .value he hsplit hdeclares⟩
    · -- a text
      obtain ⟨⟨⟨c, text⟩, k⟩, ht, rfl⟩ := List.mem_map.1 hx
      obtain ⟨left, right, hsplit⟩ := List.append_of_mem (Outline.mem_children_of_mem_texts ht).1
      cases hmarkup
      exact ⟨rfl, _, .text he hsplit ht⟩
  · -- companions are implied
    obtain ⟨v, hv, rfl⟩ := List.mem_map.1 hx
    have hcompanion : v ∈ ScopeDraft.companions := by
      unfold Declared.companions at hv
      split at hv
      · exact (List.mem_filter.1 hv).1
      · cases hv
    simp only [ScopeDraft.companions, List.mem_cons, List.not_mem_nil, or_false] at hcompanion
    rcases hcompanion with rfl | rfl | rfl <;> cases hmarkup

end Document

end ReactiveMarkup
