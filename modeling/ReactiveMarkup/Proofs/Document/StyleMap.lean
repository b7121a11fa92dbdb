import Mathlib.Logic.Function.Basic
import ReactiveMarkup.Proofs.Document.Elements
import ReactiveMarkup.Proofs.Document.Style

/-!
# Style properties as a map

Setting or removing a property of an element reads the whole style text and writes it anew. What is
read from it afterwards is the map of before with one place changed, as long as no value has a
semicolon: what stands behind a semicolon in a value is read as further declarations.

Main definitions: `Element.styles`, `StyleEdit`, `Document.Restyled`.
Main results: `Declarations.lookup_parse_format_set`, `Element.styles_removeStyle`,
`Document.style?_edits`, `Document.style_isMap`.
-/
namespace ReactiveMarkup

namespace Declarations

variable {ds : Declarations} {p q v : String}

/-- Where names stand once, a name that is set stands between the others. -/
theorem exists_set (p v : String) (h : (ds.map Prod.fst).Nodup) :
    ∃ before after, set p v ds = before ++ (p, v) :: after ∧ unset p ds = before ++ after := by
  induction ds with
  | nil => exact ⟨[], [], rfl, rfl⟩
  | cons d ds ih =>
    obtain ⟨n, u⟩ := d
    obtain ⟨hn, hds⟩ := List.nodup_cons.1 h
    by_cases hnp : n = p
    · subst hnp
      refine ⟨[], ds, by rw [set, if_pos rfl, List.nil_append], ?_⟩
      have hrest : ∀ d ∈ ds, d.1 != n := fun d hd =>
        bne_iff_ne.2 fun heq => hn (List.mem_map.2 ⟨d, hd, heq⟩)
      rw [unset, List.filter_cons_of_neg (by simp), List.filter_eq_self.2 hrest, List.nil_append]
    · obtain ⟨before, after, hset, hunset⟩ := ih hds
      refine ⟨(n, u) :: before, after, by rw [set, if_neg hnp, hset, List.cons_append], ?_⟩
      rw [unset, List.filter_cons_of_pos (by simpa using hnp), ← unset, hunset, List.cons_append]

theorem nodup_unset (p : String) (h : (ds.map Prod.fst).Nodup) :
    ((unset p ds).map Prod.fst).Nodup :=
  h.sublist (List.filter_sublist.map _)

theorem lookup_reverse (h : (ds.map Prod.fst).Nodup) (q : String) :
    ds.reverse.lookup q = ds.lookup q := by
  rw [← lookup_gather, gather_of_nodup h]

/-- What is read of a name is what is said of it behind the text that is set, in this text, or before. -/
theorem lookup_parse_format_set (hplain : ∀ d ∈ ds, Plain d) (hnames : (ds.map Prod.fst).Nodup)
    (p v q : String) : ∃ behind before : Option String, (unset p ds).lookup q = behind.or before ∧
      (parse (format (set p v ds))).lookup q =
        behind.or (((said (text (p, v))).reverse.lookup q).or before) := by
  obtain ⟨before, after, hset, hunset⟩ := exists_set p v hnames
  have hrest : ∀ d ∈ before ++ after, Plain d := fun d hd =>
    hplain d (List.filter_sublist.subset (hunset ▸ hd))
  have hsaid : said (format (set p v ds)).toList = before ++ (said (text (p, v)) ++ after) := by
    rw [said_format, hset, List.flatMap_append, List.flatMap_cons,
      flatMap_said_text fun d hd => hrest d (List.mem_append_left _ hd),
      flatMap_said_text fun d hd => hrest d (List.mem_append_right _ hd)]
  refine ⟨after.reverse.lookup q, before.reverse.lookup q, ?_, ?_⟩
  · rw [← lookup_reverse (nodup_unset p hnames), hunset, List.reverse_append, List.lookup_append]
  · rw [parse_eq, lookup_gather, hsaid, List.reverse_append, List.reverse_append, List.append_assoc,
      List.lookup_append, List.lookup_append]

/-- A property that is set is read as what its own text says of it last. -/
theorem lookup_parse_format_set_self (hplain : ∀ d ∈ ds, Plain d) (hnames : (ds.map Prod.fst).Nodup)
    (p v : String) :
    (parse (format (set p v ds))).lookup p = (said (text (p, v))).reverse.lookup p := by
  obtain ⟨behind, before, hrest, heq⟩ := lookup_parse_format_set hplain hnames p v p
  obtain ⟨rfl, rfl⟩ := Option.or_eq_none_iff.1 (hrest.symm.trans (lookup_unset_self p ds))
  rw [heq, Option.none_or, Option.or_none]

/-- Another property is read as before, or as what the text that was set says of it. -/
theorem lookup_parse_format_set_of_ne (hplain : ∀ d ∈ ds, Plain d) (hnames : (ds.map Prod.fst).Nodup)
    (v : String) (hq : q ≠ p) :
    (parse (format (set p v ds))).lookup q = ds.lookup q ∨
      ∃ u, (said (text (p, v))).reverse.lookup q = some u ∧
        (parse (format (set p v ds))).lookup q = some u := by
  obtain ⟨behind, before, hrest, heq⟩ := lookup_parse_format_set hplain hnames p v q
  rw [lookup_unset_of_ne hq] at hrest
  rw [heq, hrest]
  cases behind with
  | some u => exact .inl rfl
  | none =>
    cases (said (text (p, v))).reverse.lookup q with
    | none => exact .inl rfl
    | some u => exact .inr ⟨u, rfl, rfl⟩

/-- Behind a semicolon in a value the text goes on as any other. -/
theorem IsProperty.said_text_append {front rest : List Char} (hp : IsProperty p)
    (hv : v.toList = front ++ ';' :: rest) (hfront : ';' ∉ front) :
    said (text (p, v)) = (p, Blank.trim (String.ofList front)) :: said rest := by
  have htext : text (p, v) = text (p, String.ofList front) ++ ';' :: rest := by simp [text, hv]
  rw [htext, said_append, hp.said_text (by simpa using hfront), List.singleton_append]

end Declarations

namespace Element

open Declarations

variable {e : Element}

/-- The declarations of the style attribute; without it there are none. -/
def styles (e : Element) : Declarations := parse ((e.attribute? "style").getD "")

theorem plain_of_mem_styles {d : String × String} (h : d ∈ e.styles) : Plain d :=
  plain_of_mem_parse h

theorem nodup_styles (e : Element) : (e.styles.map Prod.fst).Nodup := nodup_parse _

theorem styles_setStyle (e : Element) (p v : String) :
    (e.setStyle p v).styles = parse (format (set p v e.styles)) := by
  rw [styles, setStyle, attribute?_setAttribute_self, Option.getD_some, styles]

theorem styles_removeStyle (e : Element) (p : String) :
    (e.removeStyle p).styles = unset p e.styles := by
  have hnone {e' : Element} (h : e'.attribute? "style" = none) : e'.styles = [] := by
    rw [styles, h, Option.getD_none, parse_empty]
  unfold removeStyle
  split
  · rename_i h
    rw [hnone h, unset, List.filter_nil]
  · rename_i current h
    have hstyles : e.styles = parse current := by rw [styles, h, Option.getD_some]
    rw [← hstyles]
    dsimp only
    split
    · rename_i hrest
      rw [hnone (attribute?_removeAttribute_self ..), List.isEmpty_iff.1 hrest]
    · have hplain : ∀ d ∈ unset p e.styles, Plain d := fun d hd =>
        plain_of_mem_styles (List.filter_sublist.subset hd)
      rw [styles, attribute?_setAttribute_self, Option.getD_some,
        parse_format_of_plain hplain (nodup_unset p e.nodup_styles)]

end Element

/-! ## Edits of style properties -/

/-- An edit of a style property. -/
inductive StyleEdit
  | set (property value : String)
  | remove (property : String)

namespace StyleEdit

/-- The edit at a node of a document. -/
def apply (id : NodeId) (d : Document) : StyleEdit → Document.Change
  | set p v => d.setStyle id p v
  | remove p => d.removeStyle id p

/-- The edit of a map from properties to values. -/
def onMap (styles : String → Option String) : StyleEdit → String → Option String
  | set p v => Function.update styles p (some (Blank.trim v))
  | remove p => Function.update styles p none

/-- What is set is a property, and its value goes up to the next semicolon. -/
def IsPlain : StyleEdit → Prop
  | set p v => Declarations.IsProperty p ∧ ';' ∉ v.toList
  | remove _ => True

end StyleEdit

namespace Document

open Blank Declarations

variable {d d' : Document} {id : NodeId} {e : Element} {p q v : String}

theorem style?_eq (h : d.kind? id = some (.element e)) (p : String) :
    d.style? id p = e.styles.lookup p := by
  rw [style?, attribute?, element?, h, Option.bind_some, Element.styles]
  cases e.attribute? "style" with
  | none => rw [Option.bind_none, Option.getD_none, parse_empty, List.lookup_nil]
  | some s => rw [Option.bind_some, Option.getD_some]

theorem exists_modifyElement (h : d.isElement id) (f : Element → Element) :
    ∃ e d', d.modifyElement id f = .ok d' ∧ d.kind? id = some (.element e) ∧
      d'.kind? id = some (.element (f e)) := by
  obtain ⟨e, he⟩ := kind?_of_isElement h
  have hok : d.modifyElement id f = .ok (d.modify id fun n => { n with kind := .element (f e) }) := by
    rw [modifyElement, he]
  obtain ⟨-, -, -, e', he', hkind⟩ := modifyElement_eq_ok hok
  rw [he] at he'
  cases he'
  exact ⟨e, _, hok, he, by rw [hkind, if_pos rfl]⟩

/-- What can be read as a value has no blanks at its ends and no semicolon. -/
theorem plain_of_style? (h : d.isElement id) (hv : d.style? id p = some v) :
    trim v = v ∧ ';' ∉ v.toList := by
  obtain ⟨e, he⟩ := kind?_of_isElement h
  rw [style?_eq he, List.lookup_eq_some_iff] at hv
  obtain ⟨before, after, heq, -⟩ := hv
  have hplain : Plain (p, v) :=
    Element.plain_of_mem_styles (heq ▸ List.mem_append_right _ (List.mem_cons_self ..))
  exact ⟨hplain.value_trim, hplain.no_semicolon.2⟩

/-- What an element says of its styles is what it said, and what the text of a new declaration says. -/
structure Restyled (id : NodeId) (p v : String) (d d' : Document) : Prop where
  isElement : d'.isElement id
  self : d'.style? id p = (said (text (p, v))).reverse.lookup p
  other : ∀ q ≠ p, d'.style? id q = d.style? id q ∨
    ∃ u, (said (text (p, v))).reverse.lookup q = some u ∧ d'.style? id q = some u

theorem exists_setStyle (h : d.isElement id) (p v : String) :
    ∃ d', d.setStyle id p v = .ok d' ∧ Restyled id p v d d' := by
  obtain ⟨e, d', hok, he, he'⟩ := exists_modifyElement h (·.setStyle p v)
  have hplain : ∀ d ∈ e.styles, Plain d := fun d => Element.plain_of_mem_styles
  refine ⟨d', hok, isElement_of_kind? he', ?_, fun q hq => ?_⟩
  · rw [style?_eq he', Element.styles_setStyle, lookup_parse_format_set_self hplain e.nodup_styles]
  · rw [style?_eq he', style?_eq he, Element.styles_setStyle]
    exact lookup_parse_format_set_of_ne hplain e.nodup_styles v hq

/-- Without a semicolon in the value, one place of the map is changed. -/
theorem Restyled.style?_eq (h : Restyled id p v d d') (hp : IsProperty p) (hv : ';' ∉ v.toList) :
    d'.style? id = Function.update (d.style? id) p (some (trim v)) := by
  obtain ⟨-, hself, hother⟩ := h
  rw [hp.said_text hv, List.reverse_singleton] at hself hother
  funext q
  by_cases hq : q = p
  · subst hq
    rw [hself, List.lookup_cons_self, Function.update_self]
  · rw [Function.update_of_ne hq]
    refine (hother q hq).resolve_right ?_
    rintro ⟨u, hu, -⟩
    rw [List.lookup_cons, beq_eq_false_iff_ne.2 hq] at hu
    cases hu

theorem exists_removeStyle (h : d.isElement id) (p : String) :
    ∃ d', d.removeStyle id p = .ok d' ∧ d'.isElement id ∧
      d'.style? id = Function.update (d.style? id) p none := by
  obtain ⟨e, d', hok, he, he'⟩ := exists_modifyElement h (·.removeStyle p)
  refine ⟨d', hok, isElement_of_kind? he', funext fun q => ?_⟩
  rw [style?_eq he', Element.styles_removeStyle]
  by_cases hq : q = p
  · subst hq
    rw [lookup_unset_self, Function.update_self]
  · rw [lookup_unset_of_ne hq, Function.update_of_ne hq, style?_eq he]

theorem exists_apply {edit : StyleEdit} (h : d.isElement id) (hedit : edit.IsPlain) :
    ∃ d', edit.apply id d = .ok d' ∧ d'.isElement id ∧ d'.style? id = edit.onMap (d.style? id) := by
  cases edit with
  | set p v =>
    obtain ⟨d', hok, hstyled⟩ := exists_setStyle h p v
    exact ⟨d', hok, hstyled.isElement, hstyled.style?_eq hedit.1 hedit.2⟩
  | remove p => exact exists_removeStyle h p

/-- Edits one after another edit the map one after another. -/
theorem style?_edits {edits : List StyleEdit} (h : d.isElement id) (hedits : ∀ e ∈ edits, e.IsPlain) :
    ∃ d', edits.foldlM (StyleEdit.apply id) d = .ok d' ∧
      d'.style? id = edits.foldl StyleEdit.onMap (d.style? id) := by
  induction edits generalizing d with
  | nil => exact ⟨d, rfl, rfl⟩
  | cons edit edits ih =>
    obtain ⟨hedit, hrest⟩ := List.forall_mem_cons.1 hedits
    obtain ⟨d₁, hok, hd₁, hstyle⟩ := exists_apply h hedit
    obtain ⟨d₂, hok₂, hstyle₂⟩ := ih hd₁ hrest
    refine ⟨d₂, ?_, by rw [hstyle₂, hstyle, List.foldl_cons]⟩
    rw [List.foldlM_cons, hok]
    exact hok₂

/-- The style properties of an element are a map that setting and removing a property edit at this
property, whatever was set and removed before. A value is read again just if it has no blanks at its
ends and no semicolon: behind a semicolon the text goes on with declarations, which count against the
value itself, and against other properties. -/
theorem style_isMap (h : d.isElement id) (hp : IsProperty p) :
    (∀ v, ∃ d₁, d.setStyle id p v = .ok d₁ ∧
      (d₁.style? id p = some v ↔ trim v = v ∧ ';' ∉ v.toList) ∧
      (';' ∉ v.toList → d₁.style? id = Function.update (d.style? id) p (some (trim v))) ∧
      (∀ q w, q ≠ p → IsProperty q → ';' ∉ w.toList →
        ∃ d₂, d₁.setStyle id q w = .ok d₂ ∧ d₂.style? id p = d₁.style? id p) ∧
      ∀ front rest, v.toList = front ++ ';' :: rest → ';' ∉ front →
        ∃ more, Written (String.ofList rest) more ∧
          d₁.style? id p = some ((more.reverse.lookup p).getD (trim (String.ofList front))) ∧
          ∀ q ≠ p, d₁.style? id q = d.style? id q ∨
            ∃ u, more.reverse.lookup q = some u ∧ d₁.style? id q = some u) ∧
    (∃ d₁, d.removeStyle id p = .ok d₁ ∧ d₁.style? id = Function.update (d.style? id) p none) ∧
    ∀ edits : List StyleEdit, (∀ e ∈ edits, e.IsPlain) →
      ∃ d', edits.foldlM (StyleEdit.apply id) d = .ok d' ∧
        d'.style? id = edits.foldl StyleEdit.onMap (d.style? id) := by
  refine ⟨fun v => ?_, ?_, fun edits => style?_edits h⟩
  · obtain ⟨d₁, hok, hstyled⟩ := exists_setStyle h p v
    have hplain := hstyled.style?_eq hp
    refine ⟨d₁, hok, ⟨plain_of_style? hstyled.isElement, fun hv => ?_⟩, hplain,
      fun q w hq hqp hw => ?_,
      fun front rest hv hfront => ⟨said rest, written_said rest, ?_, fun q hq => ?_⟩⟩
    · rw [hplain hv.2, Function.update_self, hv.1]
    · obtain ⟨d₂, hok₂, hstyled₂⟩ := exists_setStyle hstyled.isElement q w
      exact ⟨d₂, hok₂, by rw [hstyled₂.style?_eq hqp hw, Function.update_of_ne hq.symm]⟩
    · rw [hstyled.self, hp.said_text_append hv hfront, List.reverse_cons, List.lookup_append,
        List.lookup_cons_self, Option.or_some]
    · have hbehind : (said (text (p, v))).reverse.lookup q = (said rest).reverse.lookup q := by
        rw [hp.said_text_append hv hfront, List.reverse_cons, List.lookup_append, List.lookup_cons,
          beq_eq_false_iff_ne.2 hq, List.lookup_nil, Option.or_none]
      rw [← hbehind]
      exact hstyled.other q hq
  · obtain ⟨d₁, hok, -, heq⟩ := exists_removeStyle h p
    exact ⟨d₁, hok, heq⟩

theorem style_isMap_url :
    let d := (empty.create (.element ⟨"div", [("style", "color: red; margin: 0")]⟩)).2
    d.isElement 1 ∧ IsProperty "background" ∧
      (∃ d₁, d.setStyle 1 "background" "url(a.png)" = .ok d₁ ∧
        d₁.style? 1 "background" = some "url(a.png)" ∧ d₁.style? 1 "color" = d.style? 1 "color") ∧
      ∃ d₁, d.setStyle 1 "background" "url(data:image/png;base64,AA)" = .ok d₁ ∧
        d₁.style? 1 "background" ≠ some "url(data:image/png;base64,AA)" := by
  intro d
  have helement : d.isElement 1 := by decide
  have hp : IsProperty "background" := ⟨by decide, by decide +kernel, by decide, by decide⟩
  obtain ⟨hset, -, -⟩ := style_isMap helement hp
  refine ⟨helement, hp, ?_, ?_⟩
  · obtain ⟨d₁, hok, hself, hplain, -⟩ := hset "url(a.png)"
    refine ⟨d₁, hok, hself.2 ⟨by decide +kernel, by decide⟩, ?_⟩
    rw [hplain (by decide)]
    exact Function.update_of_ne (by decide) ..
  · obtain ⟨d₁, hok, hself, -⟩ := hset "url(data:image/png;base64,AA)"
    exact ⟨d₁, hok, fun heq => (hself.1 heq).2 (by decide)⟩

end Document

end ReactiveMarkup
