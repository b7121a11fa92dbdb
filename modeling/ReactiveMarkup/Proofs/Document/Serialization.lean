import ReactiveMarkup.Document.Markup
import ReactiveMarkup.Document.Print
import ReactiveMarkup.Proofs.Document.Markup
import ReactiveMarkup.Proofs.Document.Walk

/-!
# Reading a document off its text

A document of texts and elements can be read off its text again, but for what the text does not show:
where one text ends and the next begins, texts that are empty, and what stands under elements without
content. If nothing stands under its texts, its markup has all of its nodes. Each part is written so that
its end can be seen from what comes after it: a name ends before a character that is none of its own, a
value before a quote, a text before an angle bracket, and the children of an element before a closing
tag.

Main definitions: `Delimited`, `Markup.chars`, `Markup.normalAll`, `Markup.kinds`, `Markup.Normal`,
`Document.IsPlain`.
Main results: `Markup.Normal.delimited`, `Document.toList_toHtml`, `Document.IsPlain.kindsAll_toMarkup`,
`Document.toHtml_eq_iff`.
-/
namespace ReactiveMarkup

/-! ## Reading back -/

/-- What is written by `f` can be read back before what satisfies `S`: the items, of those that satisfy
`P`, and what comes after them are told by the characters. -/
structure Delimited {α : Type} (P : α → Prop) (S : List Char → Prop) (f : α → List Char) : Prop where
  read : ∀ {a a' x x'}, P a → P a' → S x → S x' → f a ++ x = f a' ++ x' → a = a' ∧ x = x'

/-- Whatever comes after. -/
def Anything : List Char → Prop := fun _ => True

/-- Items one after the other, each of which shows its end, can be read back before what no item begins
with. -/
theorem Delimited.flatMap {α : Type} {P : α → Prop} {S : List Char → Prop} {f : α → List Char}
    (h : Delimited P Anything f) (hstart : ∀ a x, P a → ¬S (f a ++ x)) :
    Delimited (fun l => ∀ a ∈ l, P a) S (List.flatMap f) := by
  refine ⟨fun {l l' x x'} hl hl' hx hx' heq => ?_⟩
  induction l generalizing l' with
  | nil =>
    cases l' with
    | nil => exact ⟨rfl, heq⟩
    | cons a' l' =>
      simp only [List.flatMap_nil, List.nil_append, List.flatMap_cons, List.append_assoc] at heq
      rw [heq] at hx
      exact absurd hx (hstart a' _ (hl' a' (List.mem_cons_self ..)))
  | cons a l ih =>
    cases l' with
    | nil =>
      simp only [List.flatMap_nil, List.nil_append, List.flatMap_cons, List.append_assoc] at heq
      rw [← heq] at hx'
      exact absurd hx' (hstart a _ (hl a (List.mem_cons_self ..)))
    | cons a' l' =>
      rw [List.forall_mem_cons] at hl hl'
      simp only [List.flatMap_cons, List.append_assoc] at heq
      obtain ⟨rfl, hrest⟩ := h.read hl.1 hl'.1 trivial trivial heq
      obtain ⟨rfl, hx⟩ := ih hl.2 hl'.2 hrest
      exact ⟨rfl, hx⟩

/-- Characters that are written as they are end before any other one. -/
theorem delimited_chars (p : Char → Bool) :
    Delimited (fun l => ∀ c ∈ l, p c) (fun x => ∀ c ∈ x.head?, p c = false) id := by
  have hsingle : Delimited (fun c => p c) Anything fun c => [c] := by
    exact ⟨fun _ _ _ _ heq => List.cons.inj heq⟩
  have hall : Delimited (fun l => ∀ c ∈ l, p c) (fun x => ∀ c ∈ x.head?, p c = false)
      (List.flatMap fun c => [c]) := by
    refine hsingle.flatMap fun c x hc hx => ?_
    have hnone := hx c rfl
    rw [hc] at hnone
    cases hnone
  exact ⟨fun hl hl' hx hx' heq => hall.read hl hl' hx hx' (by simpa using heq)⟩

/-! ## Names and values -/

/-- Whether a text is a name: a small letter, and then small letters, digits and some marks. -/
def isName (marks : List Char) (s : String) : Bool :=
  match s.toList with
  | [] => false
  | c :: cs => c.isLower && cs.all fun c => c.isLower || c.isDigit || marks.contains c

theorem all_of_isName {marks : List Char} {s : String} (h : isName marks s) :
    ∀ c ∈ s.toList, c.isLower || c.isDigit || marks.contains c := by
  rw [isName] at h
  cases hs : s.toList with
  | nil => simp
  | cons c cs =>
    rw [hs] at h
    simp only [Bool.and_eq_true, List.all_eq_true] at h
    exact List.forall_mem_cons.2 ⟨by simp [h.1], h.2⟩

theorem delimited_name (marks : List Char) : Delimited (fun s => isName marks s)
    (fun x => ∀ c ∈ x.head?, (c.isLower || c.isDigit || marks.contains c) = false) String.toList := by
  refine ⟨fun hs hs' hx hx' heq => ?_⟩
  obtain ⟨hlist, hx⟩ := (delimited_chars _).read (all_of_isName hs) (all_of_isName hs') hx hx' heq
  exact ⟨String.toList_inj.1 hlist, hx⟩

namespace Document

/-- Characters can be read back if each of some special ones, the ampersand among them, is written with
an ampersand in front, and the others as they are. -/
theorem delimited_escape {code : Char → List Char} (special : List Char) (hand : '&' ∈ special)
    (hplain : ∀ c, c ∉ special → code c = [c]) (hspecial : ∀ c ∈ special, ∃ cs, code c = '&' :: cs)
    (hread : Delimited (· ∈ special) Anything code) : Delimited (fun _ => True) Anything code := by
  refine ⟨fun {c c' x x'} _ _ _ _ heq => ?_⟩
  by_cases hc : c ∈ special <;> by_cases hc' : c' ∈ special
  · exact hread.read hc hc' trivial trivial heq
  · obtain ⟨cs, hcs⟩ := hspecial c hc
    rw [hcs, hplain c' hc'] at heq
    obtain ⟨rfl, -⟩ := List.cons.inj heq
    exact absurd hand hc'
  · obtain ⟨cs, hcs⟩ := hspecial c' hc'
    rw [hcs, hplain c hc] at heq
    obtain ⟨rfl, -⟩ := List.cons.inj heq
    exact absurd hand hc
  · rw [hplain c hc, hplain c' hc'] at heq
    exact List.cons.inj heq

theorem toList_escapeTextChar (c : Char) : (escapeTextChar c).toList =
    if c = '&' then ['&', 'a', 'm', 'p', ';'] else if c = '<' then ['&', 'l', 't', ';']
    else if c = '>' then ['&', 'g', 't', ';'] else [c] := by
  unfold escapeTextChar
  split
  · rfl
  · split
    · rfl
    · split
      · rfl
      · simp

theorem toList_escapeAttributeChar (c : Char) : (escapeAttributeChar c).toList =
    if c = '&' then ['&', 'a', 'm', 'p', ';'] else if c = '"' then ['&', 'q', 'u', 'o', 't', ';']
    else [c] := by
  unfold escapeAttributeChar
  split
  · rfl
  · split
    · rfl
    · simp

theorem delimited_escapeTextChar :
    Delimited (fun _ => True) Anything fun c => (escapeTextChar c).toList := by
  simp only [toList_escapeTextChar]
  have hmem {c : Char} (hc : c ∈ ['&', '<', '>']) : c = '&' ∨ c = '<' ∨ c = '>' := by simpa using hc
  refine delimited_escape ['&', '<', '>'] (by decide) (fun c hc => ?_) (fun c hc => ?_)
    ⟨fun {c c' x x'} hc hc' _ _ heq => ?_⟩
  · simp_all
  · rcases hmem hc with rfl | rfl | rfl <;> exact ⟨_, rfl⟩
  · rcases hmem hc with rfl | rfl | rfl <;> rcases hmem hc' with rfl | rfl | rfl <;> simp_all

theorem delimited_escapeAttributeChar :
    Delimited (fun _ => True) Anything fun c => (escapeAttributeChar c).toList := by
  simp only [toList_escapeAttributeChar]
  have hmem {c : Char} (hc : c ∈ ['&', '"']) : c = '&' ∨ c = '"' := by simpa using hc
  refine delimited_escape ['&', '"'] (by decide) (fun c hc => ?_) (fun c hc => ?_)
    ⟨fun {c c' x x'} hc hc' _ _ heq => ?_⟩
  · simp_all
  · rcases hmem hc with rfl | rfl <;> exact ⟨_, rfl⟩
  · rcases hmem hc with rfl | rfl <;> rcases hmem hc' with rfl | rfl <;> simp_all

theorem toList_escapeText (s : String) :
    (escapeText s).toList = s.toList.flatMap fun c => (escapeTextChar c).toList := by
  rw [escapeText, String.toList_join, List.flatMap_map]

theorem toList_escapeAttribute (s : String) :
    (escapeAttribute s).toList = s.toList.flatMap fun c => (escapeAttributeChar c).toList := by
  rw [escapeAttribute, String.toList_join, List.flatMap_map]

/-- What the rest of a text of a document begins with. -/
inductive Front where
  /-- the text of a node -/
  | text
  /-- an element -/
  | element
  /-- the end, or the end of an element -/
  | close
  deriving DecidableEq

/-- What characters begin with. -/
def front : List Char → Front
  | [] => .close
  | c :: x => if c ≠ '<' then .text else if x.head? = some '/' then .close else .element

theorem front_cons_of_ne {c : Char} (hc : c ≠ '<') (x : List Char) : front (c :: x) = .text :=
  if_pos hc

theorem front_escapeTextChar (c : Char) (x : List Char) :
    front ((escapeTextChar c).toList ++ x) = .text := by
  rw [toList_escapeTextChar]
  split
  · rfl
  · split
    · rfl
    · split
      · rfl
      · exact front_cons_of_ne ‹_› x

theorem head?_escapeAttributeChar (c : Char) (x : List Char) :
    ((escapeAttributeChar c).toList ++ x).head? ≠ some '"' := by
  rw [toList_escapeAttributeChar]
  split
  · simp
  · split <;> simp_all

/-- A text ends before whatever else there is. -/
theorem delimited_escapeText :
    Delimited (fun _ => True) (fun x => front x ≠ .text) fun s => (escapeText s).toList := by
  have hall := delimited_escapeTextChar.flatMap (S := fun x => front x ≠ .text)
    fun c x _ hx => hx (front_escapeTextChar c x)
  refine ⟨fun {s s' x x'} _ _ hx hx' heq => ?_⟩
  rw [toList_escapeText, toList_escapeText] at heq
  obtain ⟨hlist, hx⟩ := hall.read (fun _ _ => trivial) (fun _ _ => trivial) hx hx' heq
  exact ⟨String.toList_inj.1 hlist, hx⟩

theorem front_escapeText {s : String} (hs : s ≠ "") (x : List Char) :
    front ((escapeText s).toList ++ x) = .text := by
  rw [toList_escapeText]
  cases hlist : s.toList with
  | nil => exact absurd (String.toList_inj.1 hlist) hs
  | cons c cs =>
    rw [List.flatMap_cons, List.append_assoc]
    exact front_escapeTextChar c _

/-- A value ends before a quote. -/
theorem delimited_escapeAttribute :
    Delimited (fun _ => True) (fun x => x.head? = some '"') fun s => (escapeAttribute s).toList := by
  have hall := delimited_escapeAttributeChar.flatMap (S := fun x => x.head? = some '"')
    fun c x _ => head?_escapeAttributeChar c x
  refine ⟨fun {s s' x x'} _ _ hx hx' heq => ?_⟩
  rw [toList_escapeAttribute, toList_escapeAttribute] at heq
  obtain ⟨hlist, hx⟩ := hall.read (fun _ _ => trivial) (fun _ _ => trivial) hx hx' heq
  exact ⟨String.toList_inj.1 hlist, hx⟩

/-! ## Opening tags -/

/-- An attribute ends with its quote. -/
theorem delimited_attributeText :
    Delimited (fun a => isName ['-', '_'] a.1) Anything fun a => (attributeText a).toList := by
  refine ⟨fun {a a' x x'} ha ha' _ _ heq => ?_⟩
  have hchars (a : String × String) (x : List Char) : (attributeText a).toList ++ x =
      ' ' :: (a.1.toList ++ '=' :: '"' :: ((escapeAttribute a.2).toList ++ '"' :: x)) := by
    simp [attributeText, String.toList_append]
  rw [hchars, hchars] at heq
  have hequal (y : List Char) : ∀ c ∈ ('=' :: y).head?,
      (c.isLower || c.isDigit || ['-', '_'].contains c) = false := by
    rintro c ⟨⟩
    decide
  obtain ⟨hname, hvalue⟩ := (delimited_name _).read ha ha' (hequal _) (hequal _) (List.cons.inj heq).2
  obtain ⟨hvalue, hx⟩ := delimited_escapeAttribute.read trivial trivial rfl rfl
    (List.cons.inj (List.cons.inj hvalue).2).2
  exact ⟨Prod.ext hname hvalue, (List.cons.inj hx).2⟩

end Document

/-- Elements whose tag and attributes have names, and whose text is escaped. -/
structure Element.IsPlain (e : Element) : Prop where
  tag : isName ['-'] e.tag
  escaped : Element.isRawText e.tag = false
  attributes : ∀ a ∈ e.attributes, isName ['-', '_'] a.1

instance (e : Element) : Decidable e.IsPlain :=
  decidable_of_iff (isName ['-'] e.tag ∧ Element.isRawText e.tag = false ∧
    ∀ a ∈ e.attributes, isName ['-', '_'] a.1) ⟨fun h => ⟨h.1, h.2.1, h.2.2⟩, fun h => ⟨h.1, h.2, h.3⟩⟩

namespace Document

theorem toList_openingTag (e : Element) (x : List Char) : (openingTag e).toList ++ x =
    '<' :: (e.tag.toList ++ (e.attributes.flatMap (fun a => (attributeText a).toList) ++ '>' :: x)) := by
  simp [openingTag, String.toList_append, String.toList_join, List.flatMap_map]

/-- After the name of an element there are its attributes, and then the end of its opening tag. -/
theorem delimited_openingTag :
    Delimited Element.IsPlain Anything fun e => (openingTag e).toList := by
  refine ⟨fun {e e' x x'} he he' _ _ heq => ?_⟩
  rw [toList_openingTag, toList_openingTag] at heq
  have hends (as : List (String × String)) (y : List Char) : ∀ c ∈
      (as.flatMap (fun a => (attributeText a).toList) ++ '>' :: y).head?,
        (c.isLower || c.isDigit || ['-'].contains c) = false := by
    cases as with
    | nil =>
      rintro c ⟨⟩
      decide
    | cons a as =>
      have hspace : (attributeText a).toList.head? = some ' ' := by
        simp [attributeText, String.toList_append]
      rw [List.flatMap_cons, List.append_assoc, List.head?_append, hspace]
      rintro c ⟨⟩
      decide
  obtain ⟨htag, hattributes⟩ := (delimited_name _).read he.tag he'.tag (hends _ _) (hends _ _)
    (List.cons.inj heq).2
  have hall := delimited_attributeText.flatMap (S := fun x => x.head? = some '>') fun a x _ hx => by
    simp [attributeText, String.toList_append] at hx
  obtain ⟨hattributes, hx⟩ := hall.read he.attributes he'.attributes rfl rfl hattributes
  obtain ⟨tag, attributes⟩ := e
  obtain ⟨tag', attributes'⟩ := e'
  cases htag
  cases hattributes
  exact ⟨rfl, (List.cons.inj hx).2⟩

theorem front_openingTag {e : Element} (he : e.IsPlain) (x : List Char) :
    front ((openingTag e).toList ++ x) = .element := by
  have htag := he.tag
  rw [toList_openingTag]
  rw [isName] at htag
  cases hlist : e.tag.toList with
  | nil =>
    rw [hlist] at htag
    cases htag
  | cons c cs =>
    rw [hlist, Bool.and_eq_true] at htag
    have hslash : c ≠ '/' := by
      rintro rfl
      exact absurd htag.1 (by decide)
    simp [front, hslash]

end Document

/-! ## Markup -/

namespace Markup

open Document

mutual

/-- What a tree is written with; `raw` if it stands in raw text. -/
def chars (raw : Bool) : Markup → List Char
  | text s => if raw then s.toList else (escapeText s).toList
  | comment s => ("<!--" ++ s ++ "-->").toList
  | doctype name => ("<!DOCTYPE " ++ name ++ ">").toList
  | element tag attributes children =>
    (openingTag ⟨tag, attributes⟩).toList ++
      if Element.isVoid tag then []
      else charsAll (Element.isRawText tag) children ++ ("</" ++ tag ++ ">").toList

/-- What trees are written with. -/
def charsAll (raw : Bool) : List Markup → List Char
  | [] => []
  | m :: ms => chars raw m ++ charsAll raw ms

end

/-- A text before others; texts that meet become one, and an empty one is left out. -/
def prependText (s : String) : List Markup → List Markup
  | text s' :: ms => text (s ++ s') :: ms
  | ms => if s = "" then ms else text s :: ms

mutual

/-- A tree before others, without what its text does not show. -/
def prepend : Markup → List Markup → List Markup
  | text s, ms => prependText s ms
  | element tag attributes children, ms =>
    element tag attributes (if Element.isVoid tag then [] else normalAll children) :: ms
  | m, ms => m :: ms

/-- Trees without what their text does not show: texts that meet are one, none is empty, and nothing
stands under elements without content. -/
def normalAll : List Markup → List Markup
  | [] => []
  | m :: ms => prepend m (normalAll ms)

end

mutual

/-- The nodes of a tree in tree order. -/
def kinds : Markup → List NodeKind
  | text s => [.text s]
  | comment s => [.comment s]
  | doctype name => [.doctype name]
  | element tag attributes children => .element ⟨tag, attributes⟩ :: kindsAll children

/-- The nodes of trees in tree order. -/
def kindsAll : List Markup → List NodeKind
  | [] => []
  | m :: ms => kinds m ++ kindsAll ms

end

theorem kindsAll_singleton (m : Markup) : kindsAll [m] = kinds m := by
  rw [kindsAll, kindsAll, List.append_nil]

theorem kindsAll_filterMap {α : Type} (f : α → Option Markup) (as : List α) :
    kindsAll (as.filterMap f) = as.flatMap fun a => kindsAll (f a).toList := by
  induction as with
  | nil => rfl
  | cons a as ih =>
    rw [List.flatMap_cons, ← ih]
    cases h : f a with
    | none =>
      rw [List.filterMap_cons_none h]
      rfl
    | some m => rw [List.filterMap_cons_some h, Option.toList_some, kindsAll_singleton, kindsAll]

/-- Trees of texts and elements. -/
inductive IsPlain : Markup → Prop
  | text (s : String) : IsPlain (text s)
  | element {tag : String} {attributes : List (String × String)} {children : List Markup}
      (he : Element.IsPlain ⟨tag, attributes⟩) (hchildren : ∀ m ∈ children, IsPlain m) :
      IsPlain (element tag attributes children)

/-- Trees that can be read off their text. -/
inductive Normal : List Markup → Prop
  | nil : Normal []
  | text {s : String} {ms : List Markup} (hs : s ≠ "") (hms : Normal ms)
      (hnext : ∀ s' ms', ms ≠ .text s' :: ms') : Normal (.text s :: ms)
  | element {tag : String} {attributes : List (String × String)} {children ms : List Markup}
      (he : Element.IsPlain ⟨tag, attributes⟩) (hvoid : Element.isVoid tag → children = [])
      (hchildren : Normal children) (hms : Normal ms) :
      Normal (.element tag attributes children :: ms)

/-! ## The text shows a normal form -/

theorem charsAll_prependText (raw : Bool) (s : String) (ms : List Markup) :
    charsAll raw (prependText s ms) = chars raw (text s) ++ charsAll raw ms := by
  cases ms with
  | nil => by_cases hs : s = "" <;> simp [prependText, hs, charsAll, chars, toList_escapeText]
  | cons m ms =>
    cases m with
    | text s' =>
      simp only [prependText, charsAll, chars, toList_escapeText, String.toList_append,
        List.flatMap_append]
      split <;> simp
    | _ => by_cases hs : s = "" <;> simp [prependText, hs, charsAll, chars, toList_escapeText]

mutual

/-- What is left out is not shown. -/
theorem charsAll_prepend (raw : Bool) (m : Markup) (ms : List Markup) :
    charsAll raw (prepend m ms) = chars raw m ++ charsAll raw ms := by
  cases m with
  | text s => exact charsAll_prependText raw s ms
  | element tag attributes children =>
    rw [prepend, charsAll, chars, chars]
    split
    · rfl
    · rw [charsAll_normalAll]
  | _ => rfl

theorem charsAll_normalAll (raw : Bool) (ms : List Markup) :
    charsAll raw (normalAll ms) = charsAll raw ms := by
  cases ms with
  | nil => rfl
  | cons m ms => rw [normalAll, charsAll_prepend, charsAll_normalAll, charsAll]

end

theorem Normal.prependText {ms : List Markup} (h : Normal ms) (s : String) :
    Normal (prependText s ms) := by
  cases h with
  | nil =>
    rw [Markup.prependText]
    split
    · exact .nil
    · exact .text ‹_› .nil (by simp)
    · simp
  | @text s' ms hs hms hnext =>
    rw [Markup.prependText]
    exact .text (by simp [hs]) hms hnext
  | element he hvoid hchildren hms =>
    rw [Markup.prependText]
    split
    · exact .element he hvoid hchildren hms
    · exact .text ‹_› (.element he hvoid hchildren hms) (by simp)
    · simp

mutual

theorem Normal.prepend {m : Markup} (hm : m.IsPlain) {ms : List Markup} (h : Normal ms) :
    Normal (prepend m ms) := by
  cases hm with
  | text s => exact h.prependText s
  | @element tag attributes children he hchildren =>
    rw [Markup.prepend]
    refine .element he (fun hvoid => if_pos hvoid) ?_ h
    split
    · exact .nil
    · exact normal_normalAll hchildren

theorem normal_normalAll {ms : List Markup} (h : ∀ m ∈ ms, m.IsPlain) : Normal (normalAll ms) := by
  cases ms with
  | nil => exact .nil
  | cons m ms =>
    rw [List.forall_mem_cons] at h
    exact .prepend h.1 (normal_normalAll h.2)

end

/-! ## Reading a normal form -/

variable {ms : List Markup} {x : List Char}

theorem front_text {s : String} (hs : s ≠ "") (ms : List Markup) (x : List Char) :
    front (charsAll false (text s :: ms) ++ x) = .text := by
  rw [charsAll, List.append_assoc]
  exact front_escapeText hs _

theorem front_element {tag : String} {attributes : List (String × String)}
    (he : Element.IsPlain ⟨tag, attributes⟩) (children ms : List Markup) (x : List Char) :
    front (charsAll false (element tag attributes children :: ms) ++ x) = .element := by
  rw [charsAll, chars, List.append_assoc, List.append_assoc]
  exact front_openingTag he _

theorem front_closing (tag : String) (x : List Char) :
    front (("</" ++ tag ++ ">").toList ++ x) = .close := by
  simp [front, String.toList_append]

theorem Normal.front_ne_text (h : Normal ms) (hnext : ∀ s' ms', ms ≠ .text s' :: ms')
    (hx : front x = .close) : front (charsAll false ms ++ x) ≠ .text := by
  cases h with
  | nil =>
    rw [charsAll, List.nil_append, hx]
    decide
  | text => exact absurd rfl (hnext _ _)
  | element he =>
    rw [front_element he]
    decide

/-- Normal forms can be read back before the end, or the end of an element. By induction on the form:
what it begins with shows whether a text or an element comes first, and each of them ends before what
comes after it. -/
theorem Normal.delimited : Delimited Normal (fun x => front x = .close) (charsAll false) := by
  refine ⟨fun {ms ms' x x'} h h' hx hx' heq => ?_⟩
  induction h generalizing ms' x x' with
  | nil =>
    have hfront : front (charsAll false ms' ++ x') = .close := heq ▸ hx
    cases h' with
    | nil => exact ⟨rfl, heq⟩
    | text hs => cases (front_text hs _ _).symm.trans hfront
    | element he => cases (front_element he _ _ _).symm.trans hfront
  | text hs hms hnext ih =>
    have hfront := heq ▸ front_text hs _ x
    cases h' with
    | nil => cases hfront.symm.trans hx'
    | text hs' hms' hnext' =>
      rw [charsAll, charsAll, List.append_assoc, List.append_assoc] at heq
      obtain ⟨rfl, hrest⟩ := delimited_escapeText.read trivial trivial (hms.front_ne_text hnext hx)
        (hms'.front_ne_text hnext' hx') heq
      obtain ⟨rfl, hx⟩ := ih hms' hx hx' hrest
      exact ⟨rfl, hx⟩
    | element he => cases (front_element he _ _ _).symm.trans hfront
  | element he hvoid hchildren hms ihchildren ih =>
    have hfront := heq ▸ front_element he _ _ x
    cases h' with
    | nil => cases hfront.symm.trans hx'
    | text hs' => cases (front_text hs' _ _).symm.trans hfront
    | element he' hvoid' hchildren' hms' =>
      rw [charsAll, charsAll, chars, chars, List.append_assoc, List.append_assoc, List.append_assoc,
        List.append_assoc] at heq
      obtain ⟨hsame, hrest⟩ := delimited_openingTag.read he he' trivial trivial heq
      cases hsame
      split at hrest
      · rename_i hempty
        obtain ⟨rfl, hx⟩ := ih hms' hx hx' (by simpa using hrest)
        rw [hvoid hempty, hvoid' hempty]
        exact ⟨rfl, hx⟩
      · rw [he.escaped, List.append_assoc, List.append_assoc] at hrest
        obtain ⟨rfl, hclosing⟩ := ihchildren hchildren' (front_closing ..) (front_closing ..) hrest
        obtain ⟨rfl, hx⟩ := ih hms' hx hx' (List.append_cancel_left hclosing)
        exact ⟨rfl, hx⟩

end Markup

/-! ## Documents -/

/-- Texts, and elements with names. -/
def NodeKind.IsPlain : NodeKind → Prop
  | .text _ => True
  | .element e => e.IsPlain
  | _ => False

instance (k : NodeKind) : Decidable k.IsPlain :=
  match k with
  | .text _ => .isTrue trivial
  | .element e => inferInstanceAs (Decidable e.IsPlain)
  | .document | .doctype _ | .comment _ => .isFalse fun h => h

namespace Document

variable {d d' : Document} {id c : NodeId}

/-- A tree whose only node without a text of its own is the root. -/
structure Rooted (d : Document) : Prop where
  tree : d.IsTree
  root : d.kind? root = some .document
  only : ∀ id, d.Below Document.root id → d.kind? id = some .document → id = Document.root

theorem children_of_get? {n : NodeData} (hn : d.get? id = some n) : d.children id = n.children := by
  rw [children, hn]
  rfl

theorem kind?_of_get? {n : NodeData} (hn : d.get? id = some n) : d.kind? id = some n.kind := by
  rw [kind?, hn]
  rfl

/-- Nothing has the root under it. -/
theorem IsTree.ne_root (h : d.IsTree) (hid : d.Below root id) (hc : c ∈ d.children id) : c ≠ root := by
  rintro rfl
  exact h.acyclic root (.tail' hid hc)

/-- The nodes in a list are shown one after the other. -/
theorem toList_join_htmlTo {raw : Bool} {depth depth' : Nat} {cs : List NodeId}
    (h : ∀ c ∈ cs, ∃ m, d.markupTo depth' c = some m ∧ (d.htmlTo depth raw c).toList = m.chars raw) :
    (String.join (cs.map (d.htmlTo depth raw))).toList =
      Markup.charsAll raw (cs.filterMap (d.markupTo depth')) := by
  rw [String.toList_join, List.flatMap_map]
  induction cs with
  | nil => rfl
  | cons c cs ih =>
    rw [List.forall_mem_cons] at h
    obtain ⟨⟨m, hm, hchars⟩, hcs⟩ := h
    rw [List.flatMap_cons, List.filterMap_cons_some hm, Markup.charsAll, ih hcs, hchars]

/-- The text of a node is that of its markup, however far either goes down, if that is far enough. -/
theorem Rooted.toList_htmlTo (h : d.Rooted) {level : NodeId → Nat}
    (hlevel : ∀ p, ∀ c ∈ d.children p, level p < level c)
    (hlast : ∀ x < d.nodes.size, level x < d.nodes.size) {depth depth' : Nat} {raw : Bool}
    (hid : d.Below Document.root id) (hroot : id ≠ Document.root) (hcontains : d.contains id)
    (hdepth : d.nodes.size ≤ level id + depth) (hdepth' : d.nodes.size ≤ level id + depth') :
    ∃ m, d.markupTo depth' id = some m ∧ (d.htmlTo depth raw id).toList = m.chars raw := by
  obtain ⟨n, hn⟩ := contains_iff.1 hcontains
  have hlt := hlast id (lt_size hn)
  induction depth generalizing id n depth' raw with
  | zero => omega
  | succ depth ih =>
    obtain ⟨depth', rfl⟩ : ∃ k, depth' = k + 1 := ⟨depth' - 1, by omega⟩
    rw [markupTo, htmlTo, hn]
    dsimp only
    cases hk : n.kind with
    | document => exact absurd (h.only id hid (hk ▸ kind?_of_get? hn)) hroot
    | text s => cases raw <;> exact ⟨_, rfl, rfl⟩
    | comment s => exact ⟨_, rfl, rfl⟩
    | doctype name => exact ⟨_, rfl, rfl⟩
    | element e =>
      refine ⟨_, rfl, ?_⟩
      dsimp only
      have hchildren : ∀ c ∈ n.children, ∃ m, d.markupTo depth' c = some m ∧
          (d.htmlTo depth (Element.isRawText e.tag) c).toList =
            m.chars (Element.isRawText e.tag) := by
        intro c hc
        rw [← children_of_get? hn] at hc
        have hbelow := hlevel id c hc
        have hcontained := h.tree.contains_of_mem hc
        obtain ⟨k, hk⟩ := contains_iff.1 hcontained
        refine ih (hid.tail hc) (h.tree.ne_root hid hc) hcontained ?_ ?_ k hk (hlast c (lt_size hk))
        · omega
        · omega
      rw [Markup.chars]
      split
      · rw [List.append_nil]
      · rw [← toList_join_htmlTo hchildren]
        simp [String.toList_append]

/-- The text of a document is that of its markup. -/
theorem toList_toHtml (h : d.Rooted) : d.toHtml.toList = Markup.charsAll false d.toMarkup := by
  obtain ⟨level, hlevel, -, hlast⟩ := h.tree.exists_level
  obtain ⟨n, hn, hkind⟩ := Option.map_eq_some_iff.1 h.root
  have hsize : 0 < d.nodes.size := lt_size hn
  obtain ⟨depth, hdepth⟩ := Nat.exists_eq_succ_of_ne_zero (Nat.ne_of_gt hsize)
  have hall : ∀ c ∈ n.children, ∃ m, d.markupTo d.nodes.size c = some m ∧
      (d.htmlTo depth false c).toList = m.chars false := by
    intro c hc
    rw [← children_of_get? hn] at hc
    have hbelow := hlevel root c hc
    refine h.toList_htmlTo hlevel hlast (.single hc) (h.tree.ne_root .refl hc)
      (h.tree.contains_of_mem hc) ?_ ?_
    · omega
    · omega
  rw [toHtml, outerHtml, toMarkup, children_of_get? hn, ← toList_join_htmlTo hall, hdepth, htmlTo, hn]
  dsimp only
  rw [hkind]

/-- A tree with texts and elements under its root, in which nothing stands under a text. -/
structure IsPlain (d : Document) : Prop where
  tree : d.IsTree
  root : d.kind? root = some .document
  nodes : ∀ id k, d.Below Document.root id → id ≠ Document.root → d.kind? id = some k → k.IsPlain
  leaf : ∀ id s, d.Below Document.root id → d.kind? id = some (.text s) → d.children id = []

/-- In a document that was built from markup nothing stands under a text. -/
theorem WellMade.isPlain (h : d.WellMade) (hroot : d.kind? root = some .document)
    (hall : ∀ id < d.nodes.size, id ≠ root → ∀ k ∈ d.kind? id, k.IsPlain) : d.IsPlain where
  tree := h.layered.isTree
  root := hroot
  nodes id k _ hne hk := by
    obtain ⟨n, hn, -⟩ := Option.map_eq_some_iff.1 hk
    exact hall id (lt_size hn) hne k hk
  leaf id s _ hs := by
    refine List.eq_nil_iff_forall_not_mem.2 fun c hc => ?_
    by_cases hid : id = Document.root
    · rw [hid, hroot] at hs
      cases hs
    · obtain ⟨e, he⟩ := kind?_of_isElement (h.leaf id c hc hid)
      rw [hs] at he
      cases he

theorem IsPlain.rooted (h : d.IsPlain) : d.Rooted where
  tree := h.tree
  root := h.root
  only id hid hkind := by
    by_cases hroot : id = Document.root
    · exact hroot
    · exact (h.nodes id _ hid hroot hkind).elim

theorem IsPlain.markupTo (h : d.IsPlain) {depth : Nat} (hid : d.Below Document.root id)
    (hroot : id ≠ Document.root) {m : Markup} (hm : d.markupTo depth id = some m) : m.IsPlain := by
  induction depth generalizing id m with
  | zero => cases hm
  | succ depth ih =>
    rw [Document.markupTo] at hm
    cases hn : d.get? id with
    | none =>
      rw [hn] at hm
      cases hm
    | some n =>
      have hplain := h.nodes id _ hid hroot (kind?_of_get? hn)
      rw [hn] at hm
      dsimp only at hm
      cases hk : n.kind with
      | text s =>
        rw [hk] at hm
        cases hm
        exact .text s
      | element e =>
        rw [hk] at hm hplain
        cases hm
        refine .element hplain fun m hm => ?_
        obtain ⟨c, hc, hm⟩ := List.mem_filterMap.1 hm
        rw [← children_of_get? hn] at hc
        exact ih (hid.tail hc) (h.tree.ne_root hid hc) hm
      | _ =>
        rw [hk] at hplain
        exact hplain.elim

/-- The markup of a node has the nodes of its subtree. By induction on the levels: a text has nothing under
it, and an element has the markup of what is. -/
theorem IsPlain.kindsAll_markupTo (h : d.IsPlain) {depth : Nat} (hid : d.Below Document.root id)
    (hroot : id ≠ Document.root) : Markup.kindsAll (d.markupTo depth id).toList =
      (d.descendantsTo depth id).filterMap d.kind? := by
  induction depth generalizing id with
  | zero => rfl
  | succ depth ih =>
    cases hn : d.get? id with
    | none =>
      rw [Document.markupTo, descendantsTo, hn]
      rfl
    | some n =>
      have hkind := kind?_of_get? hn
      have hplain := h.nodes id _ hid hroot hkind
      rw [Document.markupTo, descendantsTo, hn]
      dsimp only
      rw [List.filterMap_cons_some hkind]
      cases hk : n.kind with
      | text s =>
        rw [← children_of_get? hn, h.leaf id s hid (hk ▸ hkind)]
        rfl
      | element e =>
        have hchildren : ∀ c ∈ n.children, Markup.kindsAll (d.markupTo depth c).toList =
            (d.descendantsTo depth c).filterMap d.kind? := by
          intro c hc
          rw [← children_of_get? hn] at hc
          exact ih (hid.tail hc) (h.tree.ne_root hid hc)
        dsimp only
        rw [Option.toList_some, Markup.kindsAll_singleton, Markup.kinds, Markup.kindsAll_filterMap,
          List.filterMap_flatMap, List.flatMap_congr hchildren]
      | _ =>
        rw [hk] at hplain
        exact hplain.elim

/-- The markup of a plain document has all that is below its root, in tree order. -/
theorem IsPlain.kindsAll_toMarkup (h : d.IsPlain) :
    .document :: Markup.kindsAll d.toMarkup = (d.descendants Document.root).filterMap d.kind? := by
  have hcontains : d.contains Document.root := by
    rw [contains_iff_kind?, h.root]
    rfl
  have hchildren : ∀ c ∈ d.children Document.root, Markup.kindsAll (d.markupTo d.nodes.size c).toList =
      (d.descendants c).filterMap d.kind? :=
    fun c hc => h.kindsAll_markupTo (.single hc) (h.tree.ne_root .refl hc)
  rw [h.tree.descendants_eq hcontains, List.filterMap_cons_some h.root, Document.toMarkup,
    Markup.kindsAll_filterMap, List.filterMap_flatMap, List.flatMap_congr hchildren]

theorem IsPlain.toMarkup (h : d.IsPlain) : ∀ m ∈ d.toMarkup, m.IsPlain := by
  intro m hm
  obtain ⟨c, hc, hm⟩ := List.mem_filterMap.1 hm
  exact h.markupTo (.single hc) (h.tree.ne_root .refl hc) hm

/-- Two documents of texts and elements have the same text if and only if they are the same tree: the
same tags, attributes in their order with their values, and texts, but for texts that meet, texts that are
empty, and what stands under elements without content. -/
theorem toHtml_eq_iff (h : d.IsPlain) (h' : d'.IsPlain) :
    d.toHtml = d'.toHtml ↔ Markup.normalAll d.toMarkup = Markup.normalAll d'.toMarkup := by
  have hchars {d : Document} (h : d.IsPlain) :
      d.toHtml.toList = Markup.charsAll false (Markup.normalAll d.toMarkup) := by
    rw [Markup.charsAll_normalAll, toList_toHtml h.rooted]
  rw [← String.toList_inj, hchars h, hchars h']
  refine ⟨fun heq => ?_, fun heq => by rw [heq]⟩
  have hread := Markup.Normal.delimited.read (Markup.normal_normalAll h.toMarkup)
    (Markup.normal_normalAll h'.toMarkup) rfl rfl (congrArg (· ++ []) heq)
  exact hread.1

/-- Texts that meet, an empty text and a text in an element without content. -/
theorem toHtml_eq_iff_texts :
    let d := ofMarkup [.element "p" [("title", "\"1\" < 2")] [.text "1 <", .text " 2", .text ""],
      .element "br" [] [.text "3"]]
    let d' := ofMarkup [.element "p" [("title", "\"1\" < 2")] [.text "1 < 2"], .element "br" [] []]
    d.IsPlain ∧ d'.IsPlain ∧ d.toHtml = d'.toHtml ∧
      Markup.normalAll d.toMarkup = Markup.normalAll d'.toMarkup := by
  intro d d'
  have hd : d.IsPlain := (wellMade_ofMarkup _).isPlain (by decide +kernel) (by decide +kernel)
  have hd' : d'.IsPlain := (wellMade_ofMarkup _).isPlain (by decide +kernel) (by decide +kernel)
  have hhtml : d.toHtml = d'.toHtml := by decide +kernel
  exact ⟨hd, hd', hhtml, (toHtml_eq_iff hd hd').1 hhtml⟩

/-- A text that was put under a text is part of the content of the document, and does not show in its
text. These two documents are not the same tree: joining texts that meet and leaving out empty ones changes
no content. -/
theorem toHtml_eq_iff_underText :
    ∃ d, (ofMarkup [.text "a", .text "b"]).append 1 2 = .ok d ∧
      let d' := ofMarkup [.text "a"]
      d.IsTree ∧ d'.IsTree ∧ (d.descendants root).filterMap d.kind? = [.document, .text "a", .text "b"] ∧
        (d'.descendants root).filterMap d'.kind? = [.document, .text "a"] ∧
        d.toHtml = d'.toHtml ∧ d.textContent root = "ab" ∧ d'.textContent root = "a" := by
  let apart := ofMarkup [.text "a", .text "b"]
  let d : Document := (apart.append 1 2).toOption.get (by decide +kernel)
  have happend : apart.append 1 2 = .ok d := by with_unfolding_all rfl
  exact ⟨d, happend, (wellMade_ofMarkup _).layered.isTree.append happend,
    (wellMade_ofMarkup _).layered.isTree, by decide +kernel, by decide +kernel, by decide +kernel,
    by decide +kernel, by decide +kernel⟩

end Document

end ReactiveMarkup
