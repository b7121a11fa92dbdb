import ReactiveMarkup.Document.Style
import ReactiveMarkup.Proofs.Document.Edit
import ReactiveMarkup.Proofs.Text.Blank
import ReactiveMarkup.Proofs.Text.Search

/-!
# What class and style texts say

A style text is cut at its semicolons, and each piece with a colon and a name is a declaration. Of
those with one name the first decides the place and the last the value. The text that is written for
declarations read so is read as just these, and the same holds for the words of a class text.

Main definitions: `Firsts`, `Declarations.Written`, `Declarations.Plain`, `Declarations.said`.
Main results: `Declarations.said_format`, `Declarations.parse_format`, `ClassList.parse_format`,
`normalizes_once`.
-/
namespace ReactiveMarkup

/-! ## First occurrences -/

section Firsts

variable {α : Type} [DecidableEq α] {xs ys : List α} {x : α}

/-- The items of a list, each where it stands first. -/
structure Firsts (xs ys : List α) : Prop where
  mem_iff : ∀ x, x ∈ ys ↔ x ∈ xs
  order : ys.Pairwise fun x y => xs.idxOf x < xs.idxOf y

namespace Firsts

theorem nodup (h : Firsts xs ys) : ys.Nodup :=
  h.order.imp fun {a b} hlt (heq : a = b) => Nat.lt_irrefl _ (heq ▸ hlt)

theorem nil : Firsts ([] : List α) [] := ⟨fun _ => Iff.rfl, .nil⟩

/-- Items that follow do not move those that are there. -/
theorem order_append (h : Firsts xs ys) (more : List α) :
    ys.Pairwise fun x y => (xs ++ more).idxOf x < (xs ++ more).idxOf y := by
  refine h.order.imp_of_mem fun {a b} ha hb hlt => ?_
  rwa [List.idxOf_append_of_mem ((h.mem_iff a).1 ha), List.idxOf_append_of_mem ((h.mem_iff b).1 hb)]

/-- An item that was there before is none. -/
theorem concat_of_mem (h : Firsts xs ys) (hx : x ∈ ys) : Firsts (xs ++ [x]) ys := by
  refine ⟨fun a => ?_, h.order_append _⟩
  rw [List.mem_append, List.mem_singleton, h.mem_iff]
  exact ⟨.inl, Or.rec id fun hax => hax ▸ (h.mem_iff x).1 hx⟩

theorem concat (h : Firsts xs ys) (hx : x ∉ ys) : Firsts (xs ++ [x]) (ys ++ [x]) := by
  refine ⟨fun a => by rw [List.mem_append, List.mem_append, h.mem_iff], List.pairwise_append.2
    ⟨h.order_append _, List.pairwise_singleton .., fun a ha b hb => ?_⟩⟩
  have hax := (h.mem_iff a).1 ha
  rw [List.mem_singleton.1 hb, List.idxOf_append_of_mem hax,
    List.idxOf_append_of_notMem ((h.mem_iff x).not.1 hx)]
  exact Nat.lt_of_lt_of_le (List.idxOf_lt_length_of_mem hax) (Nat.le_add_right ..)

end Firsts

end Firsts

/-! ## Class texts -/

namespace ClassList

theorem uniqueAfter_concat (seen xs : List String) (x : String) :
    uniqueAfter seen (xs ++ [x]) =
      if x ∈ seen ∨ x ∈ xs then uniqueAfter seen xs else uniqueAfter seen xs ++ [x] := by
  induction xs generalizing seen with
  | nil => by_cases hx : x ∈ seen <;> simp [uniqueAfter, hx]
  | cons y xs ih =>
    rw [List.cons_append, uniqueAfter, uniqueAfter, ih, ih]
    by_cases hy : y ∈ seen
    · have hiff : x ∈ seen ∨ x ∈ xs ↔ x ∈ seen ∨ x ∈ y :: xs := by grind
      simp only [List.contains_iff_mem.2 hy, if_true, hiff]
    · have hiff : x ∈ y :: seen ∨ x ∈ xs ↔ x ∈ seen ∨ x ∈ y :: xs := by grind
      simp only [List.contains_iff_mem, hy, if_false, hiff]
      split <;> rfl

/-- The words that are written are those that were read, each where it stood first. -/
theorem firsts_uniqueAfter (xs : List String) : Firsts xs (uniqueAfter [] xs) := by
  induction xs using List.reverseRecOn with
  | nil => exact .nil
  | append_singleton xs x ih =>
    rw [uniqueAfter_concat]
    split
    · rename_i hx
      exact ih.concat_of_mem ((ih.mem_iff x).2 (by simpa using hx))
    · rename_i hx
      exact ih.concat fun hmem => hx (.inr ((ih.mem_iff x).1 hmem))

theorem uniqueAfter_of_nodup {xs : List String} (h : xs.Nodup) : uniqueAfter [] xs = xs := by
  induction xs using List.reverseRecOn with
  | nil => rfl
  | append_singleton xs x ih =>
    obtain ⟨hxs, -, hx⟩ := List.nodup_append.1 h
    rw [uniqueAfter_concat, if_neg, ih hxs]
    simpa using fun hmem => hx x hmem x (List.mem_singleton_self x) rfl

/-- The words that are written are found again. -/
theorem parse_format (s : String) : parse (format (parse s)) = uniqueAfter [] (parse s) := by
  refine Blank.words_intercalate fun w hw => ?_
  have hmem := ((firsts_uniqueAfter (parse s)).mem_iff w).1 hw
  exact (Blank.words_spec s).ne_nil_and_not_gap _ (List.mem_map_of_mem hmem)

end ClassList

/-! ## Style texts -/

namespace Declarations

open Blank Search

/-- A piece declares what stands on either side of its first colon, trimmed, if that leaves a name. -/
inductive Declares : List Char → String × String → Prop
  | mk {name value : List Char} (hcolon : ':' ∉ name) (hne : trim (String.ofList name) ≠ "") :
      Declares (name ++ ':' :: value) (trim (String.ofList name), trim (String.ofList value))

/-- The declarations of pieces, in order. -/
inductive Declared : List (List Char) → Declarations → Prop
  | nil : Declared [] []
  | some {piece : List Char} {pieces : List (List Char)} {d : String × String} {ds : Declarations}
      (h : Declares piece d) (rest : Declared pieces ds) : Declared (piece :: pieces) (d :: ds)
  | none {piece : List Char} {pieces : List (List Char)} {ds : Declarations}
      (h : ∀ d, ¬Declares piece d) (rest : Declared pieces ds) : Declared (piece :: pieces) ds

/-- The declarations that stand between the semicolons of a text. -/
def Written (s : String) (ds : Declarations) : Prop :=
  ∃ pieces, pieces ≠ [] ∧ (∀ piece ∈ pieces, ';' ∉ piece) ∧ [';'].intercalate pieces = s.toList ∧
    Declared pieces ds

variable {piece : List Char} {d : String × String} {ds written : Declarations}

theorem declaration?_eq_some_iff : declaration? piece = some d ↔ Declares piece d := by
  have hempty (name : List Char) :
      (trimBy isBlank name).isEmpty = true ↔ trim (String.ofList name) = "" := by
    rw [List.isEmpty_iff, trim, String.toList_ofList, ← String.toList_eq_nil_iff, String.toList_ofList]
  constructor
  · intro h
    rw [declaration?] at h
    split at h
    · cases h
    · rename_i name value hcut
      obtain ⟨rfl, hcolon⟩ := cut?_singleton_eq_some_iff.1 hcut
      dsimp only at h
      split at h
      · cases h
      · rename_i hname
        cases h
        have hmk : Declares (name ++ ':' :: value) _ := .mk hcolon ((hempty name).not.1 hname)
        simpa only [trim, String.toList_ofList] using hmk
  · rintro ⟨hcolon, hne⟩
    rename_i name value
    rw [declaration?, cut?_of_notMem hcolon]
    dsimp only
    rw [if_neg ((hempty name).not.2 hne)]
    simp only [trim, String.toList_ofList]

theorem declared_filterMap (pieces : List (List Char)) :
    Declared pieces (pieces.filterMap declaration?) := by
  induction pieces with
  | nil => exact .nil
  | cons piece pieces ih =>
    cases h : declaration? piece with
    | none =>
      rw [List.filterMap_cons_none h]
      exact .none (fun d hd => by simp [declaration?_eq_some_iff.2 hd] at h) ih
    | some d =>
      rw [List.filterMap_cons_some h]
      exact .some (declaration?_eq_some_iff.1 h) ih

/-! ### Gathering -/

/-- Each declaration is set where one of its name stands, or at the end. -/
def gather (written : Declarations) : Declarations := written.foldl (fun ds d => set d.1 d.2 ds) []

theorem gather_concat (written : Declarations) (d : String × String) :
    gather (written ++ [d]) = set d.1 d.2 (gather written) := by
  rw [gather, List.foldl_concat, gather]

/-- Names stand where they were written first. -/
theorem firsts_gather (written : Declarations) :
    Firsts (written.map Prod.fst) ((gather written).map Prod.fst) := by
  induction written using List.reverseRecOn with
  | nil => exact .nil
  | append_singleton written d ih =>
    rw [gather_concat, names_set, List.map_append]
    split
    · exact ih.concat_of_mem ‹_›
    · exact ih.concat ‹_›

/-- Values are those that were written last. -/
theorem lookup_gather (written : Declarations) (name : String) :
    (gather written).lookup name = written.reverse.lookup name := by
  induction written using List.reverseRecOn with
  | nil => rfl
  | append_singleton written d ih =>
    obtain ⟨n, v⟩ := d
    rw [gather_concat, List.reverse_append, List.reverse_singleton, List.singleton_append]
    by_cases hn : name = n
    · subst hn
      rw [lookup_set_self, List.lookup_cons_self]
    · rw [lookup_set_of_ne hn, ih, List.lookup_cons, beq_eq_false_iff_ne.2 hn]

theorem mem_of_mem_gather (h : d ∈ gather written) : d ∈ written := by
  induction written using List.reverseRecOn with
  | nil => exact h
  | append_singleton written e ih =>
    rw [gather_concat] at h
    rcases eq_or_mem_of_mem_set h with rfl | h
    · exact List.mem_append_right _ (List.mem_singleton_self _)
    · exact List.mem_append_left _ (ih h)

theorem gather_of_nodup (h : (written.map Prod.fst).Nodup) : gather written = written := by
  induction written using List.reverseRecOn with
  | nil => rfl
  | append_singleton written d ih =>
    rw [List.map_append] at h
    obtain ⟨hwritten, -, hd⟩ := List.nodup_append.1 h
    rw [gather_concat, ih hwritten, set_of_notMem]
    exact fun hmem => hd d.1 hmem d.1 (List.mem_singleton_self _) rfl

/-! ### Reading what is written -/

/-- A name that may stand before a colon: it is all of it. -/
structure IsProperty (name : String) : Prop where
  ne : name ≠ ""
  trim : trim name = name
  no_colon : ':' ∉ name.toList
  no_semicolon : ';' ∉ name.toList

/-- Nothing of a declaration is lost between a semicolon, a colon and the next semicolon. -/
structure Plain (d : String × String) : Prop where
  name_ne : d.1 ≠ ""
  name_trim : trim d.1 = d.1
  value_trim : trim d.2 = d.2
  no_colon : ':' ∉ d.1.toList
  no_semicolon : ';' ∉ d.1.toList ∧ ';' ∉ d.2.toList

theorem Plain.isProperty (h : Plain d) : IsProperty d.1 :=
  ⟨h.name_ne, h.name_trim, h.no_colon, h.no_semicolon.1⟩

theorem notMem_trim {c : Char} {cs : List Char} (h : c ∉ cs) :
    c ∉ (trim (String.ofList cs)).toList := by
  rw [trim, String.toList_ofList, String.toList_ofList]
  exact fun hmem => h (trimBy_subset isBlank cs hmem)

theorem Declares.plain (h : Declares piece d) (hpiece : ';' ∉ piece) : Plain d := by
  obtain ⟨hcolon, hne⟩ := h
  simp only [List.mem_append, List.mem_cons, not_or] at hpiece
  exact ⟨hne, trim_trim _, trim_trim _, notMem_trim hcolon,
    notMem_trim hpiece.1, notMem_trim hpiece.2.2⟩

/-- One declaration, as it is written. -/
def text (d : String × String) : List Char := d.1.toList ++ ':' :: ' ' :: d.2.toList

theorem trim_ofList_space {cs : List Char} :
    trim (String.ofList (' ' :: cs)) = trim (String.ofList cs) := by
  have hspace : isBlank ' ' := by decide
  rw [trim, trim, String.toList_ofList, String.toList_ofList, trimBy_cons hspace]

/-- A declaration is read from its text, but for blanks at the ends of the value. -/
theorem IsProperty.declares {name : String} (h : IsProperty name) (value : String) :
    Declares (text (name, value)) (name, Blank.trim value) := by
  have hmk : Declares (text (name, value))
      (Blank.trim (String.ofList name.toList), Blank.trim (String.ofList (' ' :: value.toList))) :=
    .mk h.no_colon (by rw [String.ofList_toList, h.trim]; exact h.ne)
  rwa [trim_ofList_space, String.ofList_toList, String.ofList_toList, h.trim] at hmk

/-! ### What a text says -/

/-- The declarations between the semicolons of a text, in order. -/
def said (cs : List Char) : Declarations := (splitBy [';'] cs).filterMap declaration?

theorem parse_eq (s : String) : parse s = gather (said s.toList) := rfl

theorem written_said (cs : List Char) : Written (String.ofList cs) (said cs) :=
  ⟨splitBy [';'] cs, splitBy_ne_nil [';'] cs, fun _ => notMem_of_mem_splitBy,
    by rw [intercalate_splitBy, String.toList_ofList], declared_filterMap _⟩

theorem plain_of_mem_said {cs : List Char} (h : d ∈ said cs) : Plain d := by
  obtain ⟨piece, hpiece, hdeclared⟩ := List.mem_filterMap.1 h
  exact (declaration?_eq_some_iff.1 hdeclared).plain (notMem_of_mem_splitBy hpiece)

/-- A text says what is said before and behind a semicolon. -/
theorem said_append (front back : List Char) :
    said (front ++ ';' :: back) = said front ++ said back := by
  rw [said, splitBy_append, List.filterMap_append, said, said]

theorem said_of_notMem {cs : List Char} (h : ';' ∉ cs) : said cs = (declaration? cs).toList := by
  rw [said, splitBy_of_notMem h]
  cases hd : declaration? cs with
  | none => rw [List.filterMap_cons_none hd, List.filterMap_nil, Option.toList_none]
  | some d => rw [List.filterMap_cons_some hd, List.filterMap_nil, Option.toList_some]

/-- The space that is written behind a semicolon does not matter. -/
theorem declaration?_space (cs : List Char) : declaration? (' ' :: cs) = declaration? cs := by
  have hcut : cut? [':'] (' ' :: cs) = (cut? [':'] cs).map fun u => (' ' :: u.1, u.2) := rfl
  have hspace : isBlank ' ' := by decide
  rw [declaration?, hcut, declaration?]
  cases cut? [':'] cs with
  | none => rfl
  | some u => simp only [Option.map_some, trimBy_cons hspace]

theorem said_space (cs : List Char) : said (' ' :: cs) = said cs := by
  by_cases h : ';' ∈ cs
  · obtain ⟨front, back, rfl, hfront⟩ := List.eq_append_cons_of_mem h
    have hspace : ';' ∉ ' ' :: front := by simpa using hfront
    rw [said_append, ← List.cons_append, said_append, said_of_notMem hfront, said_of_notMem hspace,
      declaration?_space]
  · have hspace : ';' ∉ ' ' :: cs := by simpa using h
    rw [said_of_notMem h, said_of_notMem hspace, declaration?_space]

/-- The text of declarations says what each of them says. -/
theorem said_format (ds : Declarations) :
    said (format ds).toList = ds.flatMap fun d => said (text d) := by
  have htext : (format ds).toList = [';', ' '].intercalate (ds.map text) := by
    rw [format, String.toList_intercalate, List.map_map]
    congr 1
    exact List.map_congr_left fun d _ => by simp [text]
  rw [htext]
  clear htext
  induction ds with
  | nil => rw [List.map_nil, List.flatMap_nil]; decide +kernel
  | cons d ds ih =>
    cases ds with
    | nil => simp
    | cons e ds =>
      rw [List.map_cons, List.map_cons, List.intercalate_cons_cons, List.append_assoc, List.cons_append,
        List.singleton_append, said_append, said_space, ← List.map_cons, ih]
      rfl

/-- Without a semicolon in the value, a declaration alone is said. -/
theorem IsProperty.said_text {name value : String} (h : IsProperty name) (hvalue : ';' ∉ value.toList) :
    said (text (name, value)) = [(name, Blank.trim value)] := by
  have hnone : ';' ∉ text (name, value) := by simp [text, h.no_semicolon, hvalue]
  rw [said_of_notMem hnone, declaration?_eq_some_iff.2 (h.declares value), Option.toList_some]

theorem Plain.said_text (h : Plain d) : said (text d) = [d] := by
  have hsaid := h.isProperty.said_text h.no_semicolon.2
  rwa [h.value_trim] at hsaid

theorem flatMap_said_text (hplain : ∀ d ∈ ds, Plain d) : ds.flatMap (fun d => said (text d)) = ds := by
  induction ds with
  | nil => rfl
  | cons d ds ih =>
    obtain ⟨hd, hds⟩ := List.forall_mem_cons.1 hplain
    rw [List.flatMap_cons, hd.said_text, ih hds, List.singleton_append]

/-- Plain declarations of different names are read as they were written. -/
theorem parse_format_of_plain (hplain : ∀ d ∈ ds, Plain d) (hnames : (ds.map Prod.fst).Nodup) :
    parse (format ds) = ds := by
  rw [parse_eq, said_format, flatMap_said_text hplain, gather_of_nodup hnames]

/-- Reading gathers what is written, and it is plain. -/
theorem exists_written (s : String) :
    ∃ written, Written s written ∧ parse s = gather written ∧ ∀ d ∈ written, Plain d := by
  refine ⟨said s.toList, ?_, parse_eq s, fun d => plain_of_mem_said⟩
  have hwritten := written_said s.toList
  rwa [String.ofList_toList] at hwritten

theorem plain_of_mem_parse {s : String} (h : d ∈ parse s) : Plain d :=
  plain_of_mem_said (mem_of_mem_gather h)

theorem nodup_parse (s : String) : ((parse s).map Prod.fst).Nodup := (firsts_gather _).nodup

@[simp] theorem parse_empty : parse "" = [] := by decide +kernel

/-- The declarations that are written are found again. -/
theorem parse_format (s : String) : parse (format (parse s)) = parse s :=
  parse_format_of_plain (fun _ => plain_of_mem_parse) (nodup_parse s)

end Declarations

/-- Class and style texts say what is written in them, each thing once, and what is written for what
they say says the same. A style text has the names that stand before the colons, where each stands
first, with the value that stands last; a class text has the words, where each stands first. -/
theorem normalizes_once (s : String) :
    (∃ written, Declarations.Written s written ∧
      Firsts (written.map Prod.fst) ((Declarations.parse s).map Prod.fst) ∧
      (∀ d ∈ Declarations.parse s,
        d.1 ≠ "" ∧ Blank.trim d.1 = d.1 ∧ written.reverse.lookup d.1 = some d.2)) ∧
    ((Declarations.parse s).map Prod.fst).Nodup ∧
    Declarations.parse (Declarations.format (Declarations.parse s)) = Declarations.parse s ∧
    Blank.Words Blank.isAsciiBlank s.toList ((ClassList.parse s).map String.toList) ∧
    (∃ listed, Firsts (ClassList.parse s) listed ∧ listed.Nodup ∧
      ClassList.format (ClassList.parse s) = " ".intercalate listed ∧
      ClassList.parse (ClassList.format (ClassList.parse s)) = listed) ∧
    ClassList.format (ClassList.parse (ClassList.format (ClassList.parse s))) =
      ClassList.format (ClassList.parse s) := by
  have hfirsts := ClassList.firsts_uniqueAfter (ClassList.parse s)
  refine ⟨?_, ?_, Declarations.parse_format s, Blank.words_spec s,
    ⟨_, hfirsts, hfirsts.nodup, rfl, ClassList.parse_format s⟩, ?_⟩
  · obtain ⟨written, hwritten, heq, hplain⟩ := Declarations.exists_written s
    have hnames := Declarations.firsts_gather written
    rw [heq]
    refine ⟨written, hwritten, hnames, fun d hd => ?_⟩
    have hd' := hplain d (Declarations.mem_of_mem_gather hd)
    refine ⟨hd'.name_ne, hd'.name_trim, ?_⟩
    rw [← Declarations.lookup_gather]
    exact Declarations.lookup_of_mem hnames.nodup hd
  · obtain ⟨written, -, heq, -⟩ := Declarations.exists_written s
    rw [heq]
    exact (Declarations.firsts_gather written).nodup
  · rw [ClassList.parse_format, ClassList.format, ClassList.format,
      ClassList.uniqueAfter_of_nodup hfirsts.nodup]

example : Declarations.parse "color: red; margin:0;; color : a:b; :x; y" =
    [("color", "a:b"), ("margin", "0")] := by decide +kernel

end ReactiveMarkup
