import ReactiveMarkup.Eval.Evaluate
import ReactiveMarkup.Proofs.Text.Search

/-!
# Splitting and joining

A string can be split at any value: at the text of the value, between all characters if that text is
empty, and not at all without one. Joining takes the same value, and a comma for none, so it puts back
what splitting took out. The other way round the parts come back if the separator is one character
that none of them holds.

Main results: `Builtin.intercalate_splitParts`, `Eval.callMethod_split_join`.
-/
namespace ReactiveMarkup

namespace Builtin

open Value

/-- What stands between joined items. -/
def separatorText (args : List Value) : String :=
  match arg args 0 with
  | .undefined => ","
  | v => v.toText

theorem itemTexts_map_string (texts : List String) : itemTexts (texts.map .string) = texts := by
  induction texts with
  | nil => rfl
  | cons s texts ih =>
    rw [List.map_cons, itemTexts, ih]
    rfl

theorem intercalate_ofList (separator : String) (parts : List (List Char)) :
    separator.intercalate (parts.map String.ofList) =
      String.ofList (separator.toList.intercalate parts) := by
  rw [← String.toList_inj, String.toList_intercalate, String.toList_ofList, List.map_map]
  simp [Function.comp_def]

/-- Without a text between them, the characters of a text join to it. -/
theorem intercalate_nil_singletons (cs : List Char) :
    ([] : List Char).intercalate (cs.map ([·])) = cs := by
  induction cs with
  | nil => exact List.intercalate_nil
  | cons c cs ih =>
    cases cs with
    | nil => exact List.intercalate_singleton
    | cons d cs =>
      rw [List.map_cons] at ih ⊢
      rw [List.map_cons, List.intercalate_cons_cons, ih]
      rfl

/-- Parts of a text that are joined again by what they were split at. -/
theorem intercalate_splitParts (args : List Value) (cs : List Char) :
    (separatorText args).toList.intercalate (splitParts args cs) = cs := by
  rw [separatorText, splitParts]
  cases arg args 0 with
  | undefined => exact List.intercalate_singleton
  | _ =>
    change (chars _).intercalate _ = cs
    dsimp only
    split
    · rename_i hnone
      rw [hnone]
      exact intercalate_nil_singletons cs
    · exact Search.intercalate_splitBy _ cs

/-- A separator of one character is searched for. -/
theorem splitParts_singleton {args : List Value} {c : Char}
    (h : (arg args 0).toText = String.singleton c) (cs : List Char) :
    splitParts args cs = Search.splitBy [c] cs := by
  have hchars : chars (arg args 0) = [c] := by rw [chars, h, String.toList_singleton]
  rw [splitParts]
  cases hv : arg args 0 with
  | undefined =>
    rw [hv] at hchars
    cases hchars
  | _ =>
    rw [hv] at hchars
    simp only [hchars]

theorem separatorText_singleton {args : List Value} {c : Char}
    (h : (arg args 0).toText = String.singleton c) : separatorText args = String.singleton c := by
  rw [separatorText]
  cases hv : arg args 0 with
  | undefined =>
    rw [hv] at h
    have hlength := congrArg String.length h
    rw [String.length_singleton] at hlength
    cases hlength
  | _ =>
    rw [hv] at h
    exact h

end Builtin

namespace Eval

variable {σ : Type}

open Builtin in
theorem run_split (call : Call σ) (s : String) (args : List Value) (f : Frame σ) :
    (callMethod call (.string s) "split" args).run f =
      (.ok (.array f.stamps ((splitParts args s.toList).map text)),
        { f with stamps := f.stamps + 1 }) := rfl

open Builtin in
theorem run_join (call : Call σ) (stamp : Stamp) (items args : List Value) (f : Frame σ) :
    (callMethod call (.array stamp items) "join" args).run f =
      (.ok (.string ((separatorText args).intercalate (Value.itemTexts items))), f) := rfl

/-- Splitting and joining are inverse. A string that is split at any value, or without one, and joined
with it is the string again. Strings that are joined with a single character that none of them holds
come back when the result is split at it. Extra arguments do not matter. -/
theorem callMethod_split_join (call : Call σ) (f : Frame σ) (separator : List Value) :
    (∀ s, (do
      let parts ← callMethod call (.string s) "split" separator
      callMethod call parts "join" separator).run f =
        (.ok (.string s), { f with stamps := f.stamps + 1 })) ∧
    ∀ c, (Builtin.arg separator 0).toText = String.singleton c → ∀ stamp parts, parts ≠ [] →
      (∀ part ∈ parts, c ∉ part.toList) → (do
        let joined ← callMethod call (.array stamp (parts.map .string)) "join" separator
        callMethod call joined "split" separator).run f =
          (.ok (.array f.stamps (parts.map .string)), { f with stamps := f.stamps + 1 }) := by
  refine ⟨fun s => ?_, fun c hc stamp parts hparts hfree => ?_⟩
  · have htexts : (Builtin.splitParts separator s.toList).map Builtin.text =
        ((Builtin.splitParts separator s.toList).map String.ofList).map .string := by
      rw [List.map_map]
      rfl
    rw [Evaluation.run_bind, run_split]
    dsimp only
    rw [run_join, htexts, Builtin.itemTexts_map_string, Builtin.intercalate_ofList,
      Builtin.intercalate_splitParts, String.ofList_toList]
  · have hsplit : Search.splitBy [c] ((String.singleton c).intercalate parts).toList =
        parts.map String.toList := by
      rw [String.toList_intercalate, String.toList_singleton]
      refine Search.splitBy_intercalate (by simpa using hparts) fun part hpart => ?_
      obtain ⟨s, hs, rfl⟩ := List.mem_map.1 hpart
      exact hfree s hs
    rw [Evaluation.run_bind, run_join]
    dsimp only
    rw [run_split, Builtin.itemTexts_map_string, Builtin.separatorText_singleton hc,
      Builtin.splitParts_singleton hc, hsplit, List.map_map]
    simp [Function.comp_def, Builtin.text]

/-- Empty parts at both ends and between, and a separator that is an array with a comma as its text. -/
theorem callMethod_split_join_array :
    let separator : List Value := [.array 0 [.null, .null]]
    let parts := ["", "é", "", "b", ""]
    (Builtin.arg separator 0).toText = String.singleton ',' ∧ parts ≠ [] ∧
      (∀ part ∈ parts, ',' ∉ part.toList) ∧
      ((do
        let joined ← callMethod (fun _ _ => .fail .invalidAssignment)
          (.array 0 (parts.map .string)) "join" separator
        callMethod (fun _ _ => .fail .invalidAssignment) joined "split" separator).run
          (⟨[], 1, ()⟩ : Frame Unit)).1 = .ok (.array 1 (parts.map .string)) := by
  intro separator parts
  have hc : (Builtin.arg separator 0).toText = String.singleton ',' := by cbv
  have hparts : parts ≠ [] := List.cons_ne_nil _ _
  have hfree : ∀ part ∈ parts, ',' ∉ part.toList := by decide
  have h := (callMethod_split_join (fun _ _ => .fail .invalidAssignment)
    (⟨[], 1, ()⟩ : Frame Unit) separator).2 ',' hc 0 parts hparts hfree
  exact ⟨hc, hparts, hfree, congrArg Prod.fst h⟩

end Eval

end ReactiveMarkup
