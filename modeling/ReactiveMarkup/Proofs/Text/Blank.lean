import Mathlib.Data.List.DropRight
import Mathlib.Data.List.Infix
import ReactiveMarkup.Text.Blank

/-!
# Trimming and words

Trimming takes away gaps at both ends and nothing else, so trimming again does nothing. The words of a
text are its longest runs of characters that are no gaps. Words with gaps between them are found again.

Main definitions: `Blank.Words`.
Main results: `Blank.trimBy_trimBy`, `Blank.words_spec`, `Blank.words_intercalate`.
-/
namespace ReactiveMarkup.Blank

variable {isGap : Char → Bool} {c : Char} {cs word : List Char}

/-! ## Trimming -/

theorem trimBy_eq (isGap : Char → Bool) (cs : List Char) :
    trimBy isGap cs = (cs.dropWhile isGap).rdropWhile isGap := rfl

/-- A gap in front does not matter. -/
theorem trimBy_cons (h : isGap c) : trimBy isGap (c :: cs) = trimBy isGap cs := by
  rw [trimBy, trimBy, List.dropWhile_cons_of_pos h]

theorem trimBy_subset (isGap : Char → Bool) (cs : List Char) : trimBy isGap cs ⊆ cs :=
  ((List.rdropWhile_prefix isGap _).isInfix.trans (List.dropWhile_suffix isGap).isInfix).subset

@[simp] theorem trimBy_trimBy (isGap : Char → Bool) (cs : List Char) :
    trimBy isGap (trimBy isGap cs) = trimBy isGap cs := by
  -- what is left begins with what the first gaps end at
  have hfront : (trimBy isGap cs).dropWhile isGap = trimBy isGap cs := by
    obtain ⟨rest, hrest⟩ := List.rdropWhile_prefix isGap (cs.dropWhile isGap)
    rw [← trimBy_eq] at hrest
    cases htrim : trimBy isGap cs with
    | nil => rfl
    | cons c left =>
      have hc := List.head?_dropWhile_not isGap cs
      rw [← hrest, htrim] at hc
      exact List.dropWhile_cons_of_neg (by simpa using hc)
  rw [trimBy_eq isGap (trimBy isGap cs), hfront, trimBy_eq, List.rdropWhile_idempotent]

@[simp] theorem trim_trim (s : String) : trim (trim s) = trim s := by
  rw [trim, trim, String.toList_ofList, trimBy_trimBy]

/-! ## Words -/

/-- The longest runs of characters of a text that are no gaps, in order. -/
inductive Words (isGap : Char → Bool) : List Char → List (List Char) → Prop
  | nil : Words isGap [] []
  | gap {c : Char} {cs : List Char} {words : List (List Char)} (h : isGap c)
      (rest : Words isGap cs words) : Words isGap (c :: cs) words
  | word {word cs : List Char} {words : List (List Char)} (hne : word ≠ [])
      (hword : ∀ c ∈ word, ¬isGap c) (hend : ∀ c ∈ cs.head?, isGap c)
      (rest : Words isGap cs words) : Words isGap (word ++ cs) (word :: words)

theorem Words.ne_nil_and_not_gap {words : List (List Char)} (h : Words isGap cs words) :
    ∀ word ∈ words, word ≠ [] ∧ ∀ c ∈ word, ¬isGap c := by
  induction h with
  | nil => simp
  | gap _ _ ih => exact ih
  | word hne hword _ _ ih => exact List.forall_mem_cons.2 ⟨⟨hne, hword⟩, ih⟩

/-- The run being read is the front of a word. -/
theorem wordsFrom_spec (hword : ∀ c ∈ word, ¬isGap c) :
    Words isGap (word.reverse ++ cs) (wordsFrom isGap word cs) := by
  have hreverse {word : List Char} (hword : ∀ c ∈ word, ¬isGap c) :
      ∀ c ∈ word.reverse, ¬isGap c := fun c hc => hword c (List.mem_reverse.1 hc)
  fun_induction wordsFrom isGap word cs with
  | case1 => exact .nil
  | case2 word hne =>
    exact .word (by simpa using hne) (hreverse hword) (by simp) .nil
  | case3 c cs hc ih => exact .gap hc (ih (by simp))
  | case4 word c cs hc hne ih =>
    exact .word (by simpa using hne) (hreverse hword) (by simpa using hc) (.gap hc (ih (by simp)))
  | case5 word c cs hc ih =>
    have := ih (List.forall_mem_cons.2 ⟨hc, hword⟩)
    rwa [List.reverse_cons, List.append_assoc] at this

theorem wordsFrom_cons_of_not_gap (hc : ¬isGap c) (run cs : List Char) :
    wordsFrom isGap run (c :: cs) = wordsFrom isGap (c :: run) cs := by
  cases run <;> simp [wordsFrom, hc]

/-- A gap ends a word. -/
theorem wordsFrom_cons_of_gap {run : List Char} (hc : isGap c) (hrun : run ≠ []) (cs : List Char) :
    wordsFrom isGap run (c :: cs) = run.reverse :: wordsFrom isGap [] cs := by
  cases run with
  | nil => exact absurd rfl hrun
  | cons d run => simp [wordsFrom, hc]

theorem wordsFrom_append (hword : ∀ c ∈ word, ¬isGap c) (run cs : List Char) :
    wordsFrom isGap run (word ++ cs) = wordsFrom isGap (word.reverse ++ run) cs := by
  induction word generalizing run with
  | nil => rfl
  | cons c word ih =>
    rw [List.forall_mem_cons] at hword
    rw [List.cons_append, wordsFrom_cons_of_not_gap hword.1, ih hword.2, List.reverse_cons,
      List.append_assoc]
    rfl

/-- Words with a gap between them are found again. -/
theorem wordsFrom_intercalate (hc : isGap c) {words : List (List Char)}
    (h : ∀ word ∈ words, word ≠ [] ∧ ∀ c ∈ word, ¬isGap c) :
    wordsFrom isGap [] ([c].intercalate words) = words := by
  induction words with
  | nil => rfl
  | cons word words ih =>
    obtain ⟨⟨hne, hword⟩, hrest⟩ := List.forall_mem_cons.1 h
    have hrun : word.reverse ≠ [] := by simpa using hne
    cases words with
    | nil =>
      obtain ⟨d, run, hdrun⟩ := List.exists_cons_of_ne_nil hrun
      rw [List.intercalate_singleton, ← List.append_nil word, wordsFrom_append hword, List.append_nil,
        List.append_nil, hdrun, wordsFrom, ← hdrun, List.reverse_reverse]
      simp
    | cons next words =>
      rw [List.intercalate_cons_cons, List.append_assoc, wordsFrom_append hword, List.append_nil,
        List.singleton_append, wordsFrom_cons_of_gap hc hrun, ih hrest, List.reverse_reverse]

/-- The words that are separated by ASCII blanks. -/
theorem words_spec (s : String) : Words isAsciiBlank s.toList ((words s).map String.toList) := by
  have h : Words isAsciiBlank ([].reverse ++ s.toList) (wordsFrom isAsciiBlank [] s.toList) :=
    wordsFrom_spec (by simp)
  rw [words, List.map_map]
  simpa [Function.comp_def] using h

/-- They are found again with spaces between them. -/
theorem words_intercalate {ws : List String}
    (h : ∀ w ∈ ws, w.toList ≠ [] ∧ ∀ c ∈ w.toList, ¬isAsciiBlank c) :
    words (" ".intercalate ws) = ws := by
  have hgap : isAsciiBlank ' ' := rfl
  rw [words, String.toList_intercalate]
  change (wordsFrom isAsciiBlank [] ([' '].intercalate (ws.map String.toList))).map String.ofList = ws
  rw [wordsFrom_intercalate hgap (by simpa using h), List.map_map]
  simp [Function.comp_def]

end ReactiveMarkup.Blank
