import Mathlib.Data.List.Infix
import ReactiveMarkup.Text.Search

/-!
# What a search finds

A cut is made at the first occurrence: what stands before, the needle and what stands after are the
text, and a text is cut where no earlier occurrence can begin. Splitting cuts until nothing is found,
so that joining the parts gives the text back.

Main definitions: `Search.First`.
Main results: `Search.cut?_eq_some`, `Search.cut?_eq_none_iff`, `Search.cut?_append`,
`Search.cut?_singleton_eq_some_iff`, `Search.exists_first`, `Search.intercalate_splitBy`,
`Search.splitBy_intercalate`, `Search.splitBy_append`.
-/
namespace ReactiveMarkup.Search

variable {needle cs before after : List Char}

/-- A cut takes the needle out and leaves the rest as it is. -/
theorem cut?_eq_some (h : cut? needle cs = some (before, after)) : cs = before ++ needle ++ after := by
  induction cs generalizing before with
  | nil =>
    rw [cut?] at h
    split at h
    · rename_i hneedle
      obtain rfl := List.isEmpty_iff.1 hneedle
      cases h
      rfl
    · cases h
  | cons c cs ih =>
    rw [cut?] at h
    split at h
    · rename_i hp
      obtain ⟨rest, hrest⟩ := List.isPrefixOf_iff_prefix.1 hp
      cases h
      rw [← hrest, List.drop_left, List.nil_append]
    · obtain ⟨⟨before', after'⟩, hcut, heq⟩ := Option.map_eq_some_iff.1 h
      cases heq
      rw [ih hcut]
      simp

/-- A text is not cut if the needle does not occur in it. -/
theorem cut?_eq_none_iff (hneedle : needle ≠ []) : cut? needle cs = none ↔ ¬needle <:+: cs := by
  induction cs with
  | nil =>
    rw [cut?, if_neg (by simpa using hneedle), List.infix_nil]
    simp [hneedle]
  | cons c cs ih =>
    rw [cut?, List.infix_cons_iff, ← List.isPrefixOf_iff_prefix]
    split
    · rename_i hp
      simp [hp]
    · rename_i hp
      rw [Option.map_eq_none_iff, ih]
      simp [hp]

/-- A text is cut at a needle if none begins before. -/
theorem cut?_append (hneedle : needle ≠ [])
    (hbefore : ∀ front back, before = front ++ back → back ≠ [] → ¬needle <+: back ++ needle ++ after) :
    cut? needle (before ++ needle ++ after) = some (before, after) := by
  induction before with
  | nil =>
    obtain ⟨c, cs, rfl⟩ := List.exists_cons_of_ne_nil hneedle
    rw [List.nil_append, List.cons_append, cut?, if_pos, ← List.cons_append, List.drop_left]
    rw [← List.cons_append, List.isPrefixOf_iff_prefix]
    exact List.prefix_append ..
  | cons b before ih =>
    have hb : ¬needle.isPrefixOf (b :: (before ++ needle ++ after)) := by
      rw [List.isPrefixOf_iff_prefix]
      exact hbefore [] (b :: before) rfl (List.cons_ne_nil _ _)
    rw [List.cons_append, List.cons_append, cut?, if_neg hb,
      ih fun front back h => hbefore (b :: front) back (by rw [h]; rfl)]
    rfl

/-- A text is cut at a character that does not stand before. -/
theorem cut?_of_notMem {c : Char} (h : c ∉ before) :
    cut? [c] (before ++ c :: after) = some (before, after) := by
  rw [List.append_cons]
  refine cut?_append (List.cons_ne_nil _ _) fun front back hback hne hprefix => ?_
  obtain ⟨b, back, rfl⟩ := List.exists_cons_of_ne_nil hne
  have hbc : c = b := (List.cons_prefix_cons.1 hprefix).1
  exact h (by rw [hback, hbc]; simp)

theorem cut?_singleton_eq_none_iff {c : Char} : cut? [c] cs = none ↔ c ∉ cs := by
  rw [cut?_eq_none_iff (List.cons_ne_nil _ _), List.singleton_infix_iff]

/-- A text with a character is cut where that stands first. -/
theorem cut?_singleton_eq_some_iff {c : Char} :
    cut? [c] cs = some (before, after) ↔ cs = before ++ c :: after ∧ c ∉ before := by
  refine ⟨fun h => ?_, fun ⟨heq, hc⟩ => heq ▸ cut?_of_notMem hc⟩
  have hcs : cs = before ++ c :: after := by simpa using cut?_eq_some h
  obtain ⟨front, back, hfront, hc⟩ := List.eq_append_cons_of_mem (show c ∈ cs by simp [hcs])
  have hcut : cut? [c] (front ++ c :: back) = some (front, back) := cut?_of_notMem hc
  rw [← hfront, h] at hcut
  cases hcut
  exact ⟨hcs, hc⟩

/-- A text is cut no later than where the needle stands. -/
theorem exists_cut? {front back : List Char} (h : cs = front ++ needle ++ back) :
    ∃ before after, cut? needle cs = some (before, after) ∧ before <+: front := by
  induction cs generalizing front with
  | nil =>
    obtain ⟨rfl, rfl, rfl⟩ : front = [] ∧ needle = [] ∧ back = [] := by simpa using h.symm
    exact ⟨[], [], rfl, List.nil_prefix⟩
  | cons c cs ih =>
    rw [cut?]
    split
    · exact ⟨[], _, rfl, List.nil_prefix⟩
    · rename_i hp
      cases front with
      | nil =>
        refine absurd (List.isPrefixOf_iff_prefix.2 ?_) hp
        rw [h, List.nil_append]
        exact List.prefix_append ..
      | cons d front =>
        obtain ⟨rfl, hcs⟩ := List.cons.inj h
        obtain ⟨before, after, hcut, hbefore⟩ := ih hcs
        exact ⟨c :: before, after, by rw [hcut]; rfl, List.cons_prefix_cons.2 ⟨rfl, hbefore⟩⟩

/-- Behind `front` in a text, `raw` stands first behind `found`, a longer front. -/
structure First (text front raw found : List Char) : Prop where
  behind : front <+: found
  stands : found ++ raw <+: text
  least : ∀ other, front <+: other → other ++ raw <+: text → found <+: other

/-- A cut behind a front is made where the needle stands first. -/
theorem exists_first {text front : List Char} {own : List Char} (hown : front <+: own)
    (hstands : own ++ needle <+: text) :
    ∃ rest before after, text = front ++ rest ∧ cut? needle rest = some (before, after) ∧
      First text front needle (front ++ before) ∧ front ++ before <+: own := by
  obtain ⟨middle, rfl⟩ := hown
  obtain ⟨back, htext⟩ := hstands
  rw [List.append_assoc, List.append_assoc, ← List.append_assoc middle] at htext
  obtain ⟨before, after, hcut, hbefore⟩ : ∃ before after,
      cut? needle (middle ++ needle ++ back) = some (before, after) ∧ before <+: middle := exists_cut? rfl
  refine ⟨_, before, after, htext.symm, hcut, ⟨List.prefix_append .., ?_, ?_⟩, ?_⟩
  · rw [← htext, List.append_assoc, cut?_eq_some hcut, List.append_assoc before]
    exact (List.prefix_append_right_inj _).2 ((List.prefix_append_right_inj _).2 (List.prefix_append ..))
  · rintro other ⟨middle', rfl⟩ ⟨back', hother⟩
    rw [← htext, List.append_assoc, List.append_assoc] at hother
    have hrest := List.append_cancel_left hother
    rw [← List.append_assoc] at hrest
    obtain ⟨before', after', hcut', hbefore'⟩ := exists_cut? hrest.symm
    cases hcut.symm.trans hcut'
    exact (List.prefix_append_right_inj _).2 hbefore'
  · exact (List.prefix_append_right_inj _).2 hbefore

/-! ## Splitting -/

theorem splitBy_ne_nil (needle cs : List Char) : splitBy needle cs ≠ [] := by
  fun_induction splitBy needle cs <;> exact List.cons_ne_nil _ _

/-- Splitting takes out the needles and nothing else. -/
theorem intercalate_splitBy (needle cs : List Char) :
    needle.intercalate (splitBy needle cs) = cs := by
  fun_induction splitBy needle cs with
  | case1 cs => exact List.intercalate_singleton
  | case2 cs hneedle hcut => exact List.intercalate_singleton
  | case3 cs hneedle before after hcut _ _ ih =>
    obtain ⟨part, parts, hparts⟩ := List.exists_cons_of_ne_nil (splitBy_ne_nil needle after)
    rw [hparts] at ih ⊢
    rw [List.intercalate_cons_cons, ih, cut?_eq_some hcut]

/-- A text without the needle is one part. -/
theorem splitBy_of_not_infix (hneedle : needle ≠ []) (h : ¬needle <:+: cs) :
    splitBy needle cs = [cs] := by
  rw [splitBy, dif_neg hneedle]
  split
  · rfl
  · rename_i hcut
    rw [(cut?_eq_none_iff hneedle).2 h] at hcut
    cases hcut

theorem splitBy_of_cut? (hneedle : needle ≠ []) (h : cut? needle cs = some (before, after)) :
    splitBy needle cs = before :: splitBy needle after := by
  rw [splitBy, dif_neg hneedle]
  split
  · rename_i hcut
    rw [h] at hcut
    cases hcut
  · rename_i hcut
    rw [h] at hcut
    cases hcut
    rfl

/-- A text without a character is one part. -/
theorem splitBy_of_notMem {c : Char} (h : c ∉ cs) : splitBy [c] cs = [cs] :=
  splitBy_of_not_infix (List.cons_ne_nil _ _) fun hin => h (hin.subset (List.mem_singleton_self c))

/-- Texts without a character are found again between its occurrences. -/
theorem splitBy_intercalate {c : Char} {parts : List (List Char)} (hparts : parts ≠ [])
    (h : ∀ part ∈ parts, c ∉ part) : splitBy [c] ([c].intercalate parts) = parts := by
  induction parts with
  | nil => exact absurd rfl hparts
  | cons part parts ih =>
    have hpart := h part (List.mem_cons_self ..)
    cases parts with
    | nil =>
      rw [List.intercalate_singleton, splitBy_of_notMem hpart]
    | cons next parts =>
      have hcut : cut? [c] (part ++ c :: [c].intercalate (next :: parts)) = _ := cut?_of_notMem hpart
      rw [List.intercalate_cons_cons, List.append_assoc, List.singleton_append,
        splitBy_of_cut? (List.cons_ne_nil _ _) hcut,
        ih (List.cons_ne_nil _ _) fun p hp => h p (List.mem_cons_of_mem _ hp)]

/-- No part has the character at which the text is split. -/
theorem notMem_of_mem_splitBy {c : Char} {part : List Char} (h : part ∈ splitBy [c] cs) :
    c ∉ part := by
  fun_induction splitBy [c] cs with
  | case1 cs hneedle => cases hneedle
  | case2 cs hneedle hcut =>
    cases List.mem_singleton.1 h
    exact cut?_singleton_eq_none_iff.1 hcut
  | case3 cs hneedle before after hcut _ _ ih =>
    rcases List.mem_cons.1 h with rfl | h
    · exact (cut?_singleton_eq_some_iff.1 hcut).2
    · exact ih h

/-- A text is split on either side of the character. -/
theorem splitBy_append {c : Char} (front back : List Char) :
    splitBy [c] (front ++ c :: back) = splitBy [c] front ++ splitBy [c] back := by
  have hjoin {xs ys : List (List Char)} (hxs : xs ≠ []) (hys : ys ≠ []) :
      [c].intercalate (xs ++ ys) = [c].intercalate xs ++ c :: [c].intercalate ys := by
    induction xs with
    | nil => exact absurd rfl hxs
    | cons x xs ih =>
      cases xs with
      | nil =>
        obtain ⟨y, ys, rfl⟩ := List.exists_cons_of_ne_nil hys
        rw [List.singleton_append, List.intercalate_cons_cons, List.intercalate_singleton,
          List.append_assoc, List.singleton_append]
      | cons x' xs =>
        rw [List.cons_append, List.cons_append, List.intercalate_cons_cons, ← List.cons_append,
          ih (List.cons_ne_nil _ _), List.intercalate_cons_cons, List.append_assoc, List.append_assoc,
          List.append_assoc]
  have hfront := splitBy_ne_nil [c] front
  have hback := splitBy_ne_nil [c] back
  have hnone : ∀ part ∈ splitBy [c] front ++ splitBy [c] back, c ∉ part := fun part hpart =>
    (List.mem_append.1 hpart).elim notMem_of_mem_splitBy notMem_of_mem_splitBy
  have hparts := splitBy_intercalate (List.append_ne_nil_of_left_ne_nil hfront _) hnone
  rwa [hjoin hfront hback, intercalate_splitBy, intercalate_splitBy] at hparts

end ReactiveMarkup.Search
