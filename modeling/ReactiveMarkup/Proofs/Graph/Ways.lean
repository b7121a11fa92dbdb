import ReactiveMarkup.Proofs.Graph.Names
import ReactiveMarkup.Proofs.Graph.Sound

/-!
# The scopes on the way of a path

A path without aliases is followed outward from a scope, to the nearest instance of its anchor. Where it
leads is decided by the scopes on that way, and by what they were built as. As long as they are live, the
path leads to the same value, whatever else becomes of the graph.

Main definitions: `Graph.Stands`.
Main results: `Graph.exists_way`.
-/
namespace ReactiveMarkup.Graph

variable {g g' : Graph} {scope : ScopeId} {y : ScopeId × LiveScope}
  {pre : List (ScopeId × LiveScope)} {P : ScopeRecord → Bool}

/-- A graph in which a scope is live that was built like this. -/
def Stands (p : ScopeId × ScopeRecord) (g : Graph) : Prop :=
  ∃ s, g.scopes.get? p.1 = some s ∧ s.record = p.2

/-- A scope found outward is the first of the scopes around itself. -/
theorem exists_ancestorsUpTo {count : Nat} {x : ScopeId × LiveScope} {before after : List (ScopeId × LiveScope)}
    (h : g.ancestorsUpTo count scope = before ++ x :: after) :
    g.scopes.get? x.1 = some x.2 ∧ ∃ count', g.ancestorsUpTo count' x.1 = x :: after := by
  induction count generalizing scope before with
  | zero => simp at h
  | succ count ih =>
    cases hs : g.scopes.get? scope with
    | none => simp [ancestorsUpTo, hs] at h
    | some s =>
      cases before with
      | nil =>
        have hx := h
        rw [ancestorsUpTo_succ count hs] at hx
        obtain rfl : (scope, s) = x := List.head_eq_of_cons_eq hx
        exact ⟨hs, count + 1, h⟩
      | cons z before =>
        rw [ancestorsUpTo_succ count hs] at h
        have htail := List.tail_eq_of_cons_eq h
        cases hp : s.parent with
        | none => simp [hp] at htail
        | some p =>
          rw [hp] at htail
          exact ih htail

/-- The way to the nearest scope of some kind meets no scope twice. -/
theorem exists_nearest {count : Nat}
    (h : (g.ancestorsUpTo count scope).find? (fun x => P x.2.record) = some y) :
    ∃ pre count', g.ancestorsUpTo count' scope = pre ++ [y] ∧ (∀ x ∈ pre, P x.2.record = false) ∧
      ((pre ++ [y]).map Prod.fst).Nodup ∧ pre ++ [y] ⊆ g.ancestorsUpTo count scope := by
  induction count generalizing scope with
  | zero => simp at h
  | succ count ih =>
    cases hs : g.scopes.get? scope with
    | none => simp [ancestorsUpTo, hs] at h
    | some s =>
      have hfirst := ancestorsUpTo_succ count hs
      rw [hfirst] at h ⊢
      by_cases hfound : P s.record = true
      · -- the scope itself is of the kind
        obtain rfl : (scope, s) = y := by simpa [hfound] using h
        exact ⟨[], 1, by simp [ancestorsUpTo, hs]; split <;> rfl, by simp, by simp, by simp⟩
      · rw [Bool.not_eq_true] at hfound
        rw [List.find?_cons_of_neg (by simp [hfound])] at h
        cases hp : s.parent with
        | none => simp [hp] at h
        | some p =>
          rw [hp] at h
          obtain ⟨pre, count', hway, hpre, hnodup, hsub⟩ := ih h
          dsimp only
          by_cases hscope : scope ∈ (pre ++ [y]).map Prod.fst
          · -- the way comes back to the scope: what follows from there is a shorter one
            obtain ⟨x, hx, rfl⟩ := List.mem_map.1 hscope
            obtain ⟨before, after, hsplit⟩ := List.append_of_mem hx
            obtain ⟨hlive, count'', hrest⟩ := exists_ancestorsUpTo (hway.trans hsplit)
            obtain rfl : s = x.2 := Option.some.inj (hs.symm.trans hlive)
            rcases List.eq_nil_or_concat after with rfl | ⟨after, z, rfl⟩
            · have hy : y = x := by
                have hlast := congrArg List.getLast? hsplit
                simpa using hlast
              have hfind := List.find?_some h
              rw [hy] at hfind
              simp [hfound] at hfind
            · rw [List.concat_eq_append] at hsplit hrest
              rw [← List.cons_append, ← List.append_assoc] at hsplit
              obtain ⟨rfl, hz⟩ := List.append_inj' hsplit rfl
              obtain rfl : y = z := by simpa using hz
              refine ⟨x :: after, count'', hrest, fun u hu => hpre u (List.mem_append_right _ hu), ?_, ?_⟩
              · rw [List.append_assoc, List.map_append] at hnodup
                exact hnodup.of_append_right
              · intro u hu
                refine List.mem_cons_of_mem _ (hsub ?_)
                rw [List.append_assoc]
                exact List.mem_append_right _ hu
          · refine ⟨(scope, s) :: pre, count' + 1, ?_, ?_, ?_, ?_⟩
            · rw [ancestorsUpTo_succ count' hs, hp]
              simp [hway]
            · simpa [hfound] using hpre
            · rw [List.cons_append, List.map_cons, List.nodup_cons]
              exact ⟨hscope, hnodup⟩
            · exact List.cons_subset_cons _ hsub

/-- Where the scopes on a way stand, the same way is found. -/
theorem find?_of_stands {count count' : Nat}
    (hway : g.ancestorsUpTo count scope = pre ++ [y]) (hpre : ∀ x ∈ pre, P x.2.record = false)
    (hy : P y.2.record = true) (hstands : ∀ x ∈ pre ++ [y], g'.Stands (x.1, x.2.record))
    (hcount : pre.length < count') :
    ∃ s, (g'.ancestorsUpTo count' scope).find? (fun x => P x.2.record) = some (y.1, s) ∧
      g'.scopes.get? y.1 = some s ∧ s.record = y.2.record := by
  induction pre generalizing count count' scope with
  | nil =>
    obtain ⟨count', rfl⟩ := Nat.exists_eq_succ_of_ne_zero (Nat.ne_of_gt hcount)
    cases count with
    | zero => simp at hway
    | succ count =>
      cases hs : g.scopes.get? scope with
      | none => simp [ancestorsUpTo, hs] at hway
      | some s =>
        rw [ancestorsUpTo_succ count hs] at hway
        obtain rfl : (scope, s) = y := List.head_eq_of_cons_eq hway
        obtain ⟨s', hs', hrecord⟩ := hstands (scope, s) (by simp)
        dsimp only at hs' hrecord hy ⊢
        refine ⟨s', ?_, hs', hrecord⟩
        rw [ancestorsUpTo_succ count' hs', List.find?_cons_of_pos (by simpa [hrecord] using hy)]
  | cons x pre ih =>
    obtain ⟨count', rfl⟩ := Nat.exists_eq_succ_of_ne_zero (Nat.ne_of_gt (Nat.zero_lt_of_lt hcount))
    cases count with
    | zero => simp at hway
    | succ count =>
      cases hs : g.scopes.get? scope with
      | none => simp [ancestorsUpTo, hs] at hway
      | some s =>
        rw [ancestorsUpTo_succ count hs] at hway
        obtain rfl : (scope, s) = x := List.head_eq_of_cons_eq hway
        have htail := List.tail_eq_of_cons_eq hway
        obtain ⟨s', hs', hrecord⟩ := hstands (scope, s) (by simp)
        dsimp only at hs' hrecord
        have hskip : P s'.record = false := by
          rw [hrecord]
          exact hpre (scope, s) (by simp)
        have hparent : s'.parent = s.parent := congrArg ScopeRecord.parent hrecord
        rw [ancestorsUpTo_succ count' hs', List.find?_cons_of_neg (by simp [hskip]), hparent]
        cases hp : s.parent with
        | none => simp [hp] at htail
        | some p =>
          rw [hp] at htail
          refine ih htail (fun u hu => hpre u (List.mem_cons_of_mem _ hu)) (fun u hu => ?_) ?_
          · exact hstands u (List.mem_cons_of_mem _ hu)
          · simpa using hcount

/-- The way of a path without aliases: scopes around the one that the path starts at, such that the path
leads to the same value wherever they stand. -/
theorem exists_way {anchor : ScopeIndex} {name : String} {v : ValueId}
    (h : g.resolve? scope ⟨anchor, [], name⟩ = some v) :
    ∃ way : List (ScopeId × ScopeRecord),
      (∀ p ∈ way, g.Stands p ∧ p.1 ∈ (g.ancestors scope).map Prod.fst) ∧
      ∀ g', (∀ p ∈ way, Stands p g') → g'.resolve? scope ⟨anchor, [], name⟩ = some v := by
  let P (built : ScopeRecord) : Bool := built.template.index = anchor
  have hresolve (g : Graph) : g.resolve? scope ⟨anchor, [], name⟩ =
      ((g.ancestors scope).find? fun x => P x.2.record).bind fun x => g.scopeValue? x.1 name := by
    rw [resolve?]
    rfl
  rw [hresolve] at h
  obtain ⟨y, hy, hvalue⟩ := Option.bind_eq_some_iff.1 h
  obtain ⟨pre, count, hway, hpre, hnodup, hsub⟩ := exists_nearest hy
  have hlive : ∀ x ∈ pre ++ [y], g.scopes.get? x.1 = some x.2 := by
    intro x hx
    obtain ⟨before, after, hsplit⟩ := List.append_of_mem hx
    exact (exists_ancestorsUpTo (hway.trans hsplit)).1
  refine ⟨(pre ++ [y]).map fun x => (x.1, x.2.record), fun p hp => ?_, fun g' hstands => ?_⟩
  · obtain ⟨x, hx, rfl⟩ := List.mem_map.1 hp
    exact ⟨⟨x.2, hlive x hx, rfl⟩, List.mem_map_of_mem (hsub hx)⟩
  · have hstands' : ∀ x ∈ pre ++ [y], g'.Stands (x.1, x.2.record) := fun x hx =>
      hstands _ (List.mem_map_of_mem hx)
    -- the scopes on the way are different ones, so the search is not cut off before it reaches the last
    have hcount : pre.length < g'.scopes.size := by
      have hle : ((pre ++ [y]).map Prod.fst).length ≤ g'.scopes.size := by
        refine Slots.length_le_size _ hnodup fun k hk => ?_
        obtain ⟨x, hx, rfl⟩ := List.mem_map.1 hk
        obtain ⟨s, hs, -⟩ := hstands' x hx
        simp [hs]
      simp only [List.length_map, List.length_append, List.length_singleton] at hle
      omega
    have hfound := List.find?_some hy
    obtain ⟨s, hfind, hs, hrecord⟩ := find?_of_stands hway hpre hfound hstands' hcount
    have hvalues : s.values = y.2.values := congrArg ScopeRecord.values hrecord
    rw [hresolve, ancestors, hfind]
    rw [scopeValue?, hlive y (by simp)] at hvalue
    simpa [scopeValue?, hs, hvalues] using hvalue

end ReactiveMarkup.Graph
