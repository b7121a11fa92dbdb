import ReactiveMarkup.Proofs.Document.Harmless
import ReactiveMarkup.Proofs.Graph.Building
import ReactiveMarkup.Proofs.Graph.Keeps

/-!
# Rendering keeps graphs sound

What values show, and the copies that lists make and sweep away, change the document without harm
to the elements that live scopes stand on.

Main results: `Graph.Sound.rehost`, `Graph.Sound.bind`, `Graph.Sound.copyElement`,
`Graph.Sound.sweep`.
-/
namespace ReactiveMarkup

/-- Showing a value leaves alone what its kind spares. -/
theorem ValueKind.bind_harmless {kind : ValueKind} {mark : String} {parts : Nat → List Nat}
    {node : NodeId} {v : Value} {h h' : Host} (hl : h.document.Linked)
    (hf : h.document.Furnished mark parts) (hkind : kind.Spares mark)
    (ok : kind.bind node v h = .ok h') : Document.Harmless mark parts h.document h'.document := by
  -- an element is changed in the attribute that the kind writes to
  have hmodify {m : HostMethod} {f : Element → Element} (name : String)
      (hname : kind.attribute? = some name)
      (hother : ∀ other e, other ≠ name → (f e).attribute? other = e.attribute? other)
      (ok : h.change m (·.modifyElement node f) = .ok h') :
      Document.Harmless mark parts h.document h'.document := by
    obtain ⟨hmark, hclone⟩ := hkind name hname
    obtain ⟨d, hd, rfl⟩ := Host.change_eq_ok ok
    exact .modifyElement hl hf (fun e => hother mark e hmark.symm)
      (fun e => hother _ e hclone.symm) hd
  cases kind with
  | className c =>
    unfold bind at ok
    dsimp only at ok
    split at ok
    · exact hmodify "class" rfl (fun other e ho => Element.attribute?_addClass ho c) ok
    · exact hmodify "class" rfl (fun other e ho => Element.attribute?_removeClass ho c) ok
  | style p =>
    unfold bind at ok
    dsimp only at ok
    split at ok
    · exact hmodify "style" rfl (fun other e ho => Element.attribute?_removeStyle ho p) ok
    · exact hmodify "style" rfl (fun other e ho => Element.attribute?_setStyle ho p _) ok
  | attr name =>
    unfold bind at ok
    dsimp only at ok
    split at ok
    · exact hmodify name rfl (fun other e ho => Element.attribute?_removeAttribute_of_ne ho) ok
    · exact hmodify name rfl (fun other e ho => Element.attribute?_setAttribute_of_ne ho _) ok
  | text place =>
    have ok' : h.change .setText (·.setText node v.rendered) = .ok h' := ok
    obtain ⟨d, hd, rfl⟩ := Host.change_eq_ok ok'
    exact .setText hl hf hd
  | plain | data | request | handler =>
    cases ok
    exact .refl hl hf

namespace Graph

variable {tree : ScopeTree} {mark : String} {building orphan : ScopeId → Prop} {g g' : Graph}

/-- A graph with another host, whose document came about without harm. -/
theorem Sound.rehost (h : Sound tree mark building orphan g) {host : Host}
    (hd : Document.Harmless g.program.scopeAttribute tree.parts g.host.document host.document) :
    Sound tree mark building orphan { g with host } where
  __ := h
  linked := hd.linked
  furnished := hd.furnished
  scope id s hs :=
    have hscope := h.scope id s hs
    { hscope with
      node_lt := Nat.lt_of_lt_of_le hscope.node_lt hd.size_le
      marked := by
        intro hin
        obtain ⟨hin', hmark, -⟩ := hd.old s.node hscope.node_lt hin
        exact hmark.trans (hscope.marked hin')
      marked_clone := by
        intro hin hindex
        obtain ⟨hin', -, hclone⟩ := hd.old s.node hscope.node_lt hin
        have := hscope.marked_clone hin' hindex
        rwa [← hclone] at this }

/-- Showing a value. -/
theorem Sound.bind (h : Sound tree mark building orphan g) {kind : ValueKind} {node : NodeId}
    {v : Value} {host : Host} (hkind : kind.Spares g.program.scopeAttribute)
    (ok : kind.bind node v g.host = .ok host) : Sound tree mark building orphan { g with host } :=
  h.rehost (ValueKind.bind_harmless h.linked h.furnished hkind ok)

/-- Noting a diagnostic that is not about a path. -/
theorem Sound.report (h : Sound tree mark building orphan g) {d : Diagnostic}
    (hd : ∀ observer path, d ≠ .unresolved observer path) :
    Sound tree mark building orphan ((Graph.report d).run g).2 := by
  refine h.congr rfl rfl rfl rfl rfl (fun e he => ?_) fun l hl => .inl hl
  rcases List.mem_append.1 he with he | he
  · exact .inl he
  · rw [List.mem_singleton.1 he]
    exact .inr hd

/-! ## Removing elements -/

/-- What changes only what is on the page. -/
structure Rendered (tree : ScopeTree) (g g' : Graph) : Prop where
  harmless : Document.Harmless g.program.scopeAttribute tree.parts g.host.document g'.host.document
  program : g'.program = g.program
  scopes : g'.scopes = g.scopes
  values : g'.values = g.values
  pendingLinks : g'.pendingLinks = g.pendingLinks

/-- Removing an element that is a copy, or that was removed before. -/
theorem Sound.removeElement (h : Sound tree mark building orphan g) (node : NodeId)
    (hnode : g.host.document.contains node → (g.host.document.attribute? node Marker.clone).isSome) :
    Sound tree mark building orphan ((Graph.removeElement node).run g).2 ∧
      Rendered tree g ((Graph.removeElement node).run g).2 := by
  have hsame : Rendered tree g g := ⟨.refl h.linked h.furnished, rfl, rfl, rfl, rfl⟩
  unfold Graph.removeElement
  rw [StateT.run_bind, run_tell]
  cases hremove : g.host.removeFragment node with
  | error e => exact ⟨h.report fun _ _ hd => (by cases hd), hsame.harmless, rfl, rfl, rfl, rfl⟩
  | ok host =>
    obtain ⟨d, hd, rfl⟩ := Host.change_eq_ok hremove
    have hcopy := hnode (Document.remove_eq_ok hd).2.1
    have hharmless := Document.Harmless.remove h.linked h.furnished hcopy hd
    exact ⟨h.rehost hharmless, hharmless, rfl, rfl, rfl, rfl⟩

/-- Removing elements that are copies. -/
theorem Sound.removeElements (h : Sound tree mark building orphan g) {nodes : List NodeId}
    (hnodes : ∀ n ∈ nodes, n < g.host.document.nodes.size ∧
      (g.host.document.contains n → (g.host.document.attribute? n Marker.clone).isSome)) :
    Sound tree mark building orphan ((nodes.forM Graph.removeElement).run g).2 ∧
      ((nodes.forM Graph.removeElement).run g).2.pendingLinks = g.pendingLinks := by
  induction nodes generalizing g with
  | nil => exact ⟨h, rfl⟩
  | cons n nodes ih =>
    obtain ⟨h₁, hrendered⟩ := h.removeElement n (hnodes n (List.mem_cons_self ..)).2
    have hrest := ih h₁ fun m hm => by
      obtain ⟨hlt, hclone⟩ := hnodes m (List.mem_cons_of_mem _ hm)
      exact ⟨Nat.lt_of_lt_of_le hlt hrendered.harmless.size_le,
        fun hin => hrendered.harmless.isSome_clone hlt hclone hin⟩
    exact ⟨hrest.1, hrest.2.trans hrendered.pendingLinks⟩

theorem mem_siblingClones {scope : ScopeId} {s : LiveScope} {n : NodeId}
    (hs : g.scopes.get? scope = some s) (hn : n ∈ g.siblingClones scope) :
    g.host.document.attribute? n g.program.scopeAttribute = some (toString s.template.index) ∧
      (g.host.document.attribute? n Marker.clone).isSome := by
  unfold siblingClones at hn
  rw [hs] at hn
  have hboth := (List.mem_filter.1 hn).2
  rw [Bool.and_eq_true, beq_iff_eq] at hboth
  exact hboth

/-- Sweeping removes nothing but copies. -/
theorem Sound.sweep (h : Sound tree mark building orphan g) (scope : ScopeId) :
    Sound tree mark building orphan ((Graph.sweep scope).run g).2 ∧
      ((Graph.sweep scope).run g).2.pendingLinks = g.pendingLinks := by
  refine h.removeElements fun n hn => ?_
  have hn := (List.mem_filter.1 hn).1
  cases hs : g.scopes.get? scope with
  | none =>
    rw [siblingClones, hs] at hn
    cases hn
  | some s =>
    have hclone := (mem_siblingClones hs hn).2
    obtain ⟨v, hv⟩ := Option.isSome_iff_exists.1 hclone
    obtain ⟨x, hx⟩ := Document.contains_iff.1 (Document.contains_of_attribute? hv)
    exact ⟨Document.lt_size hx, fun _ => hclone⟩

/-! ## Making copies -/

/-- Making a copy of a live scope's element. What is there afterwards is harmless, also if not all
of it could be made. -/
theorem Sound.copyElement (h : Sound tree mark building orphan g)
    (hmark : g.program.scopeAttribute ≠ Marker.clone) (element : NodeId) (place : Nat) :
    (∃ node host, (Graph.copyElement element place).run.run g = (.ok node, { g with host }) ∧
      Document.Harmless g.program.scopeAttribute tree.parts g.host.document host.document ∧
      g.host.document.contains element ∧ host.document.attribute? node g.program.scopeAttribute =
        g.host.document.attribute? element g.program.scopeAttribute ∧
      (host.document.attribute? node Marker.clone).isSome) ∨
    ∃ e host, (Graph.copyElement element place).run.run g = (.error e, { g with host }) ∧
      Document.Harmless g.program.scopeAttribute tree.parts g.host.document host.document := by
  rw [run_copyElement]
  cases hclone : g.host.cloneFragment element with
  | error e => exact .inr ⟨e, g.host, rfl, .refl h.linked h.furnished⟩
  | ok u =>
    obtain ⟨node, host₁⟩ := u
    have hcopied : ∃ d, g.host.document.deepClone element = .ok (node, d) ∧
        host₁ = { g.host with document := d } := by
      unfold Host.cloneFragment at hclone
      split at hclone
      · cases hclone
      · split at hclone
        · rename_i copy d hd
          cases hclone
          exact ⟨d, hd, rfl⟩
        · cases hclone
    obtain ⟨d₁, hd₁, rfl⟩ := hcopied
    dsimp only
    cases hset : Host.setAttribute node Marker.clone (toString place) { g.host with document := d₁ } with
    | error e => exact .inr ⟨e, _, rfl, .deepClone h.linked h.furnished hd₁⟩
    | ok host₂ =>
      obtain ⟨d₂, hd₂, rfl⟩ := Host.change_eq_ok hset
      have hcopy := Document.Harmless.copy h.linked h.furnished hmark hd₁ hd₂
      dsimp only
      cases hinsert : Host.insertBefore element node { g.host with document := d₂ } with
      | error e => exact .inr ⟨e, _, rfl, hcopy.1⟩
      | ok host₃ =>
        obtain ⟨d₃, hd₃, rfl⟩ := Host.change_eq_ok hinsert
        obtain ⟨hharmless, hsame, hmarked⟩ := hcopy.2.2 d₃ hd₃
        exact .inl ⟨node, _, rfl, hharmless, hcopy.2.1, hsame, hmarked⟩

end Graph

end ReactiveMarkup
