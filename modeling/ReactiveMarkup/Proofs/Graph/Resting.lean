import ReactiveMarkup.Proofs.Graph.Removal

/-!
# Driving keeps graphs sound

Between the steps of propagation a graph is sound, and no link waits. Each kind of step keeps this,
and so does everything that drives a graph from outside.

Main definitions: `Graph.Resting`.
Main results: `Graph.resting_invariant`.
-/
namespace ReactiveMarkup.Graph

variable {tree : ScopeTree} {mark : String} {g : Graph}

/-- A sound graph in which no link waits. -/
structure Resting (tree : ScopeTree) (mark : String) (g : Graph) : Prop where
  standing : Standing tree mark g
  pendingLinks : g.pendingLinks = []

namespace Resting

/-- Requests that keep their answers in an attribute other than the mark. -/
theorem withRequests (h : Resting tree mark g) (requests : List (RequestId × PendingRequest))
    (host : Host) (issued : Nat) (hdocument : host.document = g.host.document)
    (hrequests : ∀ r ∈ requests, r.2.echo.isSome → Marker.echo ≠ g.program.scopeAttribute) :
    Resting tree mark { g with host, requests, issued } := by
  have hrehosted : Standing tree mark { g with host } := by
    refine Sound.rehost h.standing ?_
    rw [hdocument]
    exact .refl h.standing.linked h.standing.furnished
  refine ⟨{ hrehosted with
    scope := fun id s hs => { hrehosted.scope id s hs with }
    requests := hrequests }, h.pendingLinks⟩

theorem of_quiet {g' : Graph} (h : Resting tree mark g) (hq : Quiet g g') :
    Resting tree mark g' := by
  refine ⟨h.standing.congr hq.host hq.program hq.scopes hq.values hq.requests (fun d hd => ?_) ?_,
    hq.pendingLinks.trans h.pendingLinks⟩
  · obtain ⟨ds, hds, hlink⟩ := hq.diagnostics
    rw [hds] at hd
    rcases List.mem_append.1 hd with hd | hd
    · exact .inl hd
    · refine .inr ?_
      rintro observer path rfl
      have := hlink _ hd
      cases this
  · rw [hq.pendingLinks]
    exact fun l hl => .inl hl

theorem attachListener (l : ListenerId) : Keeps (Resting tree mark) (Graph.attachListener l) := by
  unfold Graph.attachListener
  refine .get_bind fun g hg => ?_
  split
  · exact hg
  · rename_i x hx
    split
    · have hlisten := hg.withRequests g.requests (g.host.listen x.node x.template.event)
        g.issued rfl hg.standing.requests
      exact ⟨hlisten.standing.congr rfl rfl rfl rfl rfl (fun _ hd => .inl hd) fun l hl => .inl hl,
        hlisten.pendingLinks⟩
    · exact hg

theorem attachListeners : Keeps (Resting tree mark) Graph.attachListeners := by
  unfold Graph.attachListeners
  refine .get_bind fun g hg => ?_
  refine Keeps.bind (m := modify _) (.modify fun g hg => ?_)
    (fun _ => .forM fun l _ => attachListener l) g hg
  exact ⟨hg.standing.congr rfl rfl rfl rfl rfl (fun _ hd => .inl hd) fun l hl => .inl hl,
    hg.pendingLinks⟩

end Resting

/-- Being at rest is kept by every kind of step. -/
theorem resting_invariant (ht : tree.ParentsFirst) :
    Invariant (ValueKind.Spares mark) (Resting tree mark) where
  quiet := Resting.of_quiet
  kinds h hc := by
    have := h.standing.cells _ _ hc
    rwa [h.standing.mark_eq] at this
  revised h hf := ⟨h.standing.modifyCell _ fun c => ⟨(hf c).scope, (hf c).template⟩, h.pendingLinks⟩
  shown h hK hok := ⟨h.standing.bind (by rw [h.standing.mark_eq]; exact hK) hok, h.pendingLinks⟩
  sent := by
    intro g request target echo h hK
    refine h.withRequests _ _ _ rfl fun r hr hecho => ?_
    rcases List.mem_append.1 hr with hr | hr
    · exact h.standing.requests r hr hecho
    · rw [h.standing.mark_eq]
      exact (hK Marker.echo rfl).1
  answered := by
    intro g id pending h hpending
    have hfewer := h.withRequests (g.requests.filter fun r => r.1 != id) g.host g.issued rfl
      fun r hr hecho => h.standing.requests r (List.mem_filter.1 hr).1 hecho
    refine ⟨hfewer, fun node body host hecho hset => ?_⟩
    obtain ⟨d, hd, rfl⟩ := Host.change_eq_ok hset
    have hmark := h.standing.requests _ (Keyed.mem_of_lookup hpending) (by rw [hecho]; rfl)
    have hclone : Marker.echo ≠ Marker.clone := by decide
    refine ⟨hfewer.standing.rehost ?_, hfewer.pendingLinks⟩
    exact .modifyElement h.standing.linked h.standing.furnished
      (fun e => Element.attribute?_setAttribute_of_ne hmark.symm _)
      (fun e => Element.attribute?_setAttribute_of_ne hclone.symm _) hd
  adopted := by
    intro g scope s place node item h hs hnode
    obtain ⟨hmark, hclone⟩ := mem_siblingClones hs (List.mem_of_find?_eq_some hnode)
    obtain ⟨hstanding, hlinks⟩ := h.standing.plant ht hs place item node hmark hclone
    exact Resting.attachListeners _ ⟨hstanding, hlinks⟩
  copied := by
    intro g scope s place item h hs
    have hscope := h.standing.scope scope s hs
    rcases Sound.copyElement h.standing hscope.distinct s.node place with
      ⟨node, host, hrun, hharmless, hin, hsame, hclone⟩ | ⟨e, host, hrun, hharmless⟩
    · rw [hrun]
      have hcopied : Standing tree mark { g with host } := Sound.rehost h.standing hharmless
      obtain ⟨hstanding, hlinks⟩ := hcopied.plant ht hs place item node
        (by rw [← hscope.marked hin]; exact hsame) hclone
      exact Resting.attachListeners _ ⟨hstanding, hlinks⟩
    · rw [hrun]
      exact ⟨Sound.rehost h.standing hharmless, h.pendingLinks⟩
  trimmed scope keep g h := by
    obtain ⟨hstanding, hlinks⟩ := h.standing.trim h.pendingLinks scope keep
    exact ⟨hstanding, hlinks⟩
  swept scope g h := by
    obtain ⟨hstanding, hlinks⟩ := Sound.sweep h.standing scope
    exact ⟨hstanding, hlinks.trans h.pendingLinks⟩

end ReactiveMarkup.Graph
