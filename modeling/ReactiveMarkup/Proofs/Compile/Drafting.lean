import ReactiveMarkup.Proofs.Compile.Annotation

/-!
# What the elements of a document declare

An element declares something by each of its dynamic attributes but an alias, by each text directly
under it that holds an expression, and by each companion that its list needs and that it does not
declare itself. Reading the document drafts each of these once, in the scope of its element, and tells
an error for those in which a name is empty. The walk meets the elements in document order, so that
the outline is made by visiting one after the other.

Main definitions: `Declared`, `Document.declared`, `Outline.Visits`, `Outline.Drafts`.
Main results: `Outline.addScope_drafts`, `Outline.ofDocument_visits`, `Outline.Visits.drafts`.
-/
namespace ReactiveMarkup

/-- The byte where the text of a declaration stands in a source, looked for from its element on. -/
def placeIn (source : Option String) (element : Option Nat) (raw : String) : Option Nat :=
  (source.map SourceMap.ofSource).bind fun m => m.find? (element.getD 0) raw

/-- Something that an element declares. -/
inductive Declared where
  | value (value : PendingValue)
  | event (event : PendingEvent)
  /-- an attribute that would declare something, but a name in it is empty -/
  | nameless (name : String)
  deriving Inhabited

namespace Declared

/-- The value that is declared. -/
def value? : Declared → Option PendingValue
  | value v => some v
  | _ => none

/-- The event handler that is declared. -/
def event? : Declared → Option PendingEvent
  | event e => some e
  | _ => none

/-- Why nothing can be declared at all. -/
def emptyName? : Declared → Option CompileCause
  | nameless name => some (.emptyName name)
  | _ => none

/-- What an attribute declares besides an alias; `place` tells where a text stands in the source. -/
def ofAttribute? (place : String → Option Nat) (a : String × String) : Option Declared :=
  match Declaration.classify a.1 a.2 with
  | .declares (.value name kind) => some (value ⟨name, .known kind, .markup a.2 (place a.2)⟩)
  | .declares (.handler name watched) =>
    some (value ⟨name, .watching watched, .markup a.2 (place a.2)⟩)
  | .declares (.event name) => some (event ⟨name, a.2, place a.2⟩)
  | .nameless => some (nameless a.1)
  | .declares .ownAlias | .static => none

/-- What a text at a place under its element declares. -/
def ofText (place : String → Option Nat) (t : (NodeId × String) × Nat) : Declared :=
  value ⟨ValueName.text t.2, .known (.text t.2), .markup t.1.2 (place t.1.2)⟩

/-- The names of the values that are declared. -/
def names (xs : List Declared) : List String := (xs.filterMap value?).map (·.name)

/-- The companions that are implied. -/
def companions (xs : List Declared) : List PendingValue :=
  if (names xs).contains ValueName.data || (names xs).contains ValueName.request then
    ScopeDraft.companions.filter fun v => !(names xs).contains v.name
  else []

end Declared

/-- What an element declares by its attributes and by the texts under it. -/
def Document.declaredItself (d : Document) (place : String → Option Nat) (node : NodeId) :
    List Declared :=
  (d.attributes node).filterMap (Declared.ofAttribute? place) ++
    (Outline.texts d node).map (.ofText place)

/-- What an element declares, itself and by implication. -/
def Document.declared (d : Document) (place : String → Option Nat) (node : NodeId) : List Declared :=
  d.declaredItself place node ++ (Declared.companions (d.declaredItself place node)).map .value

/-- Empty names are found in attributes only. -/
theorem Document.filterMap_emptyName?_declared (d : Document) (place : String → Option Nat)
    (node : NodeId) : (d.declared place node).filterMap Declared.emptyName? =
      ((d.attributes node).filterMap (Declared.ofAttribute? place)).filterMap Declared.emptyName? := by
  have hvalue (v : PendingValue) : (Declared.value v).emptyName? = none := rfl
  simp [declared, declaredItself, List.filterMap_map, hvalue, Declared.ofText]

/-- Whether the cause is that an alias is taken. -/
def CompileCause.isDuplicateAlias : CompileCause → Bool
  | duplicateAlias _ => true
  | _ => false

/-! ## Drafts -/

namespace ScopeDraft

variable {s s' s'' : ScopeDraft} {xs ys : List Declared}

/-- A draft with more declarations. -/
structure Records (s : ScopeDraft) (xs : List Declared) (s' : ScopeDraft) : Prop where
  values : s'.pending.values = s.pending.values ++ xs.filterMap Declared.value?
  events : s'.pending.events = s.pending.events ++ xs.filterMap Declared.event?
  element : s'.pending.element = s.pending.element
  declared : ∀ x, x ∈ s'.scope.declared ↔ x ∈ s.scope.declared ∨ x ∈ Declared.names xs

namespace Records

theorem of_eq (hpending : s'.pending = s.pending) (hdeclared : s'.scope.declared = s.scope.declared)
    (hvalues : xs.filterMap Declared.value? = []) (hevents : xs.filterMap Declared.event? = []) :
    Records s xs s' where
  values := by rw [hpending, hvalues, List.append_nil]
  events := by rw [hpending, hevents, List.append_nil]
  element := by rw [hpending]
  declared x := by simp [hdeclared, Declared.names, hvalues]

theorem refl (s : ScopeDraft) : Records s [] s := .of_eq rfl rfl rfl rfl

theorem trans (h : Records s xs s') (h' : Records s' ys s'') : Records s (xs ++ ys) s'' where
  values := by rw [h'.values, h.values, List.filterMap_append, List.append_assoc]
  events := by rw [h'.events, h.events, List.filterMap_append, List.append_assoc]
  element := h'.element.trans h.element
  declared x := by
    rw [h'.declared, h.declared, or_assoc, Declared.names, Declared.names, Declared.names,
      List.filterMap_append, List.map_append, List.mem_append]

theorem addValue (s : ScopeDraft) (v : PendingValue) : Records s [.value v] (s.addValue v) where
  values := rfl
  events := (List.append_nil _).symm
  element := rfl
  declared x := by
    rw [ScopeDraft.addValue, mem_declare]
    simp [Declared.names, Declared.value?]

theorem addValues (vs : List PendingValue) (s : ScopeDraft) :
    Records s (vs.map .value) (vs.foldl (fun s v => s.addValue v) s) := by
  induction vs generalizing s with
  | nil => exact .refl s
  | cons v vs ih => exact (addValue s v).trans (ih _)

theorem addEvent (s : ScopeDraft) (e : PendingEvent) : Records s [.event e] (s.addEvent e) where
  values := (List.append_nil _).symm
  events := rfl
  element := rfl
  declared x := by simp [ScopeDraft.addEvent, Declared.names, Declared.value?]

/-- The companions that a draft gets are those that what it declares implies. -/
theorem addCompanions (h : ∀ x, x ∈ s.scope.declared ↔ x ∈ Declared.names xs) :
    Records s ((Declared.companions xs).map .value) s.addCompanions := by
  have hcontains (x : String) : s.scope.declared.contains x = (Declared.names xs).contains x := by
    rw [Bool.eq_iff_iff, List.contains_iff_mem, List.contains_iff_mem, h]
  have hcompanions : (if s.scope.declared.contains ValueName.data ||
        s.scope.declared.contains ValueName.request then
      companions.filter fun v => !s.scope.declared.contains v.name else []) =
      Declared.companions xs := by
    rw [Declared.companions]
    simp only [hcontains]
  rw [← hcompanions, ScopeDraft.addCompanions]
  split
  · exact addValues _ s
  · exact .refl s

/-- What waits in a draft that began with nothing. -/
theorem pending_eq (h : Records s xs s') {element : Option Nat} (hs : s.pending = ⟨[], [], element⟩) :
    s'.pending = ⟨xs.filterMap Declared.value?, xs.filterMap Declared.event?, element⟩ := by
  have hvalues := h.values
  have hevents := h.events
  have helement := h.element
  simp only [hs, List.nil_append] at hvalues hevents helement
  rw [← hvalues, ← hevents, ← helement]

end Records

end ScopeDraft

/-! ## Reading one element -/

namespace Outline

variable {o : CompileOptions} {node : NodeId} {l : Outline} {s : ScopeDraft} {e : Element}
  {place : Option Nat}

theorem source_change (f : Document → Document.Change) : (l.change o place f).source = l.source := by
  unfold change
  split <;> rfl

theorem pending_change (f : Document → Document.Change) : (l.change o place f).pending = l.pending := by
  unfold change
  split <;> rfl

theorem errors_change {f : Document → Document.Change} {d : Document} (h : f l.document = .ok d) :
    (l.change o place f).errors = l.errors := by
  rw [change, h]

theorem readAttribute_source (a : String × String) :
    (readAttribute o node (l, s) a).1.source = l.source := by
  unfold readAttribute
  dsimp only
  split
  · rfl
  · exact source_change _
  · exact source_change _

theorem readAttribute_pending (a : String × String) :
    (readAttribute o node (l, s) a).1.pending = l.pending := by
  unfold readAttribute
  dsimp only
  split
  · rfl
  · exact pending_change _
  · exact pending_change _

theorem placeOf_congr {l' : Outline} (h : l'.source = l.source) (raw : String) :
    l'.placeOf place raw = l.placeOf place raw := by
  rw [placeOf, placeOf, h]

/-- An attribute adds what it declares to the draft. -/
theorem readAttribute_records (a : String × String) :
    s.Records (Declared.ofAttribute? (l.placeOf s.pending.element) a).toList
      (readAttribute o node (l, s) a).2 := by
  obtain ⟨name, raw⟩ := a
  unfold readAttribute Declared.ofAttribute?
  dsimp only
  cases Declaration.classify name raw with
  | static => exact .refl s
  | nameless => exact .of_eq rfl rfl rfl rfl
  | declares d =>
    dsimp only
    rw [placeOf_congr (source_change _)]
    cases d with
    | value => exact .addValue ..
    | handler => exact .addValue ..
    | event => exact .addEvent ..
    | ownAlias => exact .of_eq rfl rfl rfl rfl

/-- The only error that an attribute of an element gives at once is that a name in it is empty. -/
theorem readAttribute_errors (a : String × String) (he : l.document.kind? node = some (.element e)) :
    (readAttribute o node (l, s) a).1.errors = l.errors ++
      ((Declared.ofAttribute? (l.placeOf s.pending.element) a).toList.filterMap Declared.emptyName?).map
        fun cause => errorAt o l.source cause s.pending.element := by
  obtain ⟨name, raw⟩ := a
  obtain ⟨d, hd, -⟩ := Document.modifyElement_becomes he (·.removeAttribute name)
  unfold readAttribute Declared.ofAttribute?
  dsimp only
  cases Declaration.classify name raw with
  | static => exact (List.append_nil _).symm
  | nameless => exact errors_change hd
  | declares x =>
    dsimp only
    rw [errors_change hd]
    cases x <;> exact (List.append_nil _).symm

/-- Reading attributes one after the other. -/
theorem readAttributes_drafts (as : List (String × String))
    (he : l.document.kind? node = some (.element e)) :
    let xs := as.filterMap (Declared.ofAttribute? (l.placeOf s.pending.element))
    let r := as.foldl (readAttribute o node) (l, s)
    s.Records xs r.2 ∧ r.1.source = l.source ∧ r.1.pending = l.pending ∧
      r.1.errors = l.errors ++ (xs.filterMap Declared.emptyName?).map
        fun cause => errorAt o l.source cause s.pending.element := by
  induction as generalizing l s e with
  | nil => exact ⟨.refl s, rfl, rfl, (List.append_nil _).symm⟩
  | cons a as ih =>
    have hrecords : s.Records (Declared.ofAttribute? (l.placeOf s.pending.element) a).toList
        (readAttribute o node (l, s) a).2 := readAttribute_records a
    have hsource : (readAttribute o node (l, s) a).1.source = l.source := readAttribute_source a
    have hpending : (readAttribute o node (l, s) a).1.pending = l.pending := readAttribute_pending a
    have herrors := readAttribute_errors (o := o) (s := s) a he
    have hbecomes := readAttribute_becomes (o := o) (s := s) a he
    obtain ⟨hrecords', hsource', hpending', herrors'⟩ :=
      ih (s := (readAttribute o node (l, s) a).2) ((hbecomes.kind node).trans (if_pos rfl))
    simp only [hrecords.element, hsource, placeOf_congr hsource] at herrors' hrecords'
    have hxs : (a :: as).filterMap (Declared.ofAttribute? (l.placeOf s.pending.element)) =
        (Declared.ofAttribute? (l.placeOf s.pending.element) a).toList ++
          as.filterMap (Declared.ofAttribute? (l.placeOf s.pending.element)) := by
      rw [List.filterMap_cons]
      cases Declared.ofAttribute? (l.placeOf s.pending.element) a <;> rfl
    dsimp only
    rw [hxs]
    refine ⟨hrecords.trans hrecords', hsource'.trans hsource, hpending'.trans hpending, ?_⟩
    rw [List.foldl_cons, herrors', herrors, List.filterMap_append, List.map_append, List.append_assoc]

/-- Reading texts one after the other gives no error. -/
theorem readTexts_drafts (ts : List ((NodeId × String) × Nat))
    (hts : ∀ t ∈ ts, ∃ s, l.document.kind? t.1.1 = some (.text s)) :
    let r := ts.foldl (readText o) (l, s)
    s.Records (ts.map (.ofText (l.placeOf s.pending.element))) r.2 ∧ r.1.source = l.source ∧
      r.1.pending = l.pending ∧ r.1.errors = l.errors := by
  induction ts generalizing l s with
  | nil => exact ⟨.refl s, rfl, rfl, rfl⟩
  | cons t ts ih =>
    obtain ⟨⟨c, raw⟩, n⟩ := t
    obtain ⟨raw', hc⟩ := hts _ (List.mem_cons_self ..)
    obtain ⟨d, hd, hbecomes⟩ := Document.setText_becomes hc ""
    have hsource : (readText o (l, s) ((c, raw), n)).1.source = l.source := source_change _
    have hpending : (readText o (l, s) ((c, raw), n)).1.pending = l.pending := pending_change _
    have herrors : (readText o (l, s) ((c, raw), n)).1.errors = l.errors := errors_change hd
    have hdocument : (readText o (l, s) ((c, raw), n)).1.document = d := document_change hd
    have hrecords : s.Records [.ofText (l.placeOf s.pending.element) ((c, raw), n)]
        (readText o (l, s) ((c, raw), n)).2 := by
      rw [readText, placeOf_congr (source_change _)]
      exact .addValue ..
    obtain ⟨hrecords', hsource', hpending', herrors'⟩ :=
      ih (l := (readText o (l, s) ((c, raw), n)).1) (s := (readText o (l, s) ((c, raw), n)).2)
        fun t ht => by
          rw [hdocument, hbecomes.kind]
          split
          · exact ⟨"", rfl⟩
          · exact hts t (List.mem_cons_of_mem _ ht)
    simp only [hrecords.element, placeOf_congr hsource] at hrecords'
    exact ⟨hrecords.trans hrecords', hsource'.trans hsource, hpending'.trans hpending,
      herrors'.trans herrors⟩

/-- Entering an alias can only find that it is taken. -/
theorem enterAlias_drafts (s : ScopeDraft) (l : Outline) :
    (l.enterAlias o s).source = l.source ∧ (l.enterAlias o s).pending = l.pending ∧
      ∃ taken : Option String, (l.enterAlias o s).errors = l.errors ++ taken.toList.map
        fun name => errorAt o l.source (.duplicateAlias name) s.pending.element := by
  unfold enterAlias
  split
  · rename_i name parent _ _
    dsimp only
    split
    · exact ⟨rfl, rfl, some name, rfl⟩
    · exact ⟨rfl, rfl, none, (List.append_nil _).symm⟩
  · exact ⟨rfl, rfl, none, (List.append_nil _).symm⟩

/-- Which texts an element has depends on what stands under it only. -/
theorem texts_congr {d d' : Document} (hchildren : d'.children node = d.children node)
    (hkind : ∀ c ∈ d.children node, d'.kind? c = d.kind? c) : texts d' node = texts d node := by
  have hown : ((d'.children node).filter fun c => (d'.attribute? c Marker.clone).isNone) =
      (d.children node).filter fun c => (d.attribute? c Marker.clone).isNone := by
    rw [hchildren]
    refine List.filter_congr fun c hc => ?_
    rw [Document.attribute?_congr_attributes (Document.attributes_congr (hkind c hc))]
  rw [texts, texts, hown]
  refine List.filterMap_congr fun x hx => ?_
  have hc : x.1 ∈ d.children node := (List.mem_filter.1 (List.fst_mem_of_mem_zipIdx hx)).1
  have hsame : d'.expressionText? x.1 = d.expressionText? x.1 := by
    rw [Document.expressionText?, hkind _ hc, Document.expressionText?]
  dsimp only
  rw [hsame]

/-- Making the scope of an element drafts what the element declares. The only errors are about names
that are empty and, perhaps, about the alias. -/
theorem addScope_drafts (o : CompileOptions) (parent : Option ScopeIndex) (element : Option Nat)
    (he : l.document.kind? node = some (.element e)) (hnode : node ∉ l.document.children node) :
    let xs := l.document.declared (l.placeOf element) node
    (l.addScope o node parent element).source = l.source ∧
      (l.addScope o node parent element).pending = l.pending ++
        [⟨xs.filterMap Declared.value?, xs.filterMap Declared.event?, element⟩] ∧
      ∃ taken : Option String, (l.addScope o node parent element).errors = l.errors ++
        (xs.filterMap Declared.emptyName?).map (fun cause => errorAt o l.source cause element) ++
          taken.toList.map fun name => errorAt o l.source (.duplicateAlias name) element := by
  unfold addScope
  dsimp only
  generalize hs₀ : (ScopeDraft.setAlias (l.document.implicitAlias? node)
    ⟨.empty parent, ⟨[], [], element⟩⟩) = s₀
  have hpending₀ : s₀.pending = ⟨[], [], element⟩ := by rw [← hs₀]; rfl
  have hdeclared₀ : s₀.scope.declared = [] := by rw [← hs₀]; rfl
  have hbecomes := readAttributes_becomes (o := o) (s := s₀) (l.document.attributes node) he
  obtain ⟨hrecords₁, hsource₁, hpending₁, herrors₁⟩ :=
    readAttributes_drafts (o := o) (s := s₀) (l.document.attributes node) he
  generalize (l.document.attributes node).foldl (readAttribute o node) (l, s₀) = u
    at hbecomes hrecords₁ hsource₁ hpending₁ herrors₁ ⊢
  obtain ⟨l₁, s₁⟩ := u
  dsimp only at hbecomes hrecords₁ hsource₁ hpending₁ herrors₁ ⊢
  obtain ⟨hrecords₂, hsource₂, hpending₂, herrors₂⟩ :=
    readTexts_drafts (o := o) (l := l₁) (s := s₁) (texts l₁.document node) fun t ht =>
      kind?_of_mem_texts ht
  obtain ⟨-, hkind₂⟩ := readTexts_kind (o := o) (l := l₁) (s := s₁) (texts l₁.document node)
    fun t ht => kind?_of_mem_texts ht
  generalize (texts l₁.document node).foldl (readText o) (l₁, s₁) = v
    at hrecords₂ hsource₂ hpending₂ herrors₂ hkind₂ ⊢
  obtain ⟨l₂, s₂⟩ := v
  dsimp only at hrecords₂ hsource₂ hpending₂ herrors₂ hkind₂ ⊢
  have htexts : texts l₁.document node = texts l.document node :=
    texts_congr (hbecomes.children node) fun c hc => by
      rw [hbecomes.kind, if_neg]
      rintro rfl
      exact hnode hc
  simp only [hrecords₁.element, placeOf_congr hsource₁, hpending₀, htexts] at hrecords₂
  simp only [hpending₀] at hrecords₁ herrors₁
  have hown : s₀.Records (l.document.declaredItself (l.placeOf element) node) s₂ :=
    hrecords₁.trans hrecords₂
  have hall : s₀.Records (l.document.declared (l.placeOf element) node) s₂.addCompanions :=
    hown.trans (.addCompanions fun x => by simp [hown.declared, hdeclared₀])
  generalize s₂.addCompanions = s₃ at hall ⊢
  have hpending₃ := hall.pending_eq hpending₀
  generalize hs₄ : s₃.setAlias (s₃.scope.ownAlias.filter fun a => !a.isEmpty) = s₄
  have hpending₄ : s₄.pending = s₃.pending := by rw [← hs₄]; rfl
  -- the element is still there to be marked
  have hkind : (l₂.enterAlias o s₄).document.kind? node = some (.element
      ⟨e.tag, e.attributes.filter fun b =>
        (l.document.attributes node).all fun a => !Declaration.isDynamic a.1 a.2 || b.1 != a.1⟩) := by
    rw [(enterAlias_eq o s₄ l₂).1, hkind₂, hbecomes.kind, if_pos rfl, if_neg]
    intro hmem
    obtain ⟨t, ht, htext⟩ := List.mem_map.1 hmem
    obtain ⟨raw, hraw⟩ := kind?_of_mem_texts ht
    rw [htext, hbecomes.kind, if_pos rfl] at hraw
    cases hraw
  obtain ⟨d, hd, -⟩ := Document.modifyElement_becomes hkind
    (·.setAttribute o.scopeAttribute (toString (l₂.enterAlias o s₄).tree.size))
  obtain ⟨hsource₄, hpendings₄, taken, herrors₄⟩ := enterAlias_drafts (o := o) s₄ l₂
  have hsource : l₂.source = l.source := hsource₂.trans hsource₁
  refine ⟨?_, ?_, taken, ?_⟩
  · rw [source_change, hsource₄, hsource]
  · rw [pending_change, hpendings₄, hpending₂, hpending₁, hpending₄, hpending₃]
  · rw [errors_change hd, herrors₄, herrors₂, herrors₁, hsource, hpending₄, hpending₃,
      Document.filterMap_emptyName?_declared]

/-! ## The walk -/

section

variable {source : Option String} {d : Document} {root n : NodeId} {done : List NodeId}

/-- The outline after the elements of `done` have been visited, in document order. -/
inductive Visits (o : CompileOptions) (source : Option String) (d : Document) (root : NodeId) :
    List NodeId → Outline → Prop
  | start : Visits o source d root [] ⟨d, source.map .ofSource, .empty, [], []⟩
  /-- an element that gets no scope -/
  | skip {done : List NodeId} {l : Outline} {n : NodeId} (before : Visits o source d root done l)
      (next : done ++ [n] <+: d.elements root) (plain : d.isAnnotated n = false) :
      Visits o source d root (done ++ [n]) (l.findElement n).2
  /-- an element that gets one -/
  | scope {done : List NodeId} {l : Outline} {n : NodeId} {parent : Option ScopeIndex}
      (before : Visits o source d root done l) (next : done ++ [n] <+: d.elements root)
      (annotated : d.isAnnotated n = true) (under : d.ScopeParent root n parent)
      (old : ∀ p, parent = some p → p < l.tree.size) :
      Visits o source d root (done ++ [n])
        ((l.findElement n).2.addScope o n parent (l.findElement n).1)

/-- The element that is visited next has not been visited, and is one of the document. -/
theorem of_next (hd : d.IsTree) (hroot : d.isElement root) (h : done ++ [n] <+: d.elements root) :
    n ∉ done ∧ ∃ e, d.kind? n = some (.element e) := by
  have hnodup : (done ++ [n]).Nodup := (hd.nodup_elements hroot).sublist h.sublist
  refine ⟨fun hmem => (List.nodup_append.1 hnodup).2.2 n hmem n (List.mem_singleton.2 rfl) rfl,
    Document.kind?_of_isElement ?_⟩
  exact ((hd.mem_elements hroot).1 (h.subset (List.mem_append_right _ (List.mem_singleton.2 rfl)))).1

/-- That element is still there, and does not stand under itself. -/
theorem Progress.standing {mark : String} (h : Progress d root mark done l) (hd : d.IsTree)
    (hroot : d.isElement root) (hnext : done ++ [n] <+: d.elements root) :
    ∃ e, d.kind? n = some (.element e) ∧ l.document.kind? n = some (.element e) ∧
      n ∉ l.document.children n := by
  obtain ⟨hn, e, he⟩ := of_next hd hroot hnext
  refine ⟨e, he, h.kind?_of_notMem he hn, ?_⟩
  rw [h.shape.children]
  exact fun hc => hd.not_below_child hc .refl

namespace Visits

theorem progress (h : Visits o source d root done l) (hd : d.IsTree) (hnames : d.UniqueNames)
    (hroot : d.isElement root) : Progress d root o.scopeAttribute done l := by
  induction h with
  | start => exact .start d root o.scopeAttribute source
  | @skip done l n _ next plain ih =>
    obtain ⟨-, e, he⟩ := of_next hd hroot next
    obtain ⟨-, htree, hdocument⟩ := findElement_eq n l
    exact (ih.congr hdocument htree).skip he plain
  | @scope done l n parent _ next annotated under old ih =>
    obtain ⟨hn, e, he⟩ := of_next hd hroot next
    obtain ⟨-, htree, hdocument⟩ := findElement_eq n l
    have hunique : (e.attributes.map Prod.fst).Nodup := by
      have := hnames n
      rwa [Document.attributes, Document.element?, he] at this
    exact (ih.congr hdocument htree).addScope hd he hunique hn annotated under
      (by rw [htree]; exact old) _

theorem size (h : Visits o source d root done l) (hd : d.IsTree) (hnames : d.UniqueNames)
    (hroot : d.isElement root) : l.tree.size = (done.filter d.isAnnotated).length :=
  (h.progress hd hnames hroot).size

end Visits

/-- Reading an element down to some levels, when all before it in document order have been visited,
visits the elements of its subtree. -/
def Reaches (o : CompileOptions) (source : Option String) (d : Document) (root : NodeId)
    (depth : Nat) : Prop :=
  ∀ {parent : Option ScopeIndex} {node : NodeId} {done : List NodeId} {l : Outline},
    Visits o source d root done l → done ++ d.elementsTo depth node <+: d.elements root →
    d.isElement node → d.ScopeParent root node parent →
    (∀ p, parent = some p → p < (done.filter d.isAnnotated).length) →
    Visits o source d root (done ++ d.elementsTo depth node) (readElement o depth parent l node)

/-- Reading elements one after the other whose scopes have the same parent. -/
theorem Reaches.forall {depth : Nat} (h : Reaches o source d root depth) {parent : Option ScopeIndex}
    {nodes : List NodeId} (hl : Visits o source d root done l)
    (hfront : done ++ nodes.flatMap (d.elementsTo depth) <+: d.elements root)
    (helement : ∀ n ∈ nodes, d.isElement n) (hparent : ∀ n ∈ nodes, d.ScopeParent root n parent)
    (hlt : ∀ p, parent = some p → p < (done.filter d.isAnnotated).length) :
    Visits o source d root (done ++ nodes.flatMap (d.elementsTo depth))
      (nodes.foldl (readElement o depth parent) l) := by
  induction nodes generalizing done l with
  | nil => rwa [List.flatMap_nil, List.append_nil]
  | cons n nodes ih =>
    rw [List.flatMap_cons, ← List.append_assoc] at hfront ⊢
    refine ih (h hl ((List.prefix_append ..).trans hfront) (helement n (List.mem_cons_self ..))
      (hparent n (List.mem_cons_self ..)) hlt) hfront
      (fun m hm => helement m (List.mem_cons_of_mem _ hm))
      (fun m hm => hparent m (List.mem_cons_of_mem _ hm)) fun p hp => ?_
    rw [List.filter_append, List.length_append]
    exact Nat.lt_of_lt_of_le (hlt p hp) (Nat.le_add_right ..)

theorem reaches (hd : d.IsTree) (hnames : d.UniqueNames) (hroot : d.isElement root) (depth : Nat) :
    Reaches o source d root depth := by
  induction depth with
  | zero =>
    intro parent node done l hl _ _ _ _
    rwa [Document.elementsTo, List.append_nil]
  | succ depth ih =>
    intro parent node done l hl hfront helement hparent hlt
    rw [Document.elementsTo, List.append_cons] at hfront ⊢
    have hnext : done ++ [node] <+: d.elements root := (List.prefix_append ..).trans hfront
    obtain ⟨hnode, e, he⟩ := of_next hd hroot hnext
    have hchildren {c : NodeId} (hc : c ∈ d.elementChildren node) :
        c ∈ d.children node ∧ d.isElement c := Document.mem_elementChildren.1 hc
    obtain ⟨element, l₁, hfind, heq⟩ := readElement_succ o depth parent l node
    obtain ⟨-, htree₁, hdocument₁⟩ := findElement_eq node l
    have hprogress := hl.progress hd hnames hroot
    have hannotated : l₁.document.isAnnotated node = d.isAnnotated node := by
      rw [hfind] at htree₁ hdocument₁
      exact (hprogress.congr hdocument₁ htree₁).isAnnotated hd hnode he
    rw [heq, hannotated]
    split
    · rename_i hscope
      have hl₂ := hl.scope hnext hscope hparent (by rwa [hprogress.size])
      rw [hfind] at hl₂ htree₁
      dsimp only at hl₂ htree₁ ⊢
      rw [(hl₂.progress hd hnames hroot).elementChildren]
      obtain ⟨rest, hsplit⟩ := hfront.filter d.isAnnotated
      rw [List.filter_append, List.filter_append, List.filter_cons_of_pos hscope, List.filter_nil,
        List.append_assoc, List.append_assoc, List.singleton_append] at hsplit
      refine ih.forall hl₂ hfront (fun c hc => (hchildren hc).2) (fun c hc => ?_) fun p hp => ?_
      · rw [htree₁, hprogress.size]
        exact scopeParent_child hd hroot hsplit.symm (hchildren hc).1
      · rw [← Option.some.inj hp, htree₁, hprogress.size, List.filter_append,
          List.filter_cons_of_pos hscope, List.filter_nil, List.length_append, List.length_singleton]
        exact Nat.lt_succ_self _
    · rename_i hplain
      have hl₂ := hl.skip hnext (Bool.eq_false_iff.2 hplain)
      rw [hfind] at hl₂
      dsimp only at hl₂ ⊢
      rw [(hl₂.progress hd hnames hroot).elementChildren]
      have hnot : node ∉ d.annotated root := fun hmem => hplain (List.mem_filter.1 hmem).2
      refine ih.forall hl₂ hfront (fun c hc => (hchildren hc).2) (fun c hc p => ?_) fun p hp => ?_
      · simp only [hd.nearestAnnotated_skip hnot (hchildren hc).1]
        exact hparent p
      · rw [List.filter_append, List.length_append]
        exact Nat.lt_of_lt_of_le (hlt p hp) (Nat.le_add_right ..)

/-! ## All drafts -/

/-- What waits for names in the scope of an element whose tag stands at `element` in the source. -/
def draft (source : Option String) (d : Document) (node : NodeId) (element : Option Nat) :
    PendingScope :=
  let xs := d.declared (placeIn source element) node
  ⟨xs.filterMap Declared.value?, xs.filterMap Declared.event?, element⟩

/-- The errors about empty names in an element whose tag stands at `element` in the source. -/
def nameless (o : CompileOptions) (source : Option String) (d : Document) (node : NodeId)
    (element : Option Nat) : List CompileError :=
  ((d.declared (placeIn source element) node).filterMap Declared.emptyName?).map fun cause =>
    errorAt o (source.map .ofSource) cause element

/-- What is drafted, and which errors are told, when the elements of `done` have been visited. -/
structure Drafts (o : CompileOptions) (source : Option String) (d : Document) (done : List NodeId)
    (l : Outline) : Prop where
  text : l.source.map (·.source) = source
  length : l.pending.length = (done.filter d.isAnnotated).length
  pending : l.pending =
    List.zipWith (draft source d) (done.filter d.isAnnotated) (l.pending.map (·.element))
  errors : l.errors.filter (fun e => !e.cause.isDuplicateAlias) = (List.zipWith (nameless o source d)
    (done.filter d.isAnnotated) (l.pending.map (·.element))).flatten

theorem placeOf_eq (h : l.source.map (·.source) = source) (element : Option Nat) (raw : String) :
    l.placeOf element raw = placeIn source element raw := by
  rw [placeOf, placeIn, ← h]
  cases l.source <;> rfl

theorem errorAt_eq (h : l.source.map (·.source) = source) (cause : CompileCause) (place : Option Nat) :
    errorAt o l.source cause place = errorAt o (source.map .ofSource) cause place := by
  rw [errorAt, errorAt, ← h]
  cases l.source <;> rfl

/-- Looking for a tag changes neither the drafts nor what the source is. -/
theorem findElement_source (node : NodeId) (l : Outline) :
    (l.findElement node).2.source.map (·.source) = l.source.map (·.source) ∧
      (l.findElement node).2.pending = l.pending := by
  unfold findElement
  split
  · rename_i m tag hsource _
    rw [hsource]
    refine ⟨?_, rfl⟩
    dsimp only
    unfold SourceMap.element
    dsimp only
    split <;> rfl
  · exact ⟨rfl, rfl⟩

/-- The attributes and the texts of an element are still there when the walk comes to it. -/
theorem Progress.attributes_texts {mark : String} (h : Progress d root mark done l) (hd : d.IsTree)
    (hroot : d.isElement root) (hnext : done ++ [n] <+: d.elements root) :
    l.document.attributes n = d.attributes n ∧ texts l.document n = texts d n := by
  obtain ⟨hn, e, he⟩ := of_next hd hroot hnext
  refine ⟨Document.attributes_congr ((h.kind?_of_notMem he hn).trans he.symm), ?_⟩
  refine texts_congr (h.shape.children n) fun c hc => h.kept c ?_ fun p hp hc' => ?_
  · exact fun hmem => hd.child_notMem hroot hnext hc (List.mem_filter.1 hmem).1
  · obtain rfl := hd.linked.parent_unique hc hc'
    exact absurd hp hn

/-- So what it declares can be told. -/
theorem Progress.declared {mark : String} (h : Progress d root mark done l) (hd : d.IsTree)
    (hroot : d.isElement root) (hnext : done ++ [n] <+: d.elements root) (place : String → Option Nat) :
    l.document.declared place n = d.declared place n := by
  obtain ⟨hattributes, htexts⟩ := h.attributes_texts hd hroot hnext
  rw [Document.declared, Document.declaredItself, hattributes, htexts, Document.declared,
    Document.declaredItself]

namespace Drafts

theorem congr {l' : Outline} (h : Drafts o source d done l)
    (hsource : l'.source.map (·.source) = l.source.map (·.source)) (hpending : l'.pending = l.pending)
    (herrors : l'.errors = l.errors) : Drafts o source d done l' where
  text := hsource.trans h.text
  length := by rw [hpending, h.length]
  pending := by rw [hpending, ← h.pending]
  errors := by rw [herrors, h.errors, hpending]

theorem findElement (h : Drafts o source d done l) (node : NodeId) :
    Drafts o source d done (l.findElement node).2 :=
  h.congr (findElement_source node l).1 (findElement_source node l).2 (findElement_eq node l).1

/-- Visiting an element that gets no scope. -/
theorem skip (h : Drafts o source d done l) (hplain : d.isAnnotated n = false) :
    Drafts o source d (done ++ [n]) l := by
  have hfilter : (done ++ [n]).filter d.isAnnotated = done.filter d.isAnnotated := by
    rw [List.filter_append, List.filter_cons_of_neg (by simp [hplain]), List.filter_nil,
      List.append_nil]
  obtain ⟨hsource, hlength, hpending, herrors⟩ := h
  rw [← hfilter] at hlength hpending herrors
  exact ⟨hsource, hlength, hpending, herrors⟩

/-- Visiting an element that gets one. -/
theorem addScope (h : Drafts o source d done l) (hannotated : d.isAnnotated n = true)
    (hdeclared : ∀ place, l.document.declared place n = d.declared place n)
    (he : l.document.kind? n = some (.element e)) (hn : n ∉ l.document.children n)
    (parent : Option ScopeIndex) (element : Option Nat) :
    Drafts o source d (done ++ [n]) (l.addScope o n parent element) := by
  obtain ⟨hsource, hpending, taken, herrors⟩ := addScope_drafts o parent element he hn
  have hplace : l.placeOf element = placeIn source element := funext (placeOf_eq h.text element)
  simp only [hplace, hdeclared, errorAt_eq h.text] at hpending herrors
  have hfilter : (done ++ [n]).filter d.isAnnotated = done.filter d.isAnnotated ++ [n] := by
    rw [List.filter_append, List.filter_cons_of_pos hannotated, List.filter_nil]
  have hlengths : (done.filter d.isAnnotated).length = (l.pending.map (·.element)).length := by
    rw [List.length_map, h.length]
  have hplaces : (l.addScope o n parent element).pending.map (·.element) =
      l.pending.map (·.element) ++ [element] := by
    rw [hpending, List.map_append]
    rfl
  refine ⟨(congrArg _ hsource).trans h.text, ?_, ?_, ?_⟩
  · rw [hpending, hfilter, List.length_append, List.length_append, h.length]
    rfl
  · rw [hplaces, hfilter, List.zipWith_append hlengths, ← h.pending, hpending]
    rfl
  · have htaken : (taken.toList.map fun name => errorAt o (source.map .ofSource)
        (.duplicateAlias name) element).filter (fun e => !e.cause.isDuplicateAlias) = [] := by
      rw [List.filter_eq_nil_iff]
      intro x hx
      obtain ⟨name, -, rfl⟩ := List.mem_map.1 hx
      exact Bool.false_ne_true
    have hempty : (nameless o source d n element).filter (fun e => !e.cause.isDuplicateAlias) =
        nameless o source d n element := by
      rw [List.filter_eq_self]
      intro x hx
      obtain ⟨cause, hcause, rfl⟩ := List.mem_map.1 hx
      obtain ⟨y, -, hy⟩ := List.mem_filterMap.1 hcause
      cases y with
      | nameless name =>
        obtain rfl := Option.some.inj hy
        rfl
      | value | event => cases hy
    rw [hplaces, hfilter, List.zipWith_append hlengths, List.flatten_append, ← h.errors, herrors,
      List.filter_append, List.filter_append, htaken, List.append_nil]
    simp only [List.zipWith_cons_cons, List.zipWith_nil_left, List.flatten_cons, List.flatten_nil,
      List.append_nil]
    rw [← hempty]
    rfl

end Drafts

theorem Visits.drafts (h : Visits o source d root done l) (hd : d.IsTree) (hnames : d.UniqueNames)
    (hroot : d.isElement root) : Drafts o source d done l := by
  induction h with
  | start => exact ⟨by cases source <;> rfl, rfl, rfl, rfl⟩
  | skip _ _ plain ih => exact (ih.findElement _).skip plain
  | @scope done l n parent before next annotated under old ih =>
    obtain ⟨-, htree, hdocument⟩ := findElement_eq n l
    have hprogress := (before.progress hd hnames hroot).congr hdocument htree
    obtain ⟨e, -, hkept, hnode⟩ := hprogress.standing hd hroot next
    exact (ih.findElement n).addScope annotated (hprogress.declared hd hroot next) hkept hnode parent _

/-- The outline of a document is made by visiting all its elements. -/
theorem ofDocument_visits (source : Option String) (hd : d.IsTree) (hnames : d.UniqueNames)
    (hroot : d.documentElement? = some root) :
    Visits o source d root (d.elements root) (ofDocument o source d) := by
  have helement : d.isElement root := List.find?_some hroot
  have hread : Reaches o source d root d.nodes.size := reaches hd hnames helement _
  have hvisits := hread .start (List.prefix_refl _) helement (scopeParent_root hd helement)
    fun _ hp => absurd hp.symm (Option.some_ne_none _)
  rw [ofDocument, hroot]
  exact hvisits

end

end Outline

end ReactiveMarkup
