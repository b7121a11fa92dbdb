import ReactiveMarkup.Proofs.Compile.Outcome

/-!
# Declarations do not disturb each other

Which scopes a document has and which names they declare depends on the names of its attributes and on
where expressions are, but not on what the expressions say. So other texts of declarations, whether
they compile or not, leave all scopes as they are, and what comes of the declarations that are kept.

Main definitions: `Document.scopeOf`, `Document.SameNames`, `Compilation.Accounts`.
Main results: `Outline.addScope_eq_push`, `Outline.Visits.alike`, `Document.compile_accounts`.
-/
namespace ReactiveMarkup

/-! ## The scope of an element -/

namespace Scope

/-- What the scope of an element learns from an attribute. -/
def readAttribute (s : Scope) (a : String × String) : Scope :=
  match Declaration.classify a.1 a.2 with
  | .declares (.value name _) | .declares (.handler name _) => s.declare name
  | .declares .ownAlias => { s with ownAlias := some (Blank.trim a.2) }
  | .declares (.event _) | .static | .nameless => s

/-- The companions that the names of a scope imply. -/
def addCompanions (s : Scope) : Scope :=
  if s.declared.contains ValueName.data || s.declared.contains ValueName.request then
    (ScopeDraft.companions.filter fun v => !s.declared.contains v.name).foldl
      (fun s v => s.declare v.name) s
  else s

end Scope

/-- The scope of an element, before others are put under it. -/
def Document.scopeOf (d : Document) (parent : Option ScopeIndex) (n : NodeId) : Scope :=
  let s := (d.attributes n).foldl Scope.readAttribute
    { Scope.empty parent with ownAlias := d.implicitAlias? n }
  let s := ((Outline.texts d n).foldl (fun s t => s.declare (ValueName.text t.2)) s).addCompanions
  { s with ownAlias := s.ownAlias.filter fun a => !a.isEmpty }

/-- Enters the alias of the scope that comes next into its parent, unless it is taken. -/
def ScopeTree.enter (t : ScopeTree) (s : Scope) : ScopeTree :=
  match s.ownAlias, s.parent with
  | some name, some parent =>
    if ((t.get? parent).bind fun p => p.aliases.lookup name).isSome then t
    else t.modify parent fun p => { p with aliases := Keyed.insert name t.size p.aliases }
  | _, _ => t

namespace Outline

variable {o : CompileOptions} {node : NodeId} {l : Outline} {s : ScopeDraft} {e : Element}

theorem readAttribute_scope (a : String × String) :
    (readAttribute o node (l, s) a).2.scope = s.scope.readAttribute a := by
  unfold readAttribute Scope.readAttribute
  dsimp only
  rcases Declaration.classify a.1 a.2 with _ | declared | _
  · rfl
  · cases declared <;> rfl
  · rfl

theorem readAttributes_scope (as : List (String × String)) :
    (as.foldl (readAttribute o node) (l, s)).2.scope = as.foldl Scope.readAttribute s.scope := by
  induction as generalizing l s with
  | nil => rfl
  | cons a as ih => exact ih.trans (congrArg (as.foldl Scope.readAttribute) (readAttribute_scope a))

theorem readTexts_scope (ts : List ((NodeId × String) × Nat)) :
    (ts.foldl (readText o) (l, s)).2.scope =
      ts.foldl (fun s t => s.declare (ValueName.text t.2)) s.scope := by
  induction ts generalizing l s with
  | nil => rfl
  | cons t ts ih => exact ih

theorem addCompanions_scope (s : ScopeDraft) : s.addCompanions.scope = s.scope.addCompanions := by
  have hadd (vs : List PendingValue) (s : ScopeDraft) : (vs.foldl (fun s v => s.addValue v) s).scope =
      vs.foldl (fun s v => s.declare v.name) s.scope := by
    induction vs generalizing s with
    | nil => rfl
    | cons v vs ih => exact ih _
  unfold ScopeDraft.addCompanions Scope.addCompanions
  dsimp only
  split
  · exact hadd _ s
  · rfl

theorem enterAlias_tree (s : ScopeDraft) (l : Outline) :
    (l.enterAlias o s).tree = l.tree.enter s.scope := by
  unfold enterAlias ScopeTree.enter
  cases s.scope.ownAlias with
  | none => rfl
  | some name =>
    cases s.scope.parent with
    | none => rfl
    | some parent =>
      dsimp only
      split <;> rfl

/-- A change keeps the errors there were. -/
theorem errors_subset_change (o : CompileOptions) (place : Option Nat)
    (f : Document → Document.Change) (l : Outline) : l.errors ⊆ (l.change o place f).errors := by
  unfold change
  split
  · exact List.Subset.refl _
  · exact List.subset_append_left ..

/-- Making the scope of an element enters its alias and then puts it at the end of the tree. -/
theorem addScope_enters (o : CompileOptions) (parent : Option ScopeIndex) (element : Option Nat)
    (he : l.document.kind? node = some (.element e)) (hnode : node ∉ l.document.children node) :
    ∃ (l₁ : Outline) (s : ScopeDraft), l₁.tree = l.tree ∧ s.scope = l.document.scopeOf parent node ∧
      (l.addScope o node parent element).tree = (l₁.enterAlias o s).tree.push s.scope ∧
      (l₁.enterAlias o s).errors ⊆ (l.addScope o node parent element).errors := by
  unfold addScope Document.scopeOf
  dsimp only
  generalize hs₀ : (ScopeDraft.setAlias (l.document.implicitAlias? node)
    ⟨.empty parent, ⟨[], [], element⟩⟩) = s₀
  have hscope₀ : s₀.scope = { Scope.empty parent with ownAlias := l.document.implicitAlias? node } := by
    rw [← hs₀]
    rfl
  have hbecomes := readAttributes_becomes (o := o) (s := s₀) (l.document.attributes node) he
  have htree₁ : ((l.document.attributes node).foldl (readAttribute o node) (l, s₀)).1.tree = l.tree :=
    readAttributes_tree _
  have hscope₁ : ((l.document.attributes node).foldl (readAttribute o node) (l, s₀)).2.scope =
      (l.document.attributes node).foldl Scope.readAttribute s₀.scope :=
    readAttributes_scope _
  generalize (l.document.attributes node).foldl (readAttribute o node) (l, s₀) = u
    at hbecomes htree₁ hscope₁ ⊢
  obtain ⟨l₁, s₁⟩ := u
  dsimp only at hbecomes htree₁ hscope₁ ⊢
  have htexts : texts l₁.document node = texts l.document node :=
    texts_congr (hbecomes.children node) fun c hc => by
      rw [hbecomes.kind, if_neg]
      rintro rfl
      exact hnode hc
  have htree₂ := readTexts_tree (o := o) (l := l₁) (s := s₁) (texts l₁.document node)
  have hscope₂ := readTexts_scope (o := o) (l := l₁) (s := s₁) (texts l₁.document node)
  generalize (texts l₁.document node).foldl (readText o) (l₁, s₁) = v at htree₂ hscope₂ ⊢
  obtain ⟨l₂, s₂⟩ := v
  dsimp only at htree₂ hscope₂ ⊢
  rw [htexts, hscope₁, hscope₀] at hscope₂
  rw [← hscope₂, ← addCompanions_scope]
  exact ⟨l₂, _, htree₂.trans htree₁, rfl, congrArg (ScopeTree.push · _) (tree_change _),
    errors_subset_change ..⟩

/-- So the tree has one more scope. -/
theorem addScope_eq_push (o : CompileOptions) (parent : Option ScopeIndex) (element : Option Nat)
    (he : l.document.kind? node = some (.element e)) (hnode : node ∉ l.document.children node) :
    (l.addScope o node parent element).tree =
      (l.tree.enter (l.document.scopeOf parent node)).push (l.document.scopeOf parent node) := by
  obtain ⟨l₁, s, htree, hscope, hadded, -⟩ := addScope_enters o parent element he hnode
  rw [hadded, enterAlias_tree, htree, hscope]

end Outline

/-! ## Documents with the same names -/

namespace Document

/-- Attributes that may hold other values, but no expression where there was none, no text where there was
an expression, and no other alias. -/
structure SameRole (a a' : String × String) : Prop where
  name : a'.1 = a.1
  dynamic : Declaration.isDynamic a'.1 a'.2 = Declaration.isDynamic a.1 a.2
  ownAlias : a.1 = ":aka" → Blank.trim a'.2 = Blank.trim a.2

/-- Documents that differ in nothing but in what values of attributes and texts say. -/
structure SameNames (d d' : Document) : Prop where
  shape : d.SameShape d'
  tag : ∀ n, d'.tag? n = d.tag? n
  attributes : ∀ n, List.Forall₂ SameRole (d.attributes n) (d'.attributes n)
  text : ∀ n, (d'.expressionText? n).isSome = (d.expressionText? n).isSome

namespace SameRole

variable {a a' : String × String}

theorem classify (h : SameRole a a') :
    Declaration.classify a'.1 a'.2 = Declaration.classify a.1 a.2 := by
  obtain ⟨name, text⟩ := a
  obtain ⟨name', text'⟩ := a'
  obtain rfl : name' = name := h.name
  have hdynamic := h.dynamic
  rw [Declaration.isDynamic, Declaration.isDynamic] at hdynamic
  rw [Declaration.classify, Declaration.classify]
  by_cases hcolon : ∃ rest, name'.toList = ':' :: rest
  · obtain ⟨rest, hrest⟩ := hcolon
    simp only [hrest]
  · rw [Declaration.startsWith_colon_eq_false fun rest hrest => hcolon ⟨rest, hrest⟩, Bool.false_or,
      Bool.false_or] at hdynamic
    rw [hdynamic]

theorem readAttribute (h : SameRole a a') (s : Scope) : s.readAttribute a' = s.readAttribute a := by
  rw [Scope.readAttribute, Scope.readAttribute, h.classify]
  rcases hrole : Declaration.classify a.1 a.2 with _ | declared | _
  · rfl
  · cases declared with
    | ownAlias => simp only [h.ownAlias (Declaration.classify_eq_ownAlias_iff.1 hrole)]
    | value | handler | event => rfl
  · rfl

/-! ### All attributes of an element -/

variable {as as' : List (String × String)}

theorem map_name (h : List.Forall₂ SameRole as as') : as'.map Prod.fst = as.map Prod.fst := by
  induction h with
  | nil => rfl
  | cons hrole _ ih => rw [List.map_cons, List.map_cons, hrole.name, ih]

theorem any_isDynamic (h : List.Forall₂ SameRole as as') :
    as'.any (fun a => Declaration.isDynamic a.1 a.2) =
      as.any fun a => Declaration.isDynamic a.1 a.2 := by
  induction h with
  | nil => rfl
  | cons hrole _ ih => rw [List.any_cons, List.any_cons, hrole.dynamic, ih]

theorem foldl_readAttribute (h : List.Forall₂ SameRole as as') (s : Scope) :
    as'.foldl Scope.readAttribute s = as.foldl Scope.readAttribute s := by
  induction h generalizing s with
  | nil => rfl
  | cons hrole _ ih => rw [List.foldl_cons, List.foldl_cons, hrole.readAttribute, ih]

theorem isNone_lookup (h : List.Forall₂ SameRole as as') (name : String) :
    (as'.lookup name).isNone = (as.lookup name).isNone := by
  rw [Bool.eq_iff_iff, Option.isNone_iff_eq_none, Option.isNone_iff_eq_none, List.lookup_eq_none_iff,
    List.lookup_eq_none_iff, ← List.forall_mem_map (f := Prod.fst) (P := fun x => (name != x) = true),
    map_name h, List.forall_mem_map]

end SameRole

namespace SameNames

variable {d d' : Document} {root n : NodeId}

theorem isElement (h : d.SameNames d') : d'.isElement = d.isElement := by
  funext n
  have htag := congrArg Option.isSome (h.tag n)
  simpa [Document.tag?, Document.isElement] using htag

theorem elementChildren (h : d.SameNames d') (n : NodeId) : d'.elementChildren n = d.elementChildren n := by
  rw [Document.elementChildren, h.shape.children, h.isElement, Document.elementChildren]

theorem documentElement? (h : d.SameNames d') : d'.documentElement? = d.documentElement? := by
  rw [Document.documentElement?, h.shape.children, h.isElement, Document.documentElement?]

theorem elements (h : d.SameNames d') (n : NodeId) : d'.elements n = d.elements n := by
  have hto (depth : Nat) (n : NodeId) : d'.elementsTo depth n = d.elementsTo depth n := by
    induction depth generalizing n with
    | zero => rfl
    | succ depth ih => rw [elementsTo, h.elementChildren, elementsTo, funext ih]
  rw [Document.elements, h.shape.size, hto, Document.elements]

theorem implicitAlias? (h : d.SameNames d') (n : NodeId) : d'.implicitAlias? n = d.implicitAlias? n := by
  simp only [Document.implicitAlias?, h.tag, h.documentElement?, h.shape.parent]

theorem isAnnotated (h : d.SameNames d') : d'.isAnnotated = d.isAnnotated := by
  funext n
  rw [Document.isAnnotated, h.documentElement?, h.implicitAlias?,
    SameRole.any_isDynamic (h.attributes n), h.shape.children]
  simp only [h.text]
  rfl

theorem annotated (h : d.SameNames d') (n : NodeId) : d'.annotated n = d.annotated n := by
  rw [Document.annotated, h.elements, h.isAnnotated, Document.annotated]

/-- Both have the same scopes in the same places. -/
theorem scopeParent_iff (h : d.SameNames d') {parent : Option ScopeIndex} :
    d'.ScopeParent root n parent ↔ d.ScopeParent root n parent := by
  have hbelow : d'.Below = d.Below := by
    unfold Document.Below
    simp only [h.shape.children]
  have hnearest (d : Document) (m : NodeId) : d.NearestAnnotated root n m ↔ m ∈ d.annotated root ∧
      m ≠ n ∧ d.Below m n ∧ ∀ k ∈ d.annotated root, k ≠ n → d.Below k n → d.Below k m :=
    ⟨fun h => ⟨h.mem, h.ne, h.below, h.nearest⟩, fun ⟨hmem, hne, hm, hk⟩ => ⟨hmem, hne, hm, hk⟩⟩
  simp only [ScopeParent, hnearest, hbelow, h.annotated]

theorem isTree (h : d.SameNames d') (hd : d.IsTree) : d'.IsTree where
  linked := hd.linked.congr h.shape.parent h.shape.children
  nodup p := by
    rw [h.shape.children]
    exact hd.nodup p
  acyclic p := by
    simp only [h.shape.children]
    exact hd.acyclic p

theorem uniqueNames (h : d.SameNames d') (hnames : d.UniqueNames) : d'.UniqueNames := by
  intro n
  rw [SameRole.map_name (h.attributes n)]
  exact hnames n

/-- The texts with expressions are in the same places. -/
theorem texts (h : d.SameNames d') (n : NodeId) :
    (Outline.texts d' n).map (·.2) = (Outline.texts d n).map (·.2) := by
  have hown (c : NodeId) : (d'.attribute? c Marker.clone).isNone = (d.attribute? c Marker.clone).isNone := by
    rw [attribute?_eq_lookup, attribute?_eq_lookup, SameRole.isNone_lookup (h.attributes c)]
  have hplace (x : NodeId × Nat) : ((d'.expressionText? x.1).map fun raw => ((x.1, raw), x.2)).map (·.2) =
      ((d.expressionText? x.1).map fun raw => ((x.1, raw), x.2)).map (·.2) := by
    have htext := h.text x.1
    cases htext' : d'.expressionText? x.1 <;> cases htext'' : d.expressionText? x.1 <;> simp_all
  rw [Outline.texts, Outline.texts, h.shape.children, List.map_filterMap, List.map_filterMap]
  simp only [hown]
  exact List.filterMap_congr fun x _ => hplace x

/-- An element has the same scope in both. -/
theorem scopeOf (h : d.SameNames d') (parent : Option ScopeIndex) (n : NodeId) :
    d'.scopeOf parent n = d.scopeOf parent n := by
  have htexts (s : Scope) :
      (Outline.texts d' n).foldl (fun s t => s.declare (ValueName.text t.2)) s =
        (Outline.texts d n).foldl (fun s t => s.declare (ValueName.text t.2)) s := by
    have hfold (ts : List ((NodeId × String) × Nat)) :
        ts.foldl (fun s t => s.declare (ValueName.text t.2)) s =
          (ts.map (·.2)).foldl (fun s place => s.declare (ValueName.text place)) s := by
      rw [List.foldl_map]
    rw [hfold, h.texts, hfold]
  rw [Document.scopeOf, Document.scopeOf, h.implicitAlias?,
    SameRole.foldl_readAttribute (h.attributes n), htexts]

end SameNames

end Document

/-! ## Two walks -/

namespace Outline

variable {o : CompileOptions} {source : Option String} {d d' : Document} {root n : NodeId}
  {done : List NodeId} {l l' : Outline}

theorem Visits.first (h : Visits o source d root [] l) : l = ⟨d, source.map .ofSource, .empty, [], []⟩ := by
  generalize hvisited : [] = visited at h
  cases h with
  | start => rfl
  | skip | scope => simp at hvisited

/-- What the last visit was. -/
theorem Visits.last (h : Visits o source d root (done ++ [n]) l) :
    ∃ l₀, Visits o source d root done l₀ ∧ done ++ [n] <+: d.elements root ∧
      (d.isAnnotated n = false ∧ l = (l₀.findElement n).2 ∨
        d.isAnnotated n = true ∧ ∃ parent, d.ScopeParent root n parent ∧
          l = (l₀.findElement n).2.addScope o n parent (l₀.findElement n).1) := by
  generalize hvisited : done ++ [n] = visited at h
  cases h with
  | start => simp at hvisited
  | skip before next plain =>
    obtain ⟨rfl, hn⟩ := List.append_inj' hvisited rfl
    obtain rfl := List.singleton_inj.1 hn
    exact ⟨_, before, hvisited ▸ next, .inl ⟨plain, rfl⟩⟩
  | scope before next annotated under old =>
    obtain ⟨rfl, hn⟩ := List.append_inj' hvisited rfl
    obtain rfl := List.singleton_inj.1 hn
    exact ⟨_, before, hvisited ▸ next, .inr ⟨annotated, _, under, rfl⟩⟩

/-- Where a tag is found depends on the source and on the tag only. -/
theorem findElement_congr (hsource : l'.source = l.source)
    (htag : l'.document.tag? n = l.document.tag? n) :
    (l'.findElement n).1 = (l.findElement n).1 ∧
      (l'.findElement n).2.source = (l.findElement n).2.source := by
  unfold findElement
  rw [hsource, htag]
  split
  · exact ⟨rfl, rfl⟩
  · exact ⟨rfl, hsource⟩

/-- An element has the same scope when the walk comes to it. -/
theorem Progress.scopeOf {mark : String} (h : Progress d root mark done l) (hd : d.IsTree)
    (hroot : d.isElement root) (hnext : done ++ [n] <+: d.elements root) (parent : Option ScopeIndex) :
    l.document.scopeOf parent n = d.scopeOf parent n := by
  obtain ⟨hattributes, htexts⟩ := h.attributes_texts hd hroot hnext
  rw [Document.scopeOf, hattributes, htexts, h.implicitAlias?, Document.scopeOf]

/-- What the visit of an annotated element adds. -/
theorem Visits.addScope (h : Visits o source d root done l) (hd : d.IsTree) (hnames : d.UniqueNames)
    (hroot : d.isElement root) (hnext : done ++ [n] <+: d.elements root) (parent : Option ScopeIndex)
    (element : Option Nat) :
    let l' := (l.findElement n).2.addScope o n parent element
    l'.source = (l.findElement n).2.source ∧
      l'.tree = (l.tree.enter (d.scopeOf parent n)).push (d.scopeOf parent n) ∧
      l'.pending.map (·.element) = l.pending.map (·.element) ++ [element] := by
  obtain ⟨-, htree, hdocument⟩ := findElement_eq n l
  have hprogress := (h.progress hd hnames hroot).congr hdocument htree
  obtain ⟨e, -, he', hnode⟩ := hprogress.standing hd hroot hnext
  obtain ⟨hsource, hpending, -⟩ := addScope_drafts o parent element he' hnode
  refine ⟨hsource, ?_, ?_⟩
  · rw [addScope_eq_push o parent element he' hnode, htree, hprogress.scopeOf hd hroot hnext]
  · rw [hpending, (findElement_source n l).2, List.map_append]
    rfl

/-- Walks through documents with the same names find the same scopes in the same places. -/
theorem Visits.alike (h : Visits o source d root done l) (h' : Visits o source d' root done l')
    (hsame : d.SameNames d') (hd : d.IsTree) (hnames : d.UniqueNames) (hroot : d.isElement root) :
    l'.source = l.source ∧ l'.tree = l.tree ∧
      l'.pending.map (·.element) = l.pending.map (·.element) := by
  have hd' := hsame.isTree hd
  have hnames' := hsame.uniqueNames hnames
  have hroot' : d'.isElement root := by rwa [hsame.isElement]
  induction done using List.reverseRecOn generalizing l l' with
  | nil =>
    rw [h.first, h'.first]
    exact ⟨rfl, rfl, rfl⟩
  | append_singleton done n ih =>
    obtain ⟨l₀, hbefore, hnext, hlast⟩ := h.last
    obtain ⟨l₀', hbefore', hnext', hlast'⟩ := h'.last
    obtain ⟨hsource, htree, helements⟩ := ih hbefore hbefore'
    have htag : l₀'.document.tag? n = l₀.document.tag? n := by
      rw [(hbefore'.progress hd' hnames' hroot').tag?, (hbefore.progress hd hnames hroot).tag?, hsame.tag]
    obtain ⟨hplace, hsource⟩ := findElement_congr hsource htag
    rw [hsame.isAnnotated] at hlast'
    rcases hlast with ⟨hplain, rfl⟩ | ⟨hannotated, parent, hparent, rfl⟩ <;>
      rcases hlast' with ⟨hplain', rfl⟩ | ⟨hannotated', parent', hparent', rfl⟩
    · rw [(findElement_eq n l₀).2.1, (findElement_eq n l₀').2.1, (findElement_source n l₀).2,
        (findElement_source n l₀').2]
      exact ⟨hsource, htree, helements⟩
    · rw [hplain] at hannotated'
      cases hannotated'
    · rw [hplain'] at hannotated
      cases hannotated
    · rw [hsame.scopeParent_iff] at hparent'
      obtain rfl : parent' = parent := Option.ext fun p => (hparent' p).trans (hparent p).symm
      have hadd := hbefore.addScope hd hnames hroot hnext parent' (l₀.findElement n).1
      have hadd' := hbefore'.addScope hd' hnames' hroot' hnext' parent' (l₀'.findElement n).1
      rw [hadd.1, hadd'.1, hadd.2.1, hadd'.2.1, hadd.2.2, hadd'.2.2, hsame.scopeOf, htree, helements,
        hplace]
      exact ⟨hsource, rfl, rfl⟩

end Outline

/-! ## All declarations -/

namespace Document

variable {o : CompileOptions} {source : Option String} {d d' : Document}

/-- Documents with the same names have the same scopes, and what comes of a declaration is the same. -/
theorem SameNames.outcome (h : d.SameNames d') (hd : d.IsTree) (hnames : d.UniqueNames) :
    d'.sites o source = d.sites o source ∧ d'.outcome o source = d.outcome o source := by
  have helements : d'.scopeElements = d.scopeElements := by
    simp only [scopeElements, h.documentElement?, h.annotated]
  obtain ⟨hsource, htree, hplaces⟩ :
      (Outline.ofDocument o source d').source = (Outline.ofDocument o source d).source ∧
        (Outline.ofDocument o source d').tree = (Outline.ofDocument o source d).tree ∧
        (Outline.ofDocument o source d').pending.map (·.element) =
          (Outline.ofDocument o source d).pending.map (·.element) := by
    cases hroot : d.documentElement? with
    | none =>
      rw [Outline.ofDocument, Outline.ofDocument, h.documentElement?, hroot]
      exact ⟨rfl, rfl, rfl⟩
    | some root =>
      have hvisits := Outline.ofDocument_visits (o := o) source hd hnames hroot
      have hvisits' := Outline.ofDocument_visits (o := o) source (h.isTree hd) (h.uniqueNames hnames)
        (h.documentElement?.trans hroot)
      rw [h.elements] at hvisits'
      exact hvisits.alike hvisits' h hd hnames (List.find?_some hroot)
  refine ⟨by rw [sites, helements, hplaces, sites], funext fun x => ?_⟩
  rw [Document.outcome, Outline.context, hsource, htree, Document.outcome, Outline.context]

end Document

/-- What the compilation of a document is to what is declared in it. -/
structure Compilation.Accounts (o : CompileOptions) (source : Option String) (d : Document)
    (c : Compilation) : Prop where
  /-- each declaration comes out as one template in its scope or as one error, and but for errors about
  aliases nothing else comes out -/
  outcomes : ((d.declarations o source).map (d.outcome o source)).Perm
    ((c.program.scopes.flatMap (·.templates)).map Except.ok ++
      (c.errors.filter fun e => !e.cause.isDuplicateAlias).map Except.error)
  count : (c.program.scopes.map fun t => t.values.length + t.events.length).sum +
      (c.errors.filter fun e => !e.cause.isDuplicateAlias).length =
    (d.scopeElements.map d.declarationCount).sum
  accepted : ∀ e ∈ c.errors, e.cause.isDocument = false
  /-- whatever other declarations say and whether they fail or not, the same comes of a declaration -/
  undisturbed : ∀ d', d.SameNames d' →
    d'.sites o source = d.sites o source ∧ d'.outcome o source = d.outcome o source

/-- Compilation accounts for each declaration of a document, whatever errors there are. -/
theorem Document.compile_accounts (o : CompileOptions) (source : Option String) {d : Document}
    (hd : d.IsTree) (hnames : d.UniqueNames) : (d.compile o source).Accounts o source d where
  outcomes := d.outcomes_perm o source hd hnames
  count := d.count_outcomes o source hd hnames
  accepted _ he := d.isDocument_of_mem_errors o source hd hnames he
  undisturbed _ h := h.outcome hd hnames

/-- A list with a window of its own, a text and a handler that fail, and an attribute without a name. -/
theorem Document.compile_accounts_list :
    let d := Document.ofMarkup [.element "ul" [(":data", "[[xs]]"), (":data-offset", "1"), (":aka", "l")]
      [.text "[[1 +]]", .element "li" [(":class-", "[[true]]"), (":on-click", "go")] []]]
    d.IsTree ∧ d.UniqueNames ∧ d.scopeElements.map d.declarationCount = [4, 2] ∧
      (d.compile .standard none).Accounts .standard none d := by
  intro d
  have hmade : d.WellMade := Document.wellMade_ofMarkup _
  exact ⟨hmade.layered.isTree, hmade.names, by decide +kernel,
    Document.compile_accounts .standard none hmade.layered.isTree hmade.names⟩

end ReactiveMarkup
