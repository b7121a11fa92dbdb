import ReactiveMarkup.Program
import ReactiveMarkup.Proofs.Document.Furnished
import ReactiveMarkup.Scope.Tree

/-!
# What a scope tree tells about templates

Scopes are numbered so that parents come first. A path leads somewhere from a scope if it starts at
the scope itself or one around it, follows aliases that exist, and ends at a declared value. A
template fits a tree if it declares what its scope declares, observes only what paths lead to, and
has the children of its scope.

Main definitions: `ScopeTree.ParentsFirst`, `ScopeTree.Leads`, `ScopeTemplate.Fits`.
Main results: `ScopeTree.ancestors_eq`, `ScopeTree.resolveFrom_eq_value`.
-/
namespace ReactiveMarkup

/-- A scope with one more child, perhaps with an alias. -/
def Scope.adopt (q : Scope) (ownAlias : Option String) (i : ScopeIndex) : Scope :=
  { q with
    children := q.children ++ [i]
    aliases := match ownAlias with
      | some name => Keyed.insert name i q.aliases
      | none => q.aliases }

namespace ScopeTree

variable {t : ScopeTree} {i : ScopeIndex} {s : Scope}

theorem lt_size (h : t.get? i = some s) : i < t.size :=
  (List.getElem?_eq_some_iff.1 h).1

/-- The scopes below each scope. -/
def parts (t : ScopeTree) (i : ScopeIndex) : List ScopeIndex :=
  ((t.get? i).map (·.children)).getD []

/-- Every scope comes after its parent. -/
def ParentsFirst (t : ScopeTree) : Prop :=
  ∀ i s p, t.get? i = some s → s.parent = some p → p < i ∧ ∃ q, t.get? p = some q

/-! ## Growing -/

theorem get?_modify (t : ScopeTree) (i : ScopeIndex) (f : Scope → Scope) (j : ScopeIndex) :
    (t.modify i f).get? j = (t.get? j).map fun q => if j = i then f q else q := by
  rw [get?, modify, List.getElem?_modify, get?]
  by_cases h : i = j
  · simp [h]
  · simp [h, Ne.symm h]

@[simp] theorem size_modify (t : ScopeTree) (i : ScopeIndex) (f : Scope → Scope) :
    (t.modify i f).size = t.size :=
  List.length_modify ..

theorem get?_push (t : ScopeTree) (s : Scope) (j : ScopeIndex) :
    (t.push s).get? j = if j = t.size then some s else (t.get? j).map fun q =>
      if s.parent = some j then { q with children := q.children ++ [t.size] } else q := by
  have hadd (u : ScopeTree) : (⟨u.scopes ++ [s]⟩ : ScopeTree).get? j =
      if j = u.size then some s else u.get? j := by
    rw [get?, get?, size]
    rcases Nat.lt_trichotomy j u.scopes.length with hlt | rfl | hgt
    · rw [if_neg (Nat.ne_of_lt hlt), List.getElem?_append_left hlt]
    · rw [if_pos rfl, List.getElem?_concat_length]
    · rw [if_neg (Nat.ne_of_gt hgt), List.getElem?_eq_none (by simp; omega),
        List.getElem?_eq_none (by omega)]
  unfold push
  cases hp : s.parent with
  | none =>
    rw [hadd]
    simp
  | some p =>
    dsimp only
    rw [hadd, size_modify, get?_modify]
    simp [eq_comm]

/-- Parents come first, and know their children and the aliases of these. -/
structure Sound (t : ScopeTree) : Prop where
  first : t.ParentsFirst
  children_iff : ∀ p q c, t.get? p = some q →
    (c ∈ q.children ↔ ∃ s, t.get? c = some s ∧ s.parent = some p)
  aliases_iff : ∀ p q name c, t.get? p = some q → (q.aliases.lookup name = some c ↔
    ∃ s, t.get? c = some s ∧ s.parent = some p ∧ s.ownAlias = some name)

/-- A tree with one more scope, which its parent has taken in. -/
structure Grows (t : ScopeTree) (s : Scope) (t' : ScopeTree) : Prop where
  get?_eq : ∀ j, t'.get? j = if j = t.size then some s else
    (t.get? j).map fun q => if s.parent = some j then q.adopt s.ownAlias t.size else q
  parent : ∀ p, s.parent = some p → p < t.size
  children : s.children = []
  aliases : s.aliases = []
  free : ∀ p q name, s.parent = some p → t.get? p = some q → s.ownAlias = some name →
    q.aliases.lookup name = none

namespace Grows

variable {t' : ScopeTree}

theorem get?_last (h : Grows t s t') : t'.get? t.size = some s := by
  rw [h.get?_eq, if_pos rfl]

/-- The scopes that were there are there, and have their parents and aliases. -/
theorem get?_old (h : Grows t s t') {j : ScopeIndex} {q : Scope} (hq : t.get? j = some q) :
    t'.get? j = some (if s.parent = some j then q.adopt s.ownAlias t.size else q) := by
  rw [h.get?_eq, if_neg (Nat.ne_of_lt (lt_size hq)), hq]
  rfl

theorem cases (h : Grows t s t') {j : ScopeIndex} {q' : Scope} (hq' : t'.get? j = some q') :
    j = t.size ∧ q' = s ∨ ∃ q, t.get? j = some q ∧
      q' = if s.parent = some j then q.adopt s.ownAlias t.size else q := by
  rw [h.get?_eq] at hq'
  split at hq'
  · rename_i hj
    exact .inl ⟨hj, (Option.some.inj hq').symm⟩
  · obtain ⟨q, hq, hq'⟩ := Option.map_eq_some_iff.1 hq'
    exact .inr ⟨q, hq, hq'.symm⟩

theorem size_eq (h : Grows t s t') : t'.size = t.size + 1 := by
  refine Nat.le_antisymm (Nat.not_lt.1 fun hlt => ?_) (lt_size h.get?_last)
  have hnew : t'.get? (t.size + 1) = some t'.scopes[t.size + 1] := List.getElem?_eq_getElem hlt
  rcases h.cases hnew with ⟨he, -⟩ | ⟨q, hq, -⟩
  · exact absurd he (Nat.succ_ne_self _)
  · exact absurd (lt_size hq) (Nat.not_lt.2 (Nat.le_succ _))

/-- The parent and the alias of a scope stay. -/
theorem adopt_ite (s : Scope) (i j : ScopeIndex) (q : Scope) :
    (if s.parent = some j then q.adopt s.ownAlias i else q).parent = q.parent ∧
      (if s.parent = some j then q.adopt s.ownAlias i else q).ownAlias = q.ownAlias := by
  split <;> exact ⟨rfl, rfl⟩

/-- Which scopes have a parent in the grown tree. -/
theorem exists_child_iff (h : Grows t s t') {c p : ScopeIndex} {P : Scope → Prop}
    (hP : ∀ q, P (if s.parent = some c then q.adopt s.ownAlias t.size else q) ↔ P q) :
    (∃ u, t'.get? c = some u ∧ u.parent = some p ∧ P u) ↔
      (∃ u, t.get? c = some u ∧ u.parent = some p ∧ P u) ∨ c = t.size ∧ s.parent = some p ∧ P s := by
  constructor
  · rintro ⟨u, hu, hp, hPu⟩
    rcases h.cases hu with ⟨rfl, rfl⟩ | ⟨q, hq, rfl⟩
    · exact .inr ⟨rfl, hp, hPu⟩
    · rw [(adopt_ite s _ c q).1] at hp
      exact .inl ⟨q, hq, hp, (hP q).1 hPu⟩
  · rintro (⟨u, hu, hp, hPu⟩ | ⟨rfl, hp, hPs⟩)
    · exact ⟨_, h.get?_old hu, (adopt_ite s _ c u).1.trans hp, (hP u).2 hPu⟩
    · exact ⟨s, h.get?_last, hp, hPs⟩

end Grows

/-- No scope has a parent that comes after it. -/
theorem Sound.lt_of_parent (h : t.Sound) {c p : ScopeIndex} {u : Scope} (hu : t.get? c = some u)
    (hp : u.parent = some p) : p < t.size := by
  obtain ⟨-, q, hq⟩ := h.first c u p hu hp
  exact lt_size hq

/-- A grown tree is sound. -/
theorem Sound.grow {t' : ScopeTree} (h : t.Sound) (hg : Grows t s t') : t'.Sound where
  first j q' p hq' hp := by
    have hlive {p : ScopeIndex} (hlt : p < t.size) : ∃ q, t'.get? p = some q :=
      ⟨_, hg.get?_old (List.getElem?_eq_getElem hlt)⟩
    rcases hg.cases hq' with ⟨rfl, rfl⟩ | ⟨q, hq, rfl⟩
    · exact ⟨hg.parent p hp, hlive (hg.parent p hp)⟩
    · rw [(Grows.adopt_ite s _ j q).1] at hp
      exact ⟨(h.first j q p hq hp).1, hlive (h.lt_of_parent hq hp)⟩
  children_iff p q' c hq' := by
    have hiff := hg.exists_child_iff (c := c) (p := p) (P := fun _ => True) fun _ => .rfl
    simp only [and_true] at hiff
    rw [hiff]
    rcases hg.cases hq' with ⟨rfl, rfl⟩ | ⟨q, hq, rfl⟩
    · rw [hg.children]
      refine ⟨fun hc => (by cases hc), ?_⟩
      rintro (⟨u, hu, hp⟩ | ⟨-, hp⟩)
      · exact absurd (h.lt_of_parent hu hp) (Nat.lt_irrefl _)
      · exact absurd (hg.parent _ hp) (Nat.lt_irrefl _)
    · rw [← h.children_iff p q c hq]
      split
      · rename_i hp
        simp [Scope.adopt, hp]
      · rename_i hp
        simp [hp]
  aliases_iff p q' name c hq' := by
    rw [hg.exists_child_iff (P := fun u => u.ownAlias = some name) fun q => by
      rw [(Grows.adopt_ite s _ c q).2]]
    rcases hg.cases hq' with ⟨rfl, rfl⟩ | ⟨q, hq, rfl⟩
    · rw [hg.aliases]
      refine ⟨fun hc => (by cases hc), ?_⟩
      rintro (⟨u, hu, hp, -⟩ | ⟨-, hp, -⟩)
      · exact absurd (h.lt_of_parent hu hp) (Nat.lt_irrefl _)
      · exact absurd (hg.parent _ hp) (Nat.lt_irrefl _)
    · rw [← h.aliases_iff p q name c hq]
      split
      · rename_i hp
        cases hown : s.ownAlias with
        | none => simp [Scope.adopt]
        | some other =>
          by_cases hname : name = other
          · subst hname
            have hfree := hg.free p q name hp hq hown
            simp [Scope.adopt, hfree, hp, eq_comm]
          · have hne : other ≠ name := Ne.symm hname
            simp [Scope.adopt, Keyed.lookup_insert_of_ne hname, hne]
      · rename_i hp
        simp [hp]

/-! ## Ancestors -/

@[simp] theorem ancestorsUpTo_none (t : ScopeTree) (count : Nat) : t.ancestorsUpTo count none = [] := by
  cases count <;> rfl

theorem ancestorsUpTo_succ (t : ScopeTree) (count : Nat) (h : t.get? i = some s) :
    t.ancestorsUpTo (count + 1) (some i) = (i, s) :: t.ancestorsUpTo count s.parent := by
  rw [ancestorsUpTo, h]

/-- Looking further than there are scopes before finds nothing more. -/
theorem ancestorsUpTo_of_lt (ht : t.ParentsFirst) {count : Nat} (h : i < count) :
    t.ancestorsUpTo count (some i) = t.ancestorsUpTo (i + 1) (some i) := by
  induction i using Nat.strongRecOn generalizing count with
  | ind i ih =>
    obtain ⟨n, rfl⟩ := Nat.exists_eq_add_one_of_ne_zero (Nat.ne_of_gt (Nat.zero_lt_of_lt h))
    cases hs : t.get? i with
    | none => simp [ancestorsUpTo, hs]
    | some s =>
      rw [ancestorsUpTo_succ t n hs, ancestorsUpTo_succ t i hs]
      cases hp : s.parent with
      | none => simp
      | some p =>
        have hlt := (ht i s p hs hp).1
        rw [ih p hlt (Nat.lt_of_lt_of_le hlt (Nat.le_of_lt_succ h)), ih p hlt hlt]

/-- The ancestors of a scope are the scope itself and the ancestors of its parent. -/
theorem ancestors_eq (ht : t.ParentsFirst) (h : t.get? i = some s) :
    t.ancestors (some i) = (i, s) :: t.ancestors s.parent := by
  have hi := lt_size h
  rw [ancestors, ancestorsUpTo_of_lt ht hi, ancestorsUpTo_succ t i h, ancestors]
  cases hp : s.parent with
  | none => simp
  | some p =>
    have hlt := (ht i s p h hp).1
    rw [ancestorsUpTo_of_lt ht hlt, ancestorsUpTo_of_lt ht (Nat.lt_trans hlt hi)]

theorem ancestors_none (t : ScopeTree) : t.ancestors none = [] := ancestorsUpTo_none t t.size

/-- No scope is among its ancestors twice, and all of them come before it. -/
theorem ancestors_nodup (ht : t.ParentsFirst) (i : ScopeIndex) :
    ((t.ancestors (some i)).map Prod.fst).Nodup ∧ ∀ x ∈ t.ancestors (some i), x.1 ≤ i := by
  induction i using Nat.strongRecOn with
  | ind i ih =>
    cases hs : t.get? i with
    | none =>
      have : t.ancestors (some i) = [] := by
        rw [ancestors]
        cases t.size <;> simp [ancestorsUpTo, hs]
      simp [this]
    | some s =>
      rw [ancestors_eq ht hs]
      cases hp : s.parent with
      | none => simp [ancestors_none]
      | some p =>
        have hlt := (ht i s p hs hp).1
        obtain ⟨hnodup, hle⟩ := ih p hlt
        refine ⟨?_, fun x hx => ?_⟩
        · rw [List.map_cons, List.nodup_cons]
          refine ⟨fun hm => ?_, hnodup⟩
          obtain ⟨x, hx, hxi⟩ := List.mem_map.1 hm
          have hxp := hle x hx
          rw [hxi] at hxp
          exact absurd hlt (Nat.not_lt.2 hxp)
        · rcases List.mem_cons.1 hx with rfl | hx
          · exact Nat.le_refl _
          · exact Nat.le_trans (hle x hx) (Nat.le_of_lt hlt)

/-! ## Paths -/

/-- The scope that aliases lead to. -/
def follow? (t : ScopeTree) (start : ScopeIndex) (aliases : List String) : Option ScopeIndex :=
  aliases.foldlM (fun i name => (t.get? i).bind fun s => s.aliases.lookup name) start

/-- A path leads from a scope to a declared value. -/
structure Leads (t : ScopeTree) (start : ScopeIndex) (path : ValuePath) : Prop where
  anchor : path.anchor ∈ (t.ancestors (some start)).map Prod.fst
  owner : ∃ owner s, t.follow? path.anchor path.aliases = some owner ∧ t.get? owner = some s ∧
    path.name ∈ s.declared

theorem resolveIn?_eq_value {name : String} {owner : ScopeIndex}
    (h : resolveIn? name i s = some (.value owner)) : owner = i ∧ name ∈ s.declared := by
  unfold resolveIn? at h
  split at h
  · rename_i hd
    cases h
    exact ⟨rfl, by simpa using hd⟩
  · split at h
    · cases h
    · obtain ⟨x, -, hx⟩ := Option.map_eq_some_iff.1 h
      cases hx

theorem resolveIn?_eq_none {name : String} (h : resolveIn? name i s = none) :
    name ∉ s.declared := by
  unfold resolveIn? at h
  split at h
  · cases h
  · rename_i hd
    simpa using hd

theorem resolveFrom_eq (t : ScopeTree) (start : Option ScopeIndex) (name : String) :
    t.resolveFrom start name =
      ((t.ancestors start).findSome? fun x => resolveIn? name x.1 x.2).getD .unresolved := rfl

/-- A name that stands for a value stands for that of the nearest scope that declares it. -/
theorem resolveFrom_eq_value {start : Option ScopeIndex} {name : String} {owner : ScopeIndex}
    (h : t.resolveFrom start name = .value owner) :
    ∃ before s after, t.ancestors start = before ++ (owner, s) :: after ∧ name ∈ s.declared ∧
      ∀ x ∈ before, name ∉ x.2.declared := by
  rw [resolveFrom_eq] at h
  cases hf : (t.ancestors start).findSome? fun x => resolveIn? name x.1 x.2 with
  | none =>
    rw [hf] at h
    cases h
  | some r =>
    rw [hf] at h
    obtain rfl : r = .value owner := h
    obtain ⟨before, x, after, happ, hx, hbefore⟩ := List.findSome?_eq_some_iff.1 hf
    obtain ⟨i, s⟩ := x
    obtain ⟨rfl, hd⟩ := resolveIn?_eq_value hx
    exact ⟨before, s, after, happ, hd, fun x hx => resolveIn?_eq_none (hbefore x hx)⟩

theorem resolveIn?_eq_scope {name : String} {anchor target : ScopeIndex}
    (h : resolveIn? name i s = some (.scope anchor target)) :
    anchor = i ∧ (target = i ∨ s.aliases.lookup name = some target) := by
  unfold resolveIn? at h
  split at h
  · cases h
  · split at h
    · cases h
      exact ⟨rfl, .inl rfl⟩
    · obtain ⟨x, hx, hscope⟩ := Option.map_eq_some_iff.1 h
      cases hscope
      exact ⟨rfl, .inr hx⟩

/-- A name that stands for a scope is an alias of that scope or one of its parent's. -/
theorem resolveFrom_eq_scope {start : Option ScopeIndex} {name : String} {anchor target : ScopeIndex}
    (h : t.resolveFrom start name = .scope anchor target) :
    ∃ s, (anchor, s) ∈ t.ancestors start ∧
      (target = anchor ∨ s.aliases.lookup name = some target) := by
  rw [resolveFrom_eq] at h
  cases hf : (t.ancestors start).findSome? fun x => resolveIn? name x.1 x.2 with
  | none =>
    rw [hf] at h
    cases h
  | some r =>
    rw [hf] at h
    obtain rfl : r = .scope anchor target := h
    obtain ⟨before, x, after, happ, hx, -⟩ := List.findSome?_eq_some_iff.1 hf
    obtain ⟨i, s⟩ := x
    obtain ⟨rfl, htarget⟩ := resolveIn?_eq_scope hx
    refine ⟨s, ?_, htarget⟩
    rw [happ]
    exact List.mem_append_right _ (List.mem_cons_self ..)

theorem mem_ancestorsUpTo {count : Nat} {start : Option ScopeIndex} {x : ScopeIndex × Scope}
    (h : x ∈ t.ancestorsUpTo count start) : t.get? x.1 = some x.2 := by
  induction count generalizing start with
  | zero => cases h
  | succ count ih =>
    cases start with
    | none => cases h
    | some i =>
      rw [ancestorsUpTo] at h
      cases hs : t.get? i with
      | none =>
        rw [hs] at h
        cases h
      | some s =>
        rw [hs] at h
        rcases List.mem_cons.1 h with rfl | h
        · exact hs
        · exact ih h

theorem get?_of_mem_ancestors {start : Option ScopeIndex} {x : ScopeIndex × Scope}
    (h : x ∈ t.ancestors start) : t.get? x.1 = some x.2 := mem_ancestorsUpTo h

/-- A path that starts at an ancestor and ends where a name is declared. -/
theorem Leads.of_follow {start anchor owner : ScopeIndex} {a : Scope} {aliases : List String}
    {name : String} (hanchor : (anchor, a) ∈ t.ancestors (some start))
    (hfollow : t.follow? anchor aliases = some owner) (hs : t.get? owner = some s)
    (hname : name ∈ s.declared) : t.Leads start ⟨anchor, aliases, name⟩ :=
  ⟨List.mem_map_of_mem hanchor, owner, s, hfollow, hs, hname⟩

/-- A path to a name of the scope itself. -/
theorem Leads.own (ht : t.ParentsFirst) (hs : t.get? i = some s) {name : String}
    (hname : name ∈ s.declared) : t.Leads i ⟨i, [], name⟩ := by
  have hself : (i, s) ∈ t.ancestors (some i) := by
    rw [ancestors_eq ht hs]
    exact List.mem_cons_self ..
  exact .of_follow hself rfl hs hname

end ScopeTree

/-! ## Templates -/

namespace ValueKind

/-- The attribute that showing a value writes to. -/
def attribute? : ValueKind → Option String
  | className _ => some "class"
  | style _ => some "style"
  | attr name => some name
  | request => some Marker.echo
  | plain | text _ | data | handler _ => none

/-- Showing a value changes no mark. -/
def Spares (mark : String) (kind : ValueKind) : Prop :=
  ∀ name, kind.attribute? = some name → name ≠ mark ∧ name ≠ Marker.clone

end ValueKind

namespace ScopeTemplate

/-- A template for a scope of a tree, under the parent that the scope has there. -/
inductive Fits (tree : ScopeTree) (mark : String) : Option ScopeIndex → ScopeTemplate → Prop
  | intro {t : ScopeTemplate} {s : Scope} (scope : tree.get? t.index = some s)
      (values : ∀ x, x ∈ s.declared ↔ ∃ v ∈ t.values, v.name = x)
      (leads : ∀ v ∈ t.values, ∀ p ∈ v.dependencies, tree.Leads t.index p)
      (spares : ∀ v ∈ t.values, v.kind.Spares mark)
      (aliases : ∀ name c, s.aliases.lookup name = some c ↔
        ∃ u ∈ t.children, u.index = c ∧ u.ownAlias = some name)
      (parts : ∀ u ∈ t.children, u.index ∈ s.children)
      (children : ∀ u ∈ t.children, Fits tree mark (some t.index) u) : Fits tree mark s.parent t

end ScopeTemplate

end ReactiveMarkup
