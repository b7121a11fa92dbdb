import ReactiveMarkup.Document.Edit
import ReactiveMarkup.Proofs.Basic

/-!
# What a change does to a document

Each change is described by what every node is, stands under and has under it afterwards.

Main results: `Document.append_eq_ok`, `Document.insertBefore_eq_ok`, `Document.remove_eq_ok`,
`Document.modifyElement_eq_ok` and the equations for `kind?`, `parent?` and `children` behind them.
-/
namespace ReactiveMarkup

theorem Declarations.lookup_set_of_ne {name other : String} (h : other ≠ name) (value : String)
    (ds : Declarations) : (Declarations.set name value ds).lookup other = ds.lookup other := by
  induction ds with
  | nil => simp [Declarations.set, h]
  | cons d ds ih =>
    obtain ⟨n, v⟩ := d
    rw [Declarations.set]
    split
    · rename_i hn
      subst hn
      simp [List.lookup_cons, beq_eq_false_iff_ne.2 h]
    · simp [List.lookup_cons, ih]

@[simp] theorem Declarations.lookup_set_self (name value : String) (ds : Declarations) :
    (Declarations.set name value ds).lookup name = some value := by
  induction ds with
  | nil => simp [Declarations.set]
  | cons d ds ih =>
    obtain ⟨n, v⟩ := d
    rw [Declarations.set]
    split
    · rename_i hn
      simp [hn]
    · rename_i hn
      simp [List.lookup_cons, ih, beq_eq_false_iff_ne.2 (Ne.symm hn)]

theorem Declarations.lookup_unset_of_ne {name other : String} (h : other ≠ name)
    (ds : Declarations) : (Declarations.unset name ds).lookup other = ds.lookup other := by
  rw [Declarations.unset]
  induction ds with
  | nil => rfl
  | cons d ds ih =>
    obtain ⟨n, v⟩ := d
    rw [List.filter_cons]
    by_cases hn : n = name
    · subst hn
      simp [List.lookup_cons, ih, beq_eq_false_iff_ne.2 h]
    · simp [List.lookup_cons, ih, hn]

@[simp] theorem Declarations.lookup_unset_self (name : String) (ds : Declarations) :
    (Declarations.unset name ds).lookup name = none := by
  refine List.lookup_eq_none_iff.2 fun d hd => ?_
  have hne : d.1 ≠ name := by simpa using (List.mem_filter.1 hd).2
  exact bne_iff_ne.2 hne.symm

/-- A name that is new comes at the end; the others stand where they stood. -/
theorem Declarations.names_set (name value : String) (ds : Declarations) :
    (Declarations.set name value ds).map Prod.fst =
      if name ∈ ds.map Prod.fst then ds.map Prod.fst else ds.map Prod.fst ++ [name] := by
  induction ds with
  | nil => rfl
  | cons d ds ih =>
    obtain ⟨n, v⟩ := d
    rw [Declarations.set]
    by_cases hn : n = name
    · simp [hn]
    · rw [if_neg hn, List.map_cons, ih]
      by_cases hmem : name ∈ ds.map Prod.fst <;> simp_all [eq_comm]

theorem Declarations.set_of_notMem {name : String} {ds : Declarations} (h : name ∉ ds.map Prod.fst)
    (value : String) : Declarations.set name value ds = ds ++ [(name, value)] := by
  induction ds with
  | nil => rfl
  | cons d ds ih =>
    obtain ⟨n, v⟩ := d
    rw [List.map_cons, List.mem_cons, not_or] at h
    rw [Declarations.set, if_neg (Ne.symm h.1), ih h.2, List.cons_append]

theorem Declarations.eq_or_mem_of_mem_set {name value : String} {ds : Declarations}
    {d : String × String} (h : d ∈ Declarations.set name value ds) : d = (name, value) ∨ d ∈ ds := by
  induction ds with
  | nil => exact .inl (List.mem_singleton.1 h)
  | cons e ds ih =>
    obtain ⟨n, v⟩ := e
    rw [Declarations.set] at h
    split at h
    · rename_i hn
      rcases List.mem_cons.1 h with rfl | h
      · exact .inl (by rw [hn])
      · exact .inr (List.mem_cons_of_mem _ h)
    · rcases List.mem_cons.1 h with rfl | h
      · exact .inr (List.mem_cons_self ..)
      · exact (ih h).imp_right (List.mem_cons_of_mem _)

/-- Where each name stands once, all is found. -/
theorem Declarations.lookup_of_mem {ds : Declarations} (h : (ds.map Prod.fst).Nodup)
    {d : String × String} (hd : d ∈ ds) : ds.lookup d.1 = some d.2 := by
  induction ds with
  | nil => cases hd
  | cons e ds ih =>
    obtain ⟨he, hds⟩ := List.nodup_cons.1 h
    rw [List.lookup_cons]
    rcases List.mem_cons.1 hd with rfl | hd
    · rw [beq_self_eq_true]
    · have hne : d.1 ≠ e.1 := fun heq => he (heq ▸ List.mem_map_of_mem hd)
      rw [beq_eq_false_iff_ne.2 hne]
      exact ih hds hd

namespace Element

variable {e : Element} {name other : String}

theorem attribute?_setAttribute_of_ne (h : other ≠ name) (value : String) :
    (e.setAttribute name value).attribute? other = e.attribute? other :=
  Declarations.lookup_set_of_ne h value e.attributes

@[simp] theorem attribute?_setAttribute_self (value : String) :
    (e.setAttribute name value).attribute? name = some value :=
  Declarations.lookup_set_self name value e.attributes

theorem attribute?_removeAttribute_of_ne (h : other ≠ name) :
    (e.removeAttribute name).attribute? other = e.attribute? other :=
  Declarations.lookup_unset_of_ne h e.attributes

@[simp] theorem attribute?_removeAttribute_self (e : Element) (name : String) :
    (e.removeAttribute name).attribute? name = none :=
  Declarations.lookup_unset_self name e.attributes

theorem attribute?_addClass (h : other ≠ "class") (c : String) :
    (e.addClass c).attribute? other = e.attribute? other := by
  unfold addClass
  dsimp only
  split
  · rfl
  · exact attribute?_setAttribute_of_ne h _

theorem attribute?_removeClass (h : other ≠ "class") (c : String) :
    (e.removeClass c).attribute? other = e.attribute? other := by
  unfold removeClass
  split
  · rfl
  · dsimp only
    split
    · exact attribute?_removeAttribute_of_ne h
    · exact attribute?_setAttribute_of_ne h _

theorem attribute?_setStyle (h : other ≠ "style") (property value : String) :
    (e.setStyle property value).attribute? other = e.attribute? other :=
  attribute?_setAttribute_of_ne h _

theorem attribute?_removeStyle (h : other ≠ "style") (property : String) :
    (e.removeStyle property).attribute? other = e.attribute? other := by
  unfold removeStyle
  split
  · rfl
  · dsimp only
    split
    · exact attribute?_removeAttribute_of_ne h
    · exact attribute?_setAttribute_of_ne h _

end Element

namespace Document

variable {d d' : Document} {id j : NodeId}

/-! ## Single nodes -/

theorem lt_size {n : NodeData} (h : d.get? id = some n) : id < d.nodes.size := by
  rw [get?, Option.join_eq_some_iff] at h
  exact (Array.getElem?_eq_some_iff.1 h).1

theorem get?_eq_none_of_size_le (h : d.nodes.size ≤ id) : d.get? id = none := by
  cases hn : d.get? id with
  | none => rfl
  | some n => exact absurd (lt_size hn) (Nat.not_lt.2 h)

theorem contains_iff : d.contains id = true ↔ ∃ n, d.get? id = some n :=
  Option.isSome_iff_exists

/-- What a node is decides its attributes. -/
theorem attribute?_congr (h : d'.kind? j = d.kind? j) (name : String) :
    d'.attribute? j name = d.attribute? j name := by
  simp only [attribute?, element?, h]

theorem contains_of_attribute? {name value : String} (h : d.attribute? id name = some value) :
    d.contains id = true := by
  rw [contains]
  simp only [attribute?, element?, kind?] at h
  cases hn : d.get? id with
  | none => simp [hn] at h
  | some n => rfl

theorem contains_of_parent? {p : NodeId} (h : d.parent? id = some p) : d.contains id = true := by
  simp only [parent?, Option.bind_eq_some_iff] at h
  obtain ⟨n, hn, -⟩ := h
  exact contains_iff.2 ⟨n, hn⟩

theorem contains_of_mem_children {p c : NodeId} (h : c ∈ d.children p) : d.contains p = true := by
  rw [children] at h
  cases hn : d.get? p with
  | none => simp [hn] at h
  | some n => exact contains_iff.2 ⟨n, hn⟩

/-! ## Creating, modifying and freeing -/

@[simp] theorem create_fst (d : Document) (kind : NodeKind) : (d.create kind).1 = d.nodes.size := rfl

@[simp] theorem size_create (d : Document) (kind : NodeKind) :
    (d.create kind).2.nodes.size = d.nodes.size + 1 := by
  simp [create]

theorem get?_create (d : Document) (kind : NodeKind) (j : NodeId) :
    (d.create kind).2.get? j = if j = d.nodes.size then some (.alone kind) else d.get? j := by
  simp only [get?, create, Array.getElem?_push]
  split <;> simp_all

@[simp] theorem size_modify (d : Document) (id : NodeId) (f : NodeData → NodeData) :
    (d.modify id f).nodes.size = d.nodes.size := by
  simp [modify]

theorem get?_modify (d : Document) (id : NodeId) (f : NodeData → NodeData) (j : NodeId) :
    (d.modify id f).get? j = if j = id then (d.get? id).map f else d.get? j := by
  simp only [get?, modify, Array.getElem?_modify]
  by_cases h : j = id
  · subst h
    rw [if_pos rfl, if_pos rfl]
    rcases d.nodes[j]? with _ | _ | n <;> rfl
  · rw [if_neg (Ne.symm h), if_neg h]

@[simp] theorem size_free (d : Document) (ids : List NodeId) :
    (d.free ids).nodes.size = d.nodes.size := by
  rw [free]
  generalize d.nodes = nodes
  induction ids generalizing nodes with
  | nil => rfl
  | cons id ids ih =>
    rw [List.foldl_cons, ih]
    simp

theorem get?_free (d : Document) (ids : List NodeId) (j : NodeId) :
    (d.free ids).get? j = if j ∈ ids then none else d.get? j := by
  have h (nodes : Array (Option NodeData)) :
      ((ids.foldl (fun nodes id => nodes.setIfInBounds id none) nodes)[j]?).join =
        if j ∈ ids then none else nodes[j]?.join := by
    induction ids generalizing nodes with
    | nil => rfl
    | cons id ids ih =>
      rw [List.foldl_cons, ih]
      by_cases hj : j ∈ ids
      · simp [hj]
      · by_cases hid : j = id
        · subst hid
          rw [if_neg hj, if_pos (List.mem_cons_self ..), Array.getElem?_setIfInBounds_self]
          split <;> rfl
        · rw [Array.getElem?_setIfInBounds_ne (Ne.symm hid)]
          simp [hj, hid]
  exact h d.nodes

theorem children_free (d : Document) (gone : List NodeId) (q : NodeId) :
    (d.free gone).children q = if q ∈ gone then [] else d.children q := by
  rw [children, children, get?_free]
  split <;> rfl

theorem parent?_free (d : Document) (gone : List NodeId) (q : NodeId) :
    (d.free gone).parent? q = if q ∈ gone then none else d.parent? q := by
  rw [parent?, parent?, get?_free]
  split <;> rfl

/-! ## Linking and unlinking -/

@[simp] theorem size_unlink (d : Document) (id : NodeId) :
    (d.unlink id).nodes.size = d.nodes.size := by
  unfold unlink
  split <;> simp

@[simp] theorem size_link (d : Document) (parent id : NodeId) (place : Nat) :
    (d.link parent id place).nodes.size = d.nodes.size := by
  simp [link]

/-- A change of neighbours alone leaves what every node is. -/
theorem kind?_modify {f : NodeData → NodeData} (hf : ∀ n, (f n).kind = n.kind) :
    (d.modify id f).kind? j = d.kind? j := by
  rw [kind?, kind?, get?_modify]
  split
  · rename_i h
    rw [h]
    cases d.get? id <;> simp [hf]
  · rfl

theorem parent?_modify {f : NodeData → NodeData} (hf : ∀ n, (f n).parent = n.parent) :
    (d.modify id f).parent? j = d.parent? j := by
  rw [parent?, parent?, get?_modify]
  split
  · rename_i h
    rw [h]
    cases d.get? id <;> simp [hf]
  · rfl

theorem children_modify {f : NodeData → NodeData} (hf : ∀ n, (f n).children = n.children) :
    (d.modify id f).children j = d.children j := by
  rw [children, children, get?_modify]
  split
  · rename_i h
    rw [h]
    cases d.get? id <;> simp [hf]
  · rfl

@[simp] theorem kind?_unlink (d : Document) (id j : NodeId) :
    (d.unlink id).kind? j = d.kind? j := by
  unfold unlink
  split
  · rfl
  · rw [kind?_modify (by intro n; rfl), kind?_modify (by intro n; rfl)]

@[simp] theorem kind?_link (d : Document) (parent id : NodeId) (place : Nat) (j : NodeId) :
    (d.link parent id place).kind? j = d.kind? j := by
  rw [link, kind?_modify (by intro n; rfl), kind?_modify (by intro n; rfl)]

theorem parent?_unlink (d : Document) (id j : NodeId) :
    (d.unlink id).parent? j = if j = id then none else d.parent? j := by
  unfold unlink
  split
  · rename_i h
    split
    · rename_i hj
      rw [hj, h]
    · rfl
  · rw [parent?_modify (by intro n; rfl), parent?, parent?, get?_modify]
    split
    · cases d.get? id <;> rfl
    · rfl

theorem children_unlink (d : Document) (id j : NodeId) :
    (d.unlink id).children j =
      if d.parent? id = some j then (d.children j).filter (· != id) else d.children j := by
  unfold unlink
  split
  · rename_i h
    simp [h]
  · rename_i p h
    have hin : (d.modify id fun n => { n with parent := none }).children j = d.children j :=
      children_modify fun n => rfl
    rw [children, get?_modify, h]
    by_cases hj : j = p
    · subst hj
      rw [if_pos rfl, if_pos rfl]
      simp only [children] at hin ⊢
      rw [← hin]
      cases (d.modify id fun n => { n with parent := none }).get? j <;> rfl
    · have hp : ¬some p = some j := by
        intro hs
        exact hj (Option.some.inj hs).symm
      rw [if_neg hj, if_neg hp]
      exact hin

theorem parent?_link {parent : NodeId} {place : Nat} (hid : d.contains id) (j : NodeId) :
    (d.link parent id place).parent? j = if j = id then some parent else d.parent? j := by
  rw [link, parent?_modify (by intro n; rfl), parent?, parent?, get?_modify]
  split
  · obtain ⟨n, hn⟩ := contains_iff.1 hid
    rw [hn]
    rfl
  · rfl

theorem children_link {parent : NodeId} {place : Nat} (hp : d.contains parent) (j : NodeId) :
    (d.link parent id place).children j =
      if j = parent then (d.children parent).insertIdx place id else d.children j := by
  have hin : (d.modify id fun n => { n with parent := some parent }).children j = d.children j :=
    children_modify fun n => rfl
  rw [link, children, get?_modify]
  split
  · rename_i hj
    subst hj
    obtain ⟨n, hn⟩ := contains_iff.1 hp
    have hm : ∃ m, (d.modify id fun n => { n with parent := some j }).get? j = some m := by
      rw [get?_modify]
      split
      · rename_i h
        rw [← h, hn]
        exact ⟨_, rfl⟩
      · exact ⟨n, hn⟩
    obtain ⟨m, hm⟩ := hm
    rw [← hin, children, hm]
    rfl
  · exact hin

theorem contains_iff_kind? : d.contains id = (d.kind? id).isSome := by
  rw [contains, kind?, Option.isSome_map]

@[simp] theorem contains_unlink (d : Document) (id j : NodeId) :
    (d.unlink id).contains j = d.contains j := by
  rw [contains_iff_kind?, contains_iff_kind?, kind?_unlink]

@[simp] theorem contains_link (d : Document) (parent id : NodeId) (place : Nat) (j : NodeId) :
    (d.link parent id place).contains j = d.contains j := by
  rw [contains_iff_kind?, contains_iff_kind?, kind?_link]

/-- Unlinking a node that stands under nothing changes nothing. -/
theorem unlink_of_parent?_eq_none (h : d.parent? id = none) : d.unlink id = d := by
  rw [unlink, h]

/-! ## Changes that succeed -/

theorem ensure_eq_ok {u : Unit} (h : d.ensure id = .ok u) : d.contains id = true := by
  unfold ensure at h
  split at h
  · assumption
  · cases h

theorem append_eq_ok {parent child : NodeId} (h : d.append parent child = .ok d') :
    d.contains parent = true ∧ d.contains child = true ∧
      d.isAncestorOrSelf child parent = false ∧
      d' = (d.unlink child).link parent child ((d.unlink child).children parent).length := by
  unfold append at h
  obtain ⟨u, hp, h⟩ := exists_of_bind_eq_ok h
  obtain ⟨u, hc, h⟩ := exists_of_bind_eq_ok h
  split at h
  · cases h
  · rename_i ha
    refine ⟨ensure_eq_ok hp, ensure_eq_ok hc, by simpa using ha, ?_⟩
    cases h
    rfl

theorem insertBefore_eq_ok {reference node : NodeId}
    (h : d.insertBefore reference node = .ok d') :
    d.contains node = true ∧ (node = reference ∧ d' = d ∨ ∃ parent place,
      d.parent? reference = some parent ∧ d.isAncestorOrSelf node parent = false ∧
      (d.unlink node).indexInParent? reference = some place ∧ node ≠ reference ∧
      d' = (d.unlink node).link parent node place) := by
  unfold insertBefore at h
  obtain ⟨u, hn, h⟩ := exists_of_bind_eq_ok h
  refine ⟨ensure_eq_ok hn, ?_⟩
  split at h
  · rename_i heq
    cases h
    exact .inl ⟨heq, rfl⟩
  · rename_i hne
    split at h
    · rename_i parent hp
      split at h
      · cases h
      · rename_i habove
        dsimp only at h
        split at h
        · rename_i place hplace
          cases h
          exact .inr ⟨parent, place, hp, by simpa using habove, hplace, hne, rfl⟩
        · cases h
    · cases h

theorem remove_eq_ok (h : d.remove id = .ok d') : id ≠ root ∧ d.contains id = true ∧
    d' = (d.unlink id).free ((d.unlink id).descendants id) := by
  unfold remove at h
  split at h
  · cases h
  · rename_i hne
    obtain ⟨m, hm, h⟩ := exists_of_bind_eq_ok h
    unfold detach at hm
    obtain ⟨u, hc, hm⟩ := exists_of_bind_eq_ok hm
    cases hm
    cases h
    exact ⟨hne, ensure_eq_ok hc, rfl⟩

/-- Changing an element changes what that node is, and nothing else. -/
theorem modifyElement_eq_ok {f : Element → Element} (h : d.modifyElement id f = .ok d') :
    d'.nodes.size = d.nodes.size ∧ (∀ j, d'.parent? j = d.parent? j) ∧
      (∀ j, d'.children j = d.children j) ∧ ∃ e, d.kind? id = some (.element e) ∧
        ∀ j, d'.kind? j = if j = id then some (.element (f e)) else d.kind? j := by
  unfold modifyElement at h
  split at h
  · rename_i e he
    cases h
    refine ⟨size_modify .., fun j => parent?_modify (by intro n; rfl),
      fun j => children_modify (by intro n; rfl), e, he, fun j => ?_⟩
    rw [kind?, get?_modify]
    split
    · rename_i hj
      rw [kind?, Option.map_eq_some_iff] at he
      obtain ⟨n, hn, -⟩ := he
      rw [hn]
      rfl
    · rfl
  · cases h
  · cases h

/-- Setting a text changes what that node is, and it stays no element. -/
theorem setText_eq_ok {s : String} (h : d.setText id s = .ok d') :
    d'.nodes.size = d.nodes.size ∧ (∀ j, d'.parent? j = d.parent? j) ∧
      (∀ j, d'.children j = d.children j) ∧ (∀ j, d'.element? j = d.element? j) ∧
        ∀ j, d'.contains j = d.contains j := by
  have hset (k k' : NodeKind) (hk : d.kind? id = some k) (hn : ∀ e, k ≠ .element e)
      (hn' : ∀ e, k' ≠ .element e) :
      let d₂ := d.modify id fun n => { n with kind := k' }
      d₂.nodes.size = d.nodes.size ∧ (∀ j, d₂.parent? j = d.parent? j) ∧
        (∀ j, d₂.children j = d.children j) ∧ (∀ j, d₂.element? j = d.element? j) ∧
          ∀ j, d₂.contains j = d.contains j := by
    have hkind (j : NodeId) : (d.modify id fun n => { n with kind := k' }).kind? j =
        if j = id then some k' else d.kind? j := by
      rw [kind?, get?_modify]
      split
      · rw [kind?, Option.map_eq_some_iff] at hk
        obtain ⟨n, hn, -⟩ := hk
        rw [hn]
        rfl
      · rfl
    refine ⟨size_modify .., fun j => parent?_modify (by intro n; rfl),
      fun j => children_modify (by intro n; rfl), fun j => ?_, fun j => ?_⟩
    · rw [element?, element?, hkind]
      by_cases hj : j = id
      · rw [if_pos hj, hj, hk]
        split
        · rename_i e he
          exact absurd (Option.some.inj he) (hn' e)
        · split
          · rename_i e he
            exact absurd (Option.some.inj he) (hn e)
          · rfl
      · rw [if_neg hj]
    · rw [contains_iff_kind?, contains_iff_kind?, hkind]
      by_cases hj : j = id
      · rw [if_pos hj, hj, hk]
        rfl
      · rw [if_neg hj]
  unfold setText at h
  split at h
  · rename_i t ht
    cases h
    exact hset _ _ ht (fun e => NodeKind.noConfusion) fun e => NodeKind.noConfusion
  · rename_i t ht
    cases h
    exact hset _ _ ht (fun e => NodeKind.noConfusion) fun e => NodeKind.noConfusion
  · cases h
  · cases h

end Document

end ReactiveMarkup
