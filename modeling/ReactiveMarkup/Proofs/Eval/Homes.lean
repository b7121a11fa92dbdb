import ReactiveMarkup.Eval.Store
import ReactiveMarkup.Proofs.Eval.Together
import ReactiveMarkup.Proofs.Expr.Rewrite

/-!
# Two homes of a variable

The same variable can be a local of a frame or a declared value in a store. Here a frame in which
some names are locals is compared to one in which they are declared values at certain paths. Some of
the names are kept: nothing assigns to them, so functions that have captured them and functions
that read them from the store see the same.

Main definitions: `Homes`, `Homes.twins`, `Fits`, `Mode`, `Paired`.
Main results: `Paired.readAnchored`, `Paired.writeAnchored`, `Paired.enter`, `Paired.leave`.
-/
namespace ReactiveMarkup

namespace Value

mutual

/-- Whether a value holds no function. -/
def isData : Value → Bool
  | function .. => false
  | array _ items => itemsData items
  | object _ entries => entriesData entries
  | undefined | null | bool _ | number _ | string _ => true

/-- Whether no item holds a function. -/
def itemsData : List Value → Bool
  | [] => true
  | v :: vs => v.isData && itemsData vs

/-- Whether no entry holds a function. -/
def entriesData : List (String × Value) → Bool
  | [] => true
  | (_, v) :: es => v.isData && entriesData es

end

mutual

/-- A value whose functions have the code of expressions without declared values. -/
def IsSource : Value → Prop
  | function _ _ body env => body.IsSource ∧ EntriesSource env
  | array _ items => ItemsSource items
  | object _ entries => EntriesSource entries
  | undefined | null | bool _ | number _ | string _ => True

/-- Items whose functions have the code of expressions without declared values. -/
def ItemsSource : List Value → Prop
  | [] => True
  | v :: vs => v.IsSource ∧ ItemsSource vs

/-- Entries whose functions have the code of expressions without declared values. -/
def EntriesSource : List (String × Value) → Prop
  | [] => True
  | (_, v) :: es => v.IsSource ∧ EntriesSource es

end

mutual

theorem isSource_of_isData : ∀ {v : Value}, v.isData = true → v.IsSource
  | undefined, _ | null, _ | bool _, _ | number _, _ | string _, _ => trivial
  | array _ items, h => by
    rw [isData] at h
    rw [IsSource]
    exact itemsSource_of_itemsData h
  | object _ entries, h => by
    rw [isData] at h
    rw [IsSource]
    exact entriesSource_of_entriesData h

theorem itemsSource_of_itemsData : ∀ {vs : List Value}, itemsData vs = true → ItemsSource vs
  | [], _ => trivial
  | v :: vs, h => by
    rw [itemsData, Bool.and_eq_true] at h
    rw [ItemsSource]
    exact ⟨isSource_of_isData h.1, itemsSource_of_itemsData h.2⟩

theorem entriesSource_of_entriesData :
    ∀ {es : List (String × Value)}, entriesData es = true → EntriesSource es
  | [], _ => trivial
  | (_, v) :: es, h => by
    rw [entriesData, Bool.and_eq_true] at h
    rw [EntriesSource]
    exact ⟨isSource_of_isData h.1, entriesSource_of_entriesData h.2⟩

end

end Value

/-! ## What code may do with names -/

/-- An expression that reads and assigns only the names of an anchoring that it may, steps and binds
none of them, and whose functions mention only kept ones. -/
structure Fits (kept : List String) (Δ : Anchors) (readable writable : String → Prop) (e : Expr) :
    Prop where
  source : e.IsSource
  reads : ∀ x ∈ e.names, (Δ x).isSome → readable x
  writes : ∀ x ∈ e.assignedNames, (Δ x).isSome → writable x
  steps : ∀ x ∈ e.steppedNames, Δ x = none
  binds : ∀ x ∈ e.boundNames, Δ x = none
  keeps : ∀ x ∈ e.arrowNames, (Δ x).isSome → x ∈ kept ∧ x ∉ e.assignedNames

namespace Expr

theorem arrowNames_subset {d e : Expr} (h : d ∈ e.nodes) : d.arrowNames ⊆ e.arrowNames := by
  intro x hx
  obtain ⟨c, hc, hcx⟩ := List.mem_flatMap.1 hx
  exact List.mem_flatMap.2 ⟨c, nodes_subset h hc, hcx⟩

theorem steppedNames_subset {d e : Expr} (h : d ∈ e.nodes) : d.steppedNames ⊆ e.steppedNames := by
  intro x hx
  obtain ⟨c, hc, hcx⟩ := List.mem_filterMap.1 hx
  exact List.mem_filterMap.2 ⟨c, nodes_subset h hc, hcx⟩

theorem mem_names_of_rootName? {e : Expr} {x : String} (h : e.rootName? = some x) : x ∈ e.names := by
  fun_induction rootName? e with
  | case1 range y =>
    cases h
    exact mem_names_of_mem (self_mem_nodes _)
  | case2 range base name ih =>
    exact names_subset (mem_nodes_of_mem_children (e := .member range base name) (by simp [children])) (ih h)
  | case3 range base key ih =>
    exact names_subset (mem_nodes_of_mem_children (e := .index range base key) (by simp [children])) (ih h)
  | case4 => cases h

/-- What is assigned to is mentioned. -/
theorem assignedNames_subset_names (e : Expr) : e.assignedNames ⊆ e.names := by
  intro x hx
  obtain ⟨d, hd, hdx⟩ := List.mem_filterMap.1 hx
  cases d with
  | assign range op target value =>
    have ht : target ∈ e.nodes :=
      nodes_subset hd (mem_nodes_of_mem_children (by simp [children]))
    exact names_subset ht (mem_names_of_rootName? hdx)
  | update range op before target =>
    have ht : target ∈ e.nodes :=
      nodes_subset hd (mem_nodes_of_mem_children (by simp [children]))
    exact names_subset ht (mem_names_of_rootName? hdx)
  | _ => cases hdx

theorem names_subset_arrowNames {e body : Expr} {range : Range} {params : List String}
    (h : arrow range params body ∈ e.nodes) : body.names ⊆ e.arrowNames :=
  fun _ hx => List.mem_flatMap.2 ⟨_, h, hx⟩

end Expr

namespace Fits

variable {kept : List String} {Δ : Anchors} {readable writable : String → Prop} {e : Expr}

theorem of_mem {d : Expr} (h : Fits kept Δ readable writable e) (hd : d ∈ e.nodes) :
    Fits kept Δ readable writable d where
  source := h.source.of_mem hd
  reads x hx := h.reads x (Expr.names_subset hd hx)
  writes x hx := h.writes x (Expr.assignedNames_subset hd hx)
  steps x hx := h.steps x (Expr.steppedNames_subset hd hx)
  binds x hx := h.binds x (Expr.boundNames_subset hd hx)
  keeps x hx hΔ := ⟨(h.keeps x (Expr.arrowNames_subset hd hx) hΔ).1,
    fun ha => (h.keeps x (Expr.arrowNames_subset hd hx) hΔ).2 (Expr.assignedNames_subset hd ha)⟩

theorem child {d : Expr} (h : Fits kept Δ readable writable e) (hd : d ∈ e.children) :
    Fits kept Δ readable writable d := h.of_mem (Expr.mem_nodes_of_mem_children hd)

/-- The body of a function reads kept names and assigns to none. -/
theorem body {body : Expr} {range : Range} {params : List String}
    (h : Fits kept Δ readable writable (.arrow range params body)) :
    Fits kept Δ (· ∈ kept) (fun _ => False) body := by
  have hb := h.child (d := body) (List.mem_singleton_self _)
  have hnames := Expr.names_subset_arrowNames (Expr.self_mem_nodes (.arrow range params body))
  have hmem := Expr.mem_nodes_of_mem_children (e := .arrow range params body)
    (List.mem_singleton_self body)
  refine ⟨hb.source, fun x hx hΔ => (h.keeps x (hnames hx) hΔ).1, fun x hx hΔ => ?_, hb.steps,
    hb.binds, hb.keeps⟩
  have hk := h.keeps x (hnames (Expr.assignedNames_subset_names body hx)) hΔ
  exact hk.2 (Expr.assignedNames_subset hmem hx)

/-- Without an anchoring, all code without declared values fits. -/
theorem none (h : e.IsSource) : Fits kept (fun _ => .none) readable writable e where
  source := h
  reads _ _ hΔ := by cases hΔ
  writes _ _ hΔ := by cases hΔ
  steps _ _ := rfl
  binds _ _ := rfl
  keeps _ _ hΔ := by cases hΔ

end Fits

/-! ## The two homes -/

/-- Names that are locals in one run and declared values in the other. -/
structure Homes where
  anchors : Anchors
  /-- names that are never assigned to, with their values -/
  kept : List String
  initial : String → Value
  reserved : ∀ x p, anchors x = some p → Reserved.isReserved x = false
  injective : ∀ x y p q, anchors x = some p → anchors y = some q → p.toText = q.toText → x = y
  source : ∀ x ∈ kept, (initial x).IsSource

namespace Homes

/-- Functions may stand in for each other if one is the other with its names anchored. -/
def twins (H : Homes) : Twins where
  bodies params body body' exempt := ∃ Δ : Anchors, (Δ = H.anchors ∨ Δ = fun _ => none) ∧
    Fits H.kept Δ (· ∈ H.kept) (fun _ => False) body ∧ (∀ x ∈ params, Δ x = none) ∧
    body' = body.rewrite Δ ∧ ∀ x, exempt x ↔ (Δ x).isSome
  fixed x := if x ∈ H.kept then some (H.initial x) else none

end Homes

namespace Value

variable (H : Homes)

mutual

/-- A value whose functions have no declared values stands in for itself. -/
theorem like_refl : ∀ {v : Value}, v.IsSource → Eval.Like H.twins v v
  | undefined, _ => .undefined
  | null, _ => .null
  | bool b, _ => .bool b
  | number x, _ => .number x
  | string s, _ => .string s
  | array _ items, h => .array rfl (like_refl_items h)
  | object _ entries, h => .object rfl rfl (like_refl_entries h)
  | function _ params body env, h => by
    obtain ⟨hbody, henv⟩ := h
    refine .function rfl (fun _ => False) ⟨fun _ => none, .inr rfl, .none hbody, fun _ _ => rfl,
      (Expr.rewrite_none body).symm, fun x => by simp⟩ (fun x => (env.lookup x).map fun v => (v, v))
      ?_ ?_ ?_ ?_
    · intro x _
      cases env.lookup x <;> rfl
    · intro x _
      cases env.lookup x <;> rfl
    · intro x p hp
      obtain ⟨v, hv, rfl⟩ := Option.map_eq_some_iff.1 hp
      exact like_refl_lookup henv hv
    · intro x v hx
      exact absurd hx id

theorem like_refl_items : ∀ {vs : List Value}, ItemsSource vs →
    List.Forall₂ (Eval.Like H.twins) vs vs
  | [], _ => .nil
  | _ :: _, h => .cons (like_refl h.1) (like_refl_items h.2)

theorem like_refl_entries : ∀ {es : List (String × Value)}, EntriesSource es →
    List.Forall₂ (Eval.Like H.twins) (es.map Prod.snd) (es.map Prod.snd)
  | [], _ => .nil
  | (_, _) :: _, h => .cons (like_refl h.1) (like_refl_entries h.2)

theorem like_refl_lookup : ∀ {es : List (String × Value)} {x : String} {v : Value},
    EntriesSource es → es.lookup x = some v → Eval.Like H.twins v v
  | [], _, _, _, hv => by cases hv
  | (k, w) :: es, x, v, h, hv => by
    rw [List.lookup_cons] at hv
    split at hv
    · cases hv
      exact like_refl h.1
    · exact like_refl_lookup h.2 hv

end

end Value

/-! ## Paired frames -/

namespace Homes

/-- Which names are anchored in the code that runs, and what it may do with them. -/
structure Mode (H : Homes) where
  anchors : Anchors
  readable : String → Prop
  writable : String → Prop
  anchors_eq : anchors = H.anchors ∨ anchors = fun _ => none
  kept_readable : ∀ x ∈ H.kept, readable x
  writable_readable : ∀ x, writable x → readable x
  writable_not_kept : ∀ x, writable x → x ∉ H.kept

/-- The body of a function may read kept names only. -/
def Mode.inBody {H : Homes} (Δ : Anchors) (h : Δ = H.anchors ∨ Δ = fun _ => none) : Mode H where
  anchors := Δ
  readable := (· ∈ H.kept)
  writable _ := False
  anchors_eq := h
  kept_readable _ hx := hx
  writable_readable _ hx := hx.elim
  writable_not_kept _ hx := hx.elim

theorem Mode.anchors_of_some {H : Homes} (m : Mode H) {x : String} {p : ValuePath}
    (h : m.anchors x = some p) : H.anchors x = some p := by
  rcases m.anchors_eq with he | he
  · rw [← he, h]
  · rw [he] at h
    cases h

end Homes

open Homes Eval Value

variable {H : Homes}

/-- Locals of both runs: those that are no declared values are alike, and the others are there in
the first run. -/
structure LocalsPaired (m : Mode H) (E E' : Env) : Prop where
  shared : ∀ x, m.anchors x = none → Option.Rel (Like H.twins) (E.lookup x) (E'.lookup x)
  present : ∀ x p, m.anchors x = some p → m.readable x → ∃ v, E.lookup x = some v
  kept : ∀ x p, m.anchors x = some p → x ∈ H.kept → E.lookup x = some (H.initial x)

/-- Frames of both runs. What the locals of the first are for the anchored names, the declared
values at their paths are in the second, and there only what may be assigned differs from `base`. -/
structure Paired (m : Mode H) (base : List (String × Value)) (f : Frame Unit) (g : Frame Store) :
    Prop where
  stamps : f.stamps = g.stamps
  locals : LocalsPaired m f.env g.env
  held : ∀ x p v, m.anchors x = some p → m.readable x → f.env.lookup x = some v →
    ∃ w, g.world.values.lookup p.toText = some w ∧ Like H.twins v w
  kept : ∀ x p, H.anchors x = some p → x ∈ H.kept →
    g.world.values.lookup p.toText = some (H.initial x)
  others : ∀ text, (∀ x p, m.anchors x = some p → m.writable x → p.toText ≠ text) →
    g.world.values.lookup text = base.lookup text

namespace LocalsPaired

variable {m : Mode H} {E E' : Env}

/-- Defining a local that is no declared value, alike in both runs. -/
theorem insert (h : LocalsPaired m E E') {x : String} (hx : m.anchors x = none) {v w : Value}
    (hv : Like H.twins v w) : LocalsPaired m (Keyed.insert x v E) (Keyed.insert x w E') where
  shared y hy := by
    by_cases hxy : y = x
    · rw [hxy, Keyed.lookup_insert_self, Keyed.lookup_insert_self]
      exact .some hv
    · rw [Keyed.lookup_insert_of_ne hxy, Keyed.lookup_insert_of_ne hxy]
      exact h.shared y hy
  present y p hy hr := by
    have hxy : y ≠ x := by
      rintro rfl
      rw [hx] at hy
      cases hy
    rw [Keyed.lookup_insert_of_ne hxy]
    exact h.present y p hy hr
  kept y p hy hk := by
    have hxy : y ≠ x := by
      rintro rfl
      rw [hx] at hy
      cases hy
    rw [Keyed.lookup_insert_of_ne hxy]
    exact h.kept y p hy hk

theorem bindParams (h : LocalsPaired m E E') {params : List String}
    (hp : ∀ x ∈ params, m.anchors x = none) {args args' : List Value}
    (hargs : List.Forall₂ (Like H.twins) args args') :
    LocalsPaired m (Eval.bindParams E params args) (Eval.bindParams E' params args') := by
  induction params generalizing E E' args args' with
  | nil => exact h
  | cons x params ih =>
    rw [Eval.bindParams, Eval.bindParams]
    have hp' : ∀ y ∈ params, m.anchors y = none := fun y hy => hp y (List.mem_cons_of_mem _ hy)
    have hx := hp x (List.mem_cons_self ..)
    cases hargs with
    | nil => exact ih (h.insert hx .undefined) hp' .nil
    | cons hv hargs => exact ih (h.insert hx hv) hp' hargs

/-- A function that is made here stands in for the one that is made there. -/
theorem arrow (h : LocalsPaired m E E') {stamp : Stamp} {params : List String} {body : Expr}
    (hparams : ∀ x ∈ params, m.anchors x = none)
    (hbody : Fits H.kept m.anchors (· ∈ H.kept) (fun _ => False) body) :
    Like H.twins (.function stamp params body E)
      (.function stamp params (body.rewrite m.anchors) E') := by
  let locals : String → Option (Value × Value) := fun x =>
    if (m.anchors x).isSome then none
    else (E.lookup x).bind fun v => (E'.lookup x).map fun w => (v, w)
  have hlocals : ∀ x, ¬(m.anchors x).isSome →
      E.lookup x = (locals x).map Prod.fst ∧ E'.lookup x = (locals x).map Prod.snd ∧
      ∀ p, locals x = some p → Like H.twins p.1 p.2 := by
    intro x hx
    have hs := h.shared x (Option.not_isSome_iff_eq_none.1 hx)
    simp only [locals, if_neg hx]
    generalize E.lookup x = o at hs ⊢
    generalize E'.lookup x = o' at hs ⊢
    cases hs with
    | none => exact ⟨rfl, rfl, fun p hp => by cases hp⟩
    | some hv => exact ⟨rfl, rfl, fun p hp => by cases hp; exact hv⟩
  refine .function rfl (fun x => (m.anchors x).isSome) ?_ locals ?_ ?_ ?_ ?_
  · exact ⟨m.anchors, m.anchors_eq, hbody, hparams, rfl, fun x => Iff.rfl⟩
  · exact fun x hx => (hlocals x hx).1
  · exact fun x hx => (hlocals x hx).2.1
  · intro x p hp
    by_cases hx : (m.anchors x).isSome
    · rw [show locals x = none from if_pos hx] at hp
      cases hp
    · exact (hlocals x hx).2.2 p hp
  · intro x v hx hv
    obtain ⟨p, hp⟩ := Option.isSome_iff_exists.1 hx
    by_cases hk : x ∈ H.kept
    · rw [show H.twins.fixed x = some (H.initial x) from if_pos hk] at hv
      rw [← hv]
      exact h.kept x p hp hk
    · rw [show H.twins.fixed x = none from if_neg hk] at hv
      cases hv

end LocalsPaired

namespace Paired

variable {m : Mode H} {base : List (String × Value)} {f : Frame Unit} {g : Frame Store}

theorem stampsAgree : StampsAgree (Paired m base) where
  eq h := h.stamps
  set h _ := ⟨rfl, h.locals, h.held, h.kept, h.others⟩

theorem env : Evaluation.Together (Paired m base) (LocalsPaired m) Evaluation.env Evaluation.env :=
  fun _ _ h => ⟨.ok h.locals, h⟩

/-- Reading a name that is no declared value. -/
theorem readShared {x : String} (hx : m.anchors x = none) :
    Evaluation.Together (Paired m base) (Like H.twins) (Eval.name x) (Eval.name x) := by
  refine env.bind fun E E' h => ?_
  have hs := h.shared x hx
  generalize E.lookup x = o at hs ⊢
  generalize E'.lookup x = o' at hs ⊢
  cases hs with
  | some hv => exact .pure hv
  | none =>
    dsimp only
    split
    · exact .pure .undefined
    · exact .fail _

/-- Reading a local here is reading a declared value there. -/
theorem readAnchored {x : String} {p : ValuePath} (hx : m.anchors x = some p) (hr : m.readable x) :
    Evaluation.Together (Paired m base) (Like H.twins) (Eval.name x) (Store.accessor.read p) := by
  intro f g h
  obtain ⟨v, hv⟩ := h.locals.present x p hx hr
  obtain ⟨w, hw, hvw⟩ := h.held x p v hx hr hv
  rw [Eval.name, Evaluation.run_bind]
  simp only [Evaluation.env, Accessor.read, Store.accessor, hv, hw]
  exact ⟨.ok hvw, h.stamps, h.locals, h.held, h.kept, h.others⟩

/-- Setting a local that is no declared value. -/
theorem writeShared {x : String} (hx : m.anchors x = none) {v w : Value} (hv : Like H.twins v w) :
    Evaluation.Together (Paired m base) (fun _ _ => True) (.define x v) (.define x w) := by
  intro f g h
  refine ⟨.ok trivial, h.stamps, h.locals.insert hx hv, ?_, h.kept, h.others⟩
  intro y p u hy hr hu
  have hxy : y ≠ x := by
    rintro rfl
    rw [hx] at hy
    cases hy
  rw [Evaluation.define, Keyed.lookup_insert_of_ne hxy] at hu
  exact h.held y p u hy hr hu

/-- Setting a local here is writing a declared value there. -/
theorem writeAnchored {x : String} {p : ValuePath} (hx : m.anchors x = some p) (hw : m.writable x)
    {v w : Value} (hv : Like H.twins v w) :
    Evaluation.Together (Paired m base) (fun _ _ => True) (.define x v)
      (Store.accessor.write p w) := by
  intro f g h
  have hxH := m.anchors_of_some hx
  refine ⟨.ok trivial, h.stamps, ⟨?_, ?_, ?_⟩, ?_, ?_, ?_⟩
  · intro y hy
    have hxy : y ≠ x := by
      rintro rfl
      rw [hx] at hy
      cases hy
    simp only [Evaluation.define, Accessor.write]
    rw [Keyed.lookup_insert_of_ne hxy]
    exact h.locals.shared y hy
  · intro y q hy hr
    simp only [Evaluation.define]
    by_cases hxy : y = x
    · rw [hxy, Keyed.lookup_insert_self]
      exact ⟨v, rfl⟩
    · rw [Keyed.lookup_insert_of_ne hxy]
      exact h.locals.present y q hy hr
  · intro y q hy hk
    have hxy : y ≠ x := fun e => m.writable_not_kept x hw (e ▸ hk)
    simp only [Evaluation.define]
    rw [Keyed.lookup_insert_of_ne hxy]
    exact h.locals.kept y q hy hk
  · intro y q u hy hr hu
    simp only [Evaluation.define, Accessor.write, Store.accessor] at hu ⊢
    by_cases hxy : y = x
    · subst hxy
      rw [hx] at hy
      cases hy
      rw [Keyed.lookup_insert_self] at hu ⊢
      cases hu
      exact ⟨w, rfl, hv⟩
    · have hpq : q.toText ≠ p.toText :=
        fun e => hxy (H.injective y x q p (m.anchors_of_some hy) hxH e)
      rw [Keyed.lookup_insert_of_ne hxy] at hu
      rw [Keyed.lookup_insert_of_ne hpq]
      exact h.held y q u hy hr hu
  · intro y q hy hk
    have hxy : y ≠ x := fun e => m.writable_not_kept x hw (e ▸ hk)
    have hpq : q.toText ≠ p.toText := fun e => hxy (H.injective y x q p hy hxH e)
    simp only [Accessor.write, Store.accessor]
    rw [Keyed.lookup_insert_of_ne hpq]
    exact h.kept y q hy hk
  · intro text ht
    simp only [Accessor.write, Store.accessor]
    rw [Keyed.lookup_insert_of_ne (ht x p hx hw).symm]
    exact h.others text ht

/-- Entering the body of a function, whose locals are paired on their own account. -/
theorem enter (h : Paired m base f g) {Δ : Anchors} (hΔ : Δ = H.anchors ∨ Δ = fun _ => none)
    {E E' : Env} (hE : LocalsPaired (Mode.inBody Δ hΔ) E E') :
    Paired (Mode.inBody Δ hΔ) g.world.values { f with env := E } { g with env := E' } where
  stamps := h.stamps
  locals := hE
  held x p v hx hr hv := by
    have hk : E.lookup x = some (H.initial x) := hE.kept x p hx hr
    cases hk.symm.trans hv
    exact ⟨_, h.kept x p ((Mode.inBody Δ hΔ).anchors_of_some hx) hr,
      like_refl H (H.source x hr)⟩
  kept := h.kept
  others _ _ := rfl

/-- Leaving the body of a function, which has written nothing. -/
theorem leave (h : Paired m base f g) {Δ : Anchors} {hΔ : Δ = H.anchors ∨ Δ = fun _ => none}
    {f' : Frame Unit} {g' : Frame Store} (h' : Paired (Mode.inBody Δ hΔ) g.world.values f' g') :
    Paired m base { f' with env := f.env } { g' with env := g.env } where
  stamps := h'.stamps
  locals := h.locals
  held x p v hx hr hv := by
    rw [h'.others _ fun _ _ _ hw => hw.elim]
    exact h.held x p v hx hr hv
  kept := h'.kept
  others text ht := by
    rw [h'.others _ fun _ _ _ hw => hw.elim]
    exact h.others text ht

end Paired

end ReactiveMarkup
