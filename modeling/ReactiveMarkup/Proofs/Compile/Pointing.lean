import ReactiveMarkup.Proofs.Compile.Placing
import ReactiveMarkup.Proofs.Compile.Splitting
import ReactiveMarkup.Proofs.Expr.Faults

/-!
# Where errors and warnings of expressions point

The positions in an expression count from where the text of its declaration is found, so that all of them
lie in this text. Where that text stands only once from the tag of its element up to the declaration, this
is the text of the declaration itself; otherwise it is the first one.

Main definitions: `Position.Inside`, `Emission.Tells`, `Document.Points`.
Main results: `Emission.tells_text`, `Document.compile_points`.
-/
namespace ReactiveMarkup

/-- The position of one of the characters of `raw`, which stands behind `front` in a text, as far as
machine words keep it. -/
def Position.Inside (front raw : List Char) (p : Position) : Prop :=
  ∃ read c rest, raw = read ++ c :: rest ∧
    p.stored = (Position.start.advanceAll (front ++ read)).stored

/-- A place along some characters of a text, be it their end, is inside the text if another one follows. -/
theorem Position.KeptAlong.inside {found raw read cs rest : List Char} {c : Char} {p : Position}
    (h : (start.advanceAll (found ++ read)).KeptAlong cs p)
    (hraw : raw = read ++ (cs ++ c :: rest)) : Inside found raw p := by
  obtain ⟨_, ⟨front, ⟨back, rfl⟩, rfl⟩, rfl⟩ := h
  rw [← advanceAll_append, List.append_assoc]
  cases back with
  | nil => exact ⟨read ++ front, c, rest, by simp [hraw], stored_stored _⟩
  | cons b back => exact ⟨read ++ front, b, back ++ c :: rest, by simp [hraw], stored_stored _⟩

/-- Whether an expression is at fault. -/
def CompileCause.isExpression : CompileCause → Bool
  | expression _ | unterminatedExpression _ => true
  | _ => false

namespace Emission

variable {α β : Type} {c : EmitContext} {i : ScopeIndex}

/-! ## Causes and warnings of a step -/

/-- A step that fails only for causes of which `E` holds, and that warns only of what `W` holds of. -/
def Tells (E : CompileCause → Prop) (W : CompileWarning → Prop) (step : Emission α) : Prop :=
  ∀ warnings, (∀ cause, (step.run warnings).1 = .error cause → E cause) ∧
    ∀ w ∈ (step.run warnings).2, w ∈ warnings ∨ W w

namespace Tells

variable {E : CompileCause → Prop} {W : CompileWarning → Prop}

theorem pure (a : α) : Tells E W (Pure.pure a) :=
  fun _ => ⟨fun _ h => (by cases h), fun _ hw => .inl hw⟩

theorem throw {cause : CompileCause} (h : E cause) : Tells E W (throw cause : Emission α) := by
  refine fun _ => ⟨fun _ heq => ?_, fun _ hw => .inl hw⟩
  cases heq
  exact h

theorem bind {step : Emission α} {next : α → Emission β} (hstep : Tells E W step)
    (hnext : ∀ a, Tells E W (next a)) : Tells E W (step >>= next) := by
  intro warnings
  obtain ⟨hcause, hwarnings⟩ := hstep warnings
  rw [ExceptT.run_bind]
  simp only [Bind.bind, StateT.bind]
  rcases hrun : step.run warnings with ⟨cause | a, between⟩
  · rw [hrun] at hcause hwarnings
    refine ⟨fun _ heq => ?_, hwarnings⟩
    cases heq
    exact hcause _ rfl
  · rw [hrun] at hwarnings
    obtain ⟨hcause', hwarnings'⟩ := hnext a between
    exact ⟨hcause', fun w hw => (hwarnings' w hw).elim (hwarnings w) .inr⟩

theorem mapM {step : α → Emission β} {as : List α} (h : ∀ a ∈ as, Tells E W (step a)) :
    Tells E W (as.mapM step) := by
  induction as with
  | nil =>
    rw [List.mapM_nil]
    exact pure []
  | cons a as ih =>
    obtain ⟨ha, has⟩ := List.forall_mem_cons.1 h
    rw [List.mapM_cons]
    exact ha.bind fun b => (ih has).bind fun bs => pure (b :: bs)

/-- What holds of a step that is made by itself. -/
theorem outcome {step : Emission α} (h : Tells E W step) :
    (∀ cause, outcome step = .error cause → E cause) ∧ ∀ w ∈ added step, W w :=
  ⟨(h []).1, fun w hw => ((h []).2 w hw).resolve_left List.not_mem_nil⟩

end Tells

/-! ## Expressions in a text -/

/-- A fault of an expression lies inside a text that stands behind `found`. -/
def Blamed (found : List Char) (raw : String) (cause : CompileCause) : Prop :=
  cause.isExpression → raw ≠ "" ∧
    ∀ r, cause.range? = some r → Position.Inside found raw.toList r.start

/-- What a warning is about stands inside a text. -/
def Noted (found : List Char) (raw : String) (w : CompileWarning) : Prop :=
  Position.Inside found raw.toList w.position

section

variable {m : SourceMap} {found : List Char} {raw : String} {place : Option Nat}
  {property : Option String}

/-- The positions in an expression count from where its code stands. -/
theorem base_eq {read rest : List Char} (hsource : c.source = some m)
    (hfound : found ++ raw.toList <+: m.source.toList) (hraw : raw.toList = read ++ rest) :
    base c (some (Utf8.size found)) (Utf8.size read) = Position.start.advanceAll (found ++ read) := by
  obtain ⟨after, hafter⟩ := hfound
  unfold base
  rw [hsource]
  dsimp only
  rw [SourceMap.position, ← hafter, hraw, ← Utf8.size_append, ← List.append_assoc, List.append_assoc,
    Position.atByte_size]

theorem tells_warn {unresolved : List (String × Range)}
    (h : ∀ u ∈ unresolved, Position.Inside found raw.toList u.2.start) :
    Tells (Blamed found raw) (Noted found raw) (warn c i unresolved) := by
  unfold warn
  split
  · refine fun warnings => ⟨fun _ heq => (by cases heq), fun w hw => ?_⟩
    rcases List.mem_append.1 hw with hw | hw
    · exact .inl hw
    · obtain ⟨u, hu, rfl⟩ := List.mem_map.1 hw
      exact .inr (h u hu)
  · exact .pure ()

/-- The code of an expression is followed by the brackets that close it, so that its end is inside the
text too. -/
theorem tells_part (hsource : c.source = some m)
    (hfound : found ++ raw.toList <+: m.source.toList) {parts : List Part}
    (hparts : Part.split? raw = some parts) {p : Part} (hp : p ∈ parts) :
    Tells (Blamed found raw) (Noted found raw) (part c i property (some (Utf8.size found)) p) := by
  cases p with
  | text => exact .pure _
  | code code offset =>
    obtain ⟨before, after, rfl⟩ := List.append_of_mem hp
    obtain ⟨hchars, hplaced⟩ := Part.splitFrom?_eq_some hparts
    have hoffset := hplaced before code offset after rfl
    have hraw : raw.toList = (Part.chars before ++ Marker.opening) ++
        (code.toList ++ (Marker.closing ++ Part.chars after)) := by
      rw [← hchars, Part.chars, List.flatMap_append, ← Part.chars, ← Part.chars, Part.chars_code,
        List.append_assoc]
    have hbase : base c (some (Utf8.size found)) offset =
        Position.start.advanceAll (found ++ (Part.chars before ++ Marker.opening)) := by
      rw [hoffset, Part.toList_joined, Nat.zero_add, ← Utf8.size_append, base_eq hsource hfound hraw]
    have hinside {q : Position} (hq : (base c (some (Utf8.size found)) offset).KeptAlong code.toList q) :
        Position.Inside found raw.toList q := by
      rw [hbase] at hq
      exact hq.inside hraw
    obtain ⟨hranged, herror⟩ := Expr.parse_along (base c (some (Utf8.size found)) offset) code
    have hne : raw ≠ "" := by
      rintro rfl
      have := congrArg List.length hraw
      simp [Marker.opening] at this
    rw [part]
    split
    · rename_i e he
      exact .throw fun _ => ⟨hne, fun r hr => by cases hr; exact hinside (herror e he)⟩
    · rename_i e he
      obtain ⟨hleft, hblamed⟩ := Expr.anchor_blames (hranged e he) (c.tree.resolver i property)
      split
      · rename_i e' he'
        exact .throw fun _ => ⟨hne, fun r hr => by cases hr; exact hinside (hblamed e' he')⟩
      · rename_i t ht
        exact (tells_warn fun u hu => hinside (hleft t ht u hu)).bind fun _ => .pure _

/-- What fails and what is warned of in the text of a declaration lies in this text. -/
theorem tells_text (hsource : c.source = some m) (hplace : raw ≠ "" → place = some (Utf8.size found) ∧
      found ++ raw.toList <+: m.source.toList) :
    Tells (Blamed found raw) (Noted found raw) (text c i property raw place) := by
  by_cases hraw : raw = ""
  · subst hraw
    have hparts : Part.split? "" = some [] := by decide +kernel
    rw [text, hparts]
    exact .pure _
  · obtain ⟨rfl, hfound⟩ := hplace hraw
    rw [text]
    split
    · exact .throw fun _ => ⟨hraw, fun r hr => (by cases hr)⟩
    · rename_i parts hparts
      split
      · refine (Tells.mapM fun p hp => tells_part hsource hfound hparts hp).bind fun compiled => ?_
        dsimp only
        split <;> exact .pure _
      · exact .pure _

/-- What fails besides in a value or in an event is not an expression. -/
theorem tells_kind (v : PendingValue) :
    Tells (Blamed found raw) (Noted found raw) (kind c i v) := by
  rw [kind]
  split
  · exact .pure _
  · split
    · exact .pure _
    · exact .throw fun h => (by cases h)

theorem tells_value {v : PendingValue} (hsource : c.source = some m)
    (hmarkup : (Declared.value v).markup?.getD ("", none) = (raw, place))
    (hplace : raw ≠ "" → place = some (Utf8.size found) ∧ found ++ raw.toList <+: m.source.toList) :
    Tells (Blamed found raw) (Noted found raw) (value c i v) := by
  obtain ⟨name, kind, definition⟩ := v
  rw [value]
  refine (tells_kind _).bind fun kind => ?_
  cases definition with
  | implied value => exact (Tells.pure _).bind fun _ => .pure _
  | markup raw place =>
    cases hmarkup
    exact (tells_text hsource hplace).bind fun _ => .pure _

theorem tells_event {e : PendingEvent} (hsource : c.source = some m)
    (hplace : e.raw ≠ "" → e.place = some (Utf8.size found) ∧
      found ++ e.raw.toList <+: m.source.toList) :
    Tells (Blamed found e.raw) (Noted found e.raw) (event c i e) := by
  rw [event]
  refine (tells_text hsource hplace).bind fun _ => ?_
  split
  · exact .pure _
  · exact .throw fun h => (by cases h)

/-- An error of an expression tells a place in the text of its declaration. -/
theorem told_inside {step : Emission α} {element : Option Nat} {e : CompileError}
    (hsource : c.source = some m)
    (hplace : raw ≠ "" → place = some (Utf8.size found) ∧ found ++ raw.toList <+: m.source.toList)
    (h : Tells (Blamed found raw) (Noted found raw) step) (he : told c (place.or element) step = .error e)
    (hexpression : e.cause.isExpression) :
    raw ≠ "" ∧ ∃ p, e.position? = some p ∧ Position.Inside found raw.toList p := by
  rw [told] at he
  cases houtcome : outcome step with
  | ok a =>
    rw [houtcome] at he
    cases he
  | error cause =>
    rw [houtcome] at he
    cases he
    obtain ⟨hne, hinside⟩ := h.outcome.1 cause houtcome hexpression
    refine ⟨hne, ?_⟩
    obtain ⟨rfl, hfound⟩ := hplace hne
    rw [CompileError.position?]
    dsimp only [Outline.errorAt]
    cases hrange : cause.range? with
    | some r => exact ⟨r.start, rfl, hinside r hrange⟩
    | none =>
      obtain ⟨after, hafter⟩ := hfound
      obtain ⟨b, rest, hraw⟩ := List.exists_cons_of_ne_nil (mt String.toList_eq_nil_iff.1 hne)
      refine ⟨Position.start.advanceAll found, ?_, [], b, rest, hraw, by rw [List.append_nil]⟩
      rw [hsource]
      dsimp
      rw [SourceMap.position, ← hafter, List.append_assoc, Position.atByte_size]

end

end Emission

theorem eq_error_of_map {ε α β : Type} {f : α → β} {r : Except ε α} {e : ε} (h : f <$> r = .error e) :
    r = .error e := by
  cases r with
  | ok a => cases h
  | error e' => exact congrArg _ (Except.error.inj h)

/-- What fails in an expression of a declaration and what it warns of has a place in its text. -/
theorem Declared.inside {c : EmitContext} {i : ScopeIndex} (element : Option Nat) {m : SourceMap}
    {found : List Char} {raw : String} {place : Option Nat} {x : Declared} (hsource : c.source = some m)
    (hmarkup : x.markup?.getD ("", none) = (raw, place))
    (hplace : raw ≠ "" → place = some (Utf8.size found) ∧ found ++ raw.toList <+: m.source.toList) :
    (∀ e, x.outcome c i element = .error e → e.cause.isExpression →
      raw ≠ "" ∧ ∃ p, e.position? = some p ∧ Position.Inside found raw.toList p) ∧
      ∀ w ∈ x.warnings c i, Position.Inside found raw.toList w.position := by
  cases x with
  | value v =>
    have htells := Emission.tells_value (i := i) hsource hmarkup hplace
    refine ⟨fun e he => ?_, htells.outcome.2⟩
    have hdefinition : v.definition.place? = place := by
      obtain ⟨name, kind, definition⟩ := v
      cases definition <;> cases hmarkup <;> rfl
    rw [outcome, Emission.toldValue, hdefinition] at he
    exact Emission.told_inside hsource hplace htells (eq_error_of_map he)
  | event e =>
    cases hmarkup
    have htells := Emission.tells_event (i := i) hsource hplace
    refine ⟨fun e' he => ?_, htells.outcome.2⟩
    rw [outcome, Emission.toldEvent] at he
    exact Emission.told_inside hsource hplace htells (eq_error_of_map he)
  | nameless name =>
    refine ⟨fun e he hexpression => ?_, fun w hw => (by cases hw)⟩
    cases he
    cases hexpression

/-! ## Declarations of a document -/

namespace Document

variable {o : CompileOptions} {d : Document}

/-- The position of a character in the text of a declaration, where this text stands first from the tag of
its element on. It does not stand there behind `own`, where the declaration is written. -/
inductive Points (d : Document) (x : Site × Declared) : Position → Prop
  | inside {before own found : List Char} {raw : String} {p : Position}
      (hbefore : d.WrittenAfter x.1.node before)
      (hown : d.OwnText (placeIn (some d.toHtml) x.1.element) x.1.node before x.2 raw own)
      (hfirst : Search.First d.toHtml.toList before raw.toList found) (hfound : found <+: own)
      (hp : p.Inside found raw.toList) : d.Points x p

/-- The elements with scopes are elements. -/
theorem exists_element_of_mem_sites {source : Option String} (hd : d.IsTree) (hnames : d.UniqueNames)
    {s : Site} (hs : s ∈ d.sites o source) : ∃ e, d.kind? s.node = some (.element e) := by
  have hmem : s.node ∈ d.scopeElements :=
    (d.surveyed o source hd hnames).nodes ▸ List.mem_map_of_mem hs
  rw [scopeElements] at hmem
  split at hmem
  · rename_i root hroot
    have helement : d.isElement root := List.find?_some hroot
    exact kind?_of_isElement ((hd.mem_elements helement).1 (List.mem_filter.1 hmem).1).1
  · cases hmem

/-- What fails in an expression of a declaration and what it warns of points into its text. -/
theorem IsVerbatim.declaration_points (hd : d.IsVerbatim) (hnames : d.UniqueNames) {x : Site × Declared}
    (hx : x ∈ d.declarations o (some d.toHtml)) :
    (∀ e, d.outcome o (some d.toHtml) x = .error e → e.cause.isExpression →
      ∃ p, e.position? = some p ∧ d.Points x p) ∧
      ∀ w ∈ d.warned o (some d.toHtml) x, d.Points x w.position := by
  obtain ⟨s, hs, hmem⟩ := List.mem_flatMap.1 hx
  obtain ⟨x, hdeclared, rfl⟩ := List.mem_map.1 hmem
  obtain ⟨before, hbefore, helement⟩ := hd.placed_sites hnames o hs
  obtain ⟨e, he⟩ := exists_element_of_mem_sites hd.tree hnames hs
  obtain ⟨m, hsource, hm⟩ := Option.map_eq_some_iff.1 (d.surveyed o (some d.toHtml) hd.tree hnames).text
  obtain ⟨raw, place, hmarkup⟩ : ∃ raw place, x.markup?.getD ("", none) = (raw, place) := ⟨_, _, rfl⟩
  -- where the text is looked for
  obtain ⟨found, hfound⟩ : ∃ found, raw ≠ "" → ∃ own,
      d.OwnText (placeIn (some d.toHtml) s.element) s.node before x raw own ∧
        Search.First d.toHtml.toList before raw.toList found ∧ found <+: own ∧
        place = some (Utf8.size found) := by
    by_cases hne : raw = ""
    · exact ⟨[], fun h => absurd hne h⟩
    · have hmarkup' : x.markup? = some (raw, place) := by
        cases hnone : x.markup? with
        | none =>
          rw [hnone] at hmarkup
          exact absurd (congrArg Prod.fst hmarkup).symm hne
        | some r =>
          rw [hnone] at hmarkup
          exact congrArg some hmarkup
      obtain ⟨hplace, own, hown⟩ := exists_ownText before he hdeclared hmarkup'
      obtain ⟨hfront, hstands⟩ := hown.stands hd hbefore
      obtain ⟨found, hfind, hfirst, hle⟩ :=
        SourceMap.find?_eq (m := .ofSource d.toHtml) hne hfront hstands
      refine ⟨found, fun _ => ⟨own, hown, hfirst, hle, ?_⟩⟩
      rw [hplace, placeIn, helement]
      exact hfind
  have hplace : raw ≠ "" → place = some (Utf8.size found) ∧ found ++ raw.toList <+: m.source.toList := by
    intro hne
    obtain ⟨own, -, hfirst, -, hplace⟩ := hfound hne
    exact ⟨hplace, hm ▸ hfirst.stands⟩
  obtain ⟨herrors, hwarnings⟩ := Declared.inside (c := (Outline.ofDocument o (some d.toHtml) d).context o)
    (i := s.scope) s.element hsource hmarkup hplace
  refine ⟨fun e he hexpression => ?_, fun w hw => ?_⟩
  · obtain ⟨hne, p, hp, hinside⟩ := herrors e he hexpression
    obtain ⟨own, hown, hfirst, hle, -⟩ := hfound hne
    exact ⟨p, hp, .inside hbefore hown hfirst hle hinside⟩
  · have hinside := hwarnings w hw
    have hne : raw ≠ "" := by
      obtain ⟨read, c, rest, hraw, -⟩ := hinside
      rintro rfl
      cases read <;> cases hraw
    obtain ⟨own, hown, hfirst, hle, -⟩ := hfound hne
    exact .inside hbefore hown hfirst hle hinside

/-- In the text of a document, each error of an expression and each warning points into the text of the
declaration that it comes from, or rather to where this text stands first from the tag of its element on. -/
theorem compile_points (o : CompileOptions) (hd : d.IsVerbatim) (hnames : d.UniqueNames) :
    (∀ e ∈ (d.compile o (some d.toHtml)).errors, e.cause.isExpression →
      ∃ x ∈ d.declarations o (some d.toHtml), d.outcome o (some d.toHtml) x = .error e ∧
        ∃ p, e.position? = some p ∧ d.Points x p) ∧
      ∀ w ∈ (d.compile o (some d.toHtml)).warnings,
        ∃ x ∈ d.declarations o (some d.toHtml), w ∈ d.warned o (some d.toHtml) x ∧
          d.Points x w.position := by
  refine ⟨fun e he hexpression => ?_, fun w hw => ?_⟩
  · have hnotAlias : e.cause.isDuplicateAlias = false := by
      cases hcause : e.cause <;> first | rfl | (rw [hcause] at hexpression; cases hexpression)
    have hmem : Except.error e ∈ (d.declarations o (some d.toHtml)).map (d.outcome o (some d.toHtml)) :=
      (d.outcomes_perm o (some d.toHtml) hd.tree hnames).mem_iff.2 (List.mem_append_right _
        (List.mem_map_of_mem (List.mem_filter.2 ⟨he, by simp [hnotAlias]⟩)))
    obtain ⟨x, hx, houtcome⟩ := List.mem_map.1 hmem
    exact ⟨x, hx, houtcome, (hd.declaration_points hnames hx).1 e houtcome hexpression⟩
  · obtain ⟨x, hx, hw⟩ := List.mem_flatMap.1
      ((d.warnings_perm o (some d.toHtml) hd.tree hnames).mem_iff.2 hw)
    exact ⟨x, hx, hw, (hd.declaration_points hnames hx).2 w hw⟩

/-- Of two attributes with the same text, the error of the second one points into the first one. -/
theorem compile_points_first :
    let d := ofMarkup [.element "p" [("title", "[[)]]"), ("alt", "[[)]]")] [.text "a [[)]] b"]]
    d.IsVerbatim ∧ d.UniqueNames ∧
      (d.compile .standard (some d.toHtml)).errors.map (·.position?) =
        [some ⟨1, 13⟩, some ⟨1, 13⟩, some ⟨1, 34⟩] ∧
      (∀ e ∈ (d.compile .standard (some d.toHtml)).errors, e.cause.isExpression →
        ∃ x ∈ d.declarations .standard (some d.toHtml), d.outcome .standard (some d.toHtml) x = .error e ∧
          ∃ p, e.position? = some p ∧ d.Points x p) ∧
      ∀ w ∈ (d.compile .standard (some d.toHtml)).warnings,
        ∃ x ∈ d.declarations .standard (some d.toHtml), w ∈ d.warned .standard (some d.toHtml) x ∧
          d.Points x w.position := by
  intro d
  have hmade : d.WellMade := wellMade_ofMarkup _
  have hd : d.IsVerbatim := isVerbatim_of_kinds hmade.layered.isTree (by decide +kernel)
    (by decide +kernel) (by decide +kernel)
  exact ⟨hd, hmade.names, by decide +kernel, compile_points .standard hd hmade.names⟩

end Document

end ReactiveMarkup
