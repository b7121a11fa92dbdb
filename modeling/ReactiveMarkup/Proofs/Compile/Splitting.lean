import Mathlib.Data.List.Chain
import ReactiveMarkup.Compile.Part
import ReactiveMarkup.Proofs.Expr.Brackets
import ReactiveMarkup.Proofs.Expr.Lexeme
import ReactiveMarkup.Proofs.Text.Search

/-!
# Splitting a text undoes writing its parts

The search for the end of a code knows brackets, quotes and escapes but no tokens. It agrees with the
scan for tokens on every code that splits into tokens: it is inside a text of quotes where a string is
scanned, and as many brackets are open as the tokens so far have opened.

Main definitions: `Part.Embeddable`, `Part.Placed`, `Part.WellSpaced`.
Main results: `Part.splitCode?_of_embeddable`, `Part.split_joined`.
-/
namespace ReactiveMarkup.Part

open Token (openAfter)

/-! ## Characters of a code -/

variable {depth depth' depth'' : Nat} {cs ds : List Char}

/-- The search for the end of a code goes through characters, from `depth` to `depth'` open brackets
and outside quotes at both ends. -/
def Passes (depth depth' : Nat) (cs : List Char) : Prop :=
  ∀ rest, splitCode? depth none (cs ++ rest) =
    (splitCode? depth' none rest).map fun (read, rest) => (cs ++ read, rest)

theorem Passes.nil : Passes depth depth [] := fun rest => by
  simp

theorem Passes.append (h : Passes depth depth' cs) (h' : Passes depth' depth'' ds) :
    Passes depth depth'' (cs ++ ds) := by
  intro rest
  rw [List.append_assoc, h, h', Option.map_map]
  congr 1
  funext r
  simp

/-- The characters that quote or pair something. -/
def special : List Char := ['\'', '"', '[', ']']

theorem Passes.char {c : Char} (hc : c ∉ special) : Passes depth depth [c] := by
  intro rest
  simp only [special, List.mem_cons, List.not_mem_nil, or_false, not_or] at hc
  obtain ⟨hsingle, hdouble, hopen, hclose⟩ := hc
  rw [List.singleton_append, splitCode?]
  simp [hsingle, hdouble, hopen, hclose]

theorem Passes.all (h : ∀ c ∈ cs, c ∉ special) : Passes depth depth cs := by
  induction cs with
  | nil => exact .nil
  | cons c cs ih =>
    exact (Passes.char (h c (List.mem_cons_self ..))).append
      (ih fun c hc => h c (List.mem_cons_of_mem _ hc))

theorem Passes.opening : Passes depth (depth + 1) ['['] := fun rest => by
  rw [List.singleton_append, splitCode?]
  simp

theorem Passes.closing : Passes (depth + 1) depth [']'] := fun rest => by
  rw [List.singleton_append, splitCode?]
  simp

theorem splitCode?_quoted {quote c : Char} (hc : c ≠ '\\') (cs : List Char) :
    splitCode? depth (some quote) (c :: cs) =
      (splitCode? depth (if c = quote then none else some quote) cs).map
        fun (read, rest) => (c :: read, rest) := by
  rw [splitCode?.eq_def]
  exact if_neg hc

theorem splitCode?_escape {quote : Char} (c : Char) (cs : List Char) :
    splitCode? depth (some quote) ('\\' :: c :: cs) =
      (splitCode? depth (some quote) cs).map fun (read, rest) => ('\\' :: c :: read, rest) := by
  rw [splitCode?.eq_def]
  rfl

/-- Inside quotes the search goes on to the quote that ends the string. -/
theorem splitCode?_stringBody {quote : Char} (hquote : quote ≠ '\\') {content text left : List Char}
    (h : Lexeme.stringBody? quote cs = some (content, text, left)) (rest : List Char) :
    splitCode? depth (some quote) (text ++ rest) =
      (splitCode? depth none rest).map fun (read, rest) => (text ++ read, rest) := by
  fun_induction Lexeme.stringBody? quote cs generalizing content text left with
  | case2 cs =>
    cases h
    rw [List.singleton_append, splitCode?_quoted hquote, if_pos rfl]
    rfl
  | case4 e cs d content' text' rest' hbody hd hne ih =>
    cases h
    rw [List.cons_append, List.cons_append, splitCode?_escape, ih hbody, Option.map_map]
    rfl
  | case6 c cs hc hescape content' text' rest' hbody ih =>
    cases h
    rw [List.cons_append, splitCode?_quoted hescape, if_neg hc, ih hbody, Option.map_map]
    rfl
  | _ => cases h

theorem Passes.string {quote : Char} (hquote : quote = '"' ∨ quote = '\'')
    {content body left : List Char}
    (h : Lexeme.stringBody? quote (body ++ left) = some (content, body, left)) :
    Passes depth depth (quote :: body) := by
  intro rest
  have hne : quote ≠ '\\' ∧ quote ≠ '[' ∧ quote ≠ ']' := by
    rcases hquote with rfl | rfl <;> decide
  have hstart : splitCode? depth none (quote :: (body ++ rest)) =
      (splitCode? depth (some quote) (body ++ rest)).map
        fun (read, rest) => (quote :: read, rest) := by
    rw [splitCode?]
    simp [hne, Or.comm.1 hquote]
  rw [List.cons_append, hstart, splitCode?_stringBody hne.1 h, Option.map_map]
  rfl

/-! ## Tokens of a code -/

theorem isPlain_ofWord (range : Range) (word : String) : Token.isPlain ⟨range, .ofWord word⟩ := by
  unfold TokenKind.ofWord
  split_ifs <;> rfl

/-- Characters of a class that has no special ones are passed. -/
theorem Passes.class {p : Char → Bool} (hp : special.any p = false) (h : ∀ c ∈ cs, p c) :
    Passes depth depth cs :=
  .all fun c hc hspecial => List.any_eq_false.1 hp c hspecial (h c hc)

/-- What separates tokens is passed. -/
theorem Passes.gap : Passes depth depth (cs.takeWhile Lexeme.isGap) :=
  .class (by decide) fun _ hc => Lexeme.of_mem_takeWhile hc

/-- The search goes through a lexeme as a token of its kind opens and closes brackets. -/
theorem Passes.lexeme {l : Lexeme} (h : Lexeme.read? cs = some l) {start stop : Position}
    {ts : List Token} (hopen : openAfter depth (⟨⟨start, stop⟩, l.kind⟩ :: ts) = some depth'') :
    ∃ depth', Passes depth depth' l.text ∧ openAfter depth' ts = some depth'' := by
  rcases Lexeme.read?_cases h with h | h | h | h
  · obtain ⟨-, ⟨n, hkind⟩, hchars⟩ := Lexeme.number?_text h
    rw [openAfter, hkind] at hopen
    exact ⟨depth, .class (p := fun c => c.isDigit || c == '.') (by decide) (by simpa using hchars),
      hopen⟩
  · obtain ⟨-, quote, content, body, hquote, hkind, htext, hbody⟩ := Lexeme.string?_text h
    rw [openAfter, hkind] at hopen
    exact ⟨depth, htext ▸ .string hquote hbody, hopen⟩
  · obtain ⟨-, hkind, hchars⟩ := Lexeme.word?_text h
    rw [Token.openAfter_plain (by rw [hkind]; exact isPlain_ofWord ..)] at hopen
    exact ⟨depth, .class (by decide) hchars, hopen⟩
  · obtain ⟨-, s, hkind, htext⟩ := Lexeme.symbol?_text h
    rw [openAfter, hkind] at hopen
    rw [htext]
    cases s with
    | leftBracket => exact ⟨depth + 1, .opening, hopen⟩
    | rightBracket =>
      dsimp only at hopen
      split at hopen
      · cases hopen
      · rename_i hdepth
        obtain ⟨d, rfl⟩ := Nat.exists_eq_succ_of_ne_zero hdepth
        exact ⟨d, .closing, hopen⟩
    | _ =>
      exact ⟨depth, .class (p := fun c => c ∉ special) (by decide) (List.all_eq_true.1 (by decide)),
        hopen⟩

/-- The search goes through a text that splits into tokens as these open and close brackets. -/
theorem Passes.scanFrom {depth depth' : Nat} {cs : List Char} {here : Position}
    (h : (Token.scanFrom here cs).2.2 = [])
    (hopen : openAfter depth (Token.scanFrom here cs).1 = some depth') :
    Passes depth depth' cs := by
  rw [Token.scanFrom] at h hopen
  dsimp only at h hopen
  have hgap := List.takeWhile_append_dropWhile (p := Lexeme.isGap) (l := cs)
  split at h
  · rename_i hread
    rw [hread] at hopen
    cases hopen
    rw [← hgap, show cs.dropWhile Lexeme.isGap = [] from h, List.append_nil]
    exact .gap
  · rename_i l hread
    have hlt : l.rest.length < cs.length :=
      Nat.lt_of_lt_of_le (Lexeme.read?_length hread) (Lexeme.length_dropWhile_le _ cs)
    rw [hread] at hopen
    obtain ⟨between, hlexeme, hrest⟩ := Passes.lexeme hread hopen
    rw [← hgap, Lexeme.read?_text hread]
    exact Passes.gap.append (hlexeme.append (Passes.scanFrom h hrest))
termination_by cs.length

/-- A code that may be embedded: it splits into tokens, and its square brackets are paired. -/
def Embeddable (code : String) : Prop :=
  ∃ base ts, Token.scan base code = .ok ts ∧ Token.Balanced ts

/-- The search for the end of a code finds it if the code may be embedded. -/
theorem splitCode?_of_embeddable {code : String} (h : Embeddable code) (rest : List Char) :
    splitCode? 0 none (code.toList ++ (Marker.closing ++ rest)) = some (code.toList, rest) := by
  obtain ⟨base, ts, hscan, hbalanced⟩ := h
  rw [Token.scan] at hscan
  dsimp only at hscan
  split at hscan
  · rename_i hend
    cases hscan
    have hopen : openAfter 0 (Token.scanFrom .start code.toList).1 = some 0 := by
      rw [← Token.openAfter_append_stop _ Range.initial]
      exact (Token.openAfter_congr (by simp [Function.comp_def, Token.offsetBy, Token.stored]) 0).trans hbalanced
    have hclosing : splitCode? 0 none (Marker.closing ++ rest) = some ([], rest) := by
      rw [Marker.closing, List.cons_append, splitCode?]
      rfl
    rw [Passes.scanFrom hend hopen, hclosing, Option.map_some]
    dsimp only
    rw [List.append_nil]
  · cases hscan

/-! ## Parts of a text -/

variable {p : Part} {ps : List Part} {start : Nat}

/-- The characters that parts are written with. -/
def chars (ps : List Part) : List Char := ps.flatMap fun p => p.toText.toList

theorem toList_joined (ps : List Part) : (joined ps).toList = chars ps := by
  rw [joined, String.toList_join, List.flatMap_map, chars]

@[simp] theorem chars_cons (p : Part) (ps : List Part) : chars (p :: ps) = p.toText.toList ++ chars ps :=
  rfl

theorem chars_code (code : String) (offset : Nat) (ps : List Part) :
    chars (.code code offset :: ps) =
      Marker.opening ++ (code.toList ++ (Marker.closing ++ chars ps)) := by
  simp [toText]

theorem size_code (code : String) (offset : Nat) :
    Utf8.size (toText (.code code offset)).toList =
      Utf8.size Marker.opening + Utf8.size code.toList + Utf8.size Marker.closing := by
  simp [toText, Nat.add_assoc]

/-- The characters of a literal run are the run. -/
theorem chars_run (cs : List Char) (ps : List Part) : chars (run cs ++ ps) = cs ++ chars ps := by
  rw [run]
  split
  · rename_i h
    rw [List.isEmpty_iff.1 h]
    rfl
  · simp [toText]

/-- The offset of each code is where it starts in the text that the parts are written as, when that
text stands after `start` bytes. -/
def Placed (start : Nat) (ps : List Part) : Prop :=
  ∀ before code offset after, ps = before ++ .code code offset :: after →
    offset = start + Utf8.size (joined before).toList + Utf8.size Marker.opening

theorem placed_nil (start : Nat) : Placed start [] := by simp [Placed]

theorem placed_cons : Placed start (p :: ps) ↔
    (∀ code offset, p = .code code offset → offset = start + Utf8.size Marker.opening) ∧
      Placed (start + Utf8.size p.toText.toList) ps := by
  constructor
  · refine fun h => ⟨fun code offset hp => ?_, fun before code offset after hps => ?_⟩
    · exact h [] code offset ps (by rw [hp]; rfl)
    · have := h (p :: before) code offset after (by rw [hps]; rfl)
      rw [this, toList_joined, toList_joined, chars_cons, Utf8.size_append]
      omega
  · rintro ⟨hp, hps⟩ before code offset after heq
    cases before with
    | nil =>
      cases heq
      exact hp code offset rfl
    | cons q before =>
      cases heq
      rw [hps before code offset after rfl, toList_joined, toList_joined, chars_cons,
        Utf8.size_append]
      omega

theorem placed_run (cs : List Char) :
    Placed start (run cs ++ ps) ↔ Placed (start + Utf8.size cs) ps := by
  rw [run]
  split
  · rename_i h
    rw [List.isEmpty_iff.1 h]
    rfl
  · rw [List.singleton_append, placed_cons]
    simp [toText]

theorem append_of_map_eq_some (before : List Char) {inner rest : List Char} {o : Option (List Char × List Char)}
    (h : o.map (fun (read, rest) => (before ++ read, rest)) = some (inner, rest))
    (ho : ∀ read rest, o = some (read, rest) → cs = read ++ (Marker.closing ++ rest)) :
    before ++ cs = inner ++ (Marker.closing ++ rest) := by
  obtain ⟨⟨read, rest⟩, hread, heq⟩ := Option.map_eq_some_iff.1 h
  cases heq
  rw [ho read rest hread, List.append_assoc]

/-- What is split off is the code, and the rest follows its end. -/
theorem splitCode?_eq_some {quote : Option Char} {inner rest : List Char}
    (h : splitCode? depth quote cs = some (inner, rest)) : cs = inner ++ (Marker.closing ++ rest) := by
  fun_induction splitCode? depth quote cs generalizing inner rest with
  | case1 => cases h
  | case2 => cases h
  | case3 depth quote c cs ih => exact append_of_map_eq_some ['\\', c] h fun _ _ => ih
  | case4 depth quote c cs hc ih => exact append_of_map_eq_some [c] h fun _ _ => ih
  | case5 depth c cs hclose =>
    obtain ⟨rfl, -, hnext⟩ := hclose
    cases h
    obtain ⟨cs, rfl⟩ := List.head?_eq_some_iff.1 hnext
    rfl
  | case6 depth c =>
    rename_i ih
    exact append_of_map_eq_some [c] h fun _ _ => ih

/-- Writing the parts of a text gives the text back, and each code has its place in it. -/
theorem splitFrom?_eq_some {start : Nat} {cs : List Char} {ps : List Part}
    (h : splitFrom? start cs = some ps) : chars ps = cs ∧ Placed start ps := by
  rw [splitFrom?] at h
  split at h
  · cases h
    rw [← List.append_nil (run cs), chars_run, placed_run]
    exact ⟨List.append_nil cs, placed_nil _⟩
  · rename_i before after hcut
    split at h
    · cases h
    · rename_i inner rest hcode
      obtain ⟨parts, hparts, rfl⟩ := Option.map_eq_some_iff.1 h
      have hbefore := Search.cut?_length hcut
      have hinner := splitCode?_length hcode
      obtain ⟨hchars, hplaced⟩ := splitFrom?_eq_some hparts
      refine ⟨?_, ?_⟩
      · rw [chars_run, chars_code, hchars, Search.cut?_eq_some hcut, splitCode?_eq_some hcode,
          String.toList_ofList, List.append_assoc]
      · rw [placed_run, placed_cons]
        refine ⟨fun code offset heq => ?_, ?_⟩
        · cases heq
          rfl
        · rw [size_code, String.toList_ofList, ← Nat.add_assoc, ← Nat.add_assoc]
          exact hplaced
termination_by cs.length

/-- Which part may stand before which: no run next to another one, and none that makes the brackets
of a code begin too early. -/
def mayPrecede : Part → Part → Bool
  | text _, text _ => false
  | text s, code .. => s.toList.getLast? != some '['
  | code .., _ => true

/-- Parts that are told apart where they are written one after the other. -/
structure WellSpaced (ps : List Part) : Prop where
  chain : ps.IsChain fun p q => p.mayPrecede q
  runs : ∀ s, .text s ∈ ps → s ≠ "" ∧ ¬Marker.opening <:+: s.toList
  codes : ∀ code offset, .code code offset ∈ ps → Embeddable code

theorem WellSpaced.tail (h : WellSpaced (p :: ps)) : WellSpaced ps where
  chain := h.chain.of_cons
  runs s hs := h.runs s (List.mem_cons_of_mem _ hs)
  codes code offset hc := h.codes code offset (List.mem_cons_of_mem _ hc)

theorem run_of_ne_empty {s : String} (h : s ≠ "") : run s.toList = [.text s] := by
  rw [run, if_neg (by simpa using h), String.ofList_toList]

/-- A run ends where the brackets of the next code begin. -/
theorem cut?_opening {before : List Char} (hbefore : ¬Marker.opening <:+: before)
    (hlast : before.getLast? ≠ some '[') (after : List Char) :
    Search.cut? Marker.opening (before ++ (Marker.opening ++ after)) = some (before, after) := by
  rw [← List.append_assoc]
  refine Search.cut?_append (by decide) fun front back heq hback hfront => ?_
  obtain ⟨b, back, rfl⟩ := List.exists_cons_of_ne_nil hback
  obtain ⟨rfl, hfront⟩ := List.cons_prefix_cons.1 hfront
  cases back with
  | nil => exact hlast (by rw [heq, List.getLast?_concat])
  | cons c back =>
    obtain rfl := (List.cons_prefix_cons.1 (List.cons_prefix_cons.1 hfront).2).1
    exact hbefore ⟨front, back, by rw [heq]; simp [Marker.opening]⟩

theorem splitFrom?_of_cut?_eq_none (h : Search.cut? Marker.opening cs = none) :
    splitFrom? start cs = some (run cs) := by
  rw [splitFrom?]
  split
  · rfl
  · simp_all

/-- A run and a code are split off the front. -/
theorem splitFrom?_code (before : List Char) {code : String} {offset : Nat}
    (hbefore : ¬Marker.opening <:+: before) (hlast : before.getLast? ≠ some '[')
    (hcode : Embeddable code) (hoffset : offset = start + Utf8.size before + Utf8.size Marker.opening)
    (hrest : splitFrom? (start + Utf8.size before + Utf8.size (toText (.code code offset)).toList)
      (chars ps) = some ps) :
    splitFrom? start (before ++ chars (.code code offset :: ps)) =
      some (run before ++ .code code offset :: ps) := by
  have hcut := cut?_opening hbefore hlast (code.toList ++ (Marker.closing ++ chars ps))
  have hend := splitCode?_of_embeddable hcode (chars ps)
  rw [size_code, ← Nat.add_assoc, ← Nat.add_assoc, ← hoffset] at hrest
  rw [chars_code, splitFrom?]
  split
  · simp_all
  · rename_i before' after' hcut'
    cases hcut.symm.trans hcut'
    split
    · simp_all
    · rename_i inner rest hend'
      cases hend.symm.trans hend'
      dsimp only
      rw [← hoffset, hrest, Option.map_some, String.ofList_toList]

/-- Parts that are well spaced are what their text is split into. -/
theorem splitFrom?_chars {start : Nat} {ps : List Part} (h : WellSpaced ps) (hplaced : Placed start ps) :
    splitFrom? start (chars ps) = some ps := by
  match ps with
  | [] => exact splitFrom?_of_cut?_eq_none rfl
  | [text s] =>
    obtain ⟨hne, hfree⟩ := h.runs s (List.mem_cons_self ..)
    have hchars : chars [text s] = s.toList := by simp [chars, toText]
    rw [hchars, splitFrom?_of_cut?_eq_none ((Search.cut?_eq_none_iff (by decide)).2 hfree),
      run_of_ne_empty hne]
  | text s :: text t :: ps => exact absurd h.chain.rel (by simp [mayPrecede])
  | code c offset :: ps =>
    obtain ⟨hoffset, hrest⟩ := placed_cons.1 hplaced
    have hcode := h.codes c offset (List.mem_cons_self ..)
    exact splitFrom?_code [] (by decide) (by decide) hcode (hoffset c offset rfl)
      (splitFrom?_chars h.tail hrest)
  | text s :: code c offset :: ps =>
    obtain ⟨hne, hfree⟩ := h.runs s (List.mem_cons_self ..)
    have hlast : s.toList.getLast? ≠ some '[' := by
      simpa [mayPrecede] using h.chain.rel
    have hcode := h.codes c offset (List.mem_cons_of_mem _ (List.mem_cons_self ..))
    obtain ⟨-, hplaced⟩ := placed_cons.1 hplaced
    obtain ⟨hoffset, hrest⟩ := placed_cons.1 hplaced
    rw [chars_cons, ← List.singleton_append (x := text s), ← run_of_ne_empty hne]
    exact splitFrom?_code _ hfree hlast hcode (hoffset c offset rfl)
      (splitFrom?_chars h.tail.tail hrest)

/-- Splitting a text and writing its parts undo each other. The parts of a text, written one after
the other, are the text, with each code where its offset says. Parts that are well spaced are what
their text is split into; in particular they may hold any code that the parser accepts. -/
theorem split_joined :
    (∀ s ps, split? s = some ps → joined ps = s ∧ Placed 0 ps) ∧
      (∀ ps, WellSpaced ps → Placed 0 ps → split? (joined ps) = some ps) ∧
        ∀ base code e, Expr.parse base code = .ok e → Embeddable code := by
  refine ⟨fun s ps h => ?_, fun ps h hplaced => ?_, fun base code e h => ?_⟩
  · obtain ⟨hchars, hplaced⟩ := splitFrom?_eq_some h
    exact ⟨String.toList_inj.1 ((toList_joined ps).trans hchars), hplaced⟩
  · rw [split?, toList_joined]
    exact splitFrom?_chars h hplaced
  · obtain ⟨ts, hscan, hbalanced⟩ := Expr.parse_balanced h
    exact ⟨base, ts, hscan, hbalanced⟩

/-- Brackets in a string of the code and behind the code are no brackets of the code. -/
theorem split_joined_quoted : split? (joined [.text "Hi ", .code "a[']]']" 5, .text "]["]) =
    some [.text "Hi ", .code "a[']]']" 5, .text "]["] := by
  refine split_joined.2.1 _ ⟨by decide, fun s hs => ?_, fun code offset hc => ?_⟩ ?_
  · simp only [List.mem_cons, text.injEq, reduceCtorEq, List.not_mem_nil, or_false, false_or] at hs
    rcases hs with rfl | rfl <;> decide
  · simp only [List.mem_cons, Part.code.injEq, reduceCtorEq, List.not_mem_nil, or_false,
      false_or] at hc
    obtain ⟨rfl, rfl⟩ := hc
    have hok : (Token.scan .start "a[']]']").toOption.any (Token.Balanced ·) := by decide +kernel
    cases hscan : Token.scan .start "a[']]']" with
    | error e =>
      rw [hscan] at hok
      cases hok
    | ok ts =>
      rw [hscan] at hok
      exact ⟨.start, ts, hscan, of_decide_eq_true hok⟩
  · simp only [placed_cons, Part.code.injEq, reduceCtorEq]
    refine ⟨by simp, ?_, by simp, placed_nil _⟩
    rintro code offset ⟨rfl, rfl⟩
    decide

end ReactiveMarkup.Part
