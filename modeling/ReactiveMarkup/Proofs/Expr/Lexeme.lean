import ReactiveMarkup.Expr.Token.Scan

/-!
# What a lexeme is

A lexeme is read off the front of a text. It is a number, a string, a word or a symbol, and each of
these is written with characters of its own.

Main results: `Lexeme.read?_text`, `Lexeme.read?_cases`.
-/
namespace ReactiveMarkup.Lexeme

variable {cs : List Char} {l : Lexeme}

theorem of_mem_takeWhile {p : Char → Bool} {c : Char} (h : c ∈ cs.takeWhile p) : p c :=
  List.all_eq_true.1 List.all_takeWhile c h

/-- What is read as far as a class of characters goes ends where another character follows. -/
theorem span_append {p : Char → Bool} {cs rest : List Char} (hcs : ∀ c ∈ cs, p c)
    (hrest : ∀ c ∈ rest.head?, p c = false) :
    (cs ++ rest).takeWhile p = cs ∧ (cs ++ rest).dropWhile p = rest := by
  rw [List.takeWhile_append_of_pos hcs, List.dropWhile_append_of_pos hcs]
  cases rest with
  | nil => simp
  | cons c rest => simp [hrest c rfl]

/-- A number is written with digits and a point. -/
theorem number?_text (h : number? cs = some l) :
    cs = l.text ++ l.rest ∧ (∃ n, l.kind = .number n) ∧ ∀ c ∈ l.text, c.isDigit ∨ c = '.' := by
  rw [number?] at h
  dsimp only at h
  split at h
  · cases h
  · cases h
    dsimp only
    refine ⟨?_, ⟨_, rfl⟩, fun c hc => ?_⟩
    · -- the fraction is at the front of what follows the digits
      rw [List.append_assoc]
      refine List.takeWhile_append_dropWhile.symm.trans
        (congrArg _ (List.prefix_iff_eq_append.1 ?_).symm)
      split
      · split
        · exact List.nil_prefix
        · rename_i hrest _
          rw [hrest]
          exact List.cons_prefix_cons.2 ⟨rfl, List.takeWhile_prefix _⟩
      · exact List.nil_prefix
    · rcases List.mem_append.1 hc with hc | hc
      · exact .inl (of_mem_takeWhile hc)
      · split at hc
        · split at hc
          · cases hc
          · rcases List.mem_cons.1 hc with rfl | hc
            · exact .inr rfl
            · exact .inl (of_mem_takeWhile hc)
        · cases hc

theorem stringBody?_text {quote : Char} {content text rest : List Char}
    (h : stringBody? quote cs = some (content, text, rest)) : cs = text ++ rest := by
  fun_induction stringBody? quote cs generalizing content text rest <;> grind

/-- A string is written between two quotes. -/
theorem string?_text (h : string? cs = some l) :
    cs = l.text ++ l.rest ∧ ∃ quote content body, (quote = '"' ∨ quote = '\'') ∧
      l.kind = .string (String.ofList content) ∧ l.text = quote :: body ∧
      stringBody? quote (body ++ l.rest) = some (content, body, l.rest) := by
  cases cs with
  | nil => cases h
  | cons quote cs =>
    rw [string?] at h
    split at h
    · rename_i hquote
      obtain ⟨⟨content, body, rest⟩, hbody, rfl⟩ := Option.map_eq_some_iff.1 h
      have hcs := stringBody?_text hbody
      refine ⟨by rw [hcs]; rfl, quote, content, body, by simpa using hquote, rfl, rfl, ?_⟩
      rw [← hcs]
      exact hbody
    · cases h

theorem continuesWord_of_startsWord {c : Char} (h : startsWord c) : continuesWord c := by
  simp only [startsWord, continuesWord, Char.isAlphanum] at h ⊢
  grind

theorem isDigit_of_startsWord {c : Char} (h : startsWord c) : c.isDigit = false := by
  rw [Bool.eq_false_iff]
  intro hdigit
  rw [startsWord, Bool.or_eq_true, Bool.or_eq_true, beq_iff_eq, beq_iff_eq] at h
  rcases h with (h | rfl) | rfl
  · have hletter : 65 ≤ c.toNat := by
      rcases Bool.or_eq_true_iff.1 h with hupper | hlower
      · exact UInt32.le_iff_toNat_le.1 (of_decide_eq_true hupper).1
      · have hc : 97 ≤ c.toNat :=
          UInt32.le_iff_toNat_le.1 (of_decide_eq_true (Bool.and_eq_true_iff.1 hlower).1)
        omega
    have hnine : c.toNat ≤ 57 :=
      UInt32.le_iff_toNat_le.1 (of_decide_eq_true (Bool.and_eq_true_iff.1 hdigit).2)
    omega
  · exact absurd hdigit (by decide)
  · exact absurd hdigit (by decide)

/-- A word is written with letters, digits, underscores and dollar signs. -/
theorem word?_text (h : word? cs = some l) :
    cs = l.text ++ l.rest ∧ l.kind = .ofWord (String.ofList l.text) ∧
      ∀ c ∈ l.text, continuesWord c := by
  cases cs with
  | nil => cases h
  | cons c cs =>
    rw [word?] at h
    split at h
    · rename_i hc
      cases h
      refine ⟨?_, rfl, fun d hd => ?_⟩
      · rw [List.cons_append, List.takeWhile_append_dropWhile]
      · rcases List.mem_cons.1 hd with rfl | hd
        · exact continuesWord_of_startsWord hc
        · exact of_mem_takeWhile hd
    · cases h

/-- A symbol is written as such. -/
theorem symbol?_text (h : symbol? cs = some l) :
    cs = l.text ++ l.rest ∧ ∃ s, l.kind = .symbol s ∧ l.text = s.text.toList := by
  obtain ⟨s, hs, rfl⟩ := Option.map_eq_some_iff.1 h
  obtain ⟨rest, rfl⟩ : s.text.toList <+: cs :=
    List.isPrefixOf_iff_prefix.1 (by simpa using List.find?_some hs)
  exact ⟨by rw [List.drop_left], s, rfl, rfl⟩

/-- The ways in which a lexeme is read. -/
theorem read?_cases (h : read? cs = some l) :
    number? cs = some l ∨ string? cs = some l ∨ word? cs = some l ∨ symbol? cs = some l := by
  simp only [read?, Option.orElse_eq_orElse, Option.orElse_eq_or, Option.or_eq_some_iff] at h
  rcases h with h | ⟨_, h | ⟨_, h | ⟨_, h⟩⟩⟩
  · exact .inl h
  · exact .inr (.inl h)
  · exact .inr (.inr (.inl h))
  · exact .inr (.inr (.inr h))

/-- A lexeme and what follows it are the text. -/
theorem read?_text (h : read? cs = some l) : cs = l.text ++ l.rest := by
  rcases read?_cases h with h | h | h | h
  · exact (number?_text h).1
  · exact (string?_text h).1
  · exact (word?_text h).1
  · exact (symbol?_text h).1

end ReactiveMarkup.Lexeme
