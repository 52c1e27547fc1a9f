import WhileSyntax.Proofs.Grammar.Tier

/-!
# Atoms and unary minus

How the tightest parsers of the expression grammar read: a parenthesis, a name or a number, and a
minus in front of a name or a parenthesis. The first character behind the white space tells the
forms apart, except that a constant in parentheses behind a minus is tried before any expression
there.
-/

namespace WhileSyntax.Grammar

open WhileSyntax.Parser

variable {inner : Parser Tree} {s m r : List Char} {e : Tree}

/-! ## Atoms and parentheses -/

/-- Punctuation fails behind white space in front of another character. -/
theorem run_symbol_eq_fail_of_front {t : String} {c : Char} {cs : List Char}
    (h : front s ≠ some c) (ht : t.toList = c :: cs)
    (hb : Text.isBlank c = false) : (symbol t).run s = .fail := by
  apply run_symbol_eq_fail
  · intro r hr
    rw [ht] at hr
    exact h (hr.front hb)
  · rw [ht, isSolid, hb]
    rfl

/-- Parentheses are read around a value. -/
theorem reads_parens_iff {α : Type} {p : Parser α} {v : α} : (parens p).Reads s v r ↔
    ∃ m₁ m₂, Token ['('] s m₁ ∧ p.Reads m₁ v m₂ ∧ Token [')'] m₂ r := by
  constructor
  · intro h
    obtain ⟨m₂, h, hc⟩ := exists_token_of_reads_skip h rfl
    obtain ⟨m₁, ho, hv⟩ := exists_token_of_reads h rfl
    exact ⟨m₁, m₂, ho, hv, hc⟩
  · rintro ⟨m₁, m₂, ho, hv, hc⟩
    exact reads_skip_symbol (reads_symbol_andThen ho hv rfl) hc rfl

/-- Parentheses fail where none opens. -/
theorem run_parens_eq_fail {α : Type} {p : Parser α} (h : front s ≠ some '(') :
    (parens p).run s = .fail :=
  run_bindAs_eq_fail (run_bindAs_eq_fail (run_symbol_eq_fail_of_front h rfl rfl))

/-- Behind an opening parenthesis a definite value is read with the closing one, or not at all. -/
theorem run_parens_cases {α : Type} {p : Parser α} (ho : Token ['('] s m)
    (hp : p.run m = .fail ∨ ∃ v r, p.Reads m v r) :
    (parens p).run s = .fail ∨ ∃ v r r', p.Reads m v r ∧ Token [')'] r r' := by
  rcases hp with hf | ⟨v, r, hr⟩
  · left
    apply run_bindAs_eq_fail
    apply (run_symbol_andThen_eq_fail_iff rfl).mpr
    intro m' ho'
    rwa [← ho.unique ho' rfl]
  · by_cases hc : ∃ r', Token [')'] r r'
    · obtain ⟨r', hc⟩ := hc
      exact .inr ⟨v, r, r', hr, hc⟩
    · have hv : ((symbol "(").andThen p).Reads s v r := reads_symbol_andThen ho hr rfl
      have hclose : (symbol ")").run r = .fail :=
        run_symbol_eq_fail (fun r' hr' ↦ hc ⟨r', hr'⟩) rfl
      left
      rw [parens, Parser.skip, run_bindAs_of_reads hv, run_map_eq_fail hclose]
      rfl

/-- Variables are read from names. -/
theorem reads_var_iff : var.Reads s e r ↔ ∃ x, Name x s r ∧ .var x = e := by
  apply reads_map_iff.trans
  simp only [reads_ident_iff]

/-- Variables fail where no letter stands. -/
theorem run_var_eq_fail (h : ∀ c ∈ front s, Text.isWordStart c = false) :
    var.run s = .fail := by
  apply run_map_eq_fail
  apply run_ident_eq_fail
  intro x r hx
  obtain ⟨c, hc, hw⟩ := hx.front
  rw [h c hc] at hw
  cases hw

/-- Constants are read from numerals. -/
theorem reads_const_iff : const.Reads s e r ↔ ∃ n : Nat, Numeral n s r ∧ .const n = e := by
  apply reads_map_iff.trans
  simp only [reads_number_iff]

/-- Constants fail where no digit stands. -/
theorem run_const_eq_fail (h : ∀ c ∈ front s, c.isDigit = false) : const.run s = .fail :=
  run_map_eq_fail (run_number_eq_fail h)

/-- An atom is a parenthesis, a name or a number. -/
theorem reads_atom_iff : (atom inner).Reads s e r ↔ (parens inner).Reads s e r ∨
    (parens inner).run s = .fail ∧
      (var.Reads s e r ∨ var.run s = .fail ∧ const.Reads s e r) := by
  apply reads_orElse_iff.trans
  rw [reads_orElse_iff]
  simp only [run_orElse, Reply.orElse_eq_fail_iff]
  tauto

/-- Atoms fail where neither a parenthesis opens nor a letter or a digit stands. -/
theorem run_atom_eq_fail (h : ∀ c ∈ front s,
    c ≠ '(' ∧ Text.isWordStart c = false ∧ c.isDigit = false) : (atom inner).run s = .fail := by
  have hp : (parens inner).run s = .fail := run_parens_eq_fail fun hf ↦ (h _ hf).1 rfl
  have hv : var.run s = .fail := run_var_eq_fail fun c hc ↦ (h c hc).2.1
  have hc : const.run s = .fail := run_const_eq_fail fun c hc ↦ (h c hc).2.2
  simp only [atom, run_named, run_orElse, hp, hv, hc, Reply.orElse]

/-! ## Unary minus -/

/-- A minus in front of a value. -/
theorem reads_minus_iff {p : Parser Tree} : (((symbol "-").andThen p).map Tree.neg).Reads s e r ↔
    ∃ m e', Token ['-'] s m ∧ p.Reads m e' r ∧ .neg e' = e := by
  apply reads_map_iff.trans
  constructor
  · rintro ⟨e', h, rfl⟩
    obtain ⟨m, ht, hp⟩ := exists_token_of_reads h rfl
    exact ⟨m, e', ht, hp, rfl⟩
  · rintro ⟨m, e', ht, hp, rfl⟩
    exact ⟨e', reads_symbol_andThen ht hp rfl, rfl⟩

/-- A minus fails where it is missing or what stands behind it cannot be read. -/
theorem run_minus_eq_fail_iff {p : Parser Tree} :
    (((symbol "-").andThen p).map Tree.neg).run s = .fail ↔
      ∀ m, Token ['-'] s m → p.run m = .fail :=
  Reply.map_eq_fail_iff.trans (run_symbol_andThen_eq_fail_iff rfl)

/-- A minus fails where none stands. -/
theorem run_minus_eq_fail {p : Parser Tree} (h : front s ≠ some '-') :
    (((symbol "-").andThen p).map Tree.neg).run s = .fail :=
  run_minus_eq_fail_iff.mpr fun _ ht ↦ absurd (ht.front rfl) h

/-- A minus fails in front of something that cannot be read. -/
theorem run_minus_eq_fail_of_token {p : Parser Tree} (ht : Token ['-'] s m)
    (hp : p.run m = .fail) : (((symbol "-").andThen p).map Tree.neg).run s = .fail := by
  apply run_minus_eq_fail_iff.mpr
  intro m' ht'
  rwa [← ht.unique ht' rfl]

/-- The forms that unary minus chooses from. -/
def unaryForms (inner : Parser Tree) : List (Parser Tree) :=
  [((symbol "-").andThen var).map Tree.neg, ((symbol "-").andThen (parens const)).map Tree.neg,
    ((symbol "-").andThen (parens inner)).map Tree.neg, atom inner]

/-- A form that all others agree with or fail before is what unary minus reads. -/
theorem run_unary_eq {p : Parser Tree} (hp : p ∈ unaryForms inner)
    (h : ∀ q ∈ unaryForms inner, q.run s = p.run s ∨ q.run s = .fail) :
    (unary inner).run s = p.run s :=
  run_choice_eq hp h

/-- Without a minus in front, unary minus is an atom. -/
theorem run_unary_eq_atom (h : front s ≠ some '-') : (unary inner).run s = (atom inner).run s := by
  apply run_unary_eq (by simp [unaryForms])
  intro q hq
  simp only [unaryForms, List.mem_cons, List.not_mem_nil, or_false] at hq
  rcases hq with rfl | rfl | rfl | rfl
  · exact .inr (run_minus_eq_fail h)
  · exact .inr (run_minus_eq_fail h)
  · exact .inr (run_minus_eq_fail h)
  · exact .inl rfl

/-- With a minus in front there is no atom. -/
theorem run_atom_eq_fail_of_minus (h : front s = some '-') : (atom inner).run s = .fail := by
  apply run_atom_eq_fail
  rw [h]
  rintro _ ⟨⟩
  exact ⟨by decide, by decide, by decide⟩

/-- A minus in front of a name is read. -/
theorem reads_unary_of_negName {x : String} (ht : Token ['-'] s m) (hx : Name x m r) :
    (unary inner).Reads s (.neg (.var x)) r := by
  have hread : (((symbol "-").andThen var).map Tree.neg).Reads s (.neg (.var x)) r :=
    reads_minus_iff.mpr ⟨m, .var x, ht, reads_var_iff.mpr ⟨x, hx, rfl⟩, rfl⟩
  have hopen : front m ≠ some '(' := by
    obtain ⟨c, hc, hw⟩ := hx.front
    rw [hc]
    rintro ⟨⟩
    exact absurd hw (by decide)
  apply hread.of_run_eq
  apply run_unary_eq (by simp [unaryForms])
  intro q hq
  simp only [unaryForms, List.mem_cons, List.not_mem_nil, or_false] at hq
  rcases hq with rfl | rfl | rfl | rfl
  · exact .inl rfl
  · exact .inr (run_minus_eq_fail_of_token ht (run_parens_eq_fail hopen))
  · exact .inr (run_minus_eq_fail_of_token ht (run_parens_eq_fail hopen))
  · exact .inr (run_atom_eq_fail_of_minus (ht.front rfl))

/-- A minus in front of parentheses is read. The form for a constant in parentheses comes first, so
it has to read what the general form reads, or to fail. -/
theorem reads_unary_of_negParens {m₁ m₂ m₃ : List Char} (ht : Token ['-'] s m₁)
    (ho : Token ['('] m₁ m₂) (he : inner.Reads m₂ e m₃) (hc : Token [')'] m₃ r)
    (hdefinite : const.run m₂ = .fail ∨ ∃ e' r', const.Reads m₂ e' r')
    (hagree : ∀ e' r' r'', const.Reads m₂ e' r' → Token [')'] r' r'' → inner.Reads m₂ e' r') :
    (unary inner).Reads s (.neg e) r := by
  have hread : (((symbol "-").andThen (parens inner)).map Tree.neg).Reads s (.neg e) r :=
    reads_minus_iff.mpr ⟨m₁, e, ht, reads_parens_iff.mpr ⟨m₂, m₃, ho, he, hc⟩, rfl⟩
  have hletter : ∀ c ∈ front m₁, Text.isWordStart c = false := by
    rw [ho.front rfl]
    rintro _ ⟨⟩
    decide
  apply hread.of_run_eq
  apply run_unary_eq (by simp [unaryForms])
  intro q hq
  simp only [unaryForms, List.mem_cons, List.not_mem_nil, or_false] at hq
  rcases hq with rfl | rfl | rfl | rfl
  · exact .inr (run_minus_eq_fail_of_token ht (run_var_eq_fail hletter))
  · rcases run_parens_cases ho hdefinite with hf | ⟨e', r', r'', hr', hc'⟩
    · exact .inr (run_minus_eq_fail_of_token ht hf)
    · obtain ⟨rfl, rfl⟩ := he.unique (hagree e' r' r'' hr' hc')
      obtain rfl := hc.unique hc' rfl
      exact .inl (hread.run_eq (reads_minus_iff.mpr
        ⟨m₁, e, ht, reads_parens_iff.mpr ⟨m₂, m₃, ho, hr', hc⟩, rfl⟩)).symm
  · exact .inl rfl
  · exact .inr (run_atom_eq_fail_of_minus (ht.front rfl))

end WhileSyntax.Grammar
