import WhileSyntax.Grammar.Command
import WhileSyntax.Proofs.Grammar.Unary

/-!
# Forms of commands

How the parsers of the four forms read. They are told apart by what stands in front: a name, one of
two keywords or an opening brace. Keywords are whole words and no names, so at most one form reads
anything, and a block is empty where no command begins.
-/

namespace WhileSyntax.Grammar

open WhileSyntax.Parser

variable {inner body : Parser Tree} {d n : Nat} {s m r : List Char} {c e : Tree}

/-! ## What stands in front of a command -/

/-- The word at the front is one word. -/
theorem word_unique {x y : String} {m' : List Char} (h : Keyword x s m) (h' : Keyword y s m')
    (hx : Text.isWord x.toList = true)
    (hy : Text.isWord y.toList = true) : x = y ∧ m = m' := by
  have hs := (Token.iff_skipBlank (isSolid_of_isWord hx)).mp h.1
  have hs' := (Token.iff_skipBlank (isSolid_of_isWord hy)).mp h'.1
  exact (reads_word_iff.mpr ⟨hx, hs, h.2⟩).unique (reads_word_iff.mpr ⟨hy, hs', h'.2⟩)

/-- A form that begins with a name fails where none stands. -/
theorem run_assign_eq_fail (h : ∀ x r, ¬Name x s r) : (assign inner).run s = .fail :=
  run_bind_eq_fail (run_ident_eq_fail h)

/-- A conditional fails where its keyword does not stand. -/
theorem run_conditional_eq_fail (h : ∀ r, ¬Keyword "if" s r) :
    (conditional inner body).run s = .fail :=
  run_bind_eq_fail (run_bindAs_eq_fail (run_keyword_eq_fail h rfl))

/-- A loop fails where its keyword does not stand. -/
theorem run_loop_eq_fail (h : ∀ r, ¬Keyword "while" s r) : (loop inner body).run s = .fail :=
  run_bind_eq_fail (run_bindAs_eq_fail (run_keyword_eq_fail h rfl))

/-- A block fails where no brace opens. -/
theorem run_block_eq_fail (h : front s ≠ some '\x7b') : (block body).run s = .fail := by
  apply run_map_eq_fail
  apply run_bindAs_eq_fail
  apply run_bindAs_eq_fail
  exact run_symbol_eq_fail_of_front h rfl rfl

/-- The forms that a command is chosen from. -/
def commandForms (inner body : Parser Tree) : List (Parser Tree) :=
  [assign inner, conditional inner body, loop inner body, block body]

/-- A form decides where the others fail. -/
theorem run_command_eq_form {p : Parser Tree}
    (hp : p ∈ commandForms (expression n) (command n))
    (hothers : ∀ q ∈ commandForms (expression n) (command n), q = p ∨ q.run s = .fail) :
    (command (n + 1)).run s = p.run s := by
  rw [run_command_succ]
  apply run_choice_eq hp
  intro q hq
  rcases hothers q hq with rfl | hf
  · exact .inl rfl
  · exact .inr hf

/-- A command that is read is read by one of the forms. -/
theorem exists_form_of_reads (h : (command (n + 1)).Reads s c r) :
    ∃ p ∈ commandForms (expression n) (command n), p.Reads s c r := by
  have hchoice : (choice (commandForms (expression n) (command n))).Reads s c r :=
    h.of_run_eq (run_command_succ n s).symm
  exact exists_reads_of_choice hchoice

/-- Commands fail where neither a word nor a brace stands. -/
theorem run_command_eq_fail (h : ∀ c ∈ front s, Text.isWordStart c = false ∧ c ≠ '\x7b') :
    (command (n + 1)).run s = .fail := by
  have hword : ∀ (x : String) r, Text.isWord x.toList = true → ¬Token x.toList s r := by
    intro x r hx ht
    obtain ⟨c, hc, hw⟩ := ht.front_of_isWord hx
    rw [(h c hc).1] at hw
    cases hw
  rw [run_command_succ]
  apply run_choice_eq_fail
  intro q hq
  simp only [List.mem_cons, List.not_mem_nil, or_false] at hq
  rcases hq with rfl | rfl | rfl | rfl
  · exact run_assign_eq_fail fun x r hx ↦ hword x r hx.1.1 hx.2.1
  · exact run_conditional_eq_fail fun r hk ↦ hword "if" r (by decide) hk.1
  · exact run_loop_eq_fail fun r hk ↦ hword "while" r (by decide) hk.1
  · exact run_block_eq_fail fun hf ↦ (h _ hf).2 rfl

/-! ## The forms -/

/-- An assignment reads a name, an equals sign and an expression. -/
theorem reads_assign_iff : (assign inner).Reads s c r ↔
    ∃ x m₁ m₂ e, Name x s m₁ ∧ Token ['='] m₁ m₂ ∧ inner.Reads m₂ e r ∧ .assign x e = c := by
  apply reads_bind_iff.trans
  constructor
  · rintro ⟨x, m₁, hx, h⟩
    obtain ⟨e, he, hc⟩ := reads_map_iff.mp h
    obtain ⟨m₂, ht, he⟩ := exists_token_of_reads he rfl
    exact ⟨x, m₁, m₂, e, reads_ident_iff.mp hx, ht, he, hc⟩
  · rintro ⟨x, m₁, m₂, e, hx, ht, he, hc⟩
    exact ⟨x, m₁, reads_ident_iff.mpr hx, reads_map_iff.mpr ⟨e, reads_symbol_andThen ht he rfl, hc⟩⟩

/-- A conditional reads a condition and two branches behind their keywords. -/
theorem reads_conditional_iff : (conditional inner body).Reads s c r ↔
    ∃ m₁ e m₂ m₃ y m₄ m₅ n, Keyword "if" s m₁ ∧ inner.Reads m₁ e m₂ ∧ Keyword "then" m₂ m₃ ∧
      body.Reads m₃ y m₄ ∧ Keyword "else" m₄ m₅ ∧ body.Reads m₅ n r ∧
        .conditional e y n = c := by
  apply reads_bind_iff.trans
  constructor
  · rintro ⟨e, m₂, he, h⟩
    obtain ⟨m₁, hif, he⟩ := exists_keyword_of_reads he rfl
    obtain ⟨y, m₄, hy, h⟩ := reads_bind_iff.mp h
    obtain ⟨m₃, hthen, hy⟩ := exists_keyword_of_reads hy rfl
    obtain ⟨n, hn, hc⟩ := reads_map_iff.mp h
    obtain ⟨m₅, helse, hn⟩ := exists_keyword_of_reads hn rfl
    exact ⟨m₁, e, m₂, m₃, y, m₄, m₅, n, hif, he, hthen, hy, helse, hn, hc⟩
  · rintro ⟨m₁, e, m₂, m₃, y, m₄, m₅, n, hif, he, hthen, hy, helse, hn, hc⟩
    refine ⟨e, m₂, reads_keyword_andThen hif he rfl, reads_bind_iff.mpr ⟨y, m₄, ?_, ?_⟩⟩
    · exact reads_keyword_andThen hthen hy rfl
    · exact reads_map_iff.mpr ⟨n, reads_keyword_andThen helse hn rfl, hc⟩

/-- A loop reads a condition and a body behind their keywords. -/
theorem reads_loop_iff : (loop inner body).Reads s c r ↔
    ∃ m₁ e m₂ m₃ b, Keyword "while" s m₁ ∧ inner.Reads m₁ e m₂ ∧ Keyword "do" m₂ m₃ ∧
      body.Reads m₃ b r ∧ .loop e b = c := by
  apply reads_bind_iff.trans
  constructor
  · rintro ⟨e, m₂, he, h⟩
    obtain ⟨m₁, hwhile, he⟩ := exists_keyword_of_reads he rfl
    obtain ⟨b, hb, hc⟩ := reads_map_iff.mp h
    obtain ⟨m₃, hdo, hb⟩ := exists_keyword_of_reads hb rfl
    exact ⟨m₁, e, m₂, m₃, b, hwhile, he, hdo, hb, hc⟩
  · rintro ⟨m₁, e, m₂, m₃, b, hwhile, he, hdo, hb, hc⟩
    refine ⟨e, m₂, reads_keyword_andThen hwhile he rfl, ?_⟩
    exact reads_map_iff.mpr ⟨b, reads_keyword_andThen hdo hb rfl, hc⟩

/-- A separator with a command behind it. -/
def member (body : Parser Tree) : Parser Tree := (symbol ";").andThen body

/-- A block reads a list of commands between braces. -/
theorem reads_block_iff : (block body).Reads s c r ↔
    ∃ m₁ cs m₂, Token ['\x7b'] s m₁ ∧ (sepBy body (symbol ";")).Reads m₁ cs m₂ ∧
      Token ['\x7d'] m₂ r ∧ .block cs = c := by
  apply reads_map_iff.trans
  constructor
  · rintro ⟨cs, h, hc⟩
    obtain ⟨m₂, h, hclose⟩ := exists_token_of_reads_skip h rfl
    obtain ⟨m₁, hopen, hcs⟩ := exists_token_of_reads h rfl
    exact ⟨m₁, cs, m₂, hopen, hcs, hclose, hc⟩
  · rintro ⟨m₁, cs, m₂, hopen, hcs, hclose, hc⟩
    exact ⟨cs, reads_skip_symbol (reads_symbol_andThen hopen hcs rfl) hclose rfl, hc⟩

/-- A list is empty, or a command and a chain of members up to where no member can be read. -/
theorem reads_sepBy_cases {cs : List Tree} (h : (sepBy body (symbol ";")).Reads s cs r) :
    (∃ c m cs', body.Reads s c m ∧ Chain (member body) m cs' r ∧ c :: cs' = cs) ∨
      cs = [] ∧ s = r := by
  rcases reads_orElse_iff.mp (reads_named_iff.mp h) with h | ⟨-, h⟩
  · obtain ⟨c, m, hc, h⟩ := reads_bind_iff.mp h
    obtain ⟨cs', hcs, he⟩ := reads_map_iff.mp h
    exact .inl ⟨c, m, cs', hc, ((reads_many_iff rfl).mp hcs).1, he⟩
  · obtain ⟨t, hs, hr⟩ := h
    obtain ⟨rfl, ht⟩ := Reply.ok.inj hr
    obtain rfl := List.length_eq_zero_iff.mp ht.symm
    exact .inr ⟨rfl, hs⟩

/-- Where no command begins the list is empty. -/
theorem reads_sepBy_nil (h : body.run s = .fail) : (sepBy body (symbol ";")).Reads s [] s :=
  reads_orElse_iff.mpr (.inr ⟨run_bind_eq_fail h, [], rfl, rfl⟩)

/-- A command and a chain of members are a list where no semicolon follows. -/
theorem reads_sepBy_cons {cs : List Tree} (hc : body.Reads s c m)
    (hcs : Chain (member body) m cs r) (hr : front r ≠ some ';') :
    (sepBy body (symbol ";")).Reads s (c :: cs) r := by
  have hend : (member body).run r = .fail :=
    run_bindAs_eq_fail (run_symbol_eq_fail_of_front hr rfl rfl)
  have hmany := (reads_many_iff rfl).mpr ⟨hcs, hend⟩
  exact reads_orElse_iff.mpr
    (.inl (reads_bind_iff.mpr ⟨c, m, hc, reads_map_iff.mpr ⟨cs, hmany, rfl⟩⟩))

end WhileSyntax.Grammar
