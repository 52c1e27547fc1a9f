import WhileSyntax.Proofs.Grammar.Extension

/-!
# Longer texts of commands

On longer texts commands get as far as before, too (`extends_command`). All parts of a command but
the last one end in front of a keyword, a semicolon or a brace, so they are read as before; only the
last part can go on in the longer text.
-/

namespace WhileSyntax.Grammar

open WhileSyntax.Parser

variable {inner body : Parser Tree} {n : Nat} {s m r f : List Char} {c e : Tree} {h : Halt}

/-! ## Halted forms -/

private theorem haltsWith_keyword_bind_iff {α β : Type} {p : Parser α} {next : α → Parser β}
    {k : String} (hp : Built p) (hk : Text.isWord k.toList = true) :
    (((keyword k).andThen p).bind next).HaltsWith h s ↔ ∃ m, Keyword k s m ∧
      (p.HaltsWith h m ∨ ∃ v r, p.Reads m v r ∧ (next v).HaltsWith h r) := by
  refine (haltsWith_bind_iff ((Built.keyword k).andThen hp)).trans ⟨?_, ?_⟩
  · rintro (hh | ⟨v, r, hr, hh⟩)
    · obtain ⟨m, hm, hh⟩ := (haltsWith_keyword_andThen_iff hk).mp hh
      exact ⟨m, hm, .inl hh⟩
    · obtain ⟨m, hm, hr⟩ := exists_keyword_of_reads hr hk
      exact ⟨m, hm, .inr ⟨v, r, hr, hh⟩⟩
  · rintro ⟨m, hm, hh | ⟨v, r, hr, hh⟩⟩
    · exact .inl ((haltsWith_keyword_andThen_iff hk).mpr ⟨m, hm, hh⟩)
    · exact .inr ⟨v, r, reads_keyword_andThen hm hr hk, hh⟩

/-- An assignment is halted by its expression. -/
theorem haltsWith_assign_iff : (assign inner).HaltsWith h s ↔
    ∃ x m₁, Name x s m₁ ∧ ∃ m₂, Token ['='] m₁ m₂ ∧ inner.HaltsWith h m₂ := by
  refine haltsWith_ident_bind_iff.trans ?_
  simp only [haltsWith_map_iff, haltsWith_symbol_andThen_iff (t := "=") rfl]
  rfl

/-- A conditional is halted by its condition or by one of its branches. -/
theorem haltsWith_conditional_iff (hi : Built inner) (hb : Built body) :
    (conditional inner body).HaltsWith h s ↔ ∃ m₁, Keyword "if" s m₁ ∧
      (inner.HaltsWith h m₁ ∨ ∃ e m₂, inner.Reads m₁ e m₂ ∧ ∃ m₃, Keyword "then" m₂ m₃ ∧
        (body.HaltsWith h m₃ ∨ ∃ y m₄, body.Reads m₃ y m₄ ∧ ∃ m₅, Keyword "else" m₄ m₅ ∧
          body.HaltsWith h m₅)) := by
  refine (haltsWith_keyword_bind_iff hi rfl).trans ?_
  simp only [haltsWith_keyword_bind_iff (k := "then") hb rfl, haltsWith_map_iff,
    haltsWith_keyword_andThen_iff (k := "else") rfl]

/-- A loop is halted by its condition or by its body. -/
theorem haltsWith_loop_iff (hi : Built inner) :
    (loop inner body).HaltsWith h s ↔ ∃ m₁, Keyword "while" s m₁ ∧
      (inner.HaltsWith h m₁ ∨ ∃ e m₂, inner.Reads m₁ e m₂ ∧ ∃ m₃, Keyword "do" m₂ m₃ ∧
        body.HaltsWith h m₃) := by
  refine (haltsWith_keyword_bind_iff hi rfl).trans ?_
  simp only [haltsWith_map_iff, haltsWith_keyword_andThen_iff (k := "do") rfl]

/-- Every member of a block shortens the text by its semicolon. -/
theorem advances_member (body : Parser Tree) : (member body).Advances := by
  intro s c r hr
  obtain ⟨m, ht, hc⟩ := exists_token_of_reads hr rfl
  have hlt := ht.length_lt (List.cons_ne_nil _ _)
  have hle := hc.length_le
  omega

/-- A list of commands is halted by its first command or by a command behind a semicolon. -/
theorem haltsWith_sepBy_iff (hb : Built body) :
    (sepBy body (symbol ";")).HaltsWith h s ↔ body.HaltsWith h s ∨
      ∃ c m, body.Reads s c m ∧ ∃ cs m', Chain (member body) m cs m' ∧
        ∃ m'', Token [';'] m' m'' ∧ body.HaltsWith h m'' := by
  have hlist : (sepBy body (symbol ";")).HaltsWith h s ↔
      (sepBy1 body (symbol ";")).HaltsWith h s := by
    refine haltsWith_orElse_iff.trans ⟨?_, .inl⟩
    rintro (hh | ⟨-, hh⟩)
    · exact hh
    · exact absurd hh.symm (h.reply_ne_ok _ _)
  have hmany : ∀ m, (many (member body)).HaltsWith h m ↔ ∃ cs m', Chain (member body) m cs m' ∧
      ∃ m'', Token [';'] m' m'' ∧ body.HaltsWith h m'' := by
    intro m
    have hbuilt : Built (member body) := (Built.symbol ";").andThen hb
    have hmember : ∀ m, (member body).HaltsWith h m ↔
        ∃ m', Token [';'] m m' ∧ body.HaltsWith h m' :=
      fun m ↦ haltsWith_symbol_andThen_iff rfl
    rw [many_of_consumes rfl, haltsWith_star_iff hbuilt (advances_member body)]
    simp only [hmember]
  refine hlist.trans ((haltsWith_bind_iff hb).trans (or_congr_right ?_))
  simp only [haltsWith_map_iff]
  exact exists_congr fun c ↦ exists_congr fun m ↦ and_congr_right fun _ ↦ hmany m

/-- A block is halted by the list of its members. -/
theorem haltsWith_block_iff (hb : Built body) : (block body).HaltsWith h s ↔
    ∃ m₁, Token ['\x7b'] s m₁ ∧ (sepBy body (symbol ";")).HaltsWith h m₁ := by
  have hlist := (Built.symbol "\x7b").andThen (hb.sepBy (Built.symbol ";"))
  have hskip := haltsWith_skip_iff (h := h) (s := s) hlist (definite_symbol "\x7d")
  exact haltsWith_map_iff.trans (hskip.trans (haltsWith_symbol_andThen_iff rfl))

/-! ## Longer texts, form by form -/

section Forms

variable (hc : Extends (command n)) (hf : Stops Text.isWordPart f) {why : Fault}
include hf

private theorem halts_append_of_assign (hh : (assign (expression n)).HaltsWith (.fault why) s) :
    (command (n + 1)).Halts (s ++ f) := by
  obtain ⟨x, m₁, hx, m₂, ht, hh⟩ := haltsWith_assign_iff.mp hh
  have hx := hx.portable.extend hf
  have ht := ht.portable.extend hf
  obtain ⟨h, hh⟩ := (extends_expression n m₂ f hf).1 ⟨why, hh⟩
  exact ⟨h, .of_run_eq (run_command_of_name hx) (haltsWith_assign_iff.mpr ⟨x, _, hx, _, ht, hh⟩)⟩

private theorem reaches_append_of_assign (hr : (assign (expression n)).Reads s c r) :
    (command (n + 1)).Reaches (s ++ f) (r ++ f).length := by
  obtain ⟨x, m₁, m₂, e, hx, ht, he, rfl⟩ := reads_assign_iff.mp hr
  have hx := hx.portable.extend hf
  have ht := ht.portable.extend hf
  rcases (extends_expression n m₂ f hf).2 _ _ he with ⟨h, hh⟩ | ⟨e', r', he', hl⟩
  · exact .inl ⟨h, .of_run_eq (run_command_of_name hx)
      (haltsWith_assign_iff.mpr ⟨x, _, hx, _, ht, hh⟩)⟩
  · exact .inr ⟨_, r', reads_command_of_assign hx ht he', hl⟩

include hc

private theorem halts_append_of_conditional
    (hh : (conditional (expression n) (command n)).HaltsWith (.fault why) s) :
    (command (n + 1)).Halts (s ++ f) := by
  have hbe := built_expression n
  have hbc := built_command n
  obtain ⟨m₁, hif, hh⟩ := (haltsWith_conditional_iff hbe hbc).mp hh
  have hif := hif.portable.extend hf
  suffices hform : (conditional (expression n) (command n)).Halts (s ++ f) by
    obtain ⟨h, hh⟩ := hform
    exact ⟨h, hh.of_run_eq (run_command_of_if hif)⟩
  rcases hh with hh | ⟨e, m₂, hread, m₃, hthen, hh⟩
  · obtain ⟨h, hh⟩ := (extends_expression n m₁ f hf).1 ⟨why, hh⟩
    exact ⟨h, (haltsWith_conditional_iff hbe hbc).mpr ⟨_, hif, .inl hh⟩⟩
  have hthen := hthen.portable.extend hf
  have hread := (local_expression n _ _ _ hread).extend hf (.of_keyword hthen rfl)
  rcases hh with hh | ⟨y, m₄, hready, m₅, helse, hh⟩
  · obtain ⟨h, hh⟩ := (hc m₃ f hf).1 ⟨why, hh⟩
    exact ⟨h, (haltsWith_conditional_iff hbe hbc).mpr
      ⟨_, hif, .inr ⟨e, _, hread, _, hthen, .inl hh⟩⟩⟩
  have helse := helse.portable.extend hf
  have hready := (local_command n _ _ _ hready).extend hf (.of_keyword helse rfl)
  obtain ⟨h, hh⟩ := (hc m₅ f hf).1 ⟨why, hh⟩
  exact ⟨h, (haltsWith_conditional_iff hbe hbc).mpr
    ⟨_, hif, .inr ⟨e, _, hread, _, hthen, .inr ⟨y, _, hready, _, helse, hh⟩⟩⟩⟩

private theorem reaches_append_of_conditional
    (hr : (conditional (expression n) (command n)).Reads s c r) :
    (command (n + 1)).Reaches (s ++ f) (r ++ f).length := by
  obtain ⟨m₁, e, m₂, m₃, y, m₄, m₅, z, hif, he, hthen, hy, helse, hz, rfl⟩ :=
    reads_conditional_iff.mp hr
  have hif := hif.portable.extend hf
  have hthen := hthen.portable.extend hf
  have helse := helse.portable.extend hf
  have he := (local_expression n _ _ _ he).extend hf (.of_keyword hthen rfl)
  have hy := (local_command n _ _ _ hy).extend hf (.of_keyword helse rfl)
  rcases (hc m₅ f hf).2 _ _ hz with ⟨h, hh⟩ | ⟨z', r', hz', hl⟩
  · refine .inl ⟨h, .of_run_eq (run_command_of_if hif) ?_⟩
    exact (haltsWith_conditional_iff (built_expression n) (built_command n)).mpr
      ⟨_, hif, .inr ⟨e, _, he, _, hthen, .inr ⟨y, _, hy, _, helse, hh⟩⟩⟩
  · exact .inr ⟨_, r', reads_command_of_conditional hif he hthen hy helse hz', hl⟩

private theorem halts_append_of_loop
    (hh : (loop (expression n) (command n)).HaltsWith (.fault why) s) :
    (command (n + 1)).Halts (s ++ f) := by
  obtain ⟨m₁, hwhile, hh⟩ := (haltsWith_loop_iff (built_expression n)).mp hh
  have hwhile := hwhile.portable.extend hf
  suffices hform : (loop (expression n) (command n)).Halts (s ++ f) by
    obtain ⟨h, hh⟩ := hform
    exact ⟨h, hh.of_run_eq (run_command_of_while hwhile)⟩
  rcases hh with hh | ⟨e, m₂, hread, m₃, hdo, hh⟩
  · obtain ⟨h, hh⟩ := (extends_expression n m₁ f hf).1 ⟨why, hh⟩
    exact ⟨h, (haltsWith_loop_iff (built_expression n)).mpr ⟨_, hwhile, .inl hh⟩⟩
  have hdo := hdo.portable.extend hf
  have hread := (local_expression n _ _ _ hread).extend hf (.of_keyword hdo rfl)
  obtain ⟨h, hh⟩ := (hc m₃ f hf).1 ⟨why, hh⟩
  exact ⟨h, (haltsWith_loop_iff (built_expression n)).mpr
    ⟨_, hwhile, .inr ⟨e, _, hread, _, hdo, hh⟩⟩⟩

private theorem reaches_append_of_loop (hr : (loop (expression n) (command n)).Reads s c r) :
    (command (n + 1)).Reaches (s ++ f) (r ++ f).length := by
  obtain ⟨m₁, e, m₂, m₃, b, hwhile, he, hdo, hb, rfl⟩ := reads_loop_iff.mp hr
  have hwhile := hwhile.portable.extend hf
  have hdo := hdo.portable.extend hf
  have he := (local_expression n _ _ _ he).extend hf (.of_keyword hdo rfl)
  rcases (hc m₃ f hf).2 _ _ hb with ⟨h, hh⟩ | ⟨b', r', hb', hl⟩
  · refine .inl ⟨h, .of_run_eq (run_command_of_while hwhile) ?_⟩
    exact (haltsWith_loop_iff (built_expression n)).mpr
      ⟨_, hwhile, .inr ⟨e, _, he, _, hdo, hh⟩⟩
  · exact .inr ⟨_, r', reads_command_of_loop hwhile he hdo hb', hl⟩

private theorem halts_append_of_block (hh : (block (command n)).HaltsWith (.fault why) s) :
    (command (n + 1)).Halts (s ++ f) := by
  have hbc := built_command n
  obtain ⟨m₁, hopen, hh⟩ := (haltsWith_block_iff hbc).mp hh
  have hopen := hopen.portable.extend hf
  suffices hlist : (sepBy (command n) (symbol ";")).Halts (m₁ ++ f) by
    obtain ⟨h, hh⟩ := hlist
    exact ⟨h, .of_run_eq (run_command_of_brace hopen)
      ((haltsWith_block_iff hbc).mpr ⟨_, hopen, hh⟩)⟩
  rcases (haltsWith_sepBy_iff hbc).mp hh with hh | ⟨c, m, hread, cs, m', hchain, m'', ht, hh⟩
  · obtain ⟨h, hh⟩ := (hc m₁ f hf).1 ⟨why, hh⟩
    exact ⟨h, (haltsWith_sepBy_iff hbc).mpr (.inl hh)⟩
  have ht := ht.portable.extend hf
  obtain ⟨hchain, hnext⟩ :=
    (portable_chain (local_command n) hchain).extend hf (.of_token ht rfl rfl)
  have hread := (local_command n _ _ _ hread).extend hf hnext
  obtain ⟨h, hh⟩ := (hc m'' f hf).1 ⟨why, hh⟩
  exact ⟨h, (haltsWith_sepBy_iff hbc).mpr (.inr ⟨c, _, hread, cs, _, hchain, _, ht, hh⟩)⟩

end Forms

/-- On longer texts commands get as far as before. -/
theorem extends_command (n : Nat) : Extends (command n) := by
  induction n with
  | zero =>
    intro s f _
    refine ⟨?_, fun c r h ↦ absurd h not_reads_command_zero⟩
    rintro ⟨why, hh⟩
    cases hh
  | succ n ih =>
    intro s f hf
    constructor
    · rintro ⟨why, hh⟩
      obtain ⟨p, hp, hh⟩ : ∃ p ∈ commandForms (expression n) (command n),
          p.HaltsWith (.fault why) s :=
        exists_haltsWith_of_choice (hh.of_run_eq (run_command_succ n s).symm)
      simp only [commandForms, List.mem_cons, List.not_mem_nil, or_false] at hp
      rcases hp with rfl | rfl | rfl | rfl
      · exact halts_append_of_assign hf hh
      · exact halts_append_of_conditional ih hf hh
      · exact halts_append_of_loop ih hf hh
      · exact halts_append_of_block ih hf hh
    · intro c r hr
      obtain ⟨p, hp, hr⟩ := exists_form_of_reads hr
      simp only [commandForms, List.mem_cons, List.not_mem_nil, or_false] at hp
      rcases hp with rfl | rfl | rfl | rfl
      · exact reaches_append_of_assign hf hr
      · exact reaches_append_of_conditional ih hf hr
      · exact reaches_append_of_loop ih hf hr
      · exact reaches_of_reads ((portable_block (local_command n) hr).extend hf)

end WhileSyntax.Grammar
