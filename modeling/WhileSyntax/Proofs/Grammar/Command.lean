import WhileSyntax.Proofs.Grammar.Expression
import WhileSyntax.Proofs.Grammar.Forms
import WhileSyntax.Proofs.Grammar.Nesting

/-!
# The command parser accepts its grammar

What the parser reads is derived in the grammar, and what is derived is read, as long as there are
levels for it and no operator follows.
-/

namespace WhileSyntax.Grammar

open WhileSyntax.Parser

variable {d n : Nat} {s m r : List Char} {c e : Tree}

/-! ## What is read is derived -/

/-- Without a level left, no command is read. -/
theorem not_reads_command_zero : ¬(command 0).Reads s c r := by
  rintro ⟨t, -, hr⟩
  cases hr

/-- Without a level left for its members, no block is read. -/
theorem not_reads_block_zero : ¬(block (command 0)).Reads s c r := by
  intro h
  obtain ⟨m₁, cs, m₂, -, ⟨t, -, hr⟩, -⟩ := reads_block_iff.mp h
  cases hr

private theorem members_of_chain {body : Parser Tree} {cs : List Tree}
    (hb : ∀ s c r, body.Reads s c r → DerivesCommand d s c r)
    (h : Chain (member body) s cs r) : Members d s cs r := by
  induction h with
  | nil s => exact .nil
  | cons hc _ _ ih =>
    obtain ⟨m, ht, hc⟩ := exists_token_of_reads hc rfl
    exact .cons ht (hb _ _ _ hc) ih

/-- What the command parser reads is derived, nested no deeper than its levels. -/
theorem derivesCommand_of_reads (n : Nat) :
    ∀ s c r, (command n).Reads s c r → DerivesCommand n s c r := by
  induction n with
  | zero => exact fun s c r h ↦ absurd h not_reads_command_zero
  | succ n ih =>
    intro s c r h
    have hexp : ∀ s e r, (expression n).Reads s e r → Derives (n + 1) 0 s e r :=
      fun s e r he ↦ (derives_of_reads n s e r he).mono (Nat.le_succ n)
    obtain ⟨p, hp, h⟩ := exists_form_of_reads h
    simp only [commandForms, List.mem_cons, List.not_mem_nil, or_false] at hp
    rcases hp with rfl | rfl | rfl | rfl
    · obtain ⟨x, m₁, m₂, e, hx, ht, he, rfl⟩ := reads_assign_iff.mp h
      exact .assign hx ht (hexp _ _ _ he)
    · obtain ⟨m₁, e, m₂, m₃, y, m₄, m₅, z, hif, he, hthen, hy, helse, hz, rfl⟩ :=
        reads_conditional_iff.mp h
      exact .conditional hif (hexp _ _ _ he) hthen (ih _ _ _ hy) helse (ih _ _ _ hz)
    · obtain ⟨m₁, e, m₂, m₃, b, hwhile, he, hdo, hb, rfl⟩ := reads_loop_iff.mp h
      exact .loop hwhile (hexp _ _ _ he) hdo (ih _ _ _ hb)
    · obtain ⟨m₁, cs, m₂, hopen, hcs, hclose, rfl⟩ := reads_block_iff.mp h
      rcases reads_sepBy_cases hcs with ⟨c, m, cs', hc, hchain, rfl⟩ | ⟨rfl, rfl⟩
      · exact .block hopen (ih _ _ _ hc) (members_of_chain ih hchain) hclose
      · exact .emptyBlock hopen hclose

/-! ## What is derived is read -/

/-- No operator stands where a word does. -/
theorem Follow.of_keyword {k : Nat} {w : String} (h : Keyword w s r)
    (hw : Text.isWord w.toList = true) : Follow k s := by
  obtain ⟨c, hc, hstart⟩ := h.1.front_of_isWord hw
  apply Follow.of_front
  rw [hc]
  rintro _ ⟨⟩
  exact isOperatorStart_eq_false_of_isWordPart (Text.isWordPart_of_isWordStart hstart)

private theorem not_name_of_keyword {k x : String} (h : Keyword k s m) (hx : Name x s r)
    (hk : Text.isWord k.toList = true)
    (hr : Text.isReserved k = true) : False := by
  obtain ⟨rfl, -⟩ := word_unique hx.2 h hx.1.1 hk
  rw [hx.1.2] at hr
  cases hr

/-- Where a word stands no brace opens. -/
theorem front_ne_brace_of_isWord {t : List Char} (h : Token t s r)
    (hw : Text.isWord t = true) : front s ≠ some '\x7b' := by
  obtain ⟨c, hc, hstart⟩ := h.front_of_isWord hw
  rw [hc]
  rintro ⟨⟩
  exact absurd hstart (by decide)

/-- In front of a name an assignment decides. -/
theorem run_command_of_name {x : String} (hx : Name x s m) :
    (command (n + 1)).run s = (assign (expression n)).run s := by
  apply run_command_eq_form (by simp [commandForms])
  intro q hq
  simp only [commandForms, List.mem_cons, List.not_mem_nil, or_false] at hq
  rcases hq with rfl | rfl | rfl | rfl
  · exact .inl rfl
  · right
    apply run_conditional_eq_fail
    intro r hk
    exact not_name_of_keyword hk hx rfl rfl
  · right
    apply run_loop_eq_fail
    intro r hk
    exact not_name_of_keyword hk hx rfl rfl
  · exact .inr (run_block_eq_fail (front_ne_brace_of_isWord hx.2.1 hx.1.1))

/-- In front of its keyword a conditional decides. -/
theorem run_command_of_if (hk : Keyword "if" s m) :
    (command (n + 1)).run s = (conditional (expression n) (command n)).run s := by
  apply run_command_eq_form (by simp [commandForms])
  intro q hq
  simp only [commandForms, List.mem_cons, List.not_mem_nil, or_false] at hq
  rcases hq with rfl | rfl | rfl | rfl
  · exact .inr (run_assign_eq_fail fun x r hx ↦ not_name_of_keyword hk hx rfl rfl)
  · exact .inl rfl
  · right
    apply run_loop_eq_fail
    intro r hk'
    exact absurd (word_unique hk hk' rfl rfl).1 (by decide)
  · exact .inr (run_block_eq_fail (front_ne_brace_of_isWord hk.1 rfl))

/-- In front of its keyword a loop decides. -/
theorem run_command_of_while (hk : Keyword "while" s m) :
    (command (n + 1)).run s = (loop (expression n) (command n)).run s := by
  apply run_command_eq_form (by simp [commandForms])
  intro q hq
  simp only [commandForms, List.mem_cons, List.not_mem_nil, or_false] at hq
  rcases hq with rfl | rfl | rfl | rfl
  · exact .inr (run_assign_eq_fail fun x r hx ↦ not_name_of_keyword hk hx rfl rfl)
  · right
    apply run_conditional_eq_fail
    intro r hk'
    exact absurd (word_unique hk hk' rfl rfl).1 (by decide)
  · exact .inl rfl
  · exact .inr (run_block_eq_fail (front_ne_brace_of_isWord hk.1 rfl))

/-- In front of its brace a block decides. -/
theorem run_command_of_brace (ht : Token ['\x7b'] s m) :
    (command (n + 1)).run s = (block (command n)).run s := by
  have hfront : front s = some '\x7b' := ht.front rfl
  apply run_command_eq_form (by simp [commandForms])
  intro q hq
  simp only [commandForms, List.mem_cons, List.not_mem_nil, or_false] at hq
  rcases hq with rfl | rfl | rfl | rfl
  · right
    apply run_assign_eq_fail
    intro x r hx
    exact front_ne_brace_of_isWord hx.2.1 hx.1.1 hfront
  · right
    apply run_conditional_eq_fail
    intro r hk
    exact front_ne_brace_of_isWord hk.1 rfl hfront
  · right
    apply run_loop_eq_fail
    intro r hk
    exact front_ne_brace_of_isWord hk.1 rfl hfront
  · exact .inl rfl

/-- An assignment is read in front of its name. -/
theorem reads_command_of_assign {x : String} {m' : List Char} (hx : Name x s m)
    (ht : Token ['='] m m') (he : (expression n).Reads m' e r) :
    (command (n + 1)).Reads s (.assign x e) r :=
  (reads_assign_iff.mpr ⟨_, _, _, _, hx, ht, he, rfl⟩).of_run_eq (run_command_of_name hx)

/-- A conditional is read in front of its keyword. -/
theorem reads_command_of_conditional {m₂ m₃ m₄ m₅ : List Char} {y z : Tree}
    (hif : Keyword "if" s m) (he : (expression n).Reads m e m₂) (hthen : Keyword "then" m₂ m₃)
    (hy : (command n).Reads m₃ y m₄) (helse : Keyword "else" m₄ m₅)
    (hz : (command n).Reads m₅ z r) : (command (n + 1)).Reads s (.conditional e y z) r :=
  (reads_conditional_iff.mpr ⟨_, _, _, _, _, _, _, _, hif, he, hthen, hy, helse, hz, rfl⟩).of_run_eq
    (run_command_of_if hif)

/-- A loop is read in front of its keyword. -/
theorem reads_command_of_loop {m₂ m₃ : List Char} {b : Tree} (hwhile : Keyword "while" s m)
    (he : (expression n).Reads m e m₂) (hdo : Keyword "do" m₂ m₃) (hb : (command n).Reads m₃ b r) :
    (command (n + 1)).Reads s (.loop e b) r :=
  (reads_loop_iff.mpr ⟨_, _, _, _, _, hwhile, he, hdo, hb, rfl⟩).of_run_eq
    (run_command_of_while hwhile)

/-- A block without members is read between its braces. -/
theorem reads_command_of_emptyBlock (hopen : Token ['\x7b'] s m) (hclose : Token ['\x7d'] m r) :
    (command (n + 2)).Reads s (.block []) r := by
  have hfail : (command (n + 1)).run m = .fail := by
    apply run_command_eq_fail
    rw [hclose.front rfl]
    rintro _ ⟨⟩
    decide
  exact (reads_block_iff.mpr ⟨_, _, _, hopen, reads_sepBy_nil hfail, hclose, rfl⟩).of_run_eq
    (run_command_of_brace hopen)

/-- A block is read between its braces. -/
theorem reads_command_of_block {m₂ m₃ : List Char} {cs : List Tree} (hopen : Token ['\x7b'] s m)
    (hc : (command n).Reads m c m₂) (hcs : Chain (member (command n)) m₂ cs m₃)
    (hclose : Token ['\x7d'] m₃ r) : (command (n + 1)).Reads s (.block (c :: cs)) r := by
  have hend : front m₃ ≠ some ';' := by
    rw [hclose.front rfl]
    decide
  exact (reads_block_iff.mpr ⟨_, _, _, hopen, reads_sepBy_cons hc hcs hend, hclose, rfl⟩).of_run_eq
    (run_command_of_brace hopen)

/-- A semicolon and a command are put in front of a chain of members. -/
theorem chain_member_cons {m' : List Char} {cs : List Tree} (ht : Token [';'] s m)
    (hc : (command n).Reads m c m') (h : Chain (member (command n)) m' cs r) :
    Chain (member (command n)) s (c :: cs) r := by
  have hlt := ht.length_lt (List.cons_ne_nil _ _)
  have hle := hc.length_le
  exact .cons (reads_symbol_andThen ht hc rfl) (by omega) h

mutual

/-- A derived command is read when no operator follows and there are two more levels than it
nests: one for the command itself and one for the expressions in it. -/
theorem reads_command_of_derives {d : Nat} {s r : List Char} {c : Tree} :
    DerivesCommand d s c r → ∀ {n}, Follow 0 r → d + 2 ≤ n → (command n).Reads s c r
  | .assign hx ht he, n, hf, hd => by
    obtain ⟨n, rfl⟩ := Nat.exists_eq_add_one.mpr (show 0 < n by omega)
    exact reads_command_of_assign hx ht (reads_expression_of_derives he hf (show d < n by omega))
  | .conditional hif he hthen hy helse hz, n, hf, hd => by
    obtain ⟨n, rfl⟩ := Nat.exists_eq_add_one.mpr (show 0 < n by omega)
    have he := reads_expression_of_derives he (.of_keyword hthen rfl)
      (n := n) (by omega)
    have hy := reads_command_of_derives hy (.of_keyword helse rfl) (n := n) (by omega)
    have hz := reads_command_of_derives hz hf (n := n) (by omega)
    exact reads_command_of_conditional hif he hthen hy helse hz
  | .loop hwhile he hdo hb, n, hf, hd => by
    obtain ⟨n, rfl⟩ := Nat.exists_eq_add_one.mpr (show 0 < n by omega)
    have he := reads_expression_of_derives he (.of_keyword hdo rfl) (n := n) (by omega)
    have hb := reads_command_of_derives hb hf (n := n) (by omega)
    exact reads_command_of_loop hwhile he hdo hb
  | .emptyBlock hopen hclose, n, _, hd => by
    obtain ⟨n, rfl⟩ : ∃ n', n = n' + 2 := ⟨n - 2, by omega⟩
    exact reads_command_of_emptyBlock hopen hclose
  | .block hopen hc hcs hclose, n, _, hd => by
    obtain ⟨n, rfl⟩ := Nat.exists_eq_add_one.mpr (show 0 < n by omega)
    obtain ⟨hchain, hm⟩ := chain_of_members hcs
      (.of_token hclose rfl rfl) (n := n) (by omega)
    have hc := reads_command_of_derives hc hm (n := n) (by omega)
    exact reads_command_of_block hopen hc hchain hclose

/-- Derived members are a chain, and no operator stands in front of them. -/
theorem chain_of_members {d : Nat} {s r : List Char} {cs : List Tree} :
    Members d s cs r → ∀ {n}, Follow 0 r → d + 2 ≤ n →
      Chain (member (command n)) s cs r ∧ Follow 0 s
  | .nil, _, hf, _ => ⟨.nil _, hf⟩
  | .cons ht hc hrest, n, hf, hd => by
    obtain ⟨hchain, hm⟩ := chain_of_members hrest hf hd
    have hc := reads_command_of_derives hc hm hd
    exact ⟨chain_member_cons ht hc hchain, .of_token ht rfl rfl⟩

end

/-- Behind a command that no operator follows one rest is left. -/
theorem DerivesCommand.unique {d' : Nat} {c' : Tree} {r' : List Char} (h : DerivesCommand d s c r)
    (h' : DerivesCommand d' s c' r') (hf : Follow 0 r) (hf' : Follow 0 r') : c = c' ∧ r = r' := by
  have hread := reads_command_of_derives h hf (show d + 2 ≤ max d d' + 2 by omega)
  exact hread.unique (reads_command_of_derives h' hf' (by omega))

end WhileSyntax.Grammar
