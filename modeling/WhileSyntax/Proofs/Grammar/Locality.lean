import WhileSyntax.Proofs.Grammar.Command
import WhileSyntax.Proofs.Grammar.Phrase

/-!
# Other text behind

What is read does not depend on the text behind it, as long as that text goes on with neither the
last word nor the expression: expressions and commands are read with the same number of levels in
front of any other such text (`local_expression`, `local_command`).
-/

namespace WhileSyntax.Grammar

open WhileSyntax.Parser

variable {inner : Parser Tree} {k n : Nat} {s m r f t : List Char} {e c : Tree}

/-! ## Tokens -/

/-- Text `f` may stand in the place of `r`: it begins with the same character, or with one that goes
on with no word. -/
def Replaces (f r : List Char) : Prop := f.head? = r.head? ∨ Stops Text.isWordPart f

namespace Replaces

private theorem stops_word (h : Replaces f r) (hr : Stops Text.isWordPart r) :
    Stops Text.isWordPart f := by
  rcases h with h | h
  · rw [Stops, h]
    exact hr
  · exact h

/-- Where numbers end, they end with the other text, too. -/
theorem stops_digit (h : Replaces f r) (hr : Stops Char.isDigit r) : Stops Char.isDigit f := by
  rcases h with h | h
  · rw [Stops, h]
    exact hr
  · exact h.digit

private theorem append (h : Replaces f r) (t : List Char) : Replaces (t ++ f) (t ++ r) := by
  cases t with
  | nil => exact h
  | cons c t => exact .inl rfl

/-- More text behind replaces nothing but the end. -/
theorem of_append (r : List Char) (hf : Stops Text.isWordPart f) : Replaces (r ++ f) r := by
  cases r with
  | nil => exact .inr hf
  | cons c r => exact .inl rfl

end Replaces

/-- What relates `s` to its rest `r` relates the text in front of `r` to any text that may stand in
the place of `r`. -/
def Portable (P : List Char → List Char → Prop) (s r : List Char) : Prop :=
  ∃ t, s = t ++ r ∧ ∀ f, Replaces f r → P (t ++ f) f

namespace Portable

variable {P Q : List Char → List Char → Prop}

/-- Nothing is in front of the rest. -/
theorem refl (h : ∀ f, P f f) (s : List Char) : Portable P s s := ⟨[], rfl, fun f _ ↦ h f⟩

/-- Parts one after the other are carried over together. -/
theorem seq (hp : Portable P s m) (hq : Portable Q m r) :
    Portable (fun s r ↦ ∃ m, P s m ∧ Q m r) s r := by
  obtain ⟨t, rfl, hp⟩ := hp
  obtain ⟨t', rfl, hq⟩ := hq
  refine ⟨t ++ t', by rw [List.append_assoc], fun f hf ↦ ⟨t' ++ f, ?_, hq f hf⟩⟩
  rw [List.append_assoc]
  exact hp (t' ++ f) (hf.append t')

/-- What follows from a relation that is carried over is carried over. -/
theorem imp (h : Portable P s r) (hpq : ∀ s r, P s r → Q s r) : Portable Q s r := by
  obtain ⟨t, hs, h⟩ := h
  exact ⟨t, hs, fun f hf ↦ hpq _ _ (h f hf)⟩

end Portable

/-- A token does not depend on what is behind it. -/
theorem Token.portable (h : Token t s r) : Portable (Token t) s r := by
  obtain ⟨u, hu, rfl⟩ := h
  exact ⟨u ++ t, rfl, fun f _ ↦ ⟨u, hu, rfl⟩⟩

/-- A keyword is a token in front of a text that does not go on with it. -/
theorem Keyword.portable {w : String} (h : Keyword w s r) : Portable (Keyword w) s r := by
  obtain ⟨t, hs, ht⟩ := h.1.portable
  exact ⟨t, hs, fun f hf ↦ ⟨ht f hf, hf.stops_word h.2⟩⟩

/-- A name is a token in front of a text that does not go on with it. -/
theorem Name.portable {x : String} (h : Name x s r) : Portable (Name x) s r :=
  (Keyword.portable h.2).imp fun _ _ hk ↦ ⟨h.1, hk⟩

/-- A numeral is a token in front of a text that does not go on with it. -/
theorem Numeral.portable (h : Numeral n s r) : Portable (Numeral n) s r := by
  obtain ⟨digits, hne, hall, hl, hn, ht, hr⟩ := h
  obtain ⟨t, hs, ht⟩ := ht.portable
  exact ⟨t, hs, fun f hf ↦ ⟨digits, hne, hall, hl, hn, ht f hf, hf.stops_digit hr⟩⟩

/-! ## Expressions -/

/-- A parser reads a value in front of any text that may stand in the place of the rest and does not
begin with an operator. -/
def Local {α : Type} (p : Parser α) : Prop :=
  ∀ s v r, p.Reads s v r → Portable (fun s r ↦ Follow 0 r → p.Reads s v r) s r

/-- Phrases do not depend on what is behind them. -/
theorem Phrase.portable (hi : Local inner) (h : Phrase inner k s e r) :
    Portable (Phrase inner k · e ·) s r := by
  induction h with
  | number hn => exact hn.portable.imp fun _ _ ↦ .number
  | name hx => exact hx.portable.imp fun _ _ ↦ .name
  | parens ho he hc =>
    refine (ho.portable.seq ((hi _ _ _ he).seq hc.portable)).imp ?_
    rintro s r ⟨m₁, ho, m₂, he, hc⟩
    exact .parens ho (he (.of_token hc rfl rfl)) hc
  | atom _ ih => exact ih.imp fun _ _ ↦ .atom
  | negName ht hx =>
    refine (ht.portable.seq hx.portable).imp ?_
    rintro s r ⟨m, ht, hx⟩
    exact .negName ht hx
  | negNumber ht ho hn hc =>
    refine (ht.portable.seq (ho.portable.seq (hn.portable.seq hc.portable))).imp ?_
    rintro s r ⟨m₁, ht, m₂, ho, m₃, hn, hc⟩
    exact .negNumber ht ho hn hc
  | negParens ht ho he hc =>
    refine (ht.portable.seq (ho.portable.seq ((hi _ _ _ he).seq hc.portable))).imp ?_
    rintro s r ⟨m₁, ht, m₂, ho, m₃, he, hc⟩
    exact .negParens ht ho (he (.of_token hc rfl rfl)) hc
  | operand hk _ ih => exact ih.imp fun _ _ ↦ .operand hk
  | binary hk hop _ ht _ iha ihb =>
    refine (iha.seq (ht.portable.seq ihb)).imp ?_
    rintro s r ⟨m, ha, m', ht, hb⟩
    exact .binary hk hop ha ht hb

/-- Expressions are read in front of any text that does not go on with them. -/
theorem local_expression (n : Nat) : Local (expression n) := by
  induction n with
  | zero => exact fun s e r h ↦ absurd h not_reads_expression_zero
  | succ n ih =>
    intro s e r h
    have hphrase := phrase_of_reads (Nat.zero_le 5) (reads_expression_succ_iff.mp h)
    exact (hphrase.portable ih).imp fun _ _ h hf ↦ reads_expression_succ_iff.mpr (h.reads hf)

/-! ## Commands -/

/-- Members of a block are read in front of any text that does not go on with them. In front of them
no operator stands. -/
theorem portable_chain {cs : List Tree} (hb : Local inner) (h : Chain (member inner) s cs r) :
    Portable (fun s r ↦ Follow 0 r → Chain (member inner) s cs r ∧ Follow 0 s) s r := by
  induction h with
  | nil s => exact .refl (fun f hf ↦ ⟨.nil f, hf⟩) s
  | cons hc _ _ ih =>
    obtain ⟨m, ht, hc⟩ := exists_token_of_reads hc rfl
    refine (ht.portable.seq ((hb _ _ _ hc).seq ih)).imp ?_
    rintro s r ⟨m, ht, m', hc, h⟩ hf
    obtain ⟨hchain, hnext⟩ := h hf
    have hlt := ht.length_lt (List.cons_ne_nil _ _)
    have hle := (hc hnext).length_le
    exact ⟨.cons (reads_symbol_andThen ht (hc hnext) rfl) (by omega) hchain, .of_token ht rfl rfl⟩

/-- A block is read in front of any text, because its closing brace ends it. -/
theorem portable_block (hb : Local (command n)) (h : (block (command n)).Reads s c r) :
    Portable (fun s r ↦ (command (n + 1)).Reads s c r) s r := by
  obtain ⟨m₁, cs, m₂, hopen, hcs, hclose, rfl⟩ := reads_block_iff.mp h
  rcases reads_sepBy_cases hcs with ⟨c, m, cs', hc, hchain, rfl⟩ | ⟨rfl, rfl⟩
  · refine (hopen.portable.seq ((hb _ _ _ hc).seq ((portable_chain hb hchain).seq
      hclose.portable))).imp ?_
    rintro s r ⟨m₁, hopen, m₂, hc, m₃, hchain, hclose⟩
    obtain ⟨hchain, hnext⟩ := hchain (.of_token hclose rfl rfl)
    exact reads_command_of_block hopen (hc hnext) hchain hclose
  · cases n with
    | zero => exact absurd h not_reads_block_zero
    | succ n =>
      refine (hopen.portable.seq hclose.portable).imp ?_
      rintro s r ⟨m, hopen, hclose⟩
      exact reads_command_of_emptyBlock hopen hclose

/-- Commands are read in front of any text that does not go on with them. -/
theorem local_command (n : Nat) : Local (command n) := by
  induction n with
  | zero => exact fun s c r h ↦ absurd h not_reads_command_zero
  | succ n ih =>
    intro s c r h
    have hexp := local_expression n
    obtain ⟨p, hp, h⟩ := exists_form_of_reads h
    simp only [commandForms, List.mem_cons, List.not_mem_nil, or_false] at hp
    rcases hp with rfl | rfl | rfl | rfl
    · obtain ⟨x, m₁, m₂, e, hx, ht, he, rfl⟩ := reads_assign_iff.mp h
      refine (hx.portable.seq (ht.portable.seq (hexp _ _ _ he))).imp ?_
      rintro s r ⟨m₁, hx, m₂, ht, he⟩ hf
      exact reads_command_of_assign hx ht (he hf)
    · obtain ⟨m₁, e, m₂, m₃, y, m₄, m₅, z, hif, he, hthen, hy, helse, hz, rfl⟩ :=
        reads_conditional_iff.mp h
      refine (hif.portable.seq ((hexp _ _ _ he).seq (hthen.portable.seq ((ih _ _ _ hy).seq
        (helse.portable.seq (ih _ _ _ hz)))))).imp ?_
      rintro s r ⟨m₁, hif, m₂, he, m₃, hthen, m₄, hy, m₅, helse, hz⟩ hf
      exact reads_command_of_conditional hif (he (.of_keyword hthen rfl)) hthen
        (hy (.of_keyword helse rfl)) helse (hz hf)
    · obtain ⟨m₁, e, m₂, m₃, b, hwhile, he, hdo, hb, rfl⟩ := reads_loop_iff.mp h
      refine (hwhile.portable.seq ((hexp _ _ _ he).seq (hdo.portable.seq (ih _ _ _ hb)))).imp ?_
      rintro s r ⟨m₁, hwhile, m₂, he, m₃, hdo, hb⟩ hf
      exact reads_command_of_loop hwhile (he (.of_keyword hdo rfl)) hdo (hb hf)
    · exact (portable_block ih h).imp fun _ _ h _ ↦ h

end WhileSyntax.Grammar
