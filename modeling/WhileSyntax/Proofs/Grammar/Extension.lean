import WhileSyntax.Proofs.Grammar.Locality
import WhileSyntax.Proofs.Grammar.Nesting
import WhileSyntax.Proofs.Parser.Halting

/-!
# Longer texts

What becomes of a run when text is put behind the one that was read, none that goes on with the last
word. Where the run read something, the run on the longer text reads at least as far or is halted,
and where the run met a fault, the run on the longer text is halted as well (`extends_expression`).
So text that is cut off at the end of a word never lets a parser read further.
-/

namespace WhileSyntax.Grammar

open WhileSyntax.Parser

variable {inner : Parser Tree} {k n : Nat} {s m r f : List Char} {e : Tree} {h : Halt}

/-- On a longer text a parser gets at least as far, and a fault stays a reason to halt. -/
def Extends {α : Type} (p : Parser α) : Prop :=
  ∀ s f, Stops Text.isWordPart f →
    (p.Faults s → p.Halts (s ++ f)) ∧
      ∀ v r, p.Reads s v r → p.Reaches (s ++ f) (r ++ f).length

/-- What does not depend on the text behind stays when there is more of it. -/
theorem Portable.extend {P : List Char → List Char → Prop} (hp : Portable P s r)
    (hf : Stops Text.isWordPart f) : P (s ++ f) (r ++ f) := by
  obtain ⟨t, rfl, hp⟩ := hp
  rw [List.append_assoc]
  exact hp (r ++ f) (.of_append r hf)

/-- What is read up to the same place on a longer text gets as far there. -/
theorem reaches_of_reads {α : Type} {p : Parser α} {v : α} (hr : p.Reads s v r) :
    p.Reaches s r.length :=
  .inr ⟨v, r, hr, Nat.le_refl _⟩

/-! ## Atoms and unary minus -/

/-- Parentheses are halted by what stands in them. -/
theorem haltsWith_parens_iff {α : Type} {p : Parser α} (hp : Built p) :
    (parens p).HaltsWith h s ↔ ∃ m, Token ['('] s m ∧ p.HaltsWith h m :=
  (haltsWith_skip_iff ((Built.symbol "(").andThen hp) (definite_symbol ")")).trans
    (haltsWith_symbol_andThen_iff rfl)

/-- A minus is halted by what stands behind it. -/
theorem haltsWith_minus_iff {p : Parser Tree} :
    (((symbol "-").andThen p).map Tree.neg).HaltsWith h s ↔
      ∃ m, Token ['-'] s m ∧ p.HaltsWith h m :=
  haltsWith_map_iff.trans (haltsWith_symbol_andThen_iff rfl)

/-- A parenthesis behind a minus is halted by what stands in it. -/
theorem haltsWith_negParens {p : Parser Tree} (hp : Built p) {m₁ m₂ : List Char}
    (ht : Token ['-'] s m₁) (ho : Token ['('] m₁ m₂) (hh : p.HaltsWith h m₂) :
    (((symbol "-").andThen (parens p)).map Tree.neg).HaltsWith h s :=
  haltsWith_minus_iff.mpr ⟨m₁, ht, (haltsWith_parens_iff hp).mpr ⟨m₂, ho, hh⟩⟩

private theorem not_haltsWith_var : ¬var.HaltsWith h s := by
  intro hh
  exact ((definite_word.filter _).token).not_haltsWith (haltsWith_map_iff.mp hh)

/-- Constants are halted by their numerals. -/
theorem haltsWith_const_iff : const.HaltsWith h s ↔ ∃ digits r, LongNumeral digits s r ∧
    h = .fault (.numeral (.tooLongToRead digits.length)) :=
  haltsWith_map_iff.trans haltsWith_number_iff

private theorem portable_longNumeral {digits : List Char} (hd : LongNumeral digits s r) :
    Portable (LongNumeral digits) s r := by
  obtain ⟨hne, hall, hl, ht, hr⟩ := hd
  obtain ⟨t, hs, ht⟩ := ht.portable
  exact ⟨t, hs, fun f hf ↦ ⟨hne, hall, hl, ht f hf, hf.stops_digit hr⟩⟩

private theorem haltsWith_const_append (hh : const.HaltsWith h s) (hf : Stops Text.isWordPart f) :
    const.HaltsWith h (s ++ f) := by
  obtain ⟨digits, r, hd, rfl⟩ := haltsWith_const_iff.mp hh
  exact haltsWith_const_iff.mpr ⟨digits, r ++ f, (portable_longNumeral hd).extend hf, rfl⟩

private theorem front_of_haltsWith_const (hh : const.HaltsWith h s) :
    ∃ c, front s = some c ∧ c.isDigit = true := by
  by_contra hd
  refine hh.ne_fail (run_const_eq_fail fun c hc ↦ ?_)
  by_contra hne
  exact hd ⟨c, hc, Bool.not_eq_false _ ▸ hne⟩

/-- Atoms are halted in parentheses or by a numeral. -/
theorem haltsWith_atom_iff (hb : Built inner) : (atom inner).HaltsWith h s ↔
    (∃ m, Token ['('] s m ∧ inner.HaltsWith h m) ∨ const.HaltsWith h s := by
  have hatom : (atom inner).HaltsWith h s ↔
      ((parens inner).HaltsWith h s ∨ (parens inner).run s = .fail ∧ var.HaltsWith h s) ∨
        ((parens inner).orElse var).run s = .fail ∧ const.HaltsWith h s :=
    haltsWith_orElse_iff.trans (or_congr_left haltsWith_orElse_iff)
  rw [hatom, haltsWith_parens_iff hb]
  constructor
  · rintro ((hp | ⟨-, hv⟩) | ⟨-, hc⟩)
    · exact .inl hp
    · exact absurd hv not_haltsWith_var
    · exact .inr hc
  · rintro (hp | hc)
    · exact .inl (.inl hp)
    · obtain ⟨c, hs, hd⟩ := front_of_haltsWith_const hc
      have hparens : (parens inner).run s = .fail := by
        apply run_parens_eq_fail
        rw [hs]
        rintro ⟨⟩
        exact absurd hd (by decide)
      have hvar : var.run s = .fail := by
        apply run_var_eq_fail
        rw [hs]
        rintro _ ⟨⟩
        exact isWordStart_eq_false_of_isDigit hd
      refine .inr ⟨?_, hc⟩
      rw [run_orElse, hparens, hvar]
      rfl

/-- Unary minus is halted by what stands in parentheses behind the minus, or as an atom. -/
theorem haltsWith_unary_cases (hb : Built inner) (hh : (unary inner).HaltsWith h s) :
    (∃ m₁ m₂, Token ['-'] s m₁ ∧ Token ['('] m₁ m₂ ∧
      (const.HaltsWith h m₂ ∨ inner.HaltsWith h m₂)) ∨ (atom inner).HaltsWith h s := by
  obtain ⟨q, hq, hh⟩ : ∃ q ∈ unaryForms inner, q.HaltsWith h s := exists_haltsWith_of_choice hh
  simp only [unaryForms, List.mem_cons, List.not_mem_nil, or_false] at hq
  rcases hq with rfl | rfl | rfl | rfl
  · obtain ⟨m, -, hv⟩ := haltsWith_minus_iff.mp hh
    exact absurd hv not_haltsWith_var
  · obtain ⟨m₁, ht, hp⟩ := haltsWith_minus_iff.mp hh
    obtain ⟨m₂, ho, hc⟩ := (haltsWith_parens_iff built_const).mp hp
    exact .inl ⟨m₁, m₂, ht, ho, .inl hc⟩
  · obtain ⟨m₁, ht, hp⟩ := haltsWith_minus_iff.mp hh
    obtain ⟨m₂, ho, hi⟩ := (haltsWith_parens_iff hb).mp hp
    exact .inl ⟨m₁, m₂, ht, ho, .inr hi⟩
  · exact .inr hh

private theorem run_negVar_eq_fail {m₁ m₂ : List Char} (ht : Token ['-'] s m₁)
    (ho : Token ['('] m₁ m₂) : (((symbol "-").andThen var).map Tree.neg).run s = .fail := by
  refine run_minus_eq_fail_of_token ht (run_var_eq_fail ?_)
  rw [ho.front rfl]
  rintro _ ⟨⟩
  decide

/-- A numeral beyond the limit in parentheses behind a minus halts unary minus. -/
theorem haltsWith_unary_of_const {m₁ m₂ : List Char} (ht : Token ['-'] s m₁)
    (ho : Token ['('] m₁ m₂) (hc : const.HaltsWith h m₂) : (unary inner).HaltsWith h s := by
  have hh := haltsWith_negParens built_const ht ho hc
  rw [HaltsWith, unary, run_named, run_choice_cons, run_negVar_eq_fail ht ho, run_choice_cons]
  exact Halt.orElse_eq_iff.mpr (.inr ⟨rfl, Halt.orElse_eq_iff.mpr (.inl hh)⟩)

/-- Parentheses behind a minus halt unary minus when they hold no constant. -/
theorem haltsWith_unary_of_inner (hb : Built inner) {m₁ m₂ : List Char} (ht : Token ['-'] s m₁)
    (ho : Token ['('] m₁ m₂) (hi : inner.HaltsWith h m₂) (hc : (parens const).run m₁ = .fail) :
    (unary inner).HaltsWith h s := by
  have hh := haltsWith_negParens hb ht ho hi
  apply hh.of_run_eq
  apply run_unary_eq (by simp [unaryForms])
  intro q hq
  simp only [unaryForms, List.mem_cons, List.not_mem_nil, or_false] at hq
  rcases hq with rfl | rfl | rfl | rfl
  · exact .inr (run_negVar_eq_fail ht ho)
  · exact .inr (run_minus_eq_fail_of_token ht hc)
  · exact .inl rfl
  · exact .inr (run_atom_eq_fail_of_minus (ht.front rfl))

/-- An atom that is halted halts unary minus. -/
theorem haltsWith_unary_of_atom (hh : (atom inner).HaltsWith h s) :
    (unary inner).HaltsWith h s := by
  refine hh.of_run_eq (run_unary_eq_atom fun hs ↦ ?_)
  exact hh.ne_fail (run_atom_eq_fail_of_minus hs)

private theorem number_cases (s : List Char) : Stops Char.isDigit (skipBlank s) ∨
    (∃ n r, Numeral n s r) ∨ ∃ digits r, LongNumeral digits s r := by
  by_cases hstop : Stops Char.isDigit (skipBlank s)
  · exact .inl hstop
  · have hs := List.takeWhile_append_dropWhile (p := Char.isDigit) (l := skipBlank s)
    have hall : ∀ c ∈ (skipBlank s).takeWhile Char.isDigit, c.isDigit = true :=
      fun _ hc ↦ List.mem_takeWhile_imp hc
    have hend := stops_dropWhile Char.isDigit (skipBlank s)
    have hne : (skipBlank s).takeWhile Char.isDigit ≠ [] := by
      intro hnil
      rw [hnil, List.nil_append] at hs
      rw [← hs] at hstop
      exact hstop hend
    have ht := (Token.iff_skipBlank (isSolid_of_digits hne hall)).mpr hs.symm
    by_cases hl : ((skipBlank s).takeWhile Char.isDigit).length ≤ Text.Decimal.digitLimit
    · exact .inr (.inl ⟨_, _, _, hne, hall, hl, rfl, ht, hend⟩)
    · exact .inr (.inr ⟨_, _, hne, hall, Nat.lt_of_not_le hl, ht, hend⟩)

private theorem skipBlank_append_of_ne_nil (hs : skipBlank s ≠ []) (f : List Char) :
    skipBlank (s ++ f) = skipBlank s ++ f := by
  rw [skipBlank, List.dropWhile_append, if_neg]
  · rfl
  · rwa [List.isEmpty_iff]

private theorem skipBlank_append_of_haltsWith (hh : (tier inner 0).HaltsWith h s) (f : List Char) :
    skipBlank (s ++ f) = skipBlank s ++ f := by
  refine skipBlank_append_of_ne_nil (fun hnil ↦ ?_) f
  refine hh.ne_fail (run_tier_eq_fail (by omega) ?_)
  rw [front, hnil]
  rintro _ ⟨⟩

private theorem follow_of_append_close (hc : Token [')'] (r ++ f) m) : Follow k r := by
  by_cases hr : skipBlank r = []
  · exact .of_blank (skipBlank_eq_nil_iff.mp hr)
  · apply Follow.of_front
    have hfront : front (r ++ f) = front r := by
      rw [front, skipBlank_append_of_ne_nil hr, List.head?_append_of_ne_nil _ hr]
      rfl
    rw [← hfront, hc.front rfl]
    rintro _ ⟨⟩
    decide

private theorem run_parens_const_append {m₁ m₂ : List Char} (hi : (expression n).Faults m₂)
    (hc : ¬const.Faults m₂) (ho : Token ['('] m₁ m₂) (hf : Stops Text.isWordPart f) :
    (parens const).run (m₁ ++ f) = .fail := by
  obtain ⟨why, hi⟩ := hi
  cases n with
  | zero => cases hi
  | succ n =>
    have hi : (tier (expression n) 0).HaltsWith (.fault why) m₂ := hi
    have ho := ho.portable.extend hf
    rcases number_cases m₂ with hstop | ⟨v, r, hn⟩ | ⟨digits, r, hd⟩
    · have hfail : const.run (m₂ ++ f) = .fail := by
        refine run_const_eq_fail ?_
        rw [front, skipBlank_append_of_haltsWith hi f]
        exact (Replaces.of_append (skipBlank m₂) hf).stops_digit hstop
      rcases run_parens_cases ho (.inl hfail) with hfail | ⟨_, _, _, hr, -⟩
      · exact hfail
      · exact absurd hfail hr.ne_fail
    · have hread : const.Reads (m₂ ++ f) (.const v) (r ++ f) :=
        reads_const_iff.mpr ⟨v, hn.portable.extend hf, rfl⟩
      rcases run_parens_cases ho (.inr ⟨_, _, hread⟩) with hfail | ⟨_, _, m, hr, hclose⟩
      · exact hfail
      · -- the parenthesis closes behind the constant, so the expression is read without a fault
        obtain ⟨rfl, rfl⟩ := hread.unique hr
        obtain ⟨c, hs, hd⟩ := hn.front
        have hunary : (unary (expression n)).Reads m₂ (.const v) r :=
          (reads_unary_iff_of_digit hs hd).mpr (reads_const_iff.mpr ⟨v, hn, rfl⟩)
        have htier := reads_tier_of_unary (Nat.zero_le 5) hunary (follow_of_append_close hclose)
        exact absurd htier hi.not_reads
    · exact absurd ⟨_, haltsWith_const_iff.mpr ⟨digits, r, hd, rfl⟩⟩ hc

private theorem Follow.of_five (r : List Char) : Follow 5 r := by
  intro op hop
  obtain ⟨k, hk, hl⟩ := exists_stratum op
  omega

/-- On longer texts unary minus gets as far as before. -/
theorem extends_unary (hi : Extends (expression n)) : Extends (unary (expression n)) := by
  have hb := built_expression n
  intro s f hf
  constructor
  · rintro ⟨why, hh⟩
    rcases haltsWith_unary_cases hb hh with ⟨m₁, m₂, ht, ho, hcases⟩ | hatom
    · have ht' := ht.portable.extend hf
      have ho' := ho.portable.extend hf
      by_cases hc : const.Faults m₂
      · obtain ⟨why', hc⟩ := hc
        exact ⟨_, haltsWith_unary_of_const ht' ho' (haltsWith_const_append hc hf)⟩
      · have hinner : (expression n).Faults m₂ :=
          ⟨why, hcases.resolve_left fun hc' ↦ hc ⟨why, hc'⟩⟩
        obtain ⟨h', hh'⟩ := (hi m₂ f hf).1 hinner
        exact ⟨h', haltsWith_unary_of_inner hb ht' ho' hh'
          (run_parens_const_append hinner hc ho hf)⟩
    · rcases (haltsWith_atom_iff hb).mp hatom with ⟨m, ho, hinner⟩ | hc
      · obtain ⟨h', hh'⟩ := (hi m f hf).1 ⟨why, hinner⟩
        exact ⟨h', haltsWith_unary_of_atom
          ((haltsWith_atom_iff hb).mpr (.inl ⟨_, ho.portable.extend hf, hh'⟩))⟩
      · exact ⟨_, haltsWith_unary_of_atom
          ((haltsWith_atom_iff hb).mpr (.inr (haltsWith_const_append hc hf)))⟩
  · intro e r hr
    have hphrase := ((phrase_of_reads_unary hr).portable (local_expression n)).extend hf
    exact reaches_of_reads (hphrase.reads (.of_five _))

/-! ## Binary tiers -/

/-- Pairs are built from their operands. -/
theorem built_pair {α : Type} {operand : Parser α} {ops : List Binop} (hb : Built operand) :
    Built (pair operand ops) := by
  refine .choice fun p hp ↦ ?_
  obtain ⟨op, -, rfl⟩ := List.mem_map.mp hp
  exact ((Built.symbol _).andThen hb).map _

/-- Every pair shortens the text by its operator. -/
theorem advances_pair {α : Type} (operand : Parser α) (ops : List Binop) :
    (pair operand ops).Advances := by
  intro s p r hr
  obtain ⟨-, m, ht, hv⟩ := token_of_reads_pair hr
  have hlt := ht.length_lt (by cases p.1 <;> decide)
  have hle := hv.length_le
  omega

/-- Tiers are built from what parentheses hold. -/
theorem built_tier (hb : Built inner) (hk : k ≤ 5) : Built (tier inner k) := by
  induction hk using Nat.decreasingInduction with
  | self => exact built_unary hb
  | of_succ k hk ih =>
    obtain ⟨name, hn⟩ := exists_tier_eq inner hk
    rw [hn]
    exact built_binaryTier ih

private theorem haltsWith_pair_iff {α : Type} {operand : Parser α} {ops : List Binop}
    (hrest : ∀ m, operand.run ('=' :: m) = .fail) : (pair operand ops).HaltsWith h s ↔
      ∃ op ∈ ops, ∃ m, Token op.symbol.toList s m ∧ operand.HaltsWith h m := by
  constructor
  · intro hh
    obtain ⟨q, hq, hh⟩ := exists_haltsWith_of_choice hh
    obtain ⟨op, hop, rfl⟩ := List.mem_map.mp hq
    obtain ⟨m, ht, hh⟩ := (haltsWith_symbol_andThen_iff (isSolid_symbol op)).mp
      (haltsWith_map_iff.mp hh)
    exact ⟨op, hop, m, ht, hh⟩
  · rintro ⟨op, hop, m, ht, hh⟩
    refine HaltsWith.of_run_eq (run_pair_eq hop ht hh.ne_fail hrest) (haltsWith_map_iff.mpr ?_)
    exact (haltsWith_symbol_andThen_iff (isSolid_symbol op)).mpr ⟨m, ht, hh⟩

/-- No operand begins with an equals sign. -/
theorem run_tier_equals (hk : k ≤ 6) (m : List Char) : (tier inner k).run ('=' :: m) = .fail := by
  refine run_tier_eq_fail hk ?_
  rintro _ ⟨⟩
  decide

private theorem haltsWith_binaryTier_iff {α : Type} {join : Binop → α → α → α} {operand : Parser α}
    {ops : List Binop} {name : String} (hb : Built operand) :
    (binaryTier join operand ops name).HaltsWith h s ↔ operand.HaltsWith h s ∨
      ∃ first m, operand.Reads s first m ∧ ∃ pairs m',
        Chain (pair operand ops) m pairs m' ∧ (pair operand ops).HaltsWith h m' := by
  refine (haltsWith_bind_iff hb).trans (or_congr_right ?_)
  refine exists_congr fun first ↦ exists_congr fun m ↦ and_congr_right fun _ ↦ ?_
  have hstar := haltsWith_star_iff (h := h) (s := m) (built_pair hb) (advances_pair operand ops)
  rw [← many_of_consumes consumes_pair] at hstar
  exact haltsWith_map_iff.trans hstar

/-- A tier is halted by its first operand or by an operand behind a chain and an operator. -/
theorem haltsWith_tier_iff (hb : Built inner) (hk : k < 5) : (tier inner k).HaltsWith h s ↔
    (tier inner (k + 1)).HaltsWith h s ∨ ∃ e m op m', Opens inner k s e m ∧ op ∈ operators k ∧
      Token op.symbol.toList m m' ∧ (tier inner (k + 1)).HaltsWith h m' := by
  have hrest : ∀ m, (tier inner (k + 1)).run ('=' :: m) = .fail := run_tier_equals (by omega)
  obtain ⟨name, hn⟩ := exists_tier_eq inner hk
  rw [hn, haltsWith_binaryTier_iff (built_tier hb hk)]
  refine or_congr_right ⟨?_, ?_⟩
  · rintro ⟨first, m, hf, pairs, m', hc, hh⟩
    obtain ⟨op, hop, m'', ht, hh⟩ := (haltsWith_pair_iff hrest).mp hh
    exact ⟨_, m', op, m'', ⟨first, m, pairs, hf, hc, rfl⟩, hop, ht, hh⟩
  · rintro ⟨_, m', op, m'', ⟨first, m, pairs, hf, hc, rfl⟩, hop, ht, hh⟩
    exact ⟨first, m, hf, pairs, m', hc, (haltsWith_pair_iff hrest).mpr ⟨op, hop, m'', ht, hh⟩⟩

private theorem Opens.reaches (hb : Built inner) (hk : k < 5) (ho : Opens inner k s e m) :
    (tier inner k).Reaches s m.length := by
  obtain ⟨first, m₀, pairs, hf, hc, rfl⟩ := ho
  have hoperand := built_tier hb hk
  obtain ⟨name, hn⟩ := exists_tier_eq inner hk
  rw [hn]
  rcases reaches_star (built_pair hoperand) hc with ⟨h, hh⟩ | ⟨pairs', r, hr, hl⟩
  · obtain ⟨pairs', m', hc', hh⟩ := (haltsWith_star_iff (built_pair hoperand)
      (advances_pair _ _)).mp hh
    exact .inl ⟨h, (haltsWith_binaryTier_iff hoperand).mpr
      (.inr ⟨first, m₀, hf, pairs', m', hc', hh⟩)⟩
  · obtain ⟨hc', hend⟩ := reads_star_iff.mp hr
    exact .inr ⟨_, r, reads_binaryTier_iff.mpr ⟨first, m₀, pairs', hf, hc', hend, rfl⟩, hl⟩

private theorem opens_of_reads (hk : k < 5) (hr : (tier inner k).Reads s e r) :
    Opens inner k s e r := by
  obtain ⟨name, hn⟩ := exists_tier_eq inner hk
  rw [hn] at hr
  obtain ⟨first, m, pairs, hfirst, hc, -, hjoin⟩ := reads_binaryTier_iff.mp hr
  exact ⟨first, m, pairs, hfirst, hc, hjoin⟩

private theorem Opens.phrase (hk : k < 5) (ho : Opens inner k s e m) : Phrase inner k s e m := by
  obtain ⟨first, m₀, pairs, hf, hc, rfl⟩ := ho
  exact .chain hk (fun _ _ _ hr ↦ phrase_of_reads hk hr) hc (.operand hk (phrase_of_reads hk hf))

private theorem Phrase.opens_append {op : Binop} {m' : List Char}
    (hp : Phrase (expression n) k s e m) (hk : k < 5) (hop : op ∈ operators k)
    (ht : Token op.symbol.toList m m') (hf : Stops Text.isWordPart f) :
    Opens (expression n) k (s ++ f) e (m ++ f) := by
  have hphrase := (hp.portable (local_expression n)).extend hf
  exact hphrase.opens hk
    (.of_symbol (ht.portable.extend hf) (Int.le_of_eq (mem_operators_iff.mp hop)))

private theorem Opens.last (ho : Opens inner k s e r) : (tier inner (k + 1)).Reads s e r ∨
    ∃ a m op m' b, Opens inner k s a m ∧ op ∈ operators k ∧ Token op.symbol.toList m m' ∧
      (tier inner (k + 1)).Reads m' b r := by
  obtain ⟨first, m₀, pairs, hf, hc, rfl⟩ := ho
  rcases List.eq_nil_or_concat pairs with rfl | ⟨init, p, rfl⟩
  · cases hc
    exact .inl hf
  · rw [List.concat_eq_append] at hc
    obtain ⟨m, hinit, hp⟩ := hc.of_snoc
    obtain ⟨hop, m', ht, hb⟩ := token_of_reads_pair hp
    exact .inr ⟨_, m, p.1, m', p.2, ⟨first, m₀, init, hf, hinit, rfl⟩, hop, ht, hb⟩

private theorem Opens.reaches_append (hk : k < 5) (hi : Extends (tier (expression n) (k + 1)))
    (ho : Opens (expression n) k s e r) (hf : Stops Text.isWordPart f) :
    (tier (expression n) k).Reaches (s ++ f) (r ++ f).length := by
  have hb := built_expression n
  rcases ho.last with hr | ⟨a, m, op, m', b, ho, hop, ht, hr⟩
  · rcases (hi s f hf).2 _ _ hr with ⟨h, hh⟩ | ⟨b', r', hr', hl⟩
    · exact .inl ⟨h, (haltsWith_tier_iff hb hk).mpr (.inl hh)⟩
    · exact ((Opens.operand hr').reaches hb hk).mono hl
  · have ho' := (ho.phrase hk).opens_append hk hop ht hf
    have ht' := ht.portable.extend hf
    rcases (hi m' f hf).2 _ _ hr with ⟨h, hh⟩ | ⟨b', r', hr', hl⟩
    · exact .inl ⟨h, (haltsWith_tier_iff hb hk).mpr (.inr ⟨a, _, op, _, ho', hop, ht', hh⟩)⟩
    · exact ((ho'.snoc hk hop ht' hr').reaches hb hk).mono hl

/-- On longer texts every tier gets as far as before. -/
theorem extends_tier (hi : Extends (expression n)) (hk : k ≤ 5) :
    Extends (tier (expression n) k) := by
  induction hk using Nat.decreasingInduction with
  | self => exact extends_unary hi
  | of_succ k hk ih =>
    have hb := built_expression n
    intro s f hf
    constructor
    · rintro ⟨why, hh⟩
      rcases (haltsWith_tier_iff hb hk).mp hh with hfirst | ⟨e, m, op, m', ho, hop, ht, hnext⟩
      · obtain ⟨h', hh'⟩ := (ih s f hf).1 ⟨why, hfirst⟩
        exact ⟨h', (haltsWith_tier_iff hb hk).mpr (.inl hh')⟩
      · obtain ⟨h', hh'⟩ := (ih m' f hf).1 ⟨why, hnext⟩
        have ho' := (ho.phrase hk).opens_append hk hop ht hf
        exact ⟨h', (haltsWith_tier_iff hb hk).mpr
          (.inr ⟨e, _, op, _, ho', hop, ht.portable.extend hf, hh'⟩)⟩
    · intro e r hr
      exact (opens_of_reads hk hr).reaches_append hk ih hf

/-- On longer texts expressions get as far as before. -/
theorem extends_expression (n : Nat) : Extends (expression n) := by
  induction n with
  | zero =>
    intro s f _
    refine ⟨?_, fun e r h ↦ absurd h not_reads_expression_zero⟩
    rintro ⟨why, hh⟩
    cases hh
  | succ n ih => exact extends_tier ih (Nat.zero_le 5)

end WhileSyntax.Grammar
