import WhileSyntax.Proofs.Grammar.Expression

/-!
# Phrases

One level of the expression grammar, given the parser of what stands in parentheses. What the tier
of a stratum reads is a phrase of the stratum (`phrase_of_reads`), and a phrase is read where no
stronger operator follows (`Phrase.reads`). Unlike derivations, phrases tell a number in parentheses
behind a minus from other contents of parentheses: it is read without another level.
-/

namespace WhileSyntax.Grammar

open WhileSyntax.Parser

variable {inner : Parser Tree} {k n : Nat} {s m r : List Char} {e : Tree}

/-- Phrases of a stratum at the front of `s`, with `r` behind them. Chains of operators grow to the
right, one operand at a time. -/
inductive Phrase (inner : Parser Tree) :
    (stratum : Nat) → (s : List Char) → (e : Tree) → (r : List Char) → Prop
  | number {n : Nat} {s r : List Char} : Numeral n s r → Phrase inner 6 s (.const n) r
  | name {x : String} {s r : List Char} : Name x s r → Phrase inner 6 s (.var x) r
  | parens {s m₁ m₂ r : List Char} {e : Tree} :
      Token ['('] s m₁ → inner.Reads m₁ e m₂ → Token [')'] m₂ r → Phrase inner 6 s e r
  | atom {s r : List Char} {e : Tree} : Phrase inner 6 s e r → Phrase inner 5 s e r
  | negName {x : String} {s m r : List Char} :
      Token ['-'] s m → Name x m r → Phrase inner 5 s (.neg (.var x)) r
  | negNumber {n : Nat} {s m₁ m₂ m₃ r : List Char} :
      Token ['-'] s m₁ → Token ['('] m₁ m₂ → Numeral n m₂ m₃ → Token [')'] m₃ r →
        Phrase inner 5 s (.neg (.const n)) r
  | negParens {s m₁ m₂ m₃ r : List Char} {e : Tree} :
      Token ['-'] s m₁ → Token ['('] m₁ m₂ → inner.Reads m₂ e m₃ → Token [')'] m₃ r →
        Phrase inner 5 s (.neg e) r
  | operand {k : Nat} {s r : List Char} {e : Tree} :
      k < 5 → Phrase inner (k + 1) s e r → Phrase inner k s e r
  | binary {k : Nat} {s m m' r : List Char} {op : Binop} {a b : Tree} :
      k < 5 → op ∈ operators k → Phrase inner k s a m → Token op.symbol.toList m m' →
        Phrase inner (k + 1) m' b r → Phrase inner k s (.binary op a b) r

/-- A phrase of a tighter stratum is a phrase of a looser one. -/
theorem Phrase.loosen {k' : Nat} (h : Phrase inner k' s e r) (hk : k ≤ k') (hk' : k' ≤ 5) :
    Phrase inner k s e r := by
  induction hk using Nat.decreasingInduction with
  | self => exact h
  | of_succ k hlt ih => exact .operand (by omega) ih

/-! ## What is read is a phrase -/

private theorem phrase_of_reads_atom (h : (atom inner).Reads s e r) : Phrase inner 6 s e r := by
  rcases reads_atom_iff.mp h with hp | ⟨-, hv | ⟨-, hc⟩⟩
  · obtain ⟨m₁, m₂, ho, he, hc⟩ := reads_parens_iff.mp hp
    exact .parens ho he hc
  · obtain ⟨x, hx, rfl⟩ := reads_var_iff.mp hv
    exact .name hx
  · obtain ⟨n, hn, rfl⟩ := reads_const_iff.mp hc
    exact .number hn

/-- What unary minus reads is a phrase. -/
theorem phrase_of_reads_unary (h : (unary inner).Reads s e r) : Phrase inner 5 s e r := by
  obtain ⟨q, hq, hr⟩ : ∃ q ∈ unaryForms inner, q.Reads s e r := exists_reads_of_choice h
  simp only [unaryForms, List.mem_cons, List.not_mem_nil, or_false] at hq
  rcases hq with rfl | rfl | rfl | rfl
  · obtain ⟨m, e', ht, hv, rfl⟩ := reads_minus_iff.mp hr
    obtain ⟨x, hx, rfl⟩ := reads_var_iff.mp hv
    exact .negName ht hx
  · obtain ⟨m, e', ht, hp, rfl⟩ := reads_minus_iff.mp hr
    obtain ⟨m₁, m₂, ho, hr, hc⟩ := reads_parens_iff.mp hp
    obtain ⟨n, hn, rfl⟩ := reads_const_iff.mp hr
    exact .negNumber ht ho hn hc
  · obtain ⟨m, e', ht, hp, rfl⟩ := reads_minus_iff.mp hr
    obtain ⟨m₁, m₂, ho, he, hc⟩ := reads_parens_iff.mp hp
    exact .negParens ht ho he hc
  · exact .atom (phrase_of_reads_atom hr)

/-- Pairs behind a phrase make it a longer phrase. -/
theorem Phrase.chain {pairs : List (Binop × Tree)} (hk : k < 5)
    (ho : ∀ s e r, (tier inner (k + 1)).Reads s e r → Phrase inner (k + 1) s e r)
    (h : Chain (pair (tier inner (k + 1)) (operators k)) m pairs r)
    (he : Phrase inner k s e m) : Phrase inner k s (joinLeft e pairs) r := by
  induction h generalizing e with
  | nil m => exact he
  | cons hp _ _ ih =>
    obtain ⟨hop, m', ht, hb⟩ := token_of_reads_pair hp
    exact ih (.binary hk hop he ht (ho _ _ _ hb))

/-- What a tier reads is a phrase of its stratum. -/
theorem phrase_of_reads (hk : k ≤ 5) (h : (tier inner k).Reads s e r) : Phrase inner k s e r := by
  induction hk using Nat.decreasingInduction generalizing s e r with
  | self => exact phrase_of_reads_unary h
  | of_succ k hk ih =>
    obtain ⟨name, hn⟩ := exists_tier_eq inner hk
    rw [hn] at h
    obtain ⟨first, m, pairs, hf, hc, -, rfl⟩ := reads_binaryTier_iff.mp h
    exact .chain hk (fun _ _ _ hr ↦ ih hr) hc (.operand hk (ih hf))

/-! ## Phrases are read -/

/-- Without a level left, no expression is read. -/
theorem not_reads_expression_zero : ¬(expression 0).Reads s e r := by
  rintro ⟨t, -, hr⟩
  cases hr

private theorem reads_unary_of_negNumber {m₁ m₂ m₃ : List Char} (ht : Token ['-'] s m₁)
    (ho : Token ['('] m₁ m₂) (hn : Numeral n m₂ m₃) (hc : Token [')'] m₃ r) :
    (unary inner).Reads s (.neg (.const n)) r := by
  have hparens : (parens const).Reads m₁ (.const n) r :=
    reads_parens_iff.mpr ⟨m₂, m₃, ho, reads_const_iff.mpr ⟨n, hn, rfl⟩, hc⟩
  have hread : (((symbol "-").andThen (parens const)).map Tree.neg).Reads s (.neg (.const n)) r :=
    reads_minus_iff.mpr ⟨m₁, .const n, ht, hparens, rfl⟩
  have hletter : ∀ c ∈ front m₁, Text.isWordStart c = false := by
    rw [ho.front rfl]
    rintro _ ⟨⟩
    decide
  have hfirst := run_minus_eq_fail_of_token ht (run_var_eq_fail hletter)
  apply hread.of_run_eq
  obtain ⟨t, -, hr⟩ := hread
  rw [unary, run_named, run_choice_cons, hfirst, run_choice_cons, hr]
  rfl

/-- A first operand and pairs of a stratum behind it, whatever follows. -/
def Opens (inner : Parser Tree) (k : Nat) (s : List Char) (e : Tree) (r : List Char) : Prop :=
  ∃ first m pairs, (tier inner (k + 1)).Reads s first m ∧
    Chain (pair (tier inner (k + 1)) (operators k)) m pairs r ∧ joinLeft first pairs = e

/-- An operand alone opens a chain. -/
theorem Opens.operand (h : (tier inner (k + 1)).Reads s e r) : Opens inner k s e r :=
  ⟨e, r, [], h, .nil r, rfl⟩

/-- A chain that no operator of its stratum continues is read. -/
theorem Opens.reads (hk : k < 5) (h : Opens inner k s e r) (hf : Follow k r) :
    (tier inner k).Reads s e r := by
  obtain ⟨first, m, pairs, hfirst, hc, rfl⟩ := h
  obtain ⟨name, hn⟩ := exists_tier_eq inner hk
  rw [hn]
  refine reads_binaryTier_iff.mpr ⟨first, m, pairs, hfirst, hc, ?_, rfl⟩
  exact run_pair_eq_fail fun op hop m ↦ hf op (by rw [mem_operators_iff.mp hop]; omega) m

/-- One more pair goes on with a chain. -/
theorem Opens.snoc {op : Binop} {a b : Tree} {m' : List Char} (hk : k < 5)
    (h : Opens inner k s a m) (hop : op ∈ operators k) (ht : Token op.symbol.toList m m')
    (hb : (tier inner (k + 1)).Reads m' b r) : Opens inner k s (.binary op a b) r := by
  obtain ⟨first, m₀, pairs, hfirst, hc, rfl⟩ := h
  have hpair : (pair (tier inner (k + 1)) (operators k)).Reads m (op, b) r := by
    refine reads_pair hop ht hb fun m ↦ run_tier_eq_fail (by omega) ?_
    rintro _ ⟨⟩
    decide
  have hlt := ht.length_lt (by cases op <;> decide)
  have hle := hb.length_le
  refine ⟨first, m₀, pairs ++ [(op, b)], hfirst, hc.snoc hpair (by omega), ?_⟩
  rw [joinLeft, List.foldl_append]
  rfl

private theorem Phrase.reads_and_opens (h : Phrase (expression n) k s e r) :
    (Follow k r → (tier (expression n) k).Reads s e r) ∧
      (k < 5 → Follow (k + 1) r → Opens (expression n) k s e r) := by
  induction h with
  | number hn =>
    obtain ⟨c, hs, hc⟩ := hn.front
    refine ⟨fun _ ↦ (reads_atom_iff_of_digit hs hc).mpr (reads_const_iff.mpr ⟨_, hn, rfl⟩), ?_⟩
    intro hk
    omega
  | name hx => exact ⟨fun _ ↦ reads_atom_of_name hx, fun hk ↦ by omega⟩
  | parens ho he hc =>
    refine ⟨fun _ ↦ ?_, fun hk ↦ by omega⟩
    exact reads_atom_iff.mpr (.inl (reads_parens_iff.mpr ⟨_, _, ho, he, hc⟩))
  | atom _ ih =>
    refine ⟨fun hf ↦ ?_, fun hk ↦ by omega⟩
    have hread := ih.1 (hf.mono (by omega))
    refine hread.of_run_eq (run_unary_eq_atom fun hs ↦ ?_)
    exact hread.ne_fail (run_atom_eq_fail_of_minus hs)
  | negName ht hx => exact ⟨fun _ ↦ reads_unary_of_negName ht hx, fun hk ↦ by omega⟩
  | negNumber ht ho hn hc =>
    exact ⟨fun _ ↦ reads_unary_of_negNumber ht ho hn hc, fun hk ↦ by omega⟩
  | negParens ht ho he hc =>
    refine ⟨fun _ ↦ ?_, fun hk ↦ by omega⟩
    cases n with
    | zero => exact absurd he not_reads_expression_zero
    | succ n =>
      have htier := reads_expression_succ_iff.mp he
      exact reads_unary_of_negParens ht ho he hc
        (definite_const_of_reads_tier (Nat.zero_le 5) htier)
        fun _ _ _ hr ht ↦ reads_tier_of_const (k := 0) (Nat.zero_le 5) hr ht
  | operand hk _ ih =>
    have hopens := fun hf ↦ Opens.operand (ih.1 hf)
    exact ⟨fun hf ↦ (hopens (hf.mono (Nat.le_succ _))).reads hk hf, fun _ ↦ hopens⟩
  | binary hk hop _ ht _ iha ihb =>
    have hleft := iha.2 hk (.of_symbol ht (Int.le_of_eq (mem_operators_iff.mp hop)))
    have hopens := fun hf ↦ hleft.snoc hk hop ht (ihb.1 hf)
    exact ⟨fun hf ↦ (hopens (hf.mono (Nat.le_succ _))).reads hk hf, fun _ ↦ hopens⟩

/-- A phrase is read where no stronger operator follows. -/
theorem Phrase.reads (h : Phrase (expression n) k s e r) (hf : Follow k r) :
    (tier (expression n) k).Reads s e r :=
  h.reads_and_opens.1 hf

/-- A phrase of a binary stratum opens a chain where no operator of a tighter stratum follows. -/
theorem Phrase.opens (h : Phrase (expression n) k s e r) (hk : k < 5) (hf : Follow (k + 1) r) :
    Opens (expression n) k s e r :=
  h.reads_and_opens.2 hk hf

end WhileSyntax.Grammar
