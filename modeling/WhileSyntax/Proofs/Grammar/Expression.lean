import WhileSyntax.Proofs.Grammar.Unary
import WhileSyntax.Proofs.Parser.Whole

/-!
# The expression parser accepts its grammar

What the parser reads is derived in the grammar, and what is derived is read, as long as there are
levels for its parentheses and no stronger operator follows. Both directions go through the
strata from the tightest outwards, and through parentheses one level deeper.
-/

namespace WhileSyntax.Grammar

open WhileSyntax.Parser

variable {inner : Parser Tree} {d k n : Nat} {s m r : List Char} {e : Tree}

/-! ## From one stratum to the next -/

/-- The expressions of one more level are the loosest tier of this level. -/
theorem reads_expression_succ_iff :
    (expression (n + 1)).Reads s e r ↔ (tier (expression n) 0).Reads s e r := Iff.rfl

/-- A tier fails where no expression can begin. -/
theorem run_tier_eq_fail (hk : k ≤ 6) (h : ∀ c ∈ front s, isExpressionStart c = false) :
    (tier inner k).run s = .fail := by
  have hatom : (atom inner).run s = .fail := by
    apply run_atom_eq_fail
    intro c hc
    have := h c hc
    simp only [isExpressionStart, Bool.or_eq_false_iff, beq_eq_false_iff_ne] at this
    exact ⟨this.1.1.2, this.1.2, this.2⟩
  have hminus : front s ≠ some '-' := fun hf ↦ absurd (h _ hf) (by decide)
  induction hk using Nat.decreasingInduction with
  | self => exact hatom
  | of_succ k hk ih =>
    by_cases h5 : k = 5
    · rw [h5]
      exact (run_unary_eq_atom hminus).trans hatom
    · obtain ⟨name, hn⟩ := exists_tier_eq inner (show k < 5 by omega)
      rw [hn]
      exact run_bind_eq_fail ih

private theorem reads_tier_of_succ (hk : k < 5) (h : (tier inner (k + 1)).Reads s e r)
    (hf : Follow k r) : (tier inner k).Reads s e r := by
  obtain ⟨name, hn⟩ := exists_tier_eq inner hk
  rw [hn]
  refine reads_binaryTier_iff.mpr ⟨e, r, [], h, .nil r, ?_, rfl⟩
  apply run_pair_eq_fail
  intro op hop m
  exact hf op (by rw [mem_operators_iff.mp hop]; omega) m

/-- What unary minus reads before an operator that is too weak, every stratum reads. -/
theorem reads_tier_of_unary (hk : k ≤ 5) (h : (unary inner).Reads s e r) (hf : Follow k r) :
    (tier inner k).Reads s e r := by
  induction hk using Nat.decreasingInduction with
  | self => exact h
  | of_succ k hk ih => exact reads_tier_of_succ hk (ih (hf.mono (Nat.le_succ k))) hf

private theorem exists_reads_unary (hk : k ≤ 5) (h : (tier inner k).Reads s e r) :
    ∃ e' m, (unary inner).Reads s e' m := by
  induction hk using Nat.decreasingInduction generalizing e r with
  | self => exact ⟨e, r, h⟩
  | of_succ k hk ih =>
    obtain ⟨name, hn⟩ := exists_tier_eq inner hk
    rw [hn] at h
    obtain ⟨first, m, -, hfirst, -⟩ := reads_binaryTier_iff.mp h
    exact ih hfirst

/-! ## What is read is derived -/

/-- What stands in parentheses is derived. -/
def DerivesInner (inner : Parser Tree) (d : Nat) : Prop :=
  ∀ s e r, inner.Reads s e r → Derives d 0 s e r

private theorem derives_of_reads_atom (hi : DerivesInner inner d) (h : (atom inner).Reads s e r) :
    Derives (d + 1) 6 s e r := by
  rcases reads_atom_iff.mp h with hp | ⟨-, hv | ⟨-, hc⟩⟩
  · obtain ⟨m₁, m₂, ho, he, hc⟩ := reads_parens_iff.mp hp
    exact .parens ho (hi _ _ _ he) hc
  · obtain ⟨x, hx, rfl⟩ := reads_var_iff.mp hv
    exact .name hx
  · obtain ⟨n, hn, rfl⟩ := reads_const_iff.mp hc
    exact .number hn

private theorem derives_of_reads_unary (hi : DerivesInner inner d) (h : (unary inner).Reads s e r) :
    Derives (d + 1) 5 s e r := by
  obtain ⟨q, hq, hr⟩ : ∃ q ∈ unaryForms inner, q.Reads s e r := exists_reads_of_choice h
  simp only [unaryForms, List.mem_cons, List.not_mem_nil, or_false] at hq
  rcases hq with rfl | rfl | rfl | rfl
  · obtain ⟨m, e', ht, hv, rfl⟩ := reads_minus_iff.mp hr
    obtain ⟨x, hx, rfl⟩ := reads_var_iff.mp hv
    exact .negName ht hx
  · obtain ⟨m, e', ht, hp, rfl⟩ := reads_minus_iff.mp hr
    obtain ⟨m₁, m₂, ho, hr, hc⟩ := reads_parens_iff.mp hp
    obtain ⟨n, hn, rfl⟩ := reads_const_iff.mp hr
    exact .negParens ht ho (Derives.loosen (.atom (.number hn)) (by omega) (Nat.le_refl 5)) hc
  · obtain ⟨m, e', ht, hp, rfl⟩ := reads_minus_iff.mp hr
    obtain ⟨m₁, m₂, ho, he, hc⟩ := reads_parens_iff.mp hp
    exact .negParens ht ho (hi _ _ _ he) hc
  · exact .atom (derives_of_reads_atom hi hr)

/-- A chain of pairs is derived when its operands are. -/
theorem pairs_of_chain {operand : Parser Tree} {pairs : List (Binop × Tree)}
    (ho : ∀ s e r, operand.Reads s e r → Derives d (k + 1) s e r)
    (h : Chain (pair operand (operators k)) s pairs r) : Pairs d k s pairs r := by
  induction h with
  | nil s => exact .nil
  | cons hp _ _ ih =>
    obtain ⟨hop, m, ht, he⟩ := token_of_reads_pair hp
    exact .cons hop ht (ho _ _ _ he) ih

/-- Every tier is derived in its stratum. -/
theorem derives_of_reads_tier (hi : DerivesInner inner d) (hk : k ≤ 5)
    (h : (tier inner k).Reads s e r) : Derives (d + 1) k s e r := by
  induction hk using Nat.decreasingInduction generalizing s e r with
  | self => exact derives_of_reads_unary hi h
  | of_succ k hk ih =>
    obtain ⟨name, hn⟩ := exists_tier_eq inner hk
    rw [hn] at h
    obtain ⟨first, m, pairs, hf, hc, -, rfl⟩ := reads_binaryTier_iff.mp h
    exact .chain hk (ih hf) (pairs_of_chain (fun _ _ _ hr ↦ ih hr) hc)

/-- What the expression parser reads is derived, nested no deeper than its levels. -/
theorem derives_of_reads (n : Nat) : DerivesInner (expression n) n := by
  induction n with
  | zero =>
    rintro s e r ⟨t, -, hr⟩
    cases hr
  | succ n ih =>
    intro s e r h
    exact derives_of_reads_tier ih (Nat.zero_le 5) (reads_expression_succ_iff.mp h)

/-! ## What is derived is read -/

/-- A name is an atom. -/
theorem reads_atom_of_name {x : String} (h : Name x s r) : (atom inner).Reads s (.var x) r := by
  obtain ⟨c, hc, hw⟩ := h.front
  have hp : (parens inner).run s = .fail := by
    apply run_parens_eq_fail
    rw [hc]
    rintro ⟨⟩
    exact absurd hw (by decide)
  exact reads_atom_iff.mpr (.inr ⟨hp, .inl (reads_var_iff.mpr ⟨x, h, rfl⟩)⟩)

/-- In front of a digit, an atom is a number. -/
theorem reads_atom_iff_of_digit {c : Char} (hs : front s = some c) (hc : c.isDigit = true) :
    (atom inner).Reads s e r ↔ const.Reads s e r := by
  have hp : (parens inner).run s = .fail := by
    apply run_parens_eq_fail
    rw [hs]
    rintro ⟨⟩
    exact absurd hc (by decide)
  have hv : var.run s = .fail := by
    apply run_var_eq_fail
    rw [hs]
    rintro _ ⟨⟩
    exact isWordStart_eq_false_of_isDigit hc
  rw [reads_atom_iff]
  constructor
  · rintro (h | ⟨-, h | ⟨-, h⟩⟩)
    · exact absurd hp h.ne_fail
    · exact absurd hv h.ne_fail
    · exact h
  · intro h
    exact .inr ⟨hp, .inr ⟨hv, h⟩⟩

/-- In front of a digit, unary minus is a number. -/
theorem reads_unary_iff_of_digit {c : Char} (hs : front s = some c) (hc : c.isDigit = true) :
    (unary inner).Reads s e r ↔ const.Reads s e r := by
  have hm : front s ≠ some '-' := by
    rw [hs]
    rintro ⟨⟩
    exact absurd hc (by decide)
  rw [← reads_atom_iff_of_digit hs hc]
  constructor
  · exact .of_run_eq (run_unary_eq_atom hm).symm
  · exact .of_run_eq (run_unary_eq_atom hm)

/-- Where an expression is read, a constant is read or none stands there. -/
theorem definite_const_of_reads_tier (hk : k ≤ 5) (h : (tier inner k).Reads s e r) :
    const.run s = .fail ∨ ∃ e' r', const.Reads s e' r' := by
  by_cases hd : ∃ c, front s = some c ∧ c.isDigit = true
  · obtain ⟨c, hs, hc⟩ := hd
    obtain ⟨e', m, hu⟩ := exists_reads_unary hk h
    exact .inr ⟨e', m, (reads_unary_iff_of_digit hs hc).mp hu⟩
  · left
    apply run_const_eq_fail
    intro c hc
    by_contra hne
    exact hd ⟨c, hc, Bool.not_eq_false _ ▸ hne⟩

/-- A constant in front of a closing parenthesis is an expression of any stratum. -/
theorem reads_tier_of_const (hk : k ≤ 5) (h : const.Reads s e r) (hc : Token [')'] r m) :
    (tier inner k).Reads s e r := by
  obtain ⟨n, hn, rfl⟩ := reads_const_iff.mp h
  obtain ⟨c, hs, hd⟩ := hn.front
  exact reads_tier_of_unary hk ((reads_unary_iff_of_digit hs hd).mpr h)
    (.of_token hc rfl rfl)

mutual

/-- What is derived is read by the tier of its stratum when no stronger operator follows and there
are levels for its parentheses. -/
theorem reads_tier_of_derives {d k : Nat} {s r : List Char} {e : Tree} :
    Derives d k s e r → ∀ {n}, Follow k r → d ≤ n → (tier (expression n) k).Reads s e r
  | .chain hk hfirst hpairs, n, hf, hd => by
    obtain ⟨hc, hm⟩ := chain_of_pairs hpairs hk hf hd
    obtain ⟨name, hn⟩ := exists_tier_eq (expression n) hk
    have hend : (pair (tier (expression n) (k + 1)) (operators k)).run r = .fail :=
      run_pair_eq_fail fun op hop m ↦ hf op (by rw [mem_operators_iff.mp hop]; omega) m
    rw [hn]
    exact reads_binaryTier_iff.mpr
      ⟨_, _, _, reads_tier_of_derives hfirst hm hd, hc, hend, rfl⟩
  | .negName ht hx, n, _, _ => reads_unary_of_negName ht hx
  | .negParens ht ho he hc, n, _, hd => by
    obtain ⟨n, rfl⟩ := Nat.exists_eq_add_one.mpr (show 0 < n by omega)
    have hread := reads_tier_of_derives he (.of_token hc rfl rfl)
      (Nat.le_of_succ_le_succ hd)
    exact reads_unary_of_negParens ht ho hread hc
      (definite_const_of_reads_tier (Nat.zero_le 5) hread)
      fun _ _ _ hr ht ↦ reads_tier_of_const (k := 0) (Nat.zero_le 5) hr ht
  | .atom h, n, hf, hd => by
    have hread := reads_tier_of_derives h (hf.mono (by omega)) hd
    apply hread.of_run_eq
    apply run_unary_eq_atom
    intro hs
    exact hread.ne_fail (run_atom_eq_fail_of_minus hs)
  | .parens ho he hc, n, _, hd => by
    obtain ⟨n, rfl⟩ := Nat.exists_eq_add_one.mpr (show 0 < n by omega)
    have hread := reads_tier_of_derives he (.of_token hc rfl rfl)
      (Nat.le_of_succ_le_succ hd)
    exact reads_atom_iff.mpr (.inl (reads_parens_iff.mpr ⟨_, _, ho, hread, hc⟩))
  | .name hx, n, _, _ => reads_atom_of_name hx
  | .number hn, n, _, _ => by
    obtain ⟨c, hs, hc⟩ := hn.front
    exact (reads_atom_iff_of_digit hs hc).mpr (reads_const_iff.mpr ⟨_, hn, rfl⟩)

/-- Derived pairs are a chain, and in front of them no operator is stronger than they are. -/
theorem chain_of_pairs {d k : Nat} {s r : List Char} {pairs : List (Binop × Tree)} :
    Pairs d k s pairs r → ∀ {n}, k < 5 → Follow k r → d ≤ n →
      Chain (pair (tier (expression n) (k + 1)) (operators k)) s pairs r ∧ Follow (k + 1) s
  | .nil, _, _, hf, _ => ⟨.nil _, hf.mono (by omega)⟩
  | .cons hop ht he hrest, n, hk, hf, hd => by
    obtain ⟨hc, hm⟩ := chain_of_pairs hrest hk hf hd
    have hoperand := reads_tier_of_derives he hm hd
    refine ⟨.cons (reads_pair hop ht hoperand fun m ↦ ?_) ?_ hc, ?_⟩
    · -- the rest of a longer spelling begins no operand
      apply run_tier_eq_fail (by omega)
      rintro _ ⟨⟩
      decide
    · have hlt := ht.length_lt (by cases ‹Binop› <;> decide)
      have hle := hoperand.length_le
      omega
    · exact .of_symbol ht (Int.le_of_eq (mem_operators_iff.mp hop))

end

/-- What is derived is read by the expression parser with one more level than it nests. -/
theorem reads_expression_of_derives (h : Derives d 0 s e r) (hf : Follow 0 r) (hd : d < n) :
    (expression n).Reads s e r := by
  obtain ⟨n, rfl⟩ := Nat.exists_eq_add_one.mpr (show 0 < n by omega)
  exact reads_tier_of_derives h hf (by omega)

/-- Behind an expression that no operator follows one rest is left. -/
theorem Derives.unique {d' : Nat} {e' : Tree} {r' : List Char} (h : Derives d 0 s e r)
    (h' : Derives d' 0 s e' r') (hf : Follow 0 r) (hf' : Follow 0 r') : e = e' ∧ r = r' := by
  have hread := reads_expression_of_derives h hf (show d < max d d' + 1 by omega)
  exact hread.unique (reads_expression_of_derives h' hf' (by omega))

end WhileSyntax.Grammar
