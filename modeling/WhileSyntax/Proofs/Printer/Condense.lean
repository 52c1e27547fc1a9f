import WhileSyntax.Proofs.Grammar.Phrase
import WhileSyntax.Proofs.Printer.Context
import WhileSyntax.Proofs.Text.Erasure

/-!
# Printed expressions are parts of their sources

Every text that is read as an expression can be turned into what is printed for the expression by
leaving out white space, parentheses and zeros. In particular, whatever is read can be printed. The
proof goes along the phrases of the source: what is printed for the expression inside an operator
differs from what is printed inside a weaker one by parentheses at most.
-/

namespace WhileSyntax.Grammar

open WhileSyntax.Tree Text

variable {inner : Parser Tree} {k n : Nat} {s m r : List Char} {e : Tree}

/-- Whether a character is a parenthesis. -/
def isParen (c : Char) : Bool := c == '(' || c == ')'

/-- Whether a character of a source that is no white space may be missing in what is printed. -/
def isSurplus (c : Char) : Bool := isParen c || c == '0'

/-- Whether a character of a source may be missing in what is printed. -/
def isSpare (c : Char) : Bool := isBlank c || isSurplus c

/-- White space may be missing. -/
theorem Blank.isSpare {u : List Char} (hu : Blank u) : ∀ c ∈ u, isSpare c = true := by
  intro c hc
  rw [Grammar.isSpare, hu c hc]
  rfl

/-- The text in front of `r` becomes what is printed inside an operator of strength `k` when
characters that may be missing are left out. -/
def Condenses (k : Nat) (s : List Char) (e : Tree) (r : List Char) : Prop :=
  ∃ t p, s = t ++ r ∧ e.printInside k = .ok p ∧ Erases isSpare t p

namespace Condenses

private theorem blank_append {u t p : List Char} (hu : Blank u) (h : Erases isSpare t p) :
    Erases isSpare (u ++ t) p :=
  h.skip hu.isSpare

private theorem parens {t p u v : List Char} (hu : Blank u) (hv : Blank v) (h : Erases isSpare t p)
    (stay : Bool) :
    Erases isSpare (u ++ ['('] ++ (t ++ (v ++ [')']))) (parenthesizeIf stay p) := by
  cases stay with
  | false =>
    have hopen : ∀ c ∈ u ++ ['('], isSpare c = true :=
      List.forall_mem_append.mpr ⟨hu.isSpare, List.forall_mem_singleton.mpr rfl⟩
    have hclose : ∀ c ∈ v ++ [')'], isSpare c = true :=
      List.forall_mem_append.mpr ⟨hv.isSpare, List.forall_mem_singleton.mpr rfl⟩
    exact (h.skip_right hclose).skip hopen
  | true =>
    have hopen := blank_append hu (Erases.refl isSpare ['('])
    have hclose := blank_append hv (Erases.refl isSpare [')'])
    exact hopen.append (h.append hclose)

private theorem erases_parenthesizeIf {stay stay' : Bool} (h : stay' = true → stay = true)
    (q : List Char) : Erases isSpare (parenthesizeIf stay q) (parenthesizeIf stay' q) := by
  cases stay with
  | false =>
    cases stay' with
    | false => exact .refl _ _
    | true => cases h rfl
  | true =>
    have := parens blank_nil blank_nil (Erases.refl isSpare q) stay'
    simpa [parenthesizeIf] using this

private theorem loosen {k' : Nat} (h : Condenses k' s e r) (hk : k ≤ k') : Condenses k s e r := by
  obtain ⟨t, p, hs, hp, he⟩ := h
  obtain ⟨q, rfl, hq⟩ := exists_printInside_eq hp
  refine ⟨t, _, hs, hq k, he.trans (erases_parenthesizeIf (fun h ↦ ?_) q)⟩
  exact needsParens_mono (by omega) h

private theorem exists_parens {m₁ m₂ : List Char} (ho : Token ['('] s m₁) (h : Condenses 0 m₁ e m₂)
    (hc : Token [')'] m₂ r) : ∃ t q, s = t ++ r ∧
      e.printInside 0 = .ok q ∧ ∀ stay, Erases isSpare t (parenthesizeIf stay q) := by
  obtain ⟨u, hu, rfl⟩ := ho
  obtain ⟨v, hv, rfl⟩ := hc
  obtain ⟨t, q, rfl, hq, he⟩ := h
  refine ⟨u ++ ['('] ++ (t ++ (v ++ [')'])), q, ?_, hq, parens hu hv he⟩
  simp only [List.append_assoc]

private theorem neg {t : List Char} {p : List Char} (ht : Token ['-'] s m) (hm : m = t ++ r)
    (hp : (Tree.neg e).printInside k = .ok ('-' :: p)) (he : Erases isSpare t p) :
    Condenses k s (.neg e) r := by
  obtain ⟨u, hu, rfl⟩ := ht
  have hminus := blank_append hu (Erases.refl isSpare ['-'])
  refine ⟨u ++ ['-'] ++ t, _, ?_, hp, hminus.append he⟩
  simp only [hm, List.append_assoc]

private theorem numeral {n : Nat} (h : Numeral n s r) : Condenses k s (.const n) r := by
  obtain ⟨digits, hne, hall, hl, rfl, ⟨u, hu, rfl⟩, -⟩ := h
  have hlength := (length_toDigits_le hne hall).trans hl
  refine ⟨u ++ digits, _, rfl, printInside_const_iff.mpr ⟨hlength, rfl⟩, ?_⟩
  rw [Decimal.numeral_natCast]
  exact blank_append hu (Erases.digits rfl hne hall)

end Condenses

/-- Phrases are sources of what is printed for them. -/
theorem Phrase.condenses (hi : ∀ s e r, inner.Reads s e r → Condenses 0 s e r)
    (h : Phrase inner k s e r) : Condenses k s e r := by
  induction h with
  | number hn => exact .numeral hn
  | name hx =>
    obtain ⟨-, ⟨u, hu, rfl⟩, -⟩ := hx
    exact ⟨_, _, rfl, printInside_var _ _, (Erases.refl _ _).skip hu.isSpare⟩
  | parens ho he hc =>
    obtain ⟨t, q, hs, hq, hall⟩ := Condenses.exists_parens ho (hi _ _ _ he) hc
    exact ⟨t, _, hs, printInside_of_zero hq _, hall _⟩
  | atom _ ih => exact ih.loosen (by omega)
  | negName ht hx =>
    obtain ⟨-, ⟨u, hu, rfl⟩, -⟩ := hx
    exact .neg ht rfl (printInside_neg_var _ _) (Condenses.blank_append hu (.refl _ _))
  | negNumber ht ho hn hc =>
    obtain ⟨t, q, hs, hq, hall⟩ := Condenses.exists_parens ho (.numeral hn) hc
    exact .neg ht hs (printInside_neg_iff.mpr ⟨q, hq, rfl⟩) (hall _)
  | negParens ht ho he hc =>
    obtain ⟨t, q, hs, hq, hall⟩ := Condenses.exists_parens ho (hi _ _ _ he) hc
    exact .neg ht hs (printInside_neg_iff.mpr ⟨q, hq, rfl⟩) (hall _)
  | operand hk _ ih => exact ih.loosen (Nat.le_succ _)
  | @binary k s m m' r op a b hk hop _ ht _ iha ihb =>
    obtain ⟨ta, pa, rfl, hpa, ha⟩ := iha
    obtain ⟨u, hu, rfl⟩ := ht
    obtain ⟨tb, pb, rfl, hpb, hb⟩ := ihb
    have hlevel := mem_operators_iff.mp hop
    rw [show (k : Int) = op.level - 1 by omega] at hpa
    rw [show ((k + 1 : Nat) : Int) = op.level by omega] at hpb
    have hbare : decide (op.level ≤ (k : Int)) = false := decide_eq_false (by omega)
    refine ⟨ta ++ (u ++ (op.symbol.toList ++ tb)), pa ++ (op.symbol.toList ++ pb), ?_, ?_, ?_⟩
    · simp only [List.append_assoc]
    · rw [printInside_binary hpa hpb, hbare]
      rfl
    · exact ha.append (((Erases.refl _ _).append hb).skip hu.isSpare)

/-- What the expression parser reads is a source of what is printed for it. -/
theorem condenses_of_reads (n : Nat) :
    ∀ s e r, (expression n).Reads s e r → Condenses 0 s e r := by
  induction n with
  | zero => exact fun s e r h ↦ absurd h not_reads_expression_zero
  | succ n ih =>
    intro s e r h
    exact (phrase_of_reads (Nat.zero_le 5) (reads_expression_succ_iff.mp h)).condenses ih

end WhileSyntax.Grammar
