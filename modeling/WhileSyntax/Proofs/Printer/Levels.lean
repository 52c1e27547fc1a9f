import WhileSyntax.Proofs.Grammar.Phrase
import WhileSyntax.Proofs.Printer.Context

/-!
# Levels of printed expressions

How many levels the parser needs for what is printed for an expression. It needs no more of them
than it needed for any source of the expression (`levels_lt_of_reads`), and with that many the
printed text is a phrase again (`phrase_of_printInside`). A number in parentheses behind a minus is
the one case in which parentheses need no level.
-/

namespace WhileSyntax.Tree

open Grammar Text

variable {e : Tree} {p u f : List Char} {k n : Nat} {c c' : Int}

/-- Whether a tree is a variable or a constant. -/
def isLeaf : Tree → Bool
  | var _ => true
  | const _ => true
  | _ => false

/-- How many levels the parentheses of an expression need that is printed inside an operator of a
given strength. -/
def levels : Tree → (context : Int) → Nat
  | neg operand, _ => if operand.isLeaf then 0 else levels operand 0 + 1
  | binary op left right, context =>
    max (levels left (op.level - 1)) (levels right op.level) + (if op.level ≤ context then 1 else 0)
  | _, _ => 0

private theorem levels_mono (e : Tree) (hc : c ≤ c') : e.levels c ≤ e.levels c' := by
  cases e with
  | binary op left right =>
    simp only [levels]
    split <;> split <;> omega
  | neg operand => exact Nat.le_refl _
  | _ => exact Nat.le_refl _

private theorem levels_le_succ (e : Tree) (c : Int) : e.levels c ≤ e.levels 0 + 1 := by
  cases e with
  | binary op left right =>
    simp only [levels]
    split <;> split <;> omega
  | neg operand => exact Nat.le_succ _
  | _ => exact Nat.zero_le _

private theorem levels_neg_le (e : Tree) (c : Int) : (neg e).levels c ≤ e.levels 0 + 1 := by
  simp only [levels]
  split <;> omega

end WhileSyntax.Tree

namespace WhileSyntax.Grammar

open WhileSyntax.Tree Text

variable {inner : Parser Tree} {e : Tree} {s r p u f : List Char} {k n : Nat}

/-! ## Sources need the levels -/

/-- What is printed for a phrase needs no more levels than there are around its parentheses. -/
theorem Phrase.levels_le (hi : ∀ s e r, inner.Reads s e r → e.levels 0 < n)
    (h : Phrase inner k s e r) : e.levels k ≤ n := by
  induction h with
  | number _ => exact Nat.zero_le n
  | name _ => exact Nat.zero_le n
  | @parens s m₁ m₂ r e _ he _ =>
    have hlt := hi _ _ _ he
    have hle := e.levels_le_succ (6 : Nat)
    omega
  | @atom s r e _ ih =>
    have hle := e.levels_mono (show ((5 : Nat) : Int) ≤ (6 : Nat) by decide)
    omega
  | negName _ _ => exact Nat.zero_le n
  | negNumber _ _ _ _ => exact Nat.zero_le n
  | @negParens s m₁ m₂ m₃ r e _ _ he _ =>
    have hlt := hi _ _ _ he
    have hle := e.levels_neg_le (5 : Nat)
    omega
  | @operand k s r e _ _ ih =>
    have hle := e.levels_mono (show (k : Int) ≤ (k + 1 : Nat) by omega)
    omega
  | @binary k s m m' r op a b _ hop _ _ _ iha ihb =>
    have hlevel := mem_operators_iff.mp hop
    have hleft : op.level - 1 = k := by omega
    have hright : op.level = (k + 1 : Nat) := by omega
    have hloose : ¬op.level ≤ (k : Int) := by omega
    rw [levels, if_neg hloose, hleft, hright]
    omega

/-- What the expression parser reads needs fewer levels than it had. -/
theorem levels_lt_of_reads (n : Nat) : ∀ s e r, (expression n).Reads s e r → e.levels 0 < n := by
  induction n with
  | zero => exact fun s e r h ↦ absurd h not_reads_expression_zero
  | succ n ih =>
    intro s e r h
    have hphrase := phrase_of_reads (Nat.zero_le 5) (reads_expression_succ_iff.mp h)
    exact Nat.lt_succ_of_le (hphrase.levels_le ih)

/-! ## With the levels the text is read -/

private theorem stops_close (f : List Char) : Stops isWordPart (')' :: f) :=
  stops_cons.mpr (by decide)

private theorem follow_close (f : List Char) : Follow 0 (')' :: f) :=
  .of_token (show Token [')'] (')' :: f) f from .of_append blank_nil) rfl rfl

/-- The shortest numeral of a number is one of its numerals. -/
theorem numeral_toDigits (hn : (Nat.toDigits 10 n).length ≤ Decimal.digitLimit) (hu : Blank u)
    (hf : Stops Char.isDigit f) : Numeral n (u ++ (Nat.toDigits 10 n ++ f)) f :=
  ⟨_, Nat.toDigits_ne_nil, fun _ hc ↦ Nat.isDigit_of_mem_toDigits (by decide) (by decide) hc, hn,
    Nat.ofDigitChars_toDigits (by decide) (by decide), .of_append hu, hf⟩

private theorem parenthesizeIf_true_append (q f : List Char) :
    parenthesizeIf true q ++ f = ['('] ++ (q ++ ([')'] ++ f)) := by
  simp [parenthesizeIf]

/-- A phrase in front of a closing parenthesis is an expression of one more level. -/
theorem Phrase.reads_succ (h : Phrase (expression n) k s e r) (hk : k ≤ 5) (hf : Follow 0 r) :
    (expression (n + 1)).Reads s e r :=
  reads_expression_succ_iff.mpr ((h.loosen (Nat.zero_le k) hk).reads hf)

private theorem phrase_neg_of_isLeaf (he : e.IsExpression) (hr : e.Readable)
    (hleaf : e.isLeaf = true) (hp : e.printInside 0 = .ok p) (hu : Blank u)
    (hf : Stops isWordPart f) :
    Phrase inner 5 (u ++ ('-' :: parenthesizeIf e.variableName?.isNone p ++ f)) (.neg e) f := by
  cases he with
  | var x =>
    rw [printInside_var, Except.ok.injEq] at hp
    rw [← hp]
    exact .negName (.of_append hu) ⟨forall_leaves_var.mp hr, .of_append blank_nil, hf⟩
  | const value =>
    obtain ⟨hl, rfl⟩ := printInside_const_iff.mp hp
    obtain ⟨m, rfl⟩ := Int.eq_ofNat_of_zero_le (forall_leaves_const.mp hr)
    have hname : (Tree.const m).variableName? = none := rfl
    rw [Decimal.numeral_natCast, List.cons_append, hname, Option.isNone_none,
      parenthesizeIf_true_append]
    exact .negNumber (.of_append hu) (.of_append blank_nil)
      (numeral_toDigits hl blank_nil (stops_close f).digit) (.of_append blank_nil)
  | neg _ => cases hleaf
  | binary _ _ _ => cases hleaf

/-- With its levels, what is printed for an expression in a context is a phrase of the stratum of
the context. -/
theorem phrase_of_printInside (he : e.IsExpression) (hr : e.Readable) (hk : k ≤ 5)
    (hp : e.printInside k = .ok p) (hn : e.levels k ≤ n) (hu : Blank u)
    (hf : Stops isWordPart f) : Phrase (expression n) k (u ++ (p ++ f)) e f := by
  induction he generalizing k n p u f with
  | var x =>
    rw [printInside_var, Except.ok.injEq] at hp
    rw [← hp]
    exact .loosen (.atom (.name ⟨forall_leaves_var.mp hr, .of_append hu, hf⟩)) hk (Nat.le_refl 5)
  | const value =>
    obtain ⟨hl, rfl⟩ := printInside_const_iff.mp hp
    obtain ⟨m, rfl⟩ := Int.eq_ofNat_of_zero_le (forall_leaves_const.mp hr)
    rw [Decimal.numeral_natCast]
    exact .loosen (.atom (.number (numeral_toDigits hl hu hf.digit))) hk (Nat.le_refl 5)
  | @neg operand ho ih =>
    obtain ⟨q, hq, rfl⟩ := printInside_neg_iff.mp hp
    have hread := forall_leaves_neg.mp hr
    refine .loosen ?_ hk (Nat.le_refl 5)
    cases hleaf : operand.isLeaf with
    | true => exact phrase_neg_of_isLeaf ho hread hleaf hq hu hf
    | false =>
      have hname : operand.variableName? = none := by
        cases ho with
        | var _ => cases hleaf
        | _ => rfl
      rw [levels, hleaf, if_neg Bool.false_ne_true] at hn
      obtain ⟨n, rfl⟩ := Nat.exists_eq_add_one.mpr (show 0 < n by omega)
      have hinner := ih hread (Nat.zero_le 5) hq (Nat.le_of_succ_le_succ hn) blank_nil
        (stops_close f)
      rw [List.cons_append, hname, Option.isNone_none, parenthesizeIf_true_append]
      exact .negParens (.of_append hu) (.of_append blank_nil)
        (hinner.reads_succ (Nat.zero_le 5) (follow_close f)) (.of_append blank_nil)
  | @binary op left right hl hr ihl ihr =>
    obtain ⟨a, b, ha, hb, rfl⟩ := printInside_binary_iff.mp hp
    obtain ⟨j, hj, hop⟩ := exists_stratum op
    obtain ⟨hrl, hrr⟩ := forall_leaves_binary.mp hr
    have hleft : op.level - 1 = j := by omega
    have hright : op.level = (j + 1 : Nat) := by omega
    rw [levels, hleft] at hn
    rw [hleft] at ha
    -- without parentheses, the operands are phrases of their strata
    have hchain : ∀ {n u f}, max (left.levels j) (right.levels op.level) ≤ n → Blank u →
        Stops isWordPart f →
          Phrase (expression n) j (u ++ (a ++ (op.symbol.toList ++ b) ++ f)) (.binary op left right)
            f := by
      intro n u f hn hu hf
      have hstop : Stops isWordPart (op.symbol.toList ++ (b ++ f)) := by
        cases op <;> exact stops_cons.mpr (by decide)
      have hpa := ihl hrl (Nat.le_of_lt hj) ha (Nat.max_le.mp hn).1 hu hstop
      rw [hright] at hb hn
      have hpb := ihr hrr hj hb (Nat.max_le.mp hn).2 blank_nil hf
      rw [List.append_assoc, List.append_assoc]
      exact .binary hj (mem_operators_iff.mpr hop) hpa (.of_append blank_nil) hpb
    by_cases hparens : op.level ≤ k
    · rw [if_pos hparens] at hn
      obtain ⟨n, rfl⟩ := Nat.exists_eq_add_one.mpr (show 0 < n by omega)
      have hinner := hchain (Nat.le_of_succ_le_succ hn) blank_nil (stops_close f)
      rw [decide_eq_true hparens, parenthesizeIf_true_append]
      refine .loosen (.atom (.parens (.of_append hu) ?_ (.of_append blank_nil))) hk (Nat.le_refl 5)
      exact hinner.reads_succ (Nat.le_of_lt hj) (follow_close f)
    · rw [if_neg hparens] at hn
      rw [decide_eq_false hparens]
      exact (hchain hn hu hf).loosen (by omega) (Nat.le_of_lt hj)

end WhileSyntax.Grammar
