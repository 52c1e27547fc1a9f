import WhileSyntax.Proofs.Grammar.Token

/-!
# Nesting of parentheses

How deep the parentheses of a text nest, counted from left to right. A balanced text adds its own
nesting to what is open around it and leaves the count as it was, so the nesting of a text follows
from that of its parts.
-/

namespace WhileSyntax.Grammar

/-- Number of open parentheses behind a character. -/
def countParens (count : Nat) (c : Char) : Nat :=
  if c = '(' then count + 1 else if c = ')' then count - 1 else count

/-- The most parentheses that are open at one time in a text with `count` of them open in front. -/
def openParens : (count : Nat) → List Char → Nat
  | count, [] => count
  | count, c :: cs => max count (openParens (countParens count c) cs)

/-- How deep the parentheses of a text nest. -/
def parenDepth (text : List Char) : Nat := openParens 0 text

/-- Text that nests `n` deep and closes what it opens. -/
def Balances (t : List Char) (n : Nat) : Prop :=
  ∀ count s, openParens count (t ++ s) = max (count + n) (openParens count s)

/-- Whether a character is no parenthesis. -/
def isPlain (c : Char) : Bool := c != '(' && c != ')'

private theorem le_openParens (count : Nat) (s : List Char) : count ≤ openParens count s := by
  cases s with
  | nil => exact Nat.le_refl count
  | cons c cs => exact Nat.le_max_left _ _

private theorem openParens_append (count : Nat) (t s : List Char) : openParens count (t ++ s) =
    max (openParens count t) (openParens (t.foldl countParens count) s) := by
  induction t generalizing count with
  | nil =>
    rw [List.nil_append, openParens, List.foldl_nil]
    exact (Nat.max_eq_right (le_openParens count s)).symm
  | cons c t ih =>
    rw [List.cons_append, openParens, ih, List.foldl_cons, openParens]
    omega

private theorem openParens_le (count : Nat) (t : List Char) :
    openParens count t ≤ count + t.length := by
  induction t generalizing count with
  | nil => exact Nat.le_refl count
  | cons c t ih =>
    have hstep : countParens count c ≤ count + 1 := by
      unfold countParens
      split
      · omega
      · split <;> omega
    have hrest := ih (countParens count c)
    rw [openParens, List.length_cons]
    omega

private theorem openParens_replicate (count n : Nat) :
    openParens count (List.replicate n '(') = count + n := by
  induction n generalizing count with
  | zero => rfl
  | succ n ih =>
    have hstep : countParens count '(' = count + 1 := rfl
    rw [List.replicate_succ, openParens, hstep, ih]
    omega

private theorem foldl_countParens {count : Nat} {t : List Char} (h : t.count ')' ≤ count) :
    t.foldl countParens count + t.count ')' = count + t.count '(' := by
  induction t generalizing count with
  | nil => rfl
  | cons c t ih =>
    rw [List.foldl_cons]
    by_cases ho : c = '('
    · subst ho
      have hstep : countParens count '(' = count + 1 := rfl
      rw [List.count_cons_of_ne (by decide)] at h ⊢
      rw [List.count_cons_self, hstep, ih (by omega)]
      omega
    · by_cases hc : c = ')'
      · subst hc
        have hstep : countParens count ')' = count - 1 := rfl
        rw [List.count_cons_self] at h ⊢
        have hrest := ih (show t.count ')' ≤ count - 1 by omega)
        rw [List.count_cons_of_ne (by decide), hstep]
        omega
      · have hstep : countParens count c = count := by rw [countParens, if_neg ho, if_neg hc]
        rw [List.count_cons_of_ne hc] at h ⊢
        rw [List.count_cons_of_ne ho, hstep, ih h]

namespace Balances

variable {t u : List Char} {m n : Nat}

/-- Text without parentheses does not nest. -/
theorem of_plain (h : t.all isPlain = true) : Balances t 0 := by
  intro count s
  have hle := le_openParens count s
  induction t with
  | nil =>
    rw [List.nil_append]
    omega
  | cons c t ih =>
    obtain ⟨hp, ht⟩ := Bool.and_eq_true_iff.mp h
    rw [isPlain, Bool.and_eq_true, bne_iff_ne, bne_iff_ne] at hp
    obtain ⟨ho, hc⟩ := hp
    rw [List.cons_append, openParens, countParens, if_neg ho, if_neg hc, ih ht]
    omega

/-- The deeper of two texts decides. -/
theorem append (ht : Balances t m) (hu : Balances u n) : Balances (t ++ u) (max m n) := by
  intro count s
  rw [List.append_assoc, ht, hu]
  omega

/-- Parentheses nest one deeper. -/
theorem parens (h : Balances t n) : Balances ('(' :: t ++ [')']) (n + 1) := by
  intro count s
  have hopen : openParens count ('(' :: t ++ [')'] ++ s) =
      max count (openParens (count + 1) (t ++ ')' :: s)) := by
    rw [List.append_assoc, List.cons_append, openParens]
    rfl
  have hclose : openParens (count + 1) (')' :: s) = max (count + 1) (openParens count s) := rfl
  rw [hopen, h, hclose]
  omega

/-- The nesting of a balanced text is its own. -/
theorem parenDepth_eq (h : Balances t n) : parenDepth t = n := by
  have := h 0 []
  rw [List.append_nil] at this
  rw [parenDepth, this, openParens]
  omega

/-- A balanced text opens as many parentheses as it closes. -/
theorem count_eq (h : Balances t n) : t.count '(' = t.count ')' := by
  -- behind enough open parentheses the text cannot close more than it opens, and in front of
  -- enough of them its own nesting does not show
  have hmax := h (t.count ')') (List.replicate (n + t.count ')' + t.length) '(')
  have hcount := foldl_countParens (Nat.le_refl (t.count ')'))
  have hle := openParens_le (t.count ')') t
  rw [openParens_append, openParens_replicate, openParens_replicate] at hmax
  omega

example : parenDepth "(a+(b))*-(c)".toList = 2 := by decide

end Balances
end WhileSyntax.Grammar
