import WhileSyntax.Proofs.Printer.Expression

/-!
# Expressions in their contexts

What is printed for each form of expression inside an operator of a given strength, and what has
been printed for its parts. The context decides about one pair of parentheses, around all of it, and
about nothing else (`exists_printInside_eq`).
-/

namespace WhileSyntax.Tree

open Text

variable {e left right : Tree} {op : Binop} {p : List Char} {c c' value : Int}

/-! ## What is printed for each form -/

/-- A sequence of steps succeeds when each step does. -/
theorem bind_eq_ok_iff {ε α β : Type} {x : Except ε α} {next : α → Except ε β} {w : β} :
    x >>= next = .ok w ↔ ∃ v, x = .ok v ∧ next v = .ok w := by
  cases x <;> simp [bind, Except.bind]

/-- A variable is printed as its name. -/
theorem printInside_var (x : String) (c : Int) : (var x).printInside c = .ok x.toList := by
  simp [printInside, printAt, Place.following]

/-- A constant is printed as its numeral. -/
theorem printInside_const_iff : (const value).printInside c = .ok p ↔
    (Nat.toDigits 10 value.natAbs).length ≤ Decimal.digitLimit ∧ p = Decimal.numeral value := by
  rw [← Decimal.write_eq_ok_iff, printInside, printAt]
  cases Decimal.write value <;> simp [Place.following]

/-- Behind a minus parentheses are missing around a name only. -/
theorem printInside_neg_iff : (neg e).printInside c = .ok p ↔
    ∃ q, e.printInside 0 = .ok q ∧ p = '-' :: parenthesizeIf e.variableName?.isNone q := by
  cases hv : e.variableName? with
  | some x =>
    obtain rfl := eq_var_of_variableName? hv
    simp [printInside_var, printInside_neg_var, parenthesizeIf, eq_comm]
  | none =>
    rw [printInside_neg_eq hv, bind_eq_ok_iff]
    simp [parenthesizeIf, eq_comm]

/-- An operator is printed between its operands, the left one in a context one weaker. -/
theorem printInside_binary_iff : (binary op left right).printInside c = .ok p ↔
    ∃ a b, left.printInside (op.level - 1) = .ok a ∧ right.printInside op.level = .ok b ∧
      p = parenthesizeIf (op.level ≤ c) (a ++ (op.symbol.toList ++ b)) := by
  rw [printInside_binary_eq]
  constructor
  · intro h
    obtain ⟨b, hb, h⟩ := bind_eq_ok_iff.mp h
    obtain ⟨a, ha, h⟩ := bind_eq_ok_iff.mp h
    exact ⟨a, b, ha, hb, (Except.ok.inj h).symm⟩
  · rintro ⟨a, b, ha, hb, rfl⟩
    rw [ha, hb]
    rfl

/-! ## Parentheses -/

/-- Whether an expression is printed in parentheses inside an operator of a given strength. -/
def needsParens : Tree → (context : Int) → Bool
  | binary op _ _, context => op.level ≤ context
  | _, _ => false

/-- Nothing needs parentheses where nothing encloses it. -/
theorem needsParens_zero (e : Tree) : e.needsParens 0 = false := by
  cases e with
  | binary op left right =>
    have := op.level_pos
    simp only [needsParens, decide_eq_false_iff_not]
    omega
  | _ => rfl

/-- What needs parentheses in a context needs them in a stronger one. -/
theorem needsParens_mono (hc : c ≤ c') (h : e.needsParens c = true) :
    e.needsParens c' = true := by
  cases e with
  | binary op left right =>
    simp only [needsParens, decide_eq_true_eq] at h ⊢
    omega
  | _ => cases h

/-- In all contexts the same is printed, with parentheses or without them. -/
theorem exists_printInside_eq (h : e.printInside c = .ok p) :
    ∃ q, p = parenthesizeIf (e.needsParens c) q ∧
      ∀ c', e.printInside c' = .ok (parenthesizeIf (e.needsParens c') q) := by
  cases e with
  | var x => exact ⟨p, rfl, fun _ ↦ h⟩
  | const value => exact ⟨p, rfl, fun _ ↦ h⟩
  | neg operand => exact ⟨p, rfl, fun _ ↦ h⟩
  | binary op left right =>
    obtain ⟨a, b, ha, hb, rfl⟩ := printInside_binary_iff.mp h
    exact ⟨_, rfl, fun _ ↦ printInside_binary ha hb⟩
  | _ => cases h

/-- In every context what is printed without one is printed, with parentheses or without them. -/
theorem printInside_of_zero (h : e.printInside 0 = .ok p) (c : Int) :
    e.printInside c = .ok (parenthesizeIf (e.needsParens c) p) := by
  obtain ⟨q, hp, hq⟩ := exists_printInside_eq h
  rw [needsParens_zero] at hp
  rw [hq, hp]
  rfl

end WhileSyntax.Tree
