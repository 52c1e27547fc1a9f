import WhileSyntax.Proofs.Printer.Context

/-!
# The printer as one recursion on the tree

The printer walks along the left operands of an operator while they are as strong as it, and meets
every other operand on its way down that spine. `Tree.printNested` is the rule that the walk
replaces: every operator prints both its operands, the right one first, each in a context of its
own. The two give the same text for every tree, or fail with the same error
(`printInside_eq_printNested`).

The context of a left operand is one weaker than its operator. So a left operand as strong as the
operator never stands in parentheses, which is why the walk may leave the question out, and what is
out of place on a spine is found at the same node by both.
-/

namespace WhileSyntax.Tree

/-- Print an expression in a context, every operand by a call of its own. -/
def printNested : Tree → (context : Int) → Except PrintError (List Char)
  | var name, _ => .ok name.toList
  | const value, _ => (Text.Decimal.write value).mapError .numeral
  | neg (var name), _ => .ok ('-' :: name.toList)
  | neg operand, _ => do
    let text ← printNested operand 0
    .ok ('-' :: '(' :: text ++ [')'])
  | binary op left right, context => do
    let after ← printNested right op.level
    let before ← printNested left (op.level - 1)
    let text := before ++ op.symbol.toList ++ after
    .ok (if context < op.level then text else '(' :: text ++ [')'])
  | t, _ => .error (.notExpression t.kind)

/-- The walk along the spines prints what the recursion prints, or fails as it does. -/
theorem printInside_eq_printNested (t : Tree) (context : Int) :
    t.printInside context = t.printNested context := by
  fun_induction printNested t context with
  | case1 context name => exact printInside_var name context
  | case2 context value =>
    rw [printInside, printAt]
    cases Text.Decimal.write value <;> simp [Place.following, Except.mapError]
  | case3 context name => exact printInside_neg_var name context
  | case4 context operand hvar ih =>
    have hv : operand.variableName? = none := by
      cases operand with
      | var name => exact (hvar name rfl).elim
      | _ => rfl
    rw [printInside_neg_eq hv, ih]
  | case5 op left right context ihr ihl =>
    rw [printInside_binary_eq, ihr, ihl]
    by_cases hc : context < op.level
    · simp [parenthesizeIf, hc, Int.not_le.mpr hc]
    · simp [parenthesizeIf, hc, Int.not_lt.mp hc]
  | case6 context t hvar hconst _ hneg hbinary =>
    cases t with
    | var name => exact (hvar name rfl).elim
    | const value => exact (hconst value rfl).elim
    | neg operand => exact (hneg operand rfl).elim
    | binary op left right => exact (hbinary op left right rfl).elim
    | _ => rfl

/-- What is out of place on the right is found before what is out of place on the left. -/
example : (binary .times (block []) (binary .plus bareExpression bareCommand)).printNested 0 =
    .error (.notExpression "Command") := rfl

end WhileSyntax.Tree
