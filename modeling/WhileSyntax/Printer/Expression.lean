import WhileSyntax.Text.Decimal
import WhileSyntax.Tree.Basic

/-!
# Printing expressions

An expression is printed without spaces and with the fewest parentheses that let it be read back. A
binary operator stands in a context, the strength of what encloses it, and is put in parentheses
where the context is at least as strong as the operator itself.

Operators of one strength group to the left, so the left operands of an operator form a spine of
operators of its strength. A spine is printed from its outermost operator inwards: the right operand
of each is printed and kept as a tail, until the innermost left operand is reached.
-/

namespace WhileSyntax

/-- Why a tree cannot be printed. -/
inductive PrintError where
  /-- a node of this kind stands in the place of an expression -/
  | notExpression (kind : String)
  /-- a node of this kind stands in the place of a command -/
  | notCommand (kind : String)
  /-- a constant beyond the limit -/
  | numeral (error : Text.Decimal.NumeralError)
  /-- lines cannot be indented by this width -/
  | negativeWidth (width : Int)
  deriving DecidableEq, Repr

/-- Text of a print error. -/
def PrintError.message : PrintError → String
  | notExpression kind => s!"Cannot pretty-print {kind} as an expression"
  | notCommand kind => s!"Cannot pretty-print {kind} as a command"
  | numeral error => error.message
  | negativeWidth width => s!"indent_width must be non-negative, got {width}"

/-- Where an expression is printed. -/
inductive Place where
  /-- inside an operator of this strength -/
  | inside (context : Int)
  /-- on a spine of this strength, in front of the tails printed so far -/
  | onSpine (level : Int) (tails : List (List Char))

namespace Place

/-- Strength of the operator around a place. -/
def context : Place → Int
  | inside context => context
  | onSpine level _ => level - 1

/-- Text that follows a place on its spine. -/
def following : Place → List Char
  | inside _ => []
  | onSpine _ tails => tails.flatten

end Place

namespace Tree

/-- Text in parentheses if that is needed. -/
def parenthesizeIf (needed : Bool) (text : List Char) : List Char :=
  if needed then '(' :: text ++ [')'] else text

/-- The name that a tree consists of. Unary minus needs no parentheses around one. -/
def variableName? : Tree → Option String
  | var name => some name
  | _ => none

/-- Print an expression at a place, together with the text that follows it on its spine. -/
def printAt : Tree → Place → Except PrintError (List Char)
  | var name, place => .ok (name.toList ++ place.following)
  | const value, place =>
    match Text.Decimal.write value with
    | .ok digits => .ok (digits ++ place.following)
    | .error error => .error (.numeral error)
  | neg operand, place =>
    match operand.variableName? with
    | some name => .ok ('-' :: name.toList ++ place.following)
    | none => do
      let text ← printAt operand (.inside Precedence.none.strength)
      .ok ('-' :: '(' :: text ++ ')' :: place.following)
  | binary op left right, place => do
    let operand ← printAt right (.inside op.level)
    let tail := op.symbol.toList ++ operand
    match place with
    | .inside context =>
      let text ← printAt left (.onSpine op.level [tail])
      .ok (parenthesizeIf (op.level ≤ context) text)
    | .onSpine level tails =>
      if op.level = level then printAt left (.onSpine level (tail :: tails))
      else
        let text ← printAt left (.onSpine op.level [tail])
        .ok (parenthesizeIf (op.level ≤ level - 1) text ++ tails.flatten)
  | t, _ => .error (.notExpression t.kind)

/-- Print an expression inside an operator of the given strength. -/
def printInside (t : Tree) (context : Int) : Except PrintError (List Char) :=
  t.printAt (.inside context)

/-- Print an expression that nothing encloses. -/
def printExpression (t : Tree) : Except PrintError (List Char) :=
  t.printInside Precedence.none.strength

end Tree
end WhileSyntax
