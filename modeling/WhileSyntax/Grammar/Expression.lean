import WhileSyntax.Parser.Whole
import WhileSyntax.Tree.Basic

/-!
# Grammar of expressions

From the loosest to the tightest: disjunctions, conjunctions, comparisons, sums, products, unary
minus, atoms. Every binary tier reads an operand of the next tier and then pairs of an operator and
another operand, and groups them to the left. Unary minus stands only before a name or a
parenthesis. Parentheses reopen the loosest tier, one level deeper; the number of levels is limited.

Every parser of a tier takes the parser for whole expressions that parentheses reopen.
-/

namespace WhileSyntax.Grammar

open WhileSyntax.Parser

variable {α : Type}

/-- Number of levels that expressions and commands may be nested in a text. -/
def nestingLimit : Nat := 100

/-- One tier of binary operators, grouped to the left. Operators are tried in the order given, and
one that no operand follows is left unread. -/
def binaryTier (join : Binop → α → α → α) (operand : Parser α) (ops : List Binop)
    (name : String) : Parser α :=
  let pair := choice (ops.map fun op ↦
    ((symbol op.symbol).andThen operand).map fun right ↦ (op, right))
  (operand.bind fun first ↦ (many pair).map fun pairs ↦
    pairs.foldl (fun left p ↦ join p.1 left p.2) first).named name

/-- A value between parentheses. -/
def parens (p : Parser α) : Parser α := ((symbol "(").andThen p).skip (symbol ")")

/-- A name as an expression. -/
def var : Parser Tree := (ident.map Tree.var).named "variable"

/-- A number as an expression. -/
def const : Parser Tree := (number.map fun n : Nat ↦ Tree.const n).named "constant"

/-- A parenthesis, a name or a number. -/
def atom (expression : Parser Tree) : Parser Tree :=
  ((parens expression).orElse var |>.orElse const).named "atom"

/-- A minus before a name or a parenthesis, or an atom. -/
def unary (expression : Parser Tree) : Parser Tree :=
  (choice [
    ((symbol "-").andThen var).map Tree.neg,
    ((symbol "-").andThen (parens const)).map Tree.neg,
    ((symbol "-").andThen (parens expression)).map Tree.neg,
    atom expression]).named "unary"

/-- Products and quotients. -/
def product (expression : Parser Tree) : Parser Tree :=
  binaryTier Tree.binary (unary expression) [.times, .div] "factor"

/-- Sums and differences. -/
def sum (expression : Parser Tree) : Parser Tree :=
  binaryTier Tree.binary (product expression) [.plus, .minus] "additive"

/-- Comparisons. The shorter spelling is tried first: no operand begins with an equals sign, so on
the longer one it fails and gives way. -/
def comparison (expression : Parser Tree) : Parser Tree :=
  binaryTier Tree.binary (sum expression) [.less, .lessEq, .equal] "compare"

/-- Conjunctions. -/
def conjunction (expression : Parser Tree) : Parser Tree :=
  binaryTier Tree.binary (comparison expression) [.and] "and"

/-- Disjunctions. -/
def disjunction (expression : Parser Tree) : Parser Tree :=
  binaryTier Tree.binary (conjunction expression) [.or] "or"

/-- Whole expressions of a number of levels. -/
def expression : (levels : Nat) → Parser Tree
  | 0 => .lazy true "expression" fun _ ↦ .bottomless
  | levels + 1 => .lazy true "expression" fun _ ↦ disjunction (expression levels)

/-- The expression that a text is, if it is one. -/
def parseExpression (text : List Char) : Noted (Except Fault (Option Tree)) :=
  (expression nestingLimit).readAll text

/-- The expression that a text is, or the reason why it is none. -/
def parseExpressionStrict (text : List Char) (filename : String) :
    Noted (Except ReadError Tree) :=
  (expression nestingLimit).readStrict text "expression" filename

/-- Expressions of every number of levels go by one name and make one promise. -/
theorem describe_expression (levels : Nat) :
    (expression levels).name = "expression" ∧ (expression levels).consumes = true := by
  cases levels <;> exact ⟨rfl, rfl⟩

/-- Without a level left, an expression is too deep. -/
theorem run_expression_zero (s : List Char) : (expression 0).run s = .tooDeep := rfl

/-- With a level left, an expression is a disjunction. -/
theorem run_expression_succ (levels : Nat) (s : List Char) :
    (expression (levels + 1)).run s = (disjunction (expression levels)).run s := by
  rw [expression, run_lazy]

end WhileSyntax.Grammar
