/-!
# Syntax trees

Trees of the While language. Expressions and commands are kept in one type, because the tree itself
does not enforce where each may stand: a command may sit in the place of an expression, or the
reverse, and values that are no syntax at all may sit anywhere. `IsExpression` and `IsCommand` say
which trees are well sorted; the printers name the first node that is out of place.
-/

namespace WhileSyntax

/-- The binary operators. -/
inductive Binop where
  | plus | minus | times | div | equal | less | lessEq | and | or
  deriving DecidableEq, Repr

/-- How tightly an operator binds, loosest first. -/
inductive Precedence where
  /-- no enclosing operator -/
  | none
  /-- disjunction -/
  | or
  /-- conjunction -/
  | and
  /-- comparisons -/
  | comparison
  /-- sums and differences -/
  | term
  /-- products and quotients -/
  | factor
  deriving DecidableEq, Repr

namespace Precedence

/-- All precedences, loosest first. -/
def all : List Precedence := [none, or, and, comparison, term, factor]

/-- Binding strength, growing with tightness. -/
def strength : Precedence → Int
  | none => 0
  | or => 1
  | and => 2
  | comparison => 3
  | term => 4
  | factor => 5

/-- Name of a precedence in tables. -/
def name : Precedence → String
  | none => "NONE"
  | or => "OR"
  | and => "AND"
  | comparison => "COMPARISON"
  | term => "TERM"
  | factor => "FACTOR"

end Precedence

namespace Binop

/-- All operators, in the order of tables. -/
def all : List Binop := [plus, minus, times, div, equal, less, lessEq, and, or]

/-- Spelling of an operator in programs. -/
def symbol : Binop → String
  | plus => "+"
  | minus => "-"
  | times => "*"
  | div => "/"
  | equal => "=="
  | less => "<"
  | lessEq => "<="
  | and => "&&"
  | or => "||"

/-- Name of an operator in tables. -/
def name : Binop → String
  | plus => "PLUS"
  | minus => "MINUS"
  | times => "TIMES"
  | div => "DIV"
  | equal => "EQUAL"
  | less => "LESS"
  | lessEq => "LESS_EQ"
  | and => "AND"
  | or => "OR"

/-- Precedence of an operator. -/
def precedence : Binop → Precedence
  | or => .or
  | and => .and
  | less | lessEq | equal => .comparison
  | plus | minus => .term
  | times | div => .factor

/-- Binding strength of an operator. -/
def level (op : Binop) : Int := op.precedence.strength

/-- The list of operators is complete. -/
theorem mem_all (op : Binop) : op ∈ all := by
  cases op <;> decide

/-- Every operator binds tighter than no operator. -/
theorem level_pos (op : Binop) : 0 < op.level := by
  cases op <;> decide

end Binop

/-- A plain value: data that is no syntax. -/
inductive Plain where
  | nothing
  | flag (value : Bool)
  | whole (value : Int)
  /-- a decimal fraction, `mantissa` over ten to the `places` -/
  | fraction (mantissa : Int) (places : Nat)
  | text (value : String)
  | list (items : List Plain)
  | table (entries : List (String × Plain))
  deriving Inhabited

/-- Name of the kind of a plain value. -/
def Plain.kind : Plain → String
  | nothing => "NoneType"
  | flag _ => "bool"
  | whole _ => "int"
  | fraction _ _ => "float"
  | text _ => "str"
  | list _ => "list"
  | table _ => "dict"

/-- Syntax trees, well sorted or not. -/
inductive Tree where
  | var (name : String)
  | const (value : Int)
  /-- unary minus -/
  | neg (operand : Tree)
  | binary (op : Binop) (left right : Tree)
  | assign (name : String) (value : Tree)
  /-- commands in sequence, between braces -/
  | block (commands : List Tree)
  | conditional (condition yes no : Tree)
  | loop (condition body : Tree)
  /-- an expression of no particular form -/
  | bareExpression
  /-- a command of no particular form -/
  | bareCommand
  /-- a value that is no syntax -/
  | plain (value : Plain)
  deriving Inhabited

namespace Tree

/-- Name of the form of a tree's root. -/
def kind : Tree → String
  | var _ => "Var"
  | const _ => "Const"
  | neg _ => "Uminus"
  | binary _ _ _ => "BinaryOp"
  | assign _ _ => "Assign"
  | block _ => "Seq"
  | conditional _ _ _ => "If"
  | loop _ _ => "While"
  | bareExpression => "Expression"
  | bareCommand => "Command"
  | plain value => value.kind

/-- Well-sorted expressions: built from variables, constants and operators alone. -/
inductive IsExpression : Tree → Prop where
  | var (name : String) : IsExpression (var name)
  | const (value : Int) : IsExpression (const value)
  | neg {operand : Tree} : IsExpression operand → IsExpression (neg operand)
  | binary (op : Binop) {left right : Tree} :
      IsExpression left → IsExpression right → IsExpression (binary op left right)

/-- Well-sorted commands: every expression and every command in its place. -/
inductive IsCommand : Tree → Prop where
  | assign (name : String) {value : Tree} : IsExpression value → IsCommand (assign name value)
  | block {commands : List Tree} : (∀ c ∈ commands, IsCommand c) → IsCommand (block commands)
  | conditional {condition yes no : Tree} :
      IsExpression condition → IsCommand yes → IsCommand no →
        IsCommand (conditional condition yes no)
  | loop {condition body : Tree} :
      IsExpression condition → IsCommand body → IsCommand (loop condition body)

end Tree
end WhileSyntax
