import WhileSyntax.Grammar.Expression

/-!
# Grammar of commands

An assignment, a conditional with both branches, a loop, or a block: commands between braces with
semicolons between them. Branches, bodies and members of blocks are commands one level deeper, and
so are the expressions of a command.

Every parser of a form takes the parsers for the expressions and commands inside it.
-/

namespace WhileSyntax.Grammar

open WhileSyntax.Parser

/-- A name, an equals sign and an expression. -/
def assign (expression : Parser Tree) : Parser Tree :=
  (ident.bind fun name ↦
    ((symbol "=").andThen expression).map fun value ↦ Tree.assign name value).named "assign"

/-- A condition and two branches. -/
def conditional (expression command : Parser Tree) : Parser Tree :=
  (((keyword "if").andThen expression).bind fun condition ↦
    ((keyword "then").andThen command).bind fun yes ↦
      ((keyword "else").andThen command).map fun no ↦
        Tree.conditional condition yes no).named "if"

/-- A condition and a body. -/
def loop (expression command : Parser Tree) : Parser Tree :=
  (((keyword "while").andThen expression).bind fun condition ↦
    ((keyword "do").andThen command).map fun body ↦ Tree.loop condition body).named "while"

/-- Commands between braces. -/
def block (command : Parser Tree) : Parser Tree :=
  ((((symbol "\x7b").andThen (sepBy command (symbol ";"))).skip (symbol "\x7d")).map
    Tree.block).named "seq"

/-- Any one command. -/
def anyCommand (expression command : Parser Tree) : Parser Tree :=
  choice [assign expression, conditional expression command, loop expression command,
    block command]

/-- Whole commands of a number of levels. -/
def command : (levels : Nat) → Parser Tree
  | 0 => .lazy true "command" fun _ ↦ .bottomless
  | levels + 1 => .lazy true "command" fun _ ↦ anyCommand (expression levels) (command levels)

/-- The command that a text is, if it is one. -/
def parseCommand (text : List Char) : Noted (Except Fault (Option Tree)) :=
  (command nestingLimit).readAll text

/-- The command that a text is, or the reason why it is none. -/
def parseCommandStrict (text : List Char) (filename : String) : Noted (Except ReadError Tree) :=
  (command nestingLimit).readStrict text "command" filename

/-- Commands of every number of levels go by one name and make one promise. -/
theorem describe_command (levels : Nat) :
    (command levels).name = "command" ∧ (command levels).consumes = true := by
  cases levels <;> exact ⟨rfl, rfl⟩

/-- Without a level left, a command is too deep. -/
theorem run_command_zero (s : List Char) : (command 0).run s = .tooDeep := rfl

/-- With a level left, a command is any one of the four forms. -/
theorem run_command_succ (levels : Nat) (s : List Char) :
    (command (levels + 1)).run s =
      (anyCommand (expression levels) (command levels)).run s := by
  rw [command, run_lazy]

end WhileSyntax.Grammar
