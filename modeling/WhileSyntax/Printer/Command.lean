import WhileSyntax.Journal
import WhileSyntax.Printer.Expression

/-!
# Printing commands

Commands are laid out over lines, each level of nesting indented by one more unit of spaces. A block
hugs the keyword in front of it: it opens on the keyword's line, and what follows its closing brace
stays on that line. Any other branch or body takes lines of its own, one level deeper. A conditional
in the second branch of another stays on its line, so that chains do not drift to the right. The
members of a block take lines of their own, with semicolons between them. No line feed ends the
text.
-/

namespace WhileSyntax

/-- Width of one level of indentation where none is asked for. -/
def standardIndent : Nat := 2

namespace Tree

/-- Whether a command is a block. -/
def isBlock : Tree → Bool
  | block _ => true
  | _ => false

/-- Whether a command is a conditional. -/
def isConditional : Tree → Bool
  | conditional _ _ _ => true
  | _ => false

mutual

/-- Print a command whose first line begins after an indentation that is already written; its other
lines begin with `indent`, and with one more `unit` for each level inside it. -/
def layout (unit : List Char) : Tree → (indent : List Char) → Except PrintError (List Char)
  | assign name value, _ => do
    let text ← value.printExpression
    .ok (name.toList ++ ' ' :: '=' :: ' ' :: text)
  | block commands, indent => do
    let lines ← layoutAll unit commands (indent ++ unit)
    if lines.isEmpty then .ok ['\x7b', '\x7d']
    else .ok ('\x7b' :: '\n' :: [';', '\n'].intercalate lines ++ '\n' :: indent ++ ['\x7d'])
  | conditional condition yes no, indent => do
    let text ← condition.printExpression
    let inner := indent ++ unit
    let first ←
      if yes.isBlock then do
        let body ← layout unit yes indent
        .ok (' ' :: body ++ " else".toList)
      else do
        let body ← layout unit yes inner
        .ok ('\n' :: inner ++ body ++ '\n' :: indent ++ "else".toList)
    let second ←
      if no.isBlock || no.isConditional then do
        let body ← layout unit no indent
        .ok (' ' :: body)
      else do
        let body ← layout unit no inner
        .ok ('\n' :: inner ++ body)
    .ok ("if ".toList ++ text ++ " then".toList ++ first ++ second)
  | loop condition body, indent => do
    let text ← condition.printExpression
    let inner := indent ++ unit
    let rest ←
      if body.isBlock then do
        let body ← layout unit body indent
        .ok (' ' :: body)
      else do
        let body ← layout unit body inner
        .ok ('\n' :: inner ++ body)
    .ok ("while ".toList ++ text ++ " do".toList ++ rest)
  | t, _ => .error (.notCommand t.kind)

/-- Print commands, each on lines of its own that begin with `indent`. -/
def layoutAll (unit : List Char) :
    List Tree → (indent : List Char) → Except PrintError (List (List Char))
  | [], _ => .ok []
  | c :: cs, indent => do
    let text ← layout unit c indent
    let texts ← layoutAll unit cs indent
    .ok ((indent ++ text) :: texts)

end

/-- Print a command from an indentation on, with a number of spaces for each level inside it. -/
def render (t : Tree) (width : Int) (indent : List Char) : Except PrintError (List Char) :=
  if width < 0 then .error (.negativeWidth width)
  else do
    let text ← t.layout (List.replicate width.toNat ' ') indent
    .ok (indent ++ text)

/-- Number of lines of a text. -/
def lineCount (text : List Char) : Nat := text.count '\n' + 1

/-- Print a whole command. -/
def printCommand (t : Tree) (width : Int) : Noted (Except PrintError (List Char)) :=
  match t.render width [] with
  | .ok text => .note (.rendered t.kind (lineCount text)) (.ok text)
  | .error error => .silent (.error error)

/-- Text of a node by itself: nodes of expressions are printed as expressions, nodes of commands as
whole commands with the standard indentation. Plain values are no nodes. -/
def nodeText? (t : Tree) : Option (Noted (Except PrintError (List Char))) :=
  match t with
  | var _ | const _ | neg _ | binary _ _ _ | bareExpression => some (.silent t.printExpression)
  | assign _ _ | block _ | conditional _ _ _ | loop _ _ | bareCommand =>
    some (t.printCommand standardIndent)
  | plain _ => none

end Tree
end WhileSyntax
