import WhileSyntax.Diagnostic
import WhileSyntax.Journal
import WhileSyntax.Parser.Lexeme

/-!
# Reading whole texts

A parser is run from the start of a text and may leave white space at its end. `readAll` answers
with a value or nothing; `readStrict` answers with a value or a diagnostic that says where and why
the text is not accepted. Faults pass through both, and no note is made of them.
-/

namespace WhileSyntax

/-- Why a strict reading gives no value. -/
inductive ReadError where
  /-- the text is rejected -/
  | rejected (diagnostic : Diagnostic)
  /-- a fault ended the run -/
  | fault (why : Fault)
  deriving DecidableEq, Repr

namespace Parser

variable {α : Type}

/-- Most characters of the text left over that a rejection quotes. -/
def excerptLength : Nat := 20

/-- Beginning of the first line of a text. -/
def excerpt (s : List Char) : List Char := (s.takeWhile (· ≠ '\n')).take excerptLength

/-- Run a parser from the start of a text and skip the white space behind its match. -/
def readPrefix (p : Parser α) (text : List Char) : Reply α := (p.skip whitespace).run text

/-- Value of a whole text, if it has one. -/
def readAll (p : Parser α) (text : List Char) : Noted (Except Fault (Option α)) :=
  match p.readPrefix text with
  | .ok value used =>
    if used < text.length then .note (.unconsumed p.name used) (.ok none)
    else .note (.parsed p.name used) (.ok (some value))
  | .fail => .note (.noParse p.name) (.ok none)
  | .tooDeep => .note (.tooDeep p.name) (.ok none)
  | .fault why => .silent (.error why)

/-- Value of a whole text that should be a `what`, or the reason why it has none. -/
def readStrict (p : Parser α) (text : List Char) (what filename : String) :
    Noted (Except ReadError α) :=
  let start := Source.Location.after filename (text.takeWhile Text.isBlank)
  match p.readPrefix text with
  | .ok value used =>
    if used < text.length then
      let place := Source.Location.after filename (text.take used)
      let left := String.ofList (excerpt (text.drop used))
      .note (.rejectedUnconsumed what place)
        (.error (.rejected (Rejection.unconsumed left |>.diagnostic what place)))
    else .silent (.ok value)
  | .fail =>
    .note (.rejectedNoParse what start)
      (.error (.rejected (Rejection.noParse.diagnostic what start)))
  | .tooDeep =>
    .note (.rejectedTooDeep what) (.error (.rejected (Rejection.tooDeep.diagnostic what start)))
  | .fault why => .silent (.error (.fault why))

end Parser
end WhileSyntax
