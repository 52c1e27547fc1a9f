import WhileSyntax.Source.Location

/-!
# Journal

Reading and printing note what they did. The notes are returned beside the answer, in order, and do
not influence it.
-/

namespace WhileSyntax

/-- Things worth a note. -/
inductive Event where
  /-- a parser ran out of levels -/
  | tooDeep (parser : String)
  /-- a parser failed -/
  | noParse (parser : String)
  /-- a parser left text over -/
  | unconsumed (parser : String) (offset : Nat)
  /-- a parser read a whole text -/
  | parsed (parser : String) (characters : Nat)
  /-- a rejection for too deep nesting -/
  | rejectedTooDeep (what : String)
  /-- a rejection for want of a parse -/
  | rejectedNoParse (what : String) (location : Source.Location)
  /-- a rejection for text left over -/
  | rejectedUnconsumed (what : String) (location : Source.Location)
  /-- a command was printed -/
  | rendered (kind : String) (lines : Nat)
  deriving DecidableEq, Repr

namespace Event

/-- Severity of all notes. -/
def severity : String := "DEBUG"

/-- The channel on which a note is written. -/
def channel : Event → String
  | tooDeep _ | noParse _ | unconsumed _ _ | parsed _ _ => "whilelang.combinators.lexical"
  | rejectedTooDeep _ | rejectedNoParse _ _ | rejectedUnconsumed _ _ => "whilelang.parser.errors"
  | rendered _ _ => "whilelang.pretty.commands"

/-- Text of a note. -/
def message : Event → String
  | tooDeep parser => s!"{parser}: nesting too deep"
  | noParse parser => s!"{parser}: no parse"
  | unconsumed parser offset => s!"{parser}: unconsumed input at offset {offset}"
  | parsed parser characters => s!"{parser}: parsed {characters} characters"
  | rejectedTooDeep what => s!"strict {what} parse exceeded the recursion limit"
  | rejectedNoParse what location => s!"strict {what} parse failed: {location.render}"
  | rejectedUnconsumed what location => s!"strict {what} parse left input at {location.render}"
  | rendered kind lines => s!"rendered {kind} as {lines} lines"

end Event

/-- An answer with the notes made on the way to it. -/
structure Noted (α : Type) where
  answer : α
  events : List Event

namespace Noted

variable {α β : Type}

/-- An answer without notes. -/
def silent (a : α) : Noted α := ⟨a, []⟩

/-- An answer with one note. -/
def note (e : Event) (a : α) : Noted α := ⟨a, [e]⟩

end Noted
end WhileSyntax
