import WhileSyntax.About
import WhileSyntax.Diagnostic
import WhileSyntax.Grammar.Command
import WhileSyntax.Grammar.Expression
import WhileSyntax.Journal
import WhileSyntax.Parser.Basic
import WhileSyntax.Parser.Lexeme
import WhileSyntax.Parser.Repetition
import WhileSyntax.Parser.Reply
import WhileSyntax.Parser.Value
import WhileSyntax.Parser.Whole
import WhileSyntax.Printer.Command
import WhileSyntax.Printer.Expression
import WhileSyntax.Proofs.Grammar.Arrangement
import WhileSyntax.Proofs.Grammar.Command
import WhileSyntax.Proofs.Grammar.CommandExtension
import WhileSyntax.Proofs.Grammar.Depth
import WhileSyntax.Proofs.Grammar.Derivation
import WhileSyntax.Proofs.Grammar.Digits
import WhileSyntax.Proofs.Grammar.Expression
import WhileSyntax.Proofs.Grammar.Extension
import WhileSyntax.Proofs.Grammar.Layout
import WhileSyntax.Proofs.Grammar.Locality
import WhileSyntax.Proofs.Grammar.LongestMatch
import WhileSyntax.Proofs.Grammar.Nesting
import WhileSyntax.Proofs.Grammar.Numerals
import WhileSyntax.Proofs.Grammar.Phrase
import WhileSyntax.Proofs.Grammar.Pieces
import WhileSyntax.Proofs.Grammar.Plan
import WhileSyntax.Proofs.Grammar.Precedence
import WhileSyntax.Proofs.Grammar.Recognition
import WhileSyntax.Proofs.Grammar.Rejection
import WhileSyntax.Proofs.Grammar.Repetition
import WhileSyntax.Proofs.Grammar.Tier
import WhileSyntax.Proofs.Grammar.Token
import WhileSyntax.Proofs.Grammar.Words
import WhileSyntax.Proofs.Parser.Bounded
import WhileSyntax.Proofs.Parser.Deepening
import WhileSyntax.Proofs.Parser.Layout
import WhileSyntax.Proofs.Parser.Lexeme
import WhileSyntax.Proofs.Parser.Located
import WhileSyntax.Proofs.Parser.Promise
import WhileSyntax.Proofs.Parser.Reading
import WhileSyntax.Proofs.Parser.Repetition
import WhileSyntax.Proofs.Parser.Rounds
import WhileSyntax.Proofs.Parser.Walk
import WhileSyntax.Proofs.Printer.Command
import WhileSyntax.Proofs.Printer.Condense
import WhileSyntax.Proofs.Printer.Expression
import WhileSyntax.Proofs.Printer.Format
import WhileSyntax.Proofs.Printer.Levels
import WhileSyntax.Proofs.Printer.Lines
import WhileSyntax.Proofs.Printer.Minimal
import WhileSyntax.Proofs.Printer.Misplaced
import WhileSyntax.Proofs.Printer.Nested
import WhileSyntax.Proofs.Printer.Outline
import WhileSyntax.Proofs.Printer.Parentheses
import WhileSyntax.Proofs.Printer.Tier
import WhileSyntax.Proofs.Source.Location
import WhileSyntax.Source.Cursor
import WhileSyntax.Source.Location
import WhileSyntax.Text.Blank
import WhileSyntax.Text.CodePoints
import WhileSyntax.Text.Decimal
import WhileSyntax.Text.Letter
import WhileSyntax.Text.Numeric
import WhileSyntax.Text.Printable
import WhileSyntax.Text.Quoted
import WhileSyntax.Text.Uppercase
import WhileSyntax.Text.Word
import WhileSyntax.Tree.Basic
import WhileSyntax.Tree.Equality
