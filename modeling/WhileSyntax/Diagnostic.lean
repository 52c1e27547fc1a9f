import WhileSyntax.Source.Location
import WhileSyntax.Text.Uppercase

/-!
# Diagnostics

A diagnostic tells a user what is wrong with a source, where, and what may help. A rejection is the
reason why a text is not accepted as a whole; every rejection has its diagnostic.
-/

namespace WhileSyntax

/-- A report about a place in a source. -/
structure Diagnostic where
  message : String
  location : Source.Location
  severity : String
  code : Option String
  help : Option String
  suggestions : Option (List String)
  deriving DecidableEq, Repr

/-- Severity of all rejections. -/
def Diagnostic.errorSeverity : String := "error"

/-- Diagnostic over several lines. Empty help and empty suggestions are left out. -/
def Diagnostic.render (d : Diagnostic) : String :=
  let help :=
    match d.help with
    | some text => if text.isEmpty then "" else s!"  help: {text}\n"
    | none => ""
  let suggestions :=
    match d.suggestions with
    | none | some [] => ""
    | some items => items.foldl (fun text item ↦ text ++ s!"    - {item}\n") "  suggestions:\n"
  s!"{Text.upper d.severity}: {d.message}\n  --> {d.location.render}\n" ++ help ++ suggestions

/-- Reasons to reject a text. -/
inductive Rejection where
  /-- no beginning of the text can be read -/
  | noParse
  /-- a beginning was read and this stands behind it -/
  | unconsumed (excerpt : String)
  /-- the text nests too deeply -/
  | tooDeep
  deriving DecidableEq, Repr

namespace Rejection

/-- Codes of rejections with their titles. -/
def codes : List (String × String) :=
  [("P001", "No parse"), ("P002", "Unexpected trailing input"), ("P003", "Nesting too deep")]

/-- Code of a rejection. -/
def code : Rejection → String
  | noParse => "P001"
  | unconsumed _ => "P002"
  | tooDeep => "P003"

/-- One line about a rejected text that should have been a `what`. -/
def message (what : String) : Rejection → String
  | noParse => s!"Input is not a valid {what}"
  | unconsumed excerpt => s!"Unexpected input after {what}: {Text.Quoted.quote excerpt}"
  | tooDeep => s!"Input nests too deeply to parse as a {what}"

/-- Explanation of a rejection. -/
def help (what : String) : Rejection → String
  | noParse => s!"No {what} could be parsed starting at this position."
  | unconsumed _ =>
    s!"A complete {what} ends before this position; the rest of the input was not consumed."
  | tooDeep => "Each level of parentheses or braces uses part of the Python call stack."

/-- What may help against a rejection. -/
def suggestions : Rejection → List String
  | noParse =>
    ["Check for unbalanced parentheses or braces",
      "Reserved words (if, then, else, while, do) cannot be used as names"]
  | unconsumed _ =>
    ["Remove the trailing text", "Separate commands with ';' inside '\x7b \x7d'"]
  | tooDeep =>
    ["Split deeply nested blocks into flatter sequences", "Drop redundant parentheses"]

/-- Diagnostic of a rejected text that should have been a `what`. -/
def diagnostic (r : Rejection) (what : String) (location : Source.Location) : Diagnostic where
  message := r.message what
  location := location
  severity := Diagnostic.errorSeverity
  code := some r.code
  help := some (r.help what)
  suggestions := some r.suggestions

/-- Every code has a title. -/
theorem code_mem_codes (r : Rejection) : r.code ∈ codes.map Prod.fst := by
  cases r <;> simp [code, codes]

end Rejection
end WhileSyntax
