import WhileSyntax.Text.Quoted

/-!
# Source locations

A location names a character of a source: by line and column, both counted from one, and by its
offset, counted from zero. It is computed from the text in front of the character alone, and moves
on with it character by character (`after_newline`, `after_other`).
-/

namespace WhileSyntax.Source

/-- Name given to a source that has none. -/
def anonymous : String := "<string>"

/-- A place in a named source. -/
structure Location where
  filename : String
  line : Int
  column : Int
  offset : Int
  deriving DecidableEq, Repr

namespace Location

/-- Location of the character that follows the given text. -/
def after (filename : String) (before : List Char) : Location where
  filename := filename
  line := before.count '\n' + 1
  column := (before.reverse.takeWhile (· ≠ '\n')).length + 1
  offset := before.length

/-- Name, line and column, as messages refer to a location. -/
def render (l : Location) : String := s!"{l.filename}:{l.line}:{l.column}"

/-- All four parts of a location. -/
def describe (l : Location) : String :=
  s!"SourceLocation({Text.Quoted.quote l.filename}, {l.line}, {l.column}, {l.offset})"

/-- The start of a source is line one, column one. -/
theorem after_nil (filename : String) : after filename [] = ⟨filename, 1, 1, 0⟩ := rfl

/-- A line feed starts the next line. -/
theorem after_newline (filename : String) (before : List Char) :
    after filename (before ++ ['\n']) =
      ⟨filename, (after filename before).line + 1, 1, (after filename before).offset + 1⟩ := by
  simp [after]

/-- Any other character moves one column on. -/
theorem after_other (filename : String) (before : List Char) {c : Char} (hc : c ≠ '\n') :
    after filename (before ++ [c]) =
      ⟨filename, (after filename before).line, (after filename before).column + 1,
        (after filename before).offset + 1⟩ := by
  simp [after, hc]

end Location
end WhileSyntax.Source
