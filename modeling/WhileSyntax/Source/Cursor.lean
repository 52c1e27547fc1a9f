import WhileSyntax.Source.Location

/-!
# Cursors

A cursor is a position in a text, between two characters or at either end. It can never leave the
text: a move that would is refused with the position it asked for (`place_eq_ok_iff`).
-/

namespace WhileSyntax.Source

/-- A position in a text. -/
structure Cursor where
  text : List Char
  pos : Nat
  pos_le : pos ≤ text.length
  deriving DecidableEq

/-- A position outside a text of the given length. -/
structure PositionError where
  pos : Int
  length : Nat
  deriving DecidableEq, Repr

/-- Text of a position error. -/
def PositionError.message (e : PositionError) : String :=
  s!"cursor position {e.pos} outside input of length {e.length}"

namespace Cursor

/-- Number of characters of the rest of a text that its description shows. -/
def previewLength : Nat := 20

/-- Cursor at a position, which has to lie within the text. -/
def place (text : List Char) (pos : Int) : Except PositionError Cursor :=
  if h : 0 ≤ pos ∧ pos ≤ text.length then .ok ⟨text, pos.toNat, by omega⟩
  else .error ⟨pos, text.length⟩

/-- Text in front of the cursor. -/
def before (c : Cursor) : List Char := c.text.take c.pos

/-- Text behind the cursor. -/
def remaining (c : Cursor) : List Char := c.text.drop c.pos

/-- Whether nothing is left behind the cursor. -/
def atEnd (c : Cursor) : Bool := c.text.length ≤ c.pos

/-- The next character, if there is one. -/
def peek (c : Cursor) : Option Char := c.remaining.head?

/-- Whether a text stands right behind the cursor. -/
def startsWith (c : Cursor) (s : List Char) : Bool := s.isPrefixOf c.remaining

/-- Cursor a number of characters further on, or back when the number is negative. -/
def advance (c : Cursor) (count : Int) : Except PositionError Cursor :=
  place c.text (c.pos + count)

/-- Location of the next character. -/
def location (c : Cursor) (filename : String) : Location := .after filename c.before

/-- Position and the beginning of the rest of the text. -/
def describe (c : Cursor) : String :=
  let preview := Text.Quoted.quote (String.ofList (c.remaining.take previewLength))
  s!"Cursor(pos={c.pos}, remaining={preview})"

/-- A cursor is at the end exactly when nothing remains. -/
theorem atEnd_iff {c : Cursor} : c.atEnd = true ↔ c.remaining = [] := by
  simp [atEnd, remaining, List.drop_eq_nil_iff]

/-- Placing succeeds exactly at the positions of the text. -/
theorem place_eq_ok_iff {text : List Char} {pos : Int} {c : Cursor} :
    place text pos = .ok c ↔ c.text = text ∧ (c.pos : Int) = pos := by
  unfold place
  split
  · next h =>
    rw [Except.ok.injEq]
    constructor
    · rintro rfl
      exact ⟨rfl, by simp only; omega⟩
    · obtain ⟨t, p, hp⟩ := c
      rintro ⟨rfl, rfl⟩
      rfl
  · next h =>
    simp only [reduceCtorEq, false_iff, not_and]
    intro ht hp
    have := c.pos_le
    rw [ht] at this
    omega

/-- Moving by nothing stays in place. -/
theorem advance_zero (c : Cursor) : c.advance 0 = .ok c :=
  place_eq_ok_iff.mpr ⟨rfl, by omega⟩

end Cursor
end WhileSyntax.Source
