import WhileSyntax.Text.Blank
import WhileSyntax.Text.Letter
import WhileSyntax.Text.Numeric

/-!
# Words

A word is a letter followed by letters and numeric characters. Names and keywords are both words;
the reserved words are the ones that can only be keywords.

Main statements: the digits of ASCII are parts of words, and white space never is, so words end at
white space (`isWordPart_eq_false_of_isBlank`).
-/

namespace WhileSyntax.Text

/-- Whether a character may begin a word. -/
def isWordStart (c : Char) : Bool := isLetter c

/-- Whether a character may stand in a word after its first letter. -/
def isWordPart (c : Char) : Bool := isLetter c || isNumeric c

/-- Whether a text is one whole word. -/
def isWord : List Char → Bool
  | [] => false
  | c :: cs => isWordStart c && cs.all isWordPart

/-- The words that can never be names, in alphabetical order. -/
def reservedWords : List String := ["do", "else", "if", "then", "while"]

/-- Whether a word is reserved. -/
def isReserved (word : String) : Bool := reservedWords.contains word

/-- Every ASCII digit may continue a word. -/
theorem isWordPart_of_isDigit {c : Char} (h : c.isDigit = true) : isWordPart c = true := by
  have ha : ascendFrom 0 numericRanges = true := by decide +kernel
  simp only [Char.isDigit, Bool.and_eq_true, decide_eq_true_eq, ge_iff_le,
    UInt32.le_iff_toNat_le] at h
  have hn : isNumeric c = true := inRanges_of_mem ha (r := (0x30, 0x39)) (List.Mem.head _) h
  simp [isWordPart, hn]

/-- What may begin a word may also continue it. -/
theorem isWordPart_of_isWordStart {c : Char} (h : isWordStart c = true) : isWordPart c = true := by
  have h' : isLetter c = true := h
  simp [isWordPart, h']

/-- White space is no part of a word. -/
theorem isWordPart_eq_false_of_isBlank {c : Char} (h : isBlank c = true) :
    isWordPart c = false := by
  have hl : isLetter c = false := inRanges_eq_false_of_apart (by decide +kernel) h
  have hn : isNumeric c = false := inRanges_eq_false_of_apart (by decide +kernel) h
  simp [isWordPart, hl, hn]

/-- All characters of a word are parts of words. -/
theorem isWordPart_of_mem_of_isWord {w : List Char} {c : Char} (hw : isWord w = true)
    (hc : c ∈ w) : isWordPart c = true := by
  cases w with
  | nil => simp at hc
  | cons d ds =>
    simp only [isWord, Bool.and_eq_true, List.all_eq_true] at hw
    rcases List.mem_cons.mp hc with rfl | hm
    · exact isWordPart_of_isWordStart hw.1
    · exact hw.2 c hm

end WhileSyntax.Text
