import WhileSyntax.Parser.Repetition
import WhileSyntax.Text.Word

/-!
# Lexemes

The tokens of the language, each read after any white space in front of it: punctuation, words,
names, keywords and numbers. Words are always read to their end, so a keyword is never the beginning
of a longer word. Lists of values with separators between them are read here too.
-/

namespace WhileSyntax.Parser

variable {α β : Type}

/-- Skip white space in front of a parser. -/
def token (p : Parser α) : Parser α := (whitespace.andThen p).named p.name

/-- A whole word, reserved or not, without white space in front. -/
def word : Parser String :=
  ((satisfy Text.isWordStart "letter").bind fun head ↦
    (many (satisfy Text.isWordPart "alnum")).map fun tail ↦
      String.ofList (head :: tail)).named "identifier"

/-- Punctuation and operators. -/
def symbol (s : String) : Parser String := token (literal s)

/-- A name: any word that is not reserved. -/
def ident : Parser String := (token (word.filter (!Text.isReserved ·))).named "ident"

/-- A number: all digits that follow one another. -/
def number : Parser Nat :=
  (token ((many1 (satisfy Char.isDigit "digit")).tryMap fun digits ↦
    (Text.Decimal.read digits).mapError .numeral)).named "number"

/-- One particular word, reserved or not. -/
def keyword (k : String) : Parser String := (token (word.filter (· == k))).named k

/-- Parser of a particular word, refused where the text is no word. -/
def keyword? (k : String) : Except Fault (Parser String) :=
  if Text.isWord k.toList then .ok (keyword k) else .error (.notAWord k)

/-- One or more values with separators between them. A separator that no value follows is left. -/
def sepBy1 (p : Parser α) (sep : Parser β) : Parser (List α) :=
  p.bind fun first ↦ (many (sep.andThen p)).map (first :: ·)

/-- Zero or more values with separators between them. -/
def sepBy (p : Parser α) (sep : Parser β) : Parser (List α) :=
  ((sepBy1 p sep).orElse (pure "[]" [])).named s!"sep_by({p.name})"

/-- A token is its parser after white space. -/
theorem run_token (p : Parser α) (s : List Char) :
    (token p).run s =
      (p.run (s.drop (s.takeWhile Text.isBlank).length)).shift
        (s.takeWhile Text.isBlank).length := rfl

end WhileSyntax.Parser
