import WhileSyntax.Proofs.Parser.Built

/-!
# Plans of parsers

A plan says how a parser is put together from the parts of the library, without running it. Parsers
that refer to one another are given as a family of plans in which a reference is a name, so a
definition may lead back to itself in any number of steps. The parsers of a family follow a number
of references into one another; a run that would need more of them is too deep. That number is
arbitrary in all that is proved about plans.

Names and flags of a planned parser can be seen without following references
(`Plan.parser_name`, `Plan.parser_consumes`).
-/

namespace WhileSyntax.Parser

/-- Why a part is refused when it is put together. -/
inductive Refusal where
  /-- a character parser was asked for something else than one character -/
  | notOneCharacter (given : String)
  /-- a keyword parser was asked for something that is no word -/
  | notAWord (given : String)

/-- The fault of a refused part. -/
def Refusal.fault : Refusal → Fault
  | notOneCharacter given => .notOneCharacter given
  | notAWord given => .notAWord given

/-- Plans of parsers. `Ref α` are the names of the parsers of type `α` that a plan may refer to. -/
inductive Plan (Ref : Type → Type) : Type → Type 1 where
  | pure {α : Type} (shown : String) (value : α) : Plan Ref α
  | fail {α : Type} : Plan Ref α
  | refused {α : Type} (why : Refusal) : Plan Ref α
  | item : Plan Ref Char
  | satisfy (test : Char → Bool) (name : String) : Plan Ref Char
  | literal (s : String) : Plan Ref String
  | whitespace : Plan Ref Unit
  /-- a sequence whose later part is planned while it runs, with a declared flag -/
  | bindAs {α β : Type} (consumes : Bool) (p : Plan Ref α) (f : α → Plan Ref β) : Plan Ref β
  | map {α β : Type} (f : α → β) (p : Plan Ref α) : Plan Ref β
  /-- a change of values that may refuse a numeral -/
  | convert {α β : Type} (f : α → Except Text.Decimal.NumeralError β) (p : Plan Ref α) : Plan Ref β
  | filter {α : Type} (test : α → Bool) (p : Plan Ref α) : Plan Ref α
  | named {α : Type} (name : String) (p : Plan Ref α) : Plan Ref α
  | orElse {α : Type} (p q : Plan Ref α) : Plan Ref α
  | many {α : Type} (p : Plan Ref α) : Plan Ref (List α)
  /-- a reference with a declared flag -/
  | lazy {α : Type} (consumes : Bool) (name : String) (target : Ref α) : Plan Ref α

/-- Plans of the parsers that names stand for. -/
def Definitions (Ref : Type → Type) := ∀ α, Ref α → Plan Ref α

variable {Ref : Type → Type} {α β : Type}

namespace Plan

/-- The parser of a plan, given the parsers that its names stand for. -/
def parser (refs : ∀ α, Ref α → Parser α) {α : Type} : Plan Ref α → Parser α
  | pure shown value => .pure shown value
  | fail => .fail
  | refused why => .faulty why.fault
  | item => .item
  | satisfy test name => .satisfy test name
  | literal s => .literal s
  | whitespace => .whitespace
  | bindAs consumes p f => .bindAs consumes (p.parser refs) fun v ↦ (f v).parser refs
  | map f p => (p.parser refs).map f
  | convert f p => (p.parser refs).tryMap fun v ↦ (f v).mapError .numeral
  | filter test p => (p.parser refs).filter test
  | named name p => (p.parser refs).named name
  | orElse p q => (p.parser refs).orElse (q.parser refs)
  | many p => (p.parser refs).many
  | lazy consumes name target => .lazy consumes name fun _ ↦ refs _ target

/-- Name of a planned parser. -/
def name (t : Plan Ref α) : String := (t.parser fun _ _ ↦ .bottomless).name

/-- Flag of a planned parser. -/
def consumes (t : Plan Ref α) : Bool := (t.parser fun _ _ ↦ .bottomless).consumes

/-- Name and flag of a planned parser, as messages show them. -/
def describe (t : Plan Ref α) : String := (t.parser fun _ _ ↦ .bottomless).describe

section Equations

variable (refs : ∀ α, Ref α → Parser α)

/-- A refused part ends every run with its refusal. -/
@[simp] theorem parser_refused (why : Refusal) :
    (refused why : Plan Ref α).parser refs = faulty why.fault := rfl

/-- Characters that pass a test are planned as such. -/
@[simp] theorem parser_satisfy (test : Char → Bool) (name : String) :
    (satisfy test name : Plan Ref Char).parser refs = .satisfy test name := rfl

/-- Literals are planned as such. -/
@[simp] theorem parser_literal (s : String) :
    (literal s : Plan Ref String).parser refs = .literal s := rfl

/-- White space is planned as such. -/
@[simp] theorem parser_whitespace : (whitespace : Plan Ref Unit).parser refs = .whitespace := rfl

/-- Values without text are planned as such. -/
@[simp] theorem parser_pure (shown : String) (value : α) :
    (pure shown value : Plan Ref α).parser refs = .pure shown value := rfl

/-- Sequences are planned part by part. -/
@[simp] theorem parser_bindAs (consumes : Bool) (p : Plan Ref α) (f : α → Plan Ref β) :
    (bindAs consumes p f).parser refs =
      .bindAs consumes (p.parser refs) fun v ↦ (f v).parser refs := rfl

/-- Changes of values are planned on the parser. -/
@[simp] theorem parser_map (f : α → β) (p : Plan Ref α) :
    (p.map f).parser refs = (p.parser refs).map f := rfl

/-- Changes that may refuse a numeral are planned on the parser. -/
@[simp] theorem parser_convert (f : α → Except Text.Decimal.NumeralError β) (p : Plan Ref α) :
    (p.convert f).parser refs = (p.parser refs).tryMap fun v ↦ (f v).mapError .numeral := rfl

/-- Tests of values are planned on the parser. -/
@[simp] theorem parser_filter (test : α → Bool) (p : Plan Ref α) :
    (p.filter test).parser refs = (p.parser refs).filter test := rfl

/-- Names are planned on the parser. -/
@[simp] theorem parser_named (name : String) (p : Plan Ref α) :
    (p.named name).parser refs = (p.parser refs).named name := rfl

/-- Alternatives are planned part by part. -/
@[simp] theorem parser_orElse (p q : Plan Ref α) :
    (p.orElse q).parser refs = (p.parser refs).orElse (q.parser refs) := rfl

/-- Repetitions are planned on the parser. -/
@[simp] theorem parser_many (p : Plan Ref α) :
    p.many.parser refs = (p.parser refs).many := rfl

/-- A reference is planned as what its name stands for. -/
@[simp] theorem parser_lazy (consumes : Bool) (name : String) (target : Ref α) :
    (lazy consumes name target).parser refs = .lazy consumes name fun _ ↦ refs _ target := rfl

end Equations

private theorem parser_congr (refs refs' : ∀ α, Ref α → Parser α) (t : Plan Ref α) :
    (t.parser refs).name = (t.parser refs').name ∧
      (t.parser refs).consumes = (t.parser refs').consumes := by
  induction t with
  | bindAs c p f ihp _ => exact ⟨by simp only [parser_bindAs, Parser.bindAs, ihp.1], rfl⟩
  | map f p ih => exact ih
  | convert f p ih => exact ih
  | filter test p ih => exact ih
  | named name p ih => exact ⟨rfl, ih.2⟩
  | orElse p q ihp ihq =>
    simp only [parser_orElse, Parser.orElse, ihp.1, ihp.2, ihq.1, ihq.2, and_self]
  | many p ih =>
    simp only [parser_many, Parser.many, many?, star, Parser.describe, ih.1, ih.2]
    split <;> simp only [ofExcept, faulty, and_self]
  | _ => exact ⟨rfl, rfl⟩

/-- A planned parser goes by the name of its plan. -/
@[simp] theorem parser_name (refs : ∀ α, Ref α → Parser α) (t : Plan Ref α) :
    (t.parser refs).name = t.name :=
  (parser_congr _ _ t).1

/-- A planned parser makes the promise of its plan. -/
@[simp] theorem parser_consumes (refs : ∀ α, Ref α → Parser α) (t : Plan Ref α) :
    (t.parser refs).consumes = t.consumes :=
  (parser_congr _ _ t).2

/-- Messages describe a planned parser by its plan. -/
@[simp] theorem parser_describe (refs : ∀ α, Ref α → Parser α) (t : Plan Ref α) :
    (t.parser refs).describe = t.describe := by
  have h := parser_congr refs (fun _ _ ↦ .bottomless) t
  simp only [describe, Parser.describe, h.1, h.2]

/-- A planned parser is built from the library when its names stand for such parsers. -/
theorem built {refs : ∀ α, Ref α → Parser α} (hrefs : ∀ α (i : Ref α), Built (refs α i))
    (t : Plan Ref α) : Built (t.parser refs) := by
  induction t with
  | pure shown value => exact .pure shown value
  | fail => exact .fail
  | refused why => exact .faulty why.fault
  | item => exact .item
  | satisfy test name => exact .satisfy test name
  | literal s => exact .literal s
  | whitespace => exact .whitespace
  | bindAs c p f ihp ihf => exact ihp.bindAs ihf
  | map f p ih => exact ih.map f
  | convert f p ih => exact ih.tryMap _
  | filter test p ih => exact ih.filter test
  | named name p ih => exact ih.named name
  | orElse p q ihp ihq => exact ihp.orElse ihq
  | many p ih => exact ih.many
  | lazy c name i => exact (hrefs _ i).lazy c name

end Plan

namespace Definitions

/-- The parsers that names stand for, with a number of references that they may follow into one
another. -/
def parser (defs : Definitions Ref) : (levels : Nat) → ∀ α, Ref α → Parser α
  | 0 => fun _ _ ↦ .bottomless
  | levels + 1 => fun α i ↦ (defs α i).parser (defs.parser levels)

/-- The parser of a plan over a family of definitions. -/
def build (defs : Definitions Ref) (levels : Nat) (t : Plan Ref α) : Parser α :=
  t.parser (defs.parser levels)

/-- The parsers of a family are built from the library. -/
theorem parser_built (defs : Definitions Ref) (levels : Nat) :
    ∀ α (i : Ref α), Built (defs.parser levels α i) := by
  induction levels with
  | zero => exact fun _ _ ↦ .bottomless
  | succ levels ih => exact fun α i ↦ (defs α i).built ih

/-- A parser that is planned over a family is built from the library. -/
theorem built (defs : Definitions Ref) (levels : Nat) (t : Plan Ref α) :
    Built (defs.build levels t) :=
  t.built (defs.parser_built levels)

end Definitions

/-! ## Plans of the other parts of the library -/

namespace Plan

/-- One given character, refused if the text is not one character. -/
def char (s : String) : Plan Ref Char :=
  match s.toList with
  | [c] => satisfy (· == c) (Text.Quoted.quote (String.singleton c))
  | _ => refused (.notOneCharacter s)

/-- A sequence whose flag is that of its first part. -/
def bind (p : Plan Ref α) (f : α → Plan Ref β) : Plan Ref β := bindAs p.consumes p f

/-- A sequence whose first value is dropped. -/
def andThen (p : Plan Ref α) (q : Plan Ref β) : Plan Ref β :=
  bindAs (p.consumes || q.consumes) p fun _ ↦ q

/-- A sequence whose second value is dropped. -/
def skip (p : Plan Ref α) (q : Plan Ref β) : Plan Ref α :=
  bindAs (p.consumes || q.consumes) p fun v ↦ q.map fun _ ↦ v

/-- The first of a list that does not fail. -/
def choice : List (Plan Ref α) → Plan Ref α
  | [] => fail
  | p :: ps => ps.foldl orElse p

/-- One or more values. -/
def many1 (p : Plan Ref α) : Plan Ref (List α) := p.bind fun first ↦ p.many.map (first :: ·)

/-- White space and a parser behind it. -/
def token (p : Plan Ref α) : Plan Ref α := (whitespace.andThen p).named p.name

/-- A whole word. -/
def word : Plan Ref String :=
  ((satisfy Text.isWordStart "letter").bind fun head ↦
    (satisfy Text.isWordPart "alnum").many.map fun tail ↦ String.ofList (head :: tail)).named
      "identifier"

/-- Punctuation and operators. -/
def symbol (s : String) : Plan Ref String := token (literal s)

/-- A name. -/
def ident : Plan Ref String := (token (word.filter (!Text.isReserved ·))).named "ident"

/-- A number. -/
def number : Plan Ref Nat :=
  (token ((many1 (satisfy Char.isDigit "digit")).convert Text.Decimal.read)).named "number"

/-- One particular word, refused if the text is no word. -/
def keyword (k : String) : Plan Ref String :=
  if Text.isWord k.toList then (token (word.filter (· == k))).named k else refused (.notAWord k)

/-- One or more values with separators between them. -/
def sepBy1 (p : Plan Ref α) (sep : Plan Ref β) : Plan Ref (List α) :=
  p.bind fun first ↦ (sep.andThen p).many.map (first :: ·)

/-- Zero or more values with separators between them. -/
def sepBy (p : Plan Ref α) (sep : Plan Ref β) : Plan Ref (List α) :=
  ((sepBy1 p sep).orElse (pure "[]" [])).named s!"sep_by({p.name})"

section Parsers

variable (refs : ∀ α, Ref α → Parser α)

/-- One given character. -/
@[simp] theorem parser_char (s : String) :
    (char s : Plan Ref Char).parser refs = .ofExcept (Parser.char? s) := by
  rcases hs : s.toList with _ | ⟨c, _ | ⟨d, cs⟩⟩ <;>
    simp only [char, Parser.char?, hs, parser_satisfy, parser_refused, Refusal.fault, ofExcept,
      Parser.char]

/-- A sequence is planned from its parts. -/
@[simp] theorem parser_bind (p : Plan Ref α) (f : α → Plan Ref β) :
    (p.bind f).parser refs = (p.parser refs).bind fun v ↦ (f v).parser refs := by
  simp only [bind, parser_bindAs, Parser.bind, parser_consumes]

/-- A sequence whose first value is dropped is planned from its parts. -/
@[simp] theorem parser_andThen (p : Plan Ref α) (q : Plan Ref β) :
    (p.andThen q).parser refs = (p.parser refs).andThen (q.parser refs) := by
  simp only [andThen, parser_bindAs, Parser.andThen, parser_consumes]

/-- A sequence whose second value is dropped is planned from its parts. -/
@[simp] theorem parser_skip (p : Plan Ref α) (q : Plan Ref β) :
    (p.skip q).parser refs = (p.parser refs).skip (q.parser refs) := by
  simp only [skip, parser_bindAs, parser_map, Parser.skip, parser_consumes]

/-- A choice is planned from its alternatives. -/
@[simp] theorem parser_choice (ps : List (Plan Ref α)) :
    (choice ps).parser refs = Parser.choice (ps.map (·.parser refs)) := by
  cases ps with
  | nil => rfl
  | cons p ps =>
    simp only [choice, List.map_cons, Parser.choice]
    induction ps generalizing p with
    | nil => rfl
    | cons q ps ih => exact ih (p.orElse q)

/-- A repetition behind a first value is planned from its parser. -/
@[simp] theorem parser_many1 (p : Plan Ref α) :
    p.many1.parser refs = Parser.many1 (p.parser refs) := by
  simp only [many1, parser_bind, parser_map, parser_many, Parser.many1]

/-- A token is planned from its parser. -/
@[simp] theorem parser_token (p : Plan Ref α) :
    (token p).parser refs = Parser.token (p.parser refs) := by
  simp only [token, parser_named, parser_andThen, parser_whitespace, Parser.token, parser_name]

/-- Words are planned from characters. -/
@[simp] theorem parser_word : (word : Plan Ref String).parser refs = Parser.word := by
  simp only [word, parser_named, parser_bind, parser_satisfy, parser_map, parser_many, Parser.word]

/-- Punctuation is planned from literals. -/
@[simp] theorem parser_symbol (s : String) :
    (symbol s : Plan Ref String).parser refs = Parser.symbol s := by
  simp only [symbol, parser_token, parser_literal, Parser.symbol]

/-- Names are planned from words. -/
@[simp] theorem parser_ident : (ident : Plan Ref String).parser refs = Parser.ident := by
  simp only [ident, parser_named, parser_token, parser_filter, parser_word, Parser.ident]

/-- Numbers are planned from digits. -/
@[simp] theorem parser_number : (number : Plan Ref Nat).parser refs = Parser.number := by
  simp only [number, parser_named, parser_token, parser_convert, parser_many1, parser_satisfy,
    Parser.number]

/-- Keywords are planned from words, or refused. -/
@[simp] theorem parser_keyword (k : String) :
    (keyword k : Plan Ref String).parser refs = .ofExcept (Parser.keyword? k) := by
  unfold keyword Parser.keyword?
  split
  · simp only [parser_named, parser_token, parser_filter, parser_word, Parser.ofExcept,
      Parser.keyword]
  · rfl

/-- Keywords that are words are not refused. -/
theorem parser_keyword_of_isWord {k : String} (hk : Text.isWord k.toList = true) :
    (keyword k : Plan Ref String).parser refs = Parser.keyword k := by
  rw [parser_keyword, Parser.keyword?, if_pos hk, Parser.ofExcept]

/-- A list is planned from its values and separators. -/
@[simp] theorem parser_sepBy1 (p : Plan Ref α) (sep : Plan Ref β) :
    (p.sepBy1 sep).parser refs = (p.parser refs).sepBy1 (sep.parser refs) := by
  simp only [sepBy1, parser_bind, parser_map, parser_many, parser_andThen, Parser.sepBy1]

/-- A list that may be empty is planned from its values and separators. -/
@[simp] theorem parser_sepBy (p : Plan Ref α) (sep : Plan Ref β) :
    (p.sepBy sep).parser refs = (p.parser refs).sepBy (sep.parser refs) := by
  simp only [sepBy, parser_named, parser_orElse, parser_pure, parser_sepBy1, Parser.sepBy,
    parser_name]

end Parsers
end Plan
end WhileSyntax.Parser
