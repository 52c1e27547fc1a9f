import WhileSyntax.Parser.Reply
import WhileSyntax.Text.Blank

/-!
# Parsers

A parser reads the remaining text and nothing else, so it behaves the same wherever that text
stands. Besides what it does it carries a name, for messages, and a flag that promises that each of
its successes uses at least one character. Names and flags of composed parsers follow from those of
their parts.
-/

namespace WhileSyntax

/-- A parser of values of type `α`. -/
structure Parser (α : Type) where
  name : String
  /-- promise that every success uses at least one character -/
  consumes : Bool
  run : List Char → Reply α

namespace Parser

variable {α β : Type}

/-- A parser without a name is called this. -/
def nameless : String := "parser"

/-- The name that stands for a wish of a name. -/
def nameOr (wish : String) : String := if wish.isEmpty then nameless else wish

/-- Name and flag of a parser, as messages show them. -/
def describe (p : Parser α) : String :=
  let flag := if p.consumes then "True" else "False"
  s!"Parser({Text.Quoted.quote p.name}, consumes={flag})"

/-! ## Primitive parsers -/

/-- Succeed without using anything. The value is shown in the name. -/
def pure (shown : String) (value : α) : Parser α where
  name := s!"pure({shown})"
  consumes := false
  run _ := .ok value 0

/-- Never succeed. -/
def fail : Parser α where
  name := "fail"
  consumes := true
  run _ := .fail

/-- The parser without successes stands for any parser. -/
instance : Inhabited (Parser α) := ⟨fail⟩

/-- End every run with a fault. -/
def faulty (why : Fault) : Parser α where
  name := nameless
  consumes := true
  run _ := .fault why

/-- End every run as too deep. -/
def bottomless : Parser α where
  name := "deep"
  consumes := true
  run _ := .tooDeep

/-- A parser that could not be built ends every run with the reason. -/
def ofExcept : Except Fault (Parser α) → Parser α
  | .ok p => p
  | .error why => faulty why

/-- Use any one character. -/
def item : Parser Char where
  name := "item"
  consumes := true
  run
    | [] => .fail
    | c :: _ => .ok c 1

/-- Use one character that passes a test. -/
def satisfy (test : Char → Bool) (name : String) : Parser Char where
  name := nameOr name
  consumes := true
  run
    | [] => .fail
    | c :: _ => if test c then .ok c 1 else .fail

/-- Use one given character. -/
def char (c : Char) : Parser Char :=
  satisfy (· == c) (Text.Quoted.quote (String.singleton c))

/-- Parser of the only character of a text. -/
def char? (s : String) : Except Fault (Parser Char) :=
  match s.toList with
  | [c] => .ok (char c)
  | _ => .error (.notOneCharacter s)

/-- Use a given text as a whole. -/
def literal (s : String) : Parser String where
  name := Text.Quoted.quote s
  consumes := !s.isEmpty
  run cs := if s.toList.isPrefixOf cs then .ok s s.toList.length else .fail

/-- Use all white space in front. -/
def whitespace : Parser Unit where
  name := "whitespace"
  consumes := false
  run cs := .ok () (cs.takeWhile Text.isBlank).length

/-! ## Sequence and change -/

/-- Run a parser, then the one chosen by its value; `consumes` is the flag of the whole. -/
def bindAs (consumes : Bool) (p : Parser α) (f : α → Parser β) : Parser β where
  name := s!"{p.name} >>= ..."
  consumes := consumes
  run s := (p.run s).andThen s fun v rest ↦ (f v).run rest

/-- Run a parser, then the one chosen by its value. The choice is not known before the first value
is, so the flag is that of the first parser. -/
def bind (p : Parser α) (f : α → Parser β) : Parser β := bindAs p.consumes p f

/-- Change the values of a parser. -/
def map (f : α → β) (p : Parser α) : Parser β where
  name := p.name
  consumes := p.consumes
  run s := (p.run s).map f

/-- Change the values of a parser where that is possible, and end with a fault where not. -/
def tryMap (f : α → Except Fault β) (p : Parser α) : Parser β where
  name := p.name
  consumes := p.consumes
  run s := (p.run s).andThen s fun v _ ↦
    match f v with
    | .ok w => .ok w 0
    | .error why => .fault why

/-- Run two parsers in sequence and keep the second value. -/
def andThen (p : Parser α) (q : Parser β) : Parser β :=
  bindAs (p.consumes || q.consumes) p fun _ ↦ q

/-- Run two parsers in sequence and keep the first value. -/
def skip (p : Parser α) (q : Parser β) : Parser α :=
  bindAs (p.consumes || q.consumes) p fun v ↦ q.map fun _ ↦ v

/-- Fail on the values that do not pass a test. -/
def filter (test : α → Bool) (p : Parser α) : Parser α where
  name := p.name
  consumes := p.consumes
  run s :=
    match p.run s with
    | .ok v used => if test v then .ok v used else .fail
    | r => r

/-- Give a parser another name. -/
def named (name : String) (p : Parser α) : Parser α := { p with name := nameOr name }

/-! ## Alternatives -/

/-- Run the second parser on the same text where the first one fails. -/
def orElse (p q : Parser α) : Parser α where
  name := s!"{p.name} | {q.name}"
  consumes := p.consumes && q.consumes
  run s := (p.run s).orElse fun _ ↦ q.run s

/-- The first parser of a list that does not fail. -/
def choice : List (Parser α) → Parser α
  | [] => fail
  | p :: ps => ps.foldl orElse p

/-! ## References -/

/-- A reference to a parser that is given elsewhere, with a name of its own and with the flag that
the reference declares. -/
def lazy (consumes : Bool) (name : String) (target : Unit → Parser α) : Parser α where
  name := nameOr name
  consumes := consumes
  run s := (target ()).run s

/-! ## Runs of composed parsers -/

/-- A sequence succeeds exactly when both parts do. -/
theorem run_bindAs_eq_ok_iff {consumes : Bool} {p : Parser α} {f : α → Parser β} {s : List Char}
    {w : β} {n : Nat} : (bindAs consumes p f).run s = .ok w n ↔
      ∃ v i j, p.run s = .ok v i ∧ (f v).run (s.drop i) = .ok w j ∧ n = i + j :=
  Reply.andThen_eq_ok_iff

/-- The flag does not matter to a run. -/
theorem run_bind (p : Parser α) (f : α → Parser β) (s : List Char) :
    (p.bind f).run s = (p.run s).andThen s fun v rest ↦ (f v).run rest := rfl

/-- A run of a changed parser is a changed run. -/
theorem run_map (f : α → β) (p : Parser α) (s : List Char) :
    (p.map f).run s = (p.run s).map f := rfl

/-- Renaming leaves runs alone. -/
theorem run_named (name : String) (p : Parser α) (s : List Char) :
    (p.named name).run s = p.run s := rfl

/-- A reference runs as its target. -/
theorem run_lazy (consumes : Bool) (name : String) (target : Unit → Parser α) (s : List Char) :
    (lazy consumes name target).run s = (target ()).run s := rfl

/-- A sequence whose second value is dropped. -/
theorem run_skip (p : Parser α) (q : Parser β) (s : List Char) :
    (p.skip q).run s = (p.run s).andThen s fun v rest ↦ (q.run rest).map fun _ ↦ v := rfl

/-- The second alternative sees the text that the first one saw. -/
theorem run_orElse (p q : Parser α) (s : List Char) :
    (p.orElse q).run s = (p.run s).orElse fun _ ↦ q.run s := rfl

/-- A filtered parser succeeds on the values that pass. -/
theorem run_filter_eq_ok_iff {test : α → Bool} {p : Parser α} {s : List Char} {v : α} {n : Nat} :
    (p.filter test).run s = .ok v n ↔ p.run s = .ok v n ∧ test v = true := by
  simp only [filter]
  split
  · next w m h =>
    rw [h]
    split
    · next hw =>
      simp only [Reply.ok.injEq]
      constructor
      · rintro ⟨rfl, rfl⟩
        exact ⟨⟨rfl, rfl⟩, hw⟩
      · exact fun h ↦ h.1
    · next hw =>
      simp only [reduceCtorEq, Reply.ok.injEq, false_iff, not_and]
      rintro ⟨rfl, rfl⟩
      exact hw
  · next h =>
    constructor
    · intro hr
      exact absurd hr (h v n)
    · intro hr
      exact absurd hr.1 (h v n)

end Parser
end WhileSyntax
