import WhileSyntax.Parser.Lexeme
import WhileSyntax.Proofs.Parser.Bounded

/-!
# Parsers of the library

The parsers that can be put together from the parts of the library, whatever functions are given to
them. Lexemes and lists are among them, and all of them stay within the text (`Built.bounded`).
-/

namespace WhileSyntax.Parser

variable {α β : Type} {p : Parser α} {q : Parser β}

/-- Parsers that are put together from the parts of the library. A reference that would lead on for
ever is bottomless below some depth. -/
inductive Built : {α : Type} → Parser α → Prop
  | pure {α : Type} (shown : String) (value : α) : Built (pure shown value)
  | fail {α : Type} : Built (fail : Parser α)
  | faulty {α : Type} (why : Fault) : Built (faulty why : Parser α)
  | bottomless {α : Type} : Built (bottomless : Parser α)
  | item : Built item
  | satisfy (test : Char → Bool) (name : String) : Built (satisfy test name)
  | literal (s : String) : Built (literal s)
  | whitespace : Built whitespace
  | bindAs {α β : Type} {p : Parser α} (hp : Built p) {consumes : Bool} {f : α → Parser β}
      (hf : ∀ v, Built (f v)) : Built (bindAs consumes p f)
  | map {α β : Type} {p : Parser α} (hp : Built p) (f : α → β) : Built (p.map f)
  | tryMap {α β : Type} {p : Parser α} (hp : Built p) (f : α → Except Fault β) :
      Built (p.tryMap f)
  | filter {α : Type} {p : Parser α} (hp : Built p) (test : α → Bool) : Built (p.filter test)
  | named {α : Type} {p : Parser α} (hp : Built p) (name : String) : Built (p.named name)
  | orElse {α : Type} {p q : Parser α} (hp : Built p) (hq : Built q) : Built (p.orElse q)
  | lazy {α : Type} {target : Unit → Parser α} (hp : Built (target ())) (consumes : Bool)
      (name : String) : Built (lazy consumes name target)
  | star {α : Type} {p : Parser α} (hp : Built p) : Built (star p)

namespace Built

/-- What is built from the library stays within the text. -/
theorem bounded (hp : Built p) : p.Bounded := by
  induction hp with
  | pure shown value => exact .pure shown value
  | fail => exact .of_never fun s v n ↦ nofun
  | faulty why => exact .of_never fun s v n ↦ nofun
  | bottomless => exact .of_never fun s v n ↦ nofun
  | item => exact .item
  | satisfy test name => exact .satisfy test name
  | literal s => exact .literal s
  | whitespace => exact .whitespace
  | bindAs _ _ hp hf => exact hp.bindAs hf
  | map _ f hp => exact hp.map f
  | tryMap _ f hp => exact hp.tryMap f
  | filter _ test hp => exact hp.filter test
  | named _ name hp => exact hp
  | orElse _ _ hp hq => exact hp.orElse hq
  | lazy _ consumes name hp => exact hp
  | star _ hp => exact hp.star

/-! ## Sequence, choice and repetition -/

/-- A sequence whose later part is chosen by the value of the first is built from its parts. -/
theorem bind (hp : Built p) {f : α → Parser β} (hf : ∀ v, Built (f v)) : Built (p.bind f) :=
  hp.bindAs hf

/-- A sequence whose first value is dropped is built from its parts. -/
theorem andThen (hp : Built p) (hq : Built q) : Built (p.andThen q) := hp.bindAs fun _ ↦ hq

/-- A sequence whose second value is dropped is built from its parts. -/
theorem skip (hp : Built p) (hq : Built q) : Built (p.skip q) := hp.bindAs fun _ ↦ hq.map _

/-- A choice is built from its alternatives. -/
theorem choice {ps : List (Parser α)} (h : ∀ p ∈ ps, Built p) : Built (Parser.choice ps) := by
  cases ps with
  | nil => exact .fail
  | cons p ps =>
    obtain ⟨hp, hps⟩ := List.forall_mem_cons.mp h
    clear h
    induction ps generalizing p with
    | nil => exact hp
    | cons q ps ih =>
      obtain ⟨hq, hps⟩ := List.forall_mem_cons.mp hps
      exact ih (p.orElse q) (hp.orElse hq) hps

/-- A parser that could not be built ends every run with the reason. -/
theorem ofExcept {x : Except Fault (Parser α)} (h : ∀ p, x = .ok p → Built p) :
    Built (Parser.ofExcept x) := by
  cases x with
  | ok p => exact h p rfl
  | error why => exact .faulty why

/-- A repetition is built from its parser or refused. -/
theorem many (hp : Built p) : Built (Parser.many p) := by
  apply ofExcept
  intro q hq
  unfold many? at hq
  split at hq
  · cases hq
    exact hp.star
  · cases hq

/-- A repetition behind a first value is built from its parser. -/
theorem many1 (hp : Built p) : Built (Parser.many1 p) := hp.bind fun _ ↦ hp.many.map _

/-! ## Lexemes and lists -/

/-- A token is built from its parser. -/
theorem token (hp : Built p) : Built (Parser.token p) := (whitespace.andThen hp).named _

/-- Words are built from characters. -/
theorem word : Built Parser.word :=
  ((satisfy _ _).bind fun _ ↦ (satisfy _ _).many.map _).named _

/-- Punctuation is built from literals. -/
theorem symbol (t : String) : Built (Parser.symbol t) := (literal t).token

/-- Names are built from words. -/
theorem ident : Built Parser.ident := (word.filter _).token.named _

/-- Keywords are built from words. -/
theorem keyword (k : String) : Built (Parser.keyword k) := (word.filter _).token.named _

/-- Numbers are built from digits. -/
theorem number : Built Parser.number := ((satisfy _ _).many1.tryMap _).token.named _

/-- A list is built from its values and separators. -/
theorem sepBy1 (hp : Built p) (hq : Built q) : Built (Parser.sepBy1 p q) :=
  hp.bind fun _ ↦ (hq.andThen hp).many.map _

/-- A list that may be empty is built from its values and separators. -/
theorem sepBy (hp : Built p) (hq : Built q) : Built (Parser.sepBy p q) :=
  ((hp.sepBy1 hq).orElse (pure _ _)).named _

end Built
end WhileSyntax.Parser
