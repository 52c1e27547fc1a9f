import WhileSyntax.Text.Decimal
import WhileSyntax.Text.Quoted

/-!
# Replies of parsers

A parser looks at the remaining text and replies in one of four ways: it succeeds with a value and
the number of characters it used, it fails, it gives up because the text nests too deeply, or it
stops at a fault. Failure alone lets an alternative be tried; the last two end the whole run.
-/

namespace WhileSyntax

open Text (Decimal.NumeralError Quoted.quote)

/-- Faults of parsers and of the values they compute. -/
inductive Fault where
  /-- a numeral beyond the limit -/
  | numeral (error : Decimal.NumeralError)
  /-- a character parser was asked for something else than one character -/
  | notOneCharacter (given : String)
  /-- a keyword parser was asked for something that is no word -/
  | notAWord (given : String)
  /-- repetition was asked for of a parser that may use nothing -/
  | mayNotAdvance (parser : String)
  /-- a repeated parser succeeded and used nothing -/
  | didNotAdvance (parser : String)
  deriving DecidableEq, Repr

/-- Text of a fault. -/
def Fault.message : Fault → String
  | numeral error => error.message
  | notOneCharacter given => s!"char() expects a single character, got {Quoted.quote given}"
  | notAWord given => s!"keyword() expects an identifier-shaped word, got {Quoted.quote given}"
  | mayNotAdvance parser =>
    s!"many() over {parser} could loop forever: it may succeed without consuming input"
  | didNotAdvance parser => s!"{parser} succeeded without consuming input inside many()"

/-- What a parser says about a text. -/
inductive Reply (α : Type) where
  /-- success with a value, after this many characters -/
  | ok (value : α) (used : Nat)
  | fail
  | tooDeep
  | fault (why : Fault)
  deriving DecidableEq, Repr

namespace Reply

variable {α β γ : Type}

/-- Change the value of a success. -/
def map (f : α → β) : Reply α → Reply β
  | ok value used => ok (f value) used
  | fail => fail
  | tooDeep => tooDeep
  | fault why => fault why

/-- Count characters used before the reply was given. -/
def shift (count : Nat) : Reply α → Reply α
  | ok value used => ok value (count + used)
  | r => r

/-- Go on after a success with the value and the text it left. -/
def andThen (r : Reply α) (s : List Char) (next : α → List Char → Reply β) : Reply β :=
  match r with
  | ok value used => (next value (s.drop used)).shift used
  | fail => fail
  | tooDeep => tooDeep
  | fault why => fault why

/-- Turn to a second reply after a failure. -/
def orElse (r : Reply α) (second : Unit → Reply α) : Reply α :=
  match r with
  | fail => second ()
  | r => r

/-- Changing the value keeps the count. -/
theorem map_eq_ok_iff {f : α → β} {r : Reply α} {w : β} {n : Nat} :
    r.map f = ok w n ↔ ∃ v, r = ok v n ∧ f v = w := by
  cases r with
  | ok v m =>
    simp only [map, ok.injEq]
    constructor
    · rintro ⟨rfl, rfl⟩
      exact ⟨v, ⟨rfl, rfl⟩, rfl⟩
    · rintro ⟨_, ⟨rfl, rfl⟩, rfl⟩
      exact ⟨rfl, rfl⟩
  | _ => simp [map]

/-- Changing the value keeps a failure. -/
theorem map_eq_fail_iff {f : α → β} {r : Reply α} : r.map f = fail ↔ r = fail := by
  cases r <;> simp [map]

/-- Counting earlier characters keeps the value. -/
theorem shift_eq_ok_iff {r : Reply α} {v : α} {k n : Nat} :
    r.shift k = ok v n ↔ ∃ m, r = ok v m ∧ n = k + m := by
  cases r with
  | ok w m =>
    simp only [shift, ok.injEq]
    constructor
    · rintro ⟨rfl, rfl⟩
      exact ⟨m, ⟨rfl, rfl⟩, rfl⟩
    · rintro ⟨_, ⟨rfl, rfl⟩, rfl⟩
      exact ⟨rfl, rfl⟩
  | _ => simp [shift]

/-- Counting earlier characters keeps a failure. -/
theorem shift_eq_fail_iff {r : Reply α} {k : Nat} : r.shift k = fail ↔ r = fail := by
  cases r <;> simp [shift]

/-- A sequence succeeds exactly when both parts do, and uses what both use. -/
theorem andThen_eq_ok_iff {r : Reply α} {s : List Char} {next : α → List Char → Reply β} {w : β}
    {n : Nat} : r.andThen s next = ok w n ↔
      ∃ v i j, r = ok v i ∧ next v (s.drop i) = ok w j ∧ n = i + j := by
  cases r with
  | ok v i =>
    simp only [andThen, shift_eq_ok_iff, ok.injEq]
    constructor
    · rintro ⟨j, hj, rfl⟩
      exact ⟨v, i, j, ⟨rfl, rfl⟩, hj, rfl⟩
    · rintro ⟨_, _, j, ⟨rfl, rfl⟩, hj, rfl⟩
      exact ⟨j, hj, rfl⟩
  | _ => simp [andThen]

/-- A choice succeeds with its first part, or with its second after the first failed. -/
theorem orElse_eq_ok_iff {r : Reply α} {second : Unit → Reply α} {v : α} {n : Nat} :
    r.orElse second = ok v n ↔ r = ok v n ∨ r = fail ∧ second () = ok v n := by
  cases r <;> simp [orElse]

/-- A choice fails exactly when both parts do. -/
theorem orElse_eq_fail_iff {r : Reply α} {second : Unit → Reply α} :
    r.orElse second = fail ↔ r = fail ∧ second () = fail := by
  cases r <;> simp [orElse]

end Reply
end WhileSyntax
