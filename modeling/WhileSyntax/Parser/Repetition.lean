import WhileSyntax.Parser.Basic

/-!
# Repetition

A parser is repeated until it fails. Each round has to use at least one character: `many?` refuses
parsers that do not promise it, and a broken promise ends the run with a fault. The number of rounds
is therefore bounded by the length of the text.

Main statement: for parsers whose successes stay within the text, a repetition is one round and then
the repetition of the rest (`run_star`).
-/

namespace WhileSyntax.Parser

variable {α β : Type}

/-- Successes of a parser stay within the text. -/
def Bounded (p : Parser α) : Prop := ∀ s v n, p.run s = .ok v n → n ≤ s.length

/-- Rounds of a parser on the text `s`, at most one for each character of `room` and one more. -/
def rounds (p : Parser α) : (room s : List Char) → Reply (List α)
  | [], s =>
    match p.run s with
    | .ok _ _ => .fault (.didNotAdvance p.describe)
    | .fail => .ok [] 0
    | .tooDeep => .tooDeep
    | .fault why => .fault why
  | _ :: room, s =>
    match p.run s with
    | .ok _ 0 => .fault (.didNotAdvance p.describe)
    | .ok v (n + 1) => ((rounds p room (s.drop (n + 1))).map (v :: ·)).shift (n + 1)
    | .fail => .ok [] 0
    | .tooDeep => .tooDeep
    | .fault why => .fault why

/-- Repetition of a parser that promises to use something. -/
def star (p : Parser α) : Parser (List α) where
  name := s!"many({p.name})"
  consumes := false
  run s := rounds p s s

/-- Zero or more values of a parser, refused unless it promises to use something. -/
def many? (p : Parser α) : Except Fault (Parser (List α)) :=
  if p.consumes then .ok (star p) else .error (.mayNotAdvance p.describe)

/-- Zero or more values of a parser; a refusal becomes the reply of every run. -/
def many (p : Parser α) : Parser (List α) := ofExcept (many? p)

/-- One or more values of a parser. The rest is repeated only after a first value. -/
def many1 (p : Parser α) : Parser (List α) :=
  p.bind fun first ↦ (many p).map (first :: ·)

/-- A parser that keeps its promise is repeated as it is. -/
theorem many_of_consumes {p : Parser α} (h : p.consumes = true) : many p = star p := by
  simp [many, many?, h, ofExcept]

private theorem rounds_congr {p : Parser α} (hp : p.Bounded) (s room room' : List Char)
    (h : s.length ≤ room.length) (h' : s.length ≤ room'.length) :
    rounds p room s = rounds p room' s := by
  induction room generalizing s room' with
  | nil =>
    have hs : s = [] := List.length_eq_zero_iff.mp (by simpa using h)
    subst hs
    cases room' with
    | nil => rfl
    | cons c room' =>
      simp only [rounds]
      cases hr : p.run [] with
      | ok v n =>
        have hn : n = 0 := by simpa using hp _ _ _ hr
        subst hn
        rfl
      | _ => rfl
  | cons c room ih =>
    cases room' with
    | nil =>
      have hs : s = [] := List.length_eq_zero_iff.mp (by simpa using h')
      subst hs
      simp only [rounds]
      cases hr : p.run [] with
      | ok v n =>
        have hn : n = 0 := by simpa using hp _ _ _ hr
        subst hn
        rfl
      | _ => rfl
    | cons c' room' =>
      simp only [rounds]
      cases hr : p.run s with
      | ok v n =>
        cases n with
        | zero => rfl
        | succ n =>
          simp only [List.length_cons] at h h'
          have hn := hp _ _ _ hr
          dsimp only
          rw [ih (s.drop (n + 1)) room'
            (by rw [List.length_drop]; omega) (by rw [List.length_drop]; omega)]
      | _ => rfl

/-- One round, then the rest of the repetition on what the round left. -/
theorem run_star {p : Parser α} (hp : p.Bounded) (s : List Char) :
    (star p).run s =
      match p.run s with
      | .ok _ 0 => .fault (.didNotAdvance p.describe)
      | .ok v (n + 1) => (((star p).run (s.drop (n + 1))).map (v :: ·)).shift (n + 1)
      | .fail => .ok [] 0
      | .tooDeep => .tooDeep
      | .fault why => .fault why := by
  simp only [star]
  cases s with
  | nil =>
    simp only [rounds]
    cases hr : p.run [] with
    | ok v n =>
      have hn : n = 0 := by simpa using hp _ _ _ hr
      subst hn
      rfl
    | _ => rfl
  | cons c cs =>
    rw [rounds]
    cases hr : p.run (c :: cs) with
    | ok v n =>
      cases n with
      | zero => rfl
      | succ n =>
        have hl := hp _ _ _ hr
        simp only [List.length_cons] at hl
        dsimp only
        rw [rounds_congr hp ((c :: cs).drop (n + 1)) cs ((c :: cs).drop (n + 1))
          (by simp only [List.drop_succ_cons, List.length_drop]; omega)
          (Nat.le_refl _)]
    | _ => rfl

/-- A repetition never fails. -/
theorem run_star_ne_fail (p : Parser α) (s : List Char) : (star p).run s ≠ .fail := by
  suffices h : ∀ room s, rounds p room s ≠ .fail from h s s
  intro room
  induction room with
  | nil =>
    intro s
    rw [rounds]
    split <;> simp
  | cons c room ih =>
    intro s
    rw [rounds]
    split
    · simp
    · next v n _ =>
      have := ih (s.drop (n + 1))
      cases hr : rounds p room (s.drop (n + 1)) with
      | fail => exact absurd hr this
      | _ => simp [Reply.map, Reply.shift]
    · simp
    · simp
    · simp

end WhileSyntax.Parser
