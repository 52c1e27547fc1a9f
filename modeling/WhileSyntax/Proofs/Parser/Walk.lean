import WhileSyntax.Proofs.Parser.Plan
import WhileSyntax.Source.Cursor

/-!
# Walks of cursors

Parsers are run here step by step on cursors: they look at the character behind the cursor, compare
a text with what stands there, count positions from the start of the whole text, and move on. A
repetition compares the positions of two cursors. Every move has to stay within the text.

All of this comes to the same as running on the remaining text alone and counting what was used
(`Definitions.follows`). So a walk never leaves its text, never turns back, and does not depend on
what stands in front of it (`Definitions.walk_sees_remaining`).
-/

namespace WhileSyntax.Parser

open WhileSyntax.Source (Cursor PositionError)

variable {α β : Type}

/-- What a walk comes to. -/
inductive Outcome (α : Type) where
  /-- success with a value and the cursor behind it -/
  | ok (value : α) (rest : Cursor)
  | fail
  | tooDeep
  | fault (why : Fault)
  /-- a move out of the text -/
  | misplaced (error : PositionError)
  /-- a repetition that goes on for longer than its text -/
  | endless
  deriving DecidableEq

/-- Walks of values of type `α`. -/
abbrev Walker (α : Type) := Cursor → Outcome α

namespace Outcome

/-- Success where a move leads, if it leads anywhere. -/
def moved (value : α) : Except PositionError Cursor → Outcome α
  | .ok rest => ok value rest
  | .error error => misplaced error

/-- Change the value of a success. -/
def map (f : α → β) : Outcome α → Outcome β
  | ok value rest => ok (f value) rest
  | fail => fail
  | tooDeep => tooDeep
  | fault why => fault why
  | misplaced error => misplaced error
  | endless => endless

/-- Go on after a success with the value and the cursor behind it. -/
def andThen (o : Outcome α) (next : α → Walker β) : Outcome β :=
  match o with
  | ok value rest => next value rest
  | fail => fail
  | tooDeep => tooDeep
  | fault why => fault why
  | misplaced error => misplaced error
  | endless => endless

/-- The outcome of a walk that begins at `c` instead of the start of the text behind it. -/
def relocated (c : Cursor) : Outcome α → Outcome α
  | ok value rest => moved value (c.advance rest.pos)
  | o => o

/-- The outcome of a run on the text behind `c`. -/
def ofReply (c : Cursor) : Reply α → Outcome α
  | .ok value used => moved value (c.advance used)
  | .fail => fail
  | .tooDeep => tooDeep
  | .fault why => fault why

end Outcome

namespace Walker

/-- Any one character, unless the cursor is at the end. -/
def item : Walker Char := fun c ↦
  if c.atEnd then .fail
  else
    match c.peek with
    | some d => .moved d (c.advance 1)
    | none => .fail

/-- The next character, if there is one and it passes a test. -/
def satisfy (test : Char → Bool) : Walker Char := fun c ↦
  match c.peek with
  | some d => if test d then .moved d (c.advance 1) else .fail
  | none => .fail

/-- A given text as a whole. -/
def literal (s : String) : Walker String := fun c ↦
  if c.startsWith s.toList then .moved s (c.advance s.toList.length) else .fail

/-- The first position of a text, counted from `pos`, where no white space stands. -/
def scan (text : List Char) (pos : Nat) : Nat :=
  if h : pos < text.length then
    if Text.isBlank text[pos] then scan text (pos + 1) else pos
  else pos
  termination_by text.length - pos

/-- All white space behind the cursor. -/
def whitespace : Walker Unit := fun c ↦ .moved () (Cursor.place c.text (scan c.text c.pos))

/-- The first walk, or the second one from the same cursor where the first one fails. -/
def orElse (p q : Walker α) : Walker α := fun c ↦
  match p c with
  | .fail => q c
  | o => o

/-- The values that pass a test. -/
def filter (test : α → Bool) (p : Walker α) : Walker α := fun c ↦
  match p c with
  | .ok v rest => if test v then .ok v rest else .fail
  | o => o

/-- Values that may be refused. -/
def convert (f : α → Except Text.Decimal.NumeralError β) (p : Walker α) : Walker β := fun c ↦
  (p c).andThen fun v rest ↦
    match f v with
    | .ok w => .ok w rest
    | .error error => .fault (.numeral error)

/-- At most `room` rounds of a walk, each of which has to move the cursor. -/
def rounds (parser : String) (p : Walker α) : (room : Nat) → Walker (List α)
  | 0, _ => .endless
  | room + 1, c =>
    match p c with
    | .ok v rest =>
      if rest.pos ≤ c.pos then .fault (.didNotAdvance parser)
      else (rounds parser p room rest).map (v :: ·)
    | .fail => .ok [] c
    | .tooDeep => .tooDeep
    | .fault why => .fault why
    | .misplaced error => .misplaced error
    | .endless => .endless

/-- Rounds of a walk until it fails. More of them than there are characters would be endless. -/
def many (parser : String) (p : Walker α) : Walker (List α) := fun c ↦
  rounds parser p (c.remaining.length + 1) c

end Walker

variable {Ref : Type → Type}

/-- The walk of a plan, given the walks that its names stand for. -/
def Plan.walker (refs : ∀ α, Ref α → Walker α) {α : Type} : Plan Ref α → Walker α
  | pure _ value => fun c ↦ .ok value c
  | fail => fun _ ↦ .fail
  | refused why => fun _ ↦ .fault why.fault
  | item => .item
  | satisfy test _ => .satisfy test
  | literal s => .literal s
  | whitespace => .whitespace
  | bindAs _ p f => fun c ↦ (p.walker refs c).andThen fun v rest ↦ (f v).walker refs rest
  | map f p => fun c ↦ (p.walker refs c).map f
  | convert f p => .convert f (p.walker refs)
  | filter test p => .filter test (p.walker refs)
  | named _ p => p.walker refs
  | orElse p q => .orElse (p.walker refs) (q.walker refs)
  | many p =>
    if p.consumes then .many p.describe (p.walker refs)
    else fun _ ↦ .fault (.mayNotAdvance p.describe)
  | lazy _ _ target => refs _ target

/-- The walks that names stand for, with a number of references that they may follow into one
another. -/
def Definitions.walker (defs : Definitions Ref) : (levels : Nat) → ∀ α, Ref α → Walker α
  | 0 => fun _ _ _ ↦ .tooDeep
  | levels + 1 => fun α i ↦ (defs α i).walker (defs.walker levels)

/-- The walk of a plan over a family of definitions. -/
def Definitions.walk (defs : Definitions Ref) (levels : Nat) (t : Plan Ref α) : Walker α :=
  t.walker (defs.walker levels)

/-! ## Moves -/

/-- A move within the text leads to the rest of the text behind it. -/
theorem exists_advance {c : Cursor} {n : Nat} (hn : n ≤ c.remaining.length) :
    ∃ rest : Cursor, c.advance n = .ok rest ∧ rest.text = c.text ∧ rest.pos = c.pos + n ∧
      rest.remaining = c.remaining.drop n := by
  have hl : c.remaining.length = c.text.length - c.pos := List.length_drop
  have hc := c.pos_le
  refine ⟨⟨c.text, c.pos + n, by omega⟩, ?_, rfl, rfl, ?_⟩
  · exact Cursor.place_eq_ok_iff.mpr ⟨rfl, by simp⟩
  · rw [Cursor.remaining, Cursor.remaining, List.drop_drop]

namespace Outcome

/-- Changing the value of a reply changes that of its outcome. -/
theorem ofReply_map (c : Cursor) (f : α → β) (r : Reply α) :
    ofReply c (r.map f) = (ofReply c r).map f := by
  cases r with
  | ok v n =>
    simp only [Reply.map, ofReply]
    cases c.advance n <;> rfl
  | _ => rfl

/-- What was used before a run moves the cursor that the run begins at. -/
theorem ofReply_shift {c rest : Cursor} {n : Nat} (h : c.advance n = .ok rest) (r : Reply α) :
    ofReply c (r.shift n) = ofReply rest r := by
  cases r with
  | ok v m =>
    obtain ⟨ht, hp⟩ := Cursor.place_eq_ok_iff.mp h
    simp only [Reply.shift, ofReply, Cursor.advance, ht, hp]
    congr 2
    push_cast
    omega
  | _ => rfl

/-- A success comes from a success that moved the cursor. -/
theorem ofReply_eq_ok_iff {c rest : Cursor} {r : Reply α} {v : α} :
    ofReply c r = ok v rest ↔ ∃ n, r = .ok v n ∧ c.advance n = .ok rest := by
  cases r with
  | ok w n =>
    simp only [ofReply, Reply.ok.injEq]
    cases hm : c.advance n with
    | ok rest' =>
      simp only [moved, ok.injEq]
      constructor
      · rintro ⟨rfl, rfl⟩
        exact ⟨n, ⟨rfl, rfl⟩, hm⟩
      · rintro ⟨_, ⟨rfl, rfl⟩, hr⟩
        rw [hm, Except.ok.injEq] at hr
        exact ⟨rfl, hr⟩
    | error e =>
      simp only [moved, reduceCtorEq, false_iff, not_exists, not_and]
      rintro _ ⟨rfl, rfl⟩ hr
      rw [hm] at hr
      cases hr
  | _ => simp [ofReply]

/-- A fault comes from that fault. -/
theorem ofReply_eq_fault_iff {c : Cursor} {r : Reply α} {why : Fault} :
    ofReply c r = fault why ↔ r = .fault why := by
  cases r with
  | ok v n =>
    simp only [ofReply, reduceCtorEq, iff_false]
    cases c.advance n <;> exact nofun
  | _ => simp [ofReply]

end Outcome

/-! ## Walks that follow runs -/

private theorem Walker.scan_eq (text : List Char) (pos : Nat) :
    scan text pos = pos + ((text.drop pos).takeWhile Text.isBlank).length := by
  induction pos using scan.induct text with
  | case1 pos h hb ih =>
    rw [scan, dif_pos h, if_pos hb, ih, List.drop_eq_getElem_cons h, List.takeWhile_cons_of_pos hb,
      List.length_cons]
    omega
  | case2 pos h hb =>
    rw [scan, dif_pos h, if_neg hb, List.drop_eq_getElem_cons h, List.takeWhile_cons_of_neg hb]
    rfl
  | case3 pos h =>
    rw [scan, dif_neg h, List.drop_eq_nil_iff.mpr (by omega)]
    rfl

/-- A walk comes to what a run on the remaining text says. -/
def Follows (w : Walker α) (p : Parser α) : Prop :=
  ∀ c, w c = .ofReply c (p.run c.remaining)

namespace Follows

variable {w : Walker α} {p : Parser α} {x : Walker β} {q : Parser β}

private theorem andThen_eq (hw : Follows w p) (hp : p.Bounded) {f : α → Walker β} {g : α → Parser β}
    (hf : ∀ v, Follows (f v) (g v)) (c : Cursor) :
    (w c).andThen f =
      .ofReply c ((p.run c.remaining).andThen c.remaining fun v rest ↦ (g v).run rest) := by
  rw [hw c]
  cases hr : p.run c.remaining with
  | ok v n =>
    obtain ⟨rest, hm, -, -, hrest⟩ := exists_advance (hp _ _ _ hr)
    rw [Reply.andThen, Outcome.ofReply_shift hm, ← hrest, ← hf v rest, Outcome.ofReply, hm]
    rfl
  | _ => rfl

/-- The character behind the cursor is the first one that remains. -/
theorem satisfy (test : Char → Bool) (name : String) :
    Follows (Walker.satisfy test) (Parser.satisfy test name) := by
  intro c
  simp only [Walker.satisfy, Cursor.peek, Parser.satisfy]
  cases c.remaining with
  | nil => rfl
  | cons d s =>
    simp only [List.head?_cons]
    split <;> rfl

/-- Any character may stand behind the cursor. -/
theorem item : Follows Walker.item Parser.item := by
  intro c
  simp only [Walker.item, Cursor.peek, Parser.item]
  cases hs : c.remaining with
  | nil => simp [Cursor.atEnd_iff.mpr hs, Outcome.ofReply]
  | cons d s =>
    have he : c.atEnd = false := by
      rw [← Bool.not_eq_true, Cursor.atEnd_iff, hs]
      exact nofun
    simp [he, Outcome.ofReply]

/-- What starts behind the cursor is a prefix of what remains. -/
theorem literal (t : String) : Follows (Walker.literal t) (Parser.literal t) := by
  intro c
  by_cases h : c.startsWith t.toList = true
  · have hs : t.toList.isPrefixOf c.remaining = true := h
    simp only [Walker.literal, Parser.literal, h, hs, if_true, Outcome.ofReply]
  · have hs : ¬t.toList.isPrefixOf c.remaining = true := h
    simp only [Walker.literal, Parser.literal, h, hs, Bool.false_eq_true, if_false,
      Outcome.ofReply]

/-- White space is scanned as far as it reaches in what remains. -/
theorem whitespace : Follows Walker.whitespace Parser.whitespace := by
  intro c
  simp only [Walker.whitespace, Walker.scan_eq, Parser.whitespace, Outcome.ofReply,
    Cursor.advance, Cursor.remaining, Int.natCast_add]

/-- A sequence of walks follows a sequence of runs. -/
theorem bindAs (hw : Follows w p) (hp : p.Bounded) {f : α → Walker β} {g : α → Parser β}
    (hf : ∀ v, Follows (f v) (g v)) (consumes : Bool) :
    Follows (fun c ↦ (w c).andThen f) (Parser.bindAs consumes p g) :=
  hw.andThen_eq hp hf

/-- Values are changed alike. -/
theorem map (hw : Follows w p) (f : α → β) : Follows (fun c ↦ (w c).map f) (p.map f) := by
  intro c
  dsimp only
  rw [hw c, ← Outcome.ofReply_map, run_map]

/-- Values are refused alike. -/
theorem convert (hw : Follows w p) (hp : p.Bounded)
    (f : α → Except Text.Decimal.NumeralError β) :
    Follows (Walker.convert f w) (p.tryMap fun v ↦ (f v).mapError .numeral) := by
  intro c
  simp only [Walker.convert, tryMap, hw c]
  cases hr : p.run c.remaining with
  | ok v n =>
    obtain ⟨rest, hm, -⟩ := exists_advance (hp _ _ _ hr)
    simp only [Outcome.ofReply, hm, Outcome.moved, Outcome.andThen, Reply.andThen]
    cases f v with
    | ok x =>
      change Outcome.ok x rest = .ofReply c ((Reply.ok x 0).shift n)
      rw [Outcome.ofReply_shift hm, Outcome.ofReply, Int.ofNat_zero, Cursor.advance_zero,
        Outcome.moved]
    | error e => rfl
  | _ => rfl

/-- Values are filtered alike. -/
theorem filter (hw : Follows w p) (hp : p.Bounded) (test : α → Bool) :
    Follows (Walker.filter test w) (p.filter test) := by
  intro c
  simp only [Walker.filter, Parser.filter, hw c]
  cases hr : p.run c.remaining with
  | ok v n =>
    obtain ⟨rest, hm, -⟩ := exists_advance (hp _ _ _ hr)
    simp only [Outcome.ofReply, hm, Outcome.moved]
    cases test v <;> simp [hm]
  | _ => rfl

/-- The second walk begins where the first one began. -/
theorem orElse {w x : Walker α} {p q : Parser α} (hw : Follows w p) (hp : p.Bounded)
    (hx : Follows x q) : Follows (Walker.orElse w x) (p.orElse q) := by
  intro c
  simp only [Walker.orElse, run_orElse, hw c]
  cases hr : p.run c.remaining with
  | ok v n =>
    obtain ⟨rest, hm, -⟩ := exists_advance (hp _ _ _ hr)
    simp only [Outcome.ofReply, hm, Outcome.moved, Reply.orElse]
  | fail => exact hx c
  | _ => rfl

private theorem rounds (hw : Follows w p) (hp : p.Bounded) {room : Nat} {c : Cursor}
    (hroom : c.remaining.length < room) :
    Walker.rounds p.describe w room c = .ofReply c ((star p).run c.remaining) := by
  induction room generalizing c with
  | zero => omega
  | succ room ih =>
    rw [Walker.rounds, hw c, run_star hp]
    cases hr : p.run c.remaining with
    | ok v n =>
      have hn := hp _ _ _ hr
      obtain ⟨rest, hm, -, hpos, hrest⟩ := exists_advance hn
      simp only [Outcome.ofReply, hm, Outcome.moved, hpos]
      cases n with
      | zero => simp
      | succ n =>
        have hlt : rest.remaining.length < room := by
          rw [hrest, List.length_drop]
          omega
        rw [if_neg (by omega), ih hlt, hrest, ← Outcome.ofReply_map]
        exact (Outcome.ofReply_shift hm _).symm
    | fail => simp [Outcome.ofReply, Outcome.moved, Cursor.advance_zero]
    | _ => rfl

/-- Repetitions follow repetitions. -/
theorem many (hw : Follows w p) (hp : p.Bounded) :
    Follows (Walker.many p.describe w) (star p) :=
  fun _ ↦ hw.rounds hp (Nat.lt_succ_self _)

/-- A walk ends where its run does, within its text and not before its start. -/
theorem suffix (hw : Follows w p) {c rest : Cursor} {v : α} (h : w c = .ok v rest) :
    rest.text = c.text ∧ c.pos ≤ rest.pos ∧ rest.pos ≤ c.text.length := by
  rw [hw c, Outcome.ofReply_eq_ok_iff] at h
  obtain ⟨n, -, hm⟩ := h
  obtain ⟨ht, hp⟩ := Cursor.place_eq_ok_iff.mp hm
  have hl := rest.pos_le
  rw [ht] at hl
  exact ⟨ht, by omega, hl⟩

/-- A walk makes no move out of its text and no more rounds than there are characters. -/
theorem stays (hw : Follows w p) (hp : p.Bounded) (c : Cursor) :
    (∀ error, w c ≠ .misplaced error) ∧ w c ≠ .endless := by
  rw [hw c]
  cases hr : p.run c.remaining with
  | ok v n =>
    obtain ⟨rest, hm, -⟩ := exists_advance (hp _ _ _ hr)
    rw [Outcome.ofReply, hm]
    exact ⟨fun _ ↦ nofun, nofun⟩
  | _ => exact ⟨fun _ ↦ nofun, nofun⟩

/-- What stands in front of a cursor does not matter to a walk. -/
theorem relocated_eq (hw : Follows w p) (hp : p.Bounded) (c : Cursor) :
    w c = (w ⟨c.remaining, 0, Nat.zero_le _⟩).relocated c := by
  have hs : (⟨c.remaining, 0, Nat.zero_le _⟩ : Cursor).remaining = c.remaining := List.drop_zero
  rw [hw c, hw, hs]
  cases hr : p.run c.remaining with
  | ok v n =>
    obtain ⟨rest, hm, -, hpos, -⟩ := exists_advance
      (c := ⟨c.remaining, 0, Nat.zero_le _⟩) (hs.symm ▸ hp _ _ _ hr)
    simp only [Outcome.ofReply, hm, Outcome.moved, Outcome.relocated, hpos, Nat.zero_add]
  | _ => rfl

end Follows

/-! ## Walks of plans -/

/-- The walk of a plan follows the run of its parser where its references do. -/
theorem Plan.follows {refs : ∀ α, Ref α → Walker α} {parsers : ∀ α, Ref α → Parser α}
    (hb : ∀ α i, Built (parsers α i)) (h : ∀ α i, Follows (refs α i) (parsers α i))
    (t : Plan Ref α) : Follows (t.walker refs) (t.parser parsers) := by
  induction t with
  | pure shown v =>
    intro c
    simp [walker, parser, Parser.pure, Outcome.ofReply, Outcome.moved, Cursor.advance_zero]
  | fail => exact fun _ ↦ rfl
  | refused why => exact fun _ ↦ rfl
  | item => exact .item
  | satisfy test name => exact .satisfy test name
  | literal s => exact .literal s
  | whitespace => exact .whitespace
  | bindAs c p f ihp ihf => exact ihp.bindAs (p.built hb).bounded ihf c
  | map f p ih => exact ih.map f
  | convert f p ih => exact ih.convert (p.built hb).bounded f
  | filter test p ih => exact ih.filter (p.built hb).bounded test
  | named name p ih => exact ih
  | orElse p q ihp ihq => exact ihp.orElse (p.built hb).bounded ihq
  | many p ih =>
    have hd := p.parser_describe parsers
    have hc := p.parser_consumes parsers
    intro c
    simp only [walker, parser, Parser.many, many?, hc, ← hd]
    split
    · exact ih.many (p.built hb).bounded c
    · rfl
  | lazy c name i => exact h _ i

/-- A walk of a planned parser comes to what its run on the remaining text says, whatever the
references of the plan lead to. -/
theorem Definitions.follows (defs : Definitions Ref) (levels : Nat) (t : Plan Ref α) :
    Follows (defs.walk levels t) (defs.build levels t) := by
  refine t.follows (defs.parser_built levels) ?_
  induction levels with
  | zero => exact fun _ _ _ ↦ rfl
  | succ levels ih => exact fun α i ↦ (defs α i).follows (defs.parser_built levels) ih

/-- A planned parser sees only what remains of its text and returns a suffix of it: the outcome of a
walk is that of the walk on the remaining text alone, relocated to the cursor, and it is what the
run of the parser on the remaining text says. -/
theorem Definitions.walk_sees_remaining (defs : Definitions Ref) (levels : Nat) (t : Plan Ref α)
    (c : Cursor) :
    (∀ v rest, defs.walk levels t c = .ok v rest →
      rest.text = c.text ∧ c.pos ≤ rest.pos ∧ rest.pos ≤ c.text.length) ∧
    ((∀ error, defs.walk levels t c ≠ .misplaced error) ∧ defs.walk levels t c ≠ .endless) ∧
    defs.walk levels t c =
      (defs.walk levels t ⟨c.remaining, 0, Nat.zero_le _⟩).relocated c ∧
    defs.walk levels t c = .ofReply c ((defs.build levels t).run c.remaining) := by
  have hf := defs.follows levels t
  have hb := (defs.built levels t).bounded
  exact ⟨fun v rest ↦ hf.suffix, hf.stays hb c, hf.relocated_eq hb c, hf c⟩

/-- A number behind a name is read as it is at the start of a text, and ends where it stands. -/
theorem Definitions.walk_sees_remaining_number :
    let defs : Definitions fun _ ↦ Empty := fun _ i ↦ nomatch i
    let c : Cursor := ⟨"x 12;".toList, 1, by decide⟩
    ∃ rest, defs.walk 0 .number c = .ok 12 rest ∧ rest.text = "x 12;".toList ∧ rest.pos = 4 ∧
      1 ≤ rest.pos ∧ rest.pos ≤ 5 := by
  intro defs c
  obtain ⟨hsuffix, -, -, hrun⟩ := defs.walk_sees_remaining 0 .number c
  have hwalk : defs.walk 0 .number c = .ok 12 ⟨"x 12;".toList, 4, by decide⟩ := by
    rw [hrun, Definitions.build, Plan.parser_number]
    rfl
  obtain ⟨htext, hle, hlen⟩ := hsuffix _ _ hwalk
  exact ⟨_, hwalk, htext, rfl, hle, hlen⟩

end WhileSyntax.Parser
