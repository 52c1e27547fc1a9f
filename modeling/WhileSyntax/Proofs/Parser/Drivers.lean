import WhileSyntax.Proofs.Parser.Built
import WhileSyntax.Proofs.Parser.Whole

/-!
# The two ways to read whole texts

Reading a whole text for its value and reading it strictly tell the runs of a parser apart alike:
both accept, both pass a fault on, or both reject (`readStrict_exact`). The code of a diagnostic
says which kind of run it is about. The place of a diagnostic is never white space: it is the first
other character of the text, or the first one behind what was read.
-/

namespace WhileSyntax.Parser

open WhileSyntax.Grammar (Blank)

variable {α : Type} {p : Parser α} {text : List Char} {v : α} {used : Nat}
  {what filename : String} {d : Diagnostic}

/-! ## What the answers say -/

/-- Both ways of reading accept a value: one notes the length of the text, the other nothing. -/
structure Accepts (p : Parser α) (text : List Char) (what filename : String) (v : α) : Prop where
  lax : ∃ e, p.readAll text = .note e (.ok (some v)) ∧
    e.message = s!"{p.name}: parsed {text.length} characters"
  strict : p.readStrict text what filename = .silent (.ok v)

/-- Both ways of reading reject a text, each with one note, and one gives a diagnostic. -/
structure Rejects (p : Parser α) (text : List Char) (what filename : String) (d : Diagnostic) :
    Prop where
  lax : ∃ e, p.readAll text = .note e (.ok none)
  strict : ∃ e, p.readStrict text what filename = .note e (.error (.rejected d))

/-- A diagnostic is about the character at an offset. -/
structure PointsAt (d : Diagnostic) (filename : String) (text : List Char) (o : Nat) : Prop where
  location : d.location = .after filename (text.take o)
  offset : d.location.offset = o

/-- What a parser read and the white space behind it end at an offset inside the text. -/
structure LeftAt (p : Parser α) (text : List Char) (o : Nat) : Prop where
  solid : ∃ h : o < text.length, Text.isBlank text[o] = false
  behind : ∃ v n, p.run text = .ok v n ∧ n ≤ o ∧ Blank ((text.take o).drop n)

/-- A diagnostic quotes the beginning of a text, from its first line and not too much of it. -/
def Quotes (d : Diagnostic) (what : String) (s : List Char) : Prop :=
  ∃ left, left ≠ [] ∧ '\n' ∉ left ∧ left <+: s ∧ left.length ≤ 20 ∧
    d.message = s!"Unexpected input after {what}: {Text.Quoted.quote (String.ofList left)}"

/-- A diagnostic tells by its code which kind of run it is about, and by its place and message what
the run left. -/
structure Describes (p : Parser α) (text : List Char) (what filename : String) (d : Diagnostic) :
    Prop where
  tooDeep : d.code = some "P003" ↔ p.run text = .tooDeep
  noParse : d.code = some "P001" ↔ p.readPrefix text = .fail
  unconsumed : d.code = some "P002" ↔
    ∃ v used, p.readPrefix text = .ok v used ∧ used < text.length
  start : d.code = some "P001" ∨ d.code = some "P003" →
    PointsAt d filename text (text.takeWhile Text.isBlank).length
  left : d.code = some "P002" → ∃ v o, p.readPrefix text = .ok v o ∧
    PointsAt d filename text o ∧ LeftAt p text o ∧ Quotes d what (text.drop o)

/-! ## Prefixes -/

private theorem readPrefix_le (hp : Built p) (h : p.readPrefix text = .ok v used) :
    used ≤ text.length :=
  (hp.skip .whitespace).bounded text v used h

private theorem leftAt_of_readPrefix (h : p.readPrefix text = .ok v used)
    (hlt : used < text.length) : LeftAt p text used := by
  obtain ⟨n, hn, rfl⟩ := readPrefix_eq_ok_iff.mp h
  have hrest : text.drop (n + ((text.drop n).takeWhile Text.isBlank).length) =
      (text.drop n).dropWhile Text.isBlank := by
    rw [← List.drop_drop, Grammar.drop_length_takeWhile]
  refine ⟨⟨hlt, ?_⟩, v, n, hn, by omega, ?_⟩
  · apply Grammar.stops_dropWhile Text.isBlank (text.drop n)
    rw [← hrest, Option.mem_def, List.head?_drop, List.getElem?_eq_getElem hlt]
  · rw [List.drop_take, Nat.add_sub_cancel_left,
      ← List.prefix_iff_eq_take.mp (List.takeWhile_prefix _)]
    exact fun c hc ↦ List.mem_takeWhile_imp hc

/-! ## Diagnostics -/

private theorem pointsAt_of_location {o : Nat} (h : d.location = .after filename (text.take o))
    (ho : o ≤ text.length) : PointsAt d filename text o := by
  refine ⟨h, ?_⟩
  rw [h, Source.Location.after, List.length_take, Nat.min_eq_left ho]

private theorem pointsAt_start (h : d.location = .after filename (text.takeWhile Text.isBlank)) :
    PointsAt d filename text (text.takeWhile Text.isBlank).length := by
  have hstart : text.takeWhile Text.isBlank <+: text := List.takeWhile_prefix _
  refine pointsAt_of_location ?_ hstart.length_le
  rw [← List.prefix_iff_eq_take.mp hstart]
  exact h

private theorem quotes_excerpt {o : Nat} (hs : LeftAt p text o) (hd : d.message =
    (Rejection.unconsumed (String.ofList (excerpt (text.drop o)))).message what) :
    Quotes d what (text.drop o) := by
  obtain ⟨⟨hlt, hc⟩, -⟩ := hs
  have hne : text[o] ≠ '\n' := by
    intro h
    rw [h] at hc
    exact absurd hc (by decide)
  refine ⟨excerpt (text.drop o), ?_, ?_, ?_, ?_, hd⟩
  · rw [List.drop_eq_getElem_cons hlt, excerpt, List.takeWhile_cons_of_pos (by simp [hne])]
    exact List.cons_ne_nil _ _
  · intro h
    have hmem := List.mem_takeWhile_imp (List.mem_of_mem_take h)
    exact absurd hmem (by decide)
  · exact (List.take_prefix _ _).trans (List.takeWhile_prefix _)
  · unfold excerpt
    rw [List.length_take]
    exact Nat.min_le_left _ _

/-! ## The kinds of runs -/

private theorem accepts_of_readPrefix (h : p.readPrefix text = .ok v text.length) :
    Accepts p text what filename v := by
  constructor
  · refine ⟨.parsed p.name text.length, ?_, rfl⟩
    simp only [readAll, h, Nat.lt_irrefl, if_false]
  · simp only [readStrict, h, Nat.lt_irrefl, if_false]

/-- A text on which the parser fails is rejected at its first character. -/
theorem rejects_of_fail (h : p.readPrefix text = .fail) :
    ∃ d, Rejects p text what filename d ∧ Describes p text what filename d := by
  let start := Source.Location.after filename (text.takeWhile Text.isBlank)
  have hcode : (Rejection.noParse.diagnostic what start).code = some "P001" := rfl
  refine ⟨Rejection.noParse.diagnostic what start, ⟨⟨.noParse p.name, ?_⟩,
    .rejectedNoParse what start, ?_⟩, ?_⟩
  · simp only [readAll, h]
  · simp only [readStrict, h, start]
  constructor
  · rw [hcode, ← readPrefix_eq_tooDeep_iff, h]
    simp
  · exact iff_of_true hcode h
  · rw [hcode, h]
    simp
  · exact fun _ ↦ pointsAt_start rfl
  · rw [hcode]
    exact fun hleft ↦ absurd hleft (by decide)

/-- A text that nests too deeply is rejected at its first character. -/
theorem rejects_of_tooDeep (h : p.readPrefix text = .tooDeep) :
    ∃ d, Rejects p text what filename d ∧ Describes p text what filename d := by
  let start := Source.Location.after filename (text.takeWhile Text.isBlank)
  have hcode : (Rejection.tooDeep.diagnostic what start).code = some "P003" := rfl
  refine ⟨Rejection.tooDeep.diagnostic what start, ⟨⟨.tooDeep p.name, ?_⟩,
    .rejectedTooDeep what, ?_⟩, ?_⟩
  · simp only [readAll, h]
  · simp only [readStrict, h, start]
  constructor
  · exact iff_of_true hcode (readPrefix_eq_tooDeep_iff.mp h)
  · rw [hcode, h]
    simp
  · rw [hcode, h]
    simp
  · exact fun _ ↦ pointsAt_start rfl
  · rw [hcode]
    exact fun hleft ↦ absurd hleft (by decide)

/-- A text of which something is left is rejected at what is left. -/
theorem rejects_of_lt (h : p.readPrefix text = .ok v used) (hlt : used < text.length) :
    ∃ d, Rejects p text what filename d ∧ Describes p text what filename d := by
  let place := Source.Location.after filename (text.take used)
  let reason := Rejection.unconsumed (String.ofList (excerpt (text.drop used)))
  have hcode : (reason.diagnostic what place).code = some "P002" := rfl
  have hleft := leftAt_of_readPrefix h hlt
  refine ⟨reason.diagnostic what place, ⟨⟨.unconsumed p.name used, ?_⟩,
    .rejectedUnconsumed what place, ?_⟩, ?_⟩
  · simp only [readAll, h, hlt, if_true]
  · simp only [readStrict, h, hlt, if_true, reason, place]
  constructor
  · rw [hcode, ← readPrefix_eq_tooDeep_iff, h]
    simp
  · rw [hcode, h]
    simp
  · exact iff_of_true hcode ⟨v, used, h, hlt⟩
  · rw [hcode]
    rintro (hstart | hstart)
    · exact absurd hstart (by decide)
    · exact absurd hstart (by decide)
  · exact fun _ ↦ ⟨v, used, h, pointsAt_of_location rfl hlt.le, hleft, quotes_excerpt hleft rfl⟩

/-- A fault passes through a reading for a value, and nothing is noted. -/
theorem readAll_of_fault {why : Fault} (h : p.run text = .fault why) :
    p.readAll text = .silent (.error why) := by
  simp only [readAll, readPrefix_eq_fault_iff.mpr h]

/-- A fault passes through a strict reading, and nothing is noted. -/
theorem readStrict_of_fault {why : Fault} (h : p.run text = .fault why) :
    p.readStrict text what filename = .silent (.error (.fault why)) := by
  simp only [readStrict, readPrefix_eq_fault_iff.mpr h]

/-- A reading for a value ends with the faults of the parser. -/
theorem readAll_eq_error_iff {why : Fault} :
    (p.readAll text).answer = .error why ↔ p.run text = .fault why := by
  constructor
  · intro h
    unfold readAll at h
    split at h
    · split at h <;> cases h
    · cases h
    · cases h
    · next hrun =>
      cases h
      exact readPrefix_eq_fault_iff.mp hrun
  · intro h
    rw [readAll_of_fault h]
    rfl

/-- A strict reading gives a value where the text is read to its end, and nowhere else. -/
theorem readStrict_eq_ok_iff (hp : Built p) : (p.readStrict text what filename).answer = .ok v ↔
    p.readPrefix text = .ok v text.length := by
  constructor
  · intro h
    unfold readStrict at h
    dsimp only at h
    split at h
    · next w used hw =>
      have hle := readPrefix_le hp hw
      split at h
      · cases h
      · next hused =>
        cases h
        rw [hw]
        congr 1
        omega
    · cases h
    · cases h
    · cases h
  · intro h
    rw [(accepts_of_readPrefix h).strict]
    rfl

/-- On every text both ways of reading give one value, or both reject it, or both pass on one fault
of the parser. -/
theorem answers_alike (hp : Built p) (text : List Char) (what : String) :
    (∃ v, (p.readAll text).answer = .ok (some v) ∧
      ∀ filename, (p.readStrict text what filename).answer = .ok v) ∨
    ((p.readAll text).answer = .ok none ∧
      ∀ filename, ∃ d, (p.readStrict text what filename).answer = .error (.rejected d)) ∨
    ∃ why, p.run text = .fault why ∧ (p.readAll text).answer = .error why ∧
      ∀ filename, (p.readStrict text what filename).answer = .error (.fault why) := by
  have hrejects : (∀ filename, ∃ d, Rejects p text what filename d) →
      (p.readAll text).answer = .ok none ∧
        ∀ filename, ∃ d, (p.readStrict text what filename).answer = .error (.rejected d) := by
    intro h
    obtain ⟨_, ⟨e, hlax⟩, -⟩ := h ""
    refine ⟨by rw [hlax]; rfl, fun filename ↦ ?_⟩
    obtain ⟨d, -, e', hstrict⟩ := h filename
    exact ⟨d, by rw [hstrict]; rfl⟩
  cases h : p.readPrefix text with
  | ok v used =>
    rcases Nat.lt_or_eq_of_le (readPrefix_le hp h) with hlt | rfl
    · exact .inr (.inl (hrejects fun filename ↦ ⟨_, (rejects_of_lt h hlt).choose_spec.1⟩))
    · refine .inl ⟨v, ?_, fun filename ↦ (readStrict_eq_ok_iff hp).mpr h⟩
      have haccepts : Accepts p text what "" v := accepts_of_readPrefix h
      obtain ⟨e, hlax, -⟩ := haccepts.lax
      rw [hlax]
      rfl
  | fail => exact .inr (.inl (hrejects fun filename ↦ ⟨_, (rejects_of_fail h).choose_spec.1⟩))
  | tooDeep =>
    exact .inr (.inl (hrejects fun filename ↦ ⟨_, (rejects_of_tooDeep h).choose_spec.1⟩))
  | fault why =>
    have hrun := readPrefix_eq_fault_iff.mp h
    exact .inr (.inr ⟨why, hrun, by rw [readAll_of_fault hrun]; rfl,
      fun filename ↦ by rw [readStrict_of_fault hrun]; rfl⟩)

/-- Every diagnostic is about the run that was rejected. -/
theorem describes_of_rejected (hp : Built p)
    (h : (p.readStrict text what filename).answer = .error (.rejected d)) :
    Describes p text what filename d := by
  suffices hd : ∃ d, Rejects p text what filename d ∧ Describes p text what filename d by
    obtain ⟨d', ⟨-, e, he⟩, hdescribes⟩ := hd
    rw [he] at h
    cases h
    exact hdescribes
  cases hrun : p.readPrefix text with
  | ok v used =>
    refine rejects_of_lt hrun (lt_of_le_of_ne (readPrefix_le hp hrun) ?_)
    rintro rfl
    rw [(accepts_of_readPrefix hrun).strict] at h
    cases h
  | fail => exact rejects_of_fail hrun
  | tooDeep => exact rejects_of_tooDeep hrun
  | fault why =>
    rw [readStrict_of_fault (readPrefix_eq_fault_iff.mp hrun)] at h
    cases h

end WhileSyntax.Parser
