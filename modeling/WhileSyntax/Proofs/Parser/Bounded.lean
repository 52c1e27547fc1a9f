import WhileSyntax.Proofs.Parser.Reading

/-!
# Parsers stay within the text

No part of the library uses more characters than the text has. Parsers that are put together from
such parsers are such parsers again, and a success of one is always a reading (`Bounded.reads`).
-/

namespace WhileSyntax.Parser

variable {α β : Type} {p : Parser α} {q : Parser β}

namespace Bounded

/-- A success leaves the text behind the characters that it used. -/
theorem reads (hp : p.Bounded) {s : List Char} {v : α} {n : Nat} (h : p.run s = .ok v n) :
    p.Reads s v (s.drop n) :=
  reads_of_run h (hp s v n h)

/-! ## Primitive parsers -/

/-- A parser without successes stays within any text. -/
theorem of_never (h : ∀ s v n, p.run s ≠ .ok v n) : p.Bounded :=
  fun s v n hr ↦ absurd hr (h s v n)

/-- Nothing is used without looking at the text. -/
theorem pure (shown : String) (v : α) : (Parser.pure shown v).Bounded := by
  rintro s v' n ⟨⟩
  exact Nat.zero_le _

/-- Any one character is there to be used. -/
theorem item : Parser.item.Bounded := by
  intro s v n h
  cases s with
  | nil => cases h
  | cons c s =>
    cases h
    simp only [List.length_cons]
    omega

/-- One character is there to be used. -/
theorem satisfy (test : Char → Bool) (name : String) : (Parser.satisfy test name).Bounded := by
  intro s v n h
  cases s with
  | nil => cases h
  | cons c cs =>
    simp only [Parser.satisfy] at h
    split at h
    · cases h
      simp only [List.length_cons]
      omega
    · cases h

/-- A literal that is found is there to be used. -/
theorem literal (t : String) : (Parser.literal t).Bounded := by
  intro s v n h
  simp only [Parser.literal] at h
  split at h
  · next hp =>
    cases h
    exact (List.isPrefixOf_iff_prefix.mp hp).length_le
  · cases h

/-- White space in front of the text is part of it. -/
theorem whitespace : Parser.whitespace.Bounded := by
  rintro s v n ⟨⟩
  exact (List.takeWhile_prefix _).length_le

/-! ## Composed parsers -/

/-- A sequence stays within the text when its parts do. -/
theorem bindAs (hp : p.Bounded) {c : Bool} {f : α → Parser β} (hf : ∀ v, (f v).Bounded) :
    (Parser.bindAs c p f).Bounded := by
  intro s w n h
  obtain ⟨v, i, j, hv, hw, rfl⟩ := run_bindAs_eq_ok_iff.mp h
  have hi := hp _ _ _ hv
  have hj := hf v _ _ _ hw
  rw [List.length_drop] at hj
  omega

/-- A changed parser uses what the parser uses. -/
theorem map (hp : p.Bounded) (f : α → β) : (p.map f).Bounded := by
  intro s w n h
  obtain ⟨v, hv, -⟩ := Reply.map_eq_ok_iff.mp h
  exact hp _ _ _ hv

/-- A parser whose values may be refused uses what the parser uses. -/
theorem tryMap (hp : p.Bounded) (f : α → Except Fault β) : (p.tryMap f).Bounded := by
  intro s w n h
  simp only [Parser.tryMap, Reply.andThen_eq_ok_iff] at h
  obtain ⟨v, i, j, hv, hw, rfl⟩ := h
  have hi := hp _ _ _ hv
  split at hw
  · cases hw
    omega
  · cases hw

/-- A filtered parser uses what the parser uses. -/
theorem filter (hp : p.Bounded) (test : α → Bool) : (p.filter test).Bounded :=
  fun s v n h ↦ hp s v n (run_filter_eq_ok_iff.mp h).1

/-- An alternative stays within the text when both parts do. -/
theorem orElse {q : Parser α} (hp : p.Bounded) (hq : q.Bounded) : (p.orElse q).Bounded := by
  intro s v n h
  rw [run_orElse, Reply.orElse_eq_ok_iff] at h
  rcases h with h | ⟨-, h⟩
  · exact hp s v n h
  · exact hq s v n h

/-- Repetitions stay within the text when each round does. -/
theorem star (hp : p.Bounded) : (Parser.star p).Bounded := by
  suffices h : ∀ room s vs n, rounds p room s = .ok vs n → n ≤ s.length from
    fun s vs n hr ↦ h s s vs n hr
  intro room
  induction room with
  | nil =>
    intro s vs n h
    rw [rounds] at h
    split at h <;> cases h
    exact Nat.zero_le _
  | cons c room ih =>
    intro s vs n h
    rw [rounds] at h
    split at h
    · cases h
    · next v k hv =>
      obtain ⟨j, hj, rfl⟩ := Reply.shift_eq_ok_iff.mp h
      obtain ⟨vs', hvs, -⟩ := Reply.map_eq_ok_iff.mp hj
      have hk := hp _ _ _ hv
      have hr := ih _ _ _ hvs
      rw [List.length_drop] at hr
      omega
    · cases h
      exact Nat.zero_le _
    · cases h
    · cases h

end Bounded
end WhileSyntax.Parser
