import WhileSyntax.Proofs.Parser.Located

/-!
# Rounds of a walk

A repetition begins its walk anew at one cursor after the other, for as long as it succeeds and
moves. The walk may be any function of cursors here: it may look at its position, and at what stands
in front of it. All it has to do is keep to its text (`Keeps`), as parsers run at cursors do
(`keeps_runAt`).

What the repetition comes to is told by chains of successes (`Steps`): it returns the values of a
chain up to a cursor where the walk fails (`many_eq_ok_iff`), or it raises an error where a chain
reaches a success that does not move the cursor on (`Quiet.many_eq_fault_iff`).
-/

namespace WhileSyntax.Parser

open Source (Cursor)

variable {α : Type} {w : Walker α} {c m r : Cursor} {v : α} {vs : List α} {parser : String}

namespace Walker

/-- Successes one after the other, each of which moves the cursor on. -/
inductive Steps (w : Walker α) : Cursor → List α → Cursor → Prop where
  | nil (c : Cursor) : Steps w c [] c
  | cons {c m r : Cursor} {v : α} {vs : List α} :
      w c = .ok v m → c.pos < m.pos → Steps w m vs r → Steps w c (v :: vs) r

/-- A chain of successes as long as can be: the walk fails behind it. -/
def Exhausts (w : Walker α) (c : Cursor) (vs : List α) (r : Cursor) : Prop :=
  w.Steps c vs r ∧ w r = .fail

/-- A chain of successes leads to one that does not move the cursor on. -/
def Stalls (w : Walker α) (c : Cursor) : Prop :=
  ∃ vs m v r, w.Steps c vs m ∧ w m = .ok v r ∧ r.pos ≤ m.pos

/-- Wherever chains of successes lead from `c`, the walk succeeds or fails. -/
def Quiet (w : Walker α) (c : Cursor) : Prop :=
  ∀ vs m, w.Steps c vs m → w m = .fail ∨ ∃ v r, w m = .ok v r

/-- Successes leave a cursor of the text that they begin in. -/
def Keeps (w : Walker α) : Prop :=
  ∀ c v r, w c = .ok v r → r.text = c.text

/-- Every success of a chain moves the cursor on. -/
theorem Steps.length_add_pos_le (h : w.Steps c vs r) : vs.length + c.pos ≤ r.pos := by
  induction h with
  | nil c => simp
  | cons _ hlt _ ih =>
    rw [List.length_cons]
    omega

/-- A chain with a last value comes to a cursor where that value is read. -/
theorem Steps.of_snoc (h : w.Steps c (vs ++ [v]) r) : ∃ m, w.Steps c vs m ∧ w m = .ok v r := by
  induction vs generalizing c with
  | nil =>
    cases h with
    | cons hw _ hrest =>
      cases hrest
      exact ⟨c, .nil c, hw⟩
  | cons u vs ih =>
    cases h with
    | cons hw hlt hrest =>
      obtain ⟨m, hm, hv⟩ := ih hrest
      exact ⟨m, .cons hw hlt hm, hv⟩

/-- Behind a success that moves the cursor on, a quiet walk is quiet. -/
theorem Quiet.of_step (hq : w.Quiet c) (h : w c = .ok v m) (hlt : c.pos < m.pos) : w.Quiet m :=
  fun vs r hm ↦ hq (v :: vs) r (.cons h hlt hm)

private theorem Keeps.length_remaining_lt (hk : w.Keeps) (h : w c = .ok v m) (hlt : c.pos < m.pos) :
    m.remaining.length < c.remaining.length := by
  have hm := m.pos_le
  rw [m.length_remaining, c.length_remaining, hk c v m h]
  rw [hk c v m h] at hm
  omega

/-- A quiet walk leads to a failure or to a success that does not move the cursor on. -/
theorem Quiet.exhausts_or_stalls (hk : w.Keeps) (hq : w.Quiet c) :
    (∃ vs r, w.Exhausts c vs r) ∨ w.Stalls c := by
  induction hl : c.remaining.length using Nat.strongRecOn generalizing c with
  | ind l ih =>
    subst hl
    rcases hq [] c (.nil c) with hf | ⟨v, m, hm⟩
    · exact .inl ⟨[], c, .nil c, hf⟩
    · by_cases hlt : c.pos < m.pos
      · rcases ih _ (hk.length_remaining_lt hm hlt) (hq.of_step hm hlt) rfl with
          ⟨vs, r, hc, hf⟩ | ⟨vs, k, u, r, hc, hu, hle⟩
        · exact .inl ⟨v :: vs, r, .cons hm hlt hc, hf⟩
        · exact .inr ⟨v :: vs, k, u, r, .cons hm hlt hc, hu, hle⟩
      · exact .inr ⟨[], c, v, m, .nil c, hm, by omega⟩

/-! ## Single rounds -/

section Rounds

variable {room : Nat}

private theorem rounds_of_fail (h : w c = .fail) : rounds parser w (room + 1) c = .ok [] c := by
  rw [rounds, h]

private theorem rounds_of_move (h : w c = .ok v m) (hlt : c.pos < m.pos) :
    rounds parser w (room + 1) c = (rounds parser w room m).map (v :: ·) := by
  rw [rounds, h]
  exact if_neg (Nat.not_le_of_lt hlt)

private theorem rounds_of_stand (h : w c = .ok v m) (hle : m.pos ≤ c.pos) :
    rounds parser w (room + 1) c = .fault (.didNotAdvance parser) := by
  rw [rounds, h]
  exact if_pos hle

private theorem exhausts_of_rounds (h : rounds parser w room c = .ok vs r) :
    w.Exhausts c vs r := by
  induction room generalizing c vs with
  | zero => cases h
  | succ room ih =>
    cases hw : w c with
    | ok v m =>
      by_cases hlt : c.pos < m.pos
      · rw [rounds_of_move hw hlt] at h
        obtain ⟨us, hus, rfl⟩ := Outcome.map_eq_ok_iff.mp h
        obtain ⟨hsteps, hf⟩ := ih hus
        exact ⟨.cons hw hlt hsteps, hf⟩
      · rw [rounds_of_stand hw (Nat.le_of_not_lt hlt)] at h
        cases h
    | fail =>
      rw [rounds_of_fail hw] at h
      cases h
      exact ⟨.nil _, hw⟩
    | _ =>
      rw [rounds, hw] at h
      cases h

private theorem rounds_ne_fail (parser : String) (w : Walker α) (room : Nat) (c : Cursor) :
    rounds parser w room c ≠ .fail := by
  intro h
  induction room generalizing c with
  | zero => cases h
  | succ room ih =>
    cases hw : w c with
    | ok v m =>
      by_cases hlt : c.pos < m.pos
      · rw [rounds_of_move hw hlt] at h
        cases hrest : rounds parser w room m with
        | fail => exact ih m hrest
        | _ =>
          rw [hrest] at h
          cases h
      · rw [rounds_of_stand hw (Nat.le_of_not_lt hlt)] at h
        cases h
    | fail =>
      rw [rounds_of_fail hw] at h
      cases h
    | _ =>
      rw [rounds, hw] at h
      cases h

private theorem rounds_of_steps (parser : String) (hk : w.Keeps) (h : w.Steps c vs m)
    (hroom : c.remaining.length < room) :
    ∃ room', rounds parser w room c = (rounds parser w (room' + 1) m).map (vs ++ ·) := by
  -- a step leaves less text behind it and takes one round, so the room stays larger than the text
  obtain ⟨room, rfl⟩ := Nat.exists_eq_add_one_of_ne_zero (Nat.ne_zero_of_lt hroom)
  induction h generalizing room with
  | nil c =>
    refine ⟨room, ?_⟩
    cases rounds parser w (room + 1) c <;> rfl
  | @cons c k m u us hu hlt _ ih =>
    have hless := hk.length_remaining_lt hu hlt
    obtain ⟨room, rfl⟩ : ∃ room', room = room' + 1 := ⟨room - 1, by omega⟩
    obtain ⟨room', hrounds⟩ := ih room (by omega)
    refine ⟨room', ?_⟩
    rw [rounds_of_move hu hlt, hrounds]
    cases rounds parser w (room' + 1) m <;> rfl

end Rounds

/-! ## Repetition -/

/-- A repetition returns the values of a chain of successes that is as long as can be. -/
theorem many_eq_ok_iff (hk : w.Keeps) : many parser w c = .ok vs r ↔ w.Exhausts c vs r := by
  refine ⟨exhausts_of_rounds, fun ⟨hsteps, hf⟩ ↦ ?_⟩
  obtain ⟨room, hrounds⟩ :=
    rounds_of_steps parser hk hsteps (Nat.lt_succ_self c.remaining.length)
  rw [many, hrounds, rounds_of_fail hf, Outcome.map, List.append_nil]

/-- A walk may look at its position: here nothing is read from the third place on. -/
example : many "" (fun c ↦ if c.pos < 2 then item c else .fail) ⟨"abc".toList, 0, by decide⟩ =
    .ok ['a', 'b'] ⟨"abc".toList, 2, by decide⟩ := by
  decide +kernel

/-- A repetition never fails. -/
theorem many_ne_fail (parser : String) (w : Walker α) (c : Cursor) : many parser w c ≠ .fail :=
  rounds_ne_fail parser w _ c

private theorem many_of_stalls (hk : w.Keeps) (h : w.Stalls c) :
    many parser w c = .fault (.didNotAdvance parser) := by
  obtain ⟨vs, m, v, r, hsteps, hm, hle⟩ := h
  obtain ⟨room, hrounds⟩ :=
    rounds_of_steps parser hk hsteps (Nat.lt_succ_self c.remaining.length)
  rw [many, hrounds, rounds_of_stand hm hle, Outcome.map]

/-- A repetition of a quiet walk returns a chain of values, or raises an error where it stalls. -/
theorem Quiet.many_settles (hk : w.Keeps) (hq : w.Quiet c) (parser : String) :
    (∃ vs r, w.Exhausts c vs r ∧ many parser w c = .ok vs r) ∨
      w.Stalls c ∧ many parser w c = .fault (.didNotAdvance parser) := by
  rcases hq.exhausts_or_stalls hk with ⟨vs, r, h⟩ | h
  · exact .inl ⟨vs, r, h, (many_eq_ok_iff hk).mpr h⟩
  · exact .inr ⟨h, many_of_stalls hk h⟩

/-- A repetition of a quiet walk raises an error exactly where it stalls. -/
theorem Quiet.many_eq_fault_iff (hk : w.Keeps) (hq : w.Quiet c) :
    many parser w c = .fault (.didNotAdvance parser) ↔ w.Stalls c := by
  refine ⟨fun h ↦ ?_, many_of_stalls hk⟩
  rcases hq.many_settles hk parser with ⟨vs, r, -, hr⟩ | ⟨hs, -⟩
  · cases hr.symm.trans h
  · exact hs

end Walker

/-- A parser keeps to the text that it is run in. -/
theorem keeps_runAt (p : Parser α) : p.runAt.Keeps :=
  fun _ _ _ h ↦ (runAt_eq_ok_iff.mp h).1

end WhileSyntax.Parser
