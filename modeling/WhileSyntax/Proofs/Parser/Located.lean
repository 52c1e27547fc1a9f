import WhileSyntax.Proofs.Parser.Walk

/-!
# Runs at cursors

A parser reads the text behind a cursor and leaves a cursor (`Parser.runAt`). A success at a cursor
is a reading of what remains there, within the text and not before the cursor
(`runAt_eq_ok_iff`). Where the first part of a sequence succeeds, the sequence goes on at the cursor
behind it, whatever other runs of the parts may do.
-/

namespace WhileSyntax

open Source (Cursor)

namespace Source.Cursor

/-- The text and the position are all there is to a cursor. -/
theorem ext {c d : Cursor} (ht : c.text = d.text) (hp : c.pos = d.pos) : c = d := by
  obtain ⟨text, pos, _⟩ := c
  obtain ⟨text', pos', _⟩ := d
  obtain rfl : text = text' := ht
  obtain rfl : pos = pos' := hp
  rfl

/-- As many characters remain as stand behind the position. -/
theorem length_remaining (c : Cursor) : c.remaining.length = c.text.length - c.pos :=
  List.length_drop

/-- Where the same is left of the same text, cursors are the same. -/
theorem eq_of_remaining {c d : Cursor} (ht : c.text = d.text) (hr : c.remaining = d.remaining) :
    c = d := by
  have hc := c.pos_le
  have hd := d.pos_le
  have hl := congrArg List.length hr
  rw [length_remaining, length_remaining, ht] at hl
  rw [ht] at hc
  exact ext ht (by omega)

/-- A move drops characters from what remains. -/
theorem remaining_of_advance {c d : Cursor} {n : Nat} (h : c.advance n = .ok d) :
    d.remaining = c.remaining.drop n := by
  obtain ⟨htext, hpos⟩ := place_eq_ok_iff.mp h
  rw [remaining, remaining, htext, List.drop_drop]
  congr 1
  omega

end Source.Cursor

namespace Parser

variable {α β : Type} {p q : Parser α} {c r : Cursor} {v : α}

/-- What a run of a parser at a cursor comes to. -/
def runAt (p : Parser α) : Walker α := fun c ↦ .ofReply c (p.run c.remaining)

/-- Whether a walk succeeded. -/
def Outcome.isOk : Outcome α → Bool
  | ok _ _ => true
  | _ => false

/-- A success at a cursor reads what remains there and leaves the cursor behind it. -/
theorem runAt_eq_ok_iff : p.runAt c = .ok v r ↔
    r.text = c.text ∧ c.pos ≤ r.pos ∧ p.Reads c.remaining v r.remaining := by
  have hc := c.pos_le
  have hr := r.pos_le
  rw [runAt, Outcome.ofReply_eq_ok_iff]
  constructor
  · rintro ⟨n, hrun, hmove⟩
    obtain ⟨htext, hpos⟩ := Cursor.place_eq_ok_iff.mp hmove
    have hn : n ≤ c.remaining.length := by
      rw [c.length_remaining]
      rw [htext] at hr
      omega
    exact ⟨htext, by omega, Cursor.remaining_of_advance hmove ▸ reads_of_run hrun hn⟩
  · rintro ⟨htext, hle, t, hs, hrun⟩
    refine ⟨t.length, hrun, Cursor.place_eq_ok_iff.mpr ⟨htext, ?_⟩⟩
    have hl := congrArg List.length hs
    rw [List.length_append, c.length_remaining, r.length_remaining, htext] at hl
    rw [htext] at hr
    omega

/-- A failure at a cursor is a failure on what remains there. -/
theorem runAt_eq_fail_iff : p.runAt c = .fail ↔ p.run c.remaining = .fail := by
  rw [runAt]
  cases p.run c.remaining with
  | ok v n =>
    simp only [Outcome.ofReply, reduceCtorEq, iff_false]
    cases c.advance n <;> simp [Outcome.moved]
  | _ => simp [Outcome.ofReply]

/-- A fault at a cursor is a fault on what remains there. -/
theorem runAt_eq_fault_iff {why : Fault} :
    p.runAt c = .fault why ↔ p.run c.remaining = .fault why :=
  Outcome.ofReply_eq_fault_iff

/-- A move over the front of what remains leads to what stands behind it. -/
theorem exists_advance_of_append {t s : List Char} (h : c.remaining = t ++ s) :
    ∃ r, c.advance t.length = .ok r ∧ r.text = c.text ∧ r.pos = c.pos + t.length ∧
      r.remaining = s := by
  obtain ⟨r, hmove, htext, hpos, hrest⟩ := exists_advance (c := c) (n := t.length) (by rw [h]; simp)
  exact ⟨r, hmove, htext, hpos, by rw [hrest, h, List.drop_left]⟩

/-- What is read behind a cursor leaves a cursor of the same text. -/
theorem Reads.exists_runAt {s : List Char} (h : p.Reads c.remaining v s) :
    ∃ r, p.runAt c = .ok v r ∧ r.remaining = s := by
  obtain ⟨t, hs, hrun⟩ := h
  obtain ⟨r, hmove, -, -, hrest⟩ := exists_advance_of_append hs
  exact ⟨r, Outcome.ofReply_eq_ok_iff.mpr ⟨_, hrun, hmove⟩, hrest⟩

/-- Equal runs on what remains are equal runs at the cursor. -/
theorem runAt_congr (h : p.run c.remaining = q.run c.remaining) : p.runAt c = q.runAt c :=
  congrArg (Outcome.ofReply c) h

/-- Nothing is read without moving. -/
theorem runAt_pure (shown : String) (v : α) (c : Cursor) : (pure shown v).runAt c = .ok v c := by
  rw [runAt, pure, Outcome.ofReply, Int.ofNat_zero, Cursor.advance_zero, Outcome.moved]

/-! ## Composed parsers -/

/-- A changed value is the change of a value. -/
theorem Outcome.map_eq_ok_iff {f : α → β} {o : Outcome α} {w : β} :
    o.map f = .ok w r ↔ ∃ v, o = .ok v r ∧ f v = w := by
  cases o with
  | ok v rest =>
    simp only [Outcome.map, Outcome.ok.injEq]
    constructor
    · rintro ⟨rfl, rfl⟩
      exact ⟨v, ⟨rfl, rfl⟩, rfl⟩
    · rintro ⟨_, ⟨rfl, rfl⟩, rfl⟩
      exact ⟨rfl, rfl⟩
  | _ => simp [Outcome.map]

/-- Values are changed wherever they are read. -/
theorem runAt_map (p : Parser α) (f : α → β) (c : Cursor) :
    (p.map f).runAt c = (p.runAt c).map f := by
  rw [runAt, run_map, Outcome.ofReply_map, runAt]

/-- Behind its first value, a sequence goes on as its second part. -/
theorem runAt_bindAs {b : Bool} {f : α → Parser β} (h : p.runAt c = .ok v r) :
    (bindAs b p f).runAt c = (f v).runAt r := by
  obtain ⟨n, hrun, hmove⟩ := Outcome.ofReply_eq_ok_iff.mp h
  rw [runAt, bindAs]
  dsimp only
  rw [hrun, Reply.andThen, Outcome.ofReply_shift hmove, ← Cursor.remaining_of_advance hmove, runAt]

/-- A sequence succeeds where one part follows the other. -/
theorem runAt_bindAs_eq_ok_iff {b : Bool} {f : α → Parser β} {w : β} :
    (bindAs b p f).runAt c = .ok w r ↔ ∃ v m, p.runAt c = .ok v m ∧ (f v).runAt m = .ok w r := by
  constructor
  · intro h
    obtain ⟨-, -, hread⟩ := runAt_eq_ok_iff.mp h
    obtain ⟨v, s, hp, -⟩ := reads_bindAs_iff.mp hread
    obtain ⟨m, hm, -⟩ := hp.exists_runAt
    exact ⟨v, m, hm, (runAt_bindAs hm).symm.trans h⟩
  · rintro ⟨v, m, hm, hw⟩
    exact (runAt_bindAs hm).trans hw

/-- A sequence whose first value is dropped succeeds where one part follows the other. -/
theorem runAt_andThen_eq_ok_iff {q : Parser β} {w : β} : (p.andThen q).runAt c = .ok w r ↔
    ∃ v m, p.runAt c = .ok v m ∧ q.runAt m = .ok w r :=
  runAt_bindAs_eq_ok_iff

/-- The second alternative begins where the first one failed. -/
theorem runAt_orElse_of_fail (h : p.runAt c = .fail) : (p.orElse q).runAt c = q.runAt c := by
  apply runAt_congr
  rw [run_orElse, runAt_eq_fail_iff.mp h, Reply.orElse]

/-- The second alternative is not tried where the first one does not fail. -/
theorem runAt_orElse_of_ne_fail (h : p.runAt c ≠ .fail) : (p.orElse q).runAt c = p.runAt c := by
  apply runAt_congr
  rw [run_orElse]
  cases hrun : p.run c.remaining with
  | fail => exact absurd (runAt_eq_fail_iff.mpr hrun) h
  | _ => rfl

/-- A failing choice is one of failing alternatives. -/
theorem runAt_choice_eq_fail_iff {ps : List (Parser α)} :
    (choice ps).runAt c = .fail ↔ ∀ p ∈ ps, p.runAt c = .fail := by
  simp only [runAt_eq_fail_iff]
  induction ps with
  | nil => exact iff_of_true rfl (List.forall_mem_nil _)
  | cons p ps ih => rw [run_choice_cons, Reply.orElse_eq_fail_iff, ih, List.forall_mem_cons]

/-- The first alternative that does not fail decides a choice. -/
theorem runAt_choice_eq_ok_iff {ps : List (Parser α)} : (choice ps).runAt c = .ok v r ↔
    ∃ before p after, ps = before ++ p :: after ∧ (∀ q ∈ before, q.runAt c = .fail) ∧
      p.runAt c = .ok v r := by
  induction ps with
  | nil =>
    refine iff_of_false nofun ?_
    rintro ⟨before, p, after, h, -⟩
    exact List.append_ne_nil_of_right_ne_nil before (List.cons_ne_nil p after) h.symm
  | cons q ps ih =>
    have hcons : (choice (q :: ps)).runAt c = (q.orElse (choice ps)).runAt c :=
      runAt_congr (run_choice_cons q ps _)
    rw [hcons]
    constructor
    · intro h
      by_cases hq : q.runAt c = .fail
      · rw [runAt_orElse_of_fail hq] at h
        obtain ⟨before, p, after, rfl, hbefore, hp⟩ := ih.mp h
        exact ⟨q :: before, p, after, rfl, List.forall_mem_cons.mpr ⟨hq, hbefore⟩, hp⟩
      · rw [runAt_orElse_of_ne_fail hq] at h
        exact ⟨[], q, ps, rfl, List.forall_mem_nil _, h⟩
    · rintro ⟨before, p, after, hps, hbefore, hp⟩
      cases before with
      | nil =>
        obtain ⟨rfl, -⟩ := List.cons.inj hps
        rwa [runAt_orElse_of_ne_fail (by rw [hp]; exact nofun)]
      | cons q' before =>
        obtain ⟨rfl, rfl⟩ := List.cons.inj hps
        obtain ⟨hq, hbefore⟩ := List.forall_mem_cons.mp hbefore
        rw [runAt_orElse_of_fail hq]
        exact ih.mpr ⟨before, p, after, rfl, hbefore, hp⟩

end Parser
end WhileSyntax
