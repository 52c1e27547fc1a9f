import WhileSyntax.Proofs.Parser.Rounds

/-!
# Repetition at cursors

A repetition moves a cursor on by one run of its parser after the other, as far as they go. What it
comes to is therefore told by chains of runs at cursors (`Steps`), which are those of the walk that
the parser makes: it returns the values of a chain up to a cursor where its parser fails, or it
raises an error at a cursor where its parser succeeds without moving (`Quiet.many_settles`). Here
runs may also claim to have used more than there is.

Lists with separators and tiers of operators read a first value and then such a chain. The round in
which the first value is read is not watched over, so it may be one that does not move.
-/

namespace WhileSyntax.Parser

open Source (Cursor)

variable {α β γ : Type} {p : Parser α} {c m r : Cursor} {v : α} {vs : List α}

/-- Successful runs one after the other, each of which moves the cursor on. -/
abbrev Steps (p : Parser α) : Cursor → List α → Cursor → Prop :=
  p.runAt.Steps

/-- A chain of runs as long as can be: its parser fails behind it. -/
abbrev Exhausts (p : Parser α) : Cursor → List α → Cursor → Prop :=
  p.runAt.Exhausts

/-- A chain of runs leads to a success that does not move the cursor on. -/
abbrev Stalls (p : Parser α) : Cursor → Prop :=
  p.runAt.Stalls

/-- Wherever chains of runs lead from a cursor, a run raises no error. -/
abbrev Quiet (p : Parser α) : Cursor → Prop :=
  p.runAt.Quiet

/-! ## Chains of runs -/

/-- Chains of runs at cursors are chains of readings of what remains there. -/
theorem steps_iff_chain : p.Steps c vs r ↔
    r.text = c.text ∧ c.pos ≤ r.pos ∧ Chain p c.remaining vs r.remaining := by
  constructor
  · intro h
    induction h with
    | nil c => exact ⟨rfl, Nat.le_refl _, .nil _⟩
    | @cons c m r v vs hp hlt _ ih =>
      obtain ⟨htext, -, hread⟩ := runAt_eq_ok_iff.mp hp
      obtain ⟨htext', hle, hc⟩ := ih
      refine ⟨htext'.trans htext, by omega, .cons hread ?_ hc⟩
      have hm := m.pos_le
      rw [m.length_remaining, c.length_remaining, htext]
      rw [htext] at hm
      omega
  · rintro ⟨htext, hle, hc⟩
    generalize hs : c.remaining = s at hc
    generalize hs' : r.remaining = s' at hc
    induction hc generalizing c with
    | nil s =>
      obtain rfl := Cursor.eq_of_remaining htext (hs'.trans hs.symm)
      exact .nil r
    | @cons s t s' v vs hread hlt hrest ih =>
      subst hs
      obtain ⟨m, hm, rfl⟩ := hread.exists_runAt
      obtain ⟨htext', hle', -⟩ := runAt_eq_ok_iff.mp hm
      have hback : r.remaining.length ≤ m.remaining.length := hs' ▸ hrest.suffix.length_le
      have hmpos := m.pos_le
      have hrpos := r.pos_le
      rw [m.length_remaining, c.length_remaining, htext'] at hlt
      rw [m.length_remaining, r.length_remaining, htext, htext'] at hback
      rw [htext] at hrpos
      rw [htext'] at hmpos
      exact .cons hm (by omega) (ih (htext.trans htext'.symm) (by omega) rfl hs')

/-- Parsers that are definite never raise an error. -/
theorem Definite.quiet (hp : p.Definite) (c : Cursor) : p.Quiet c := by
  intro vs m _
  rcases hp m.remaining with hf | ⟨v, s, hread⟩
  · exact .inl (runAt_eq_fail_iff.mpr hf)
  · obtain ⟨r, hr, -⟩ := hread.exists_runAt
    exact .inr ⟨v, r, hr⟩

/-! ## Repetition -/

/-- A repetition returns the values of a chain of runs that is as long as can be. -/
theorem runAt_many_eq_ok_iff (hc : p.consumes = true) :
    (many p).runAt c = .ok vs r ↔ p.Exhausts c vs r := by
  refine Iff.trans ?_ (and_congr steps_iff_chain runAt_eq_fail_iff).symm
  rw [runAt_eq_ok_iff, reads_many_iff hc, and_assoc, and_assoc]

/-- A repetition never fails. -/
theorem runAt_many_ne_fail (hc : p.consumes = true) (c : Cursor) : (many p).runAt c ≠ .fail := by
  rw [Ne, runAt_eq_fail_iff, many_of_consumes hc]
  exact run_star_ne_fail p c.remaining

private theorem rounds_of_stalls (hc : p.Steps c vs m) (hm : p.runAt m = .ok v r)
    (hle : r.pos ≤ m.pos) (room : List Char) (hroom : c.remaining.length ≤ room.length) :
    rounds p room c.remaining = .fault (.didNotAdvance p.describe) := by
  induction hc generalizing room with
  | nil c =>
    obtain ⟨n, hrun, hmove⟩ := Outcome.ofReply_eq_ok_iff.mp hm
    obtain ⟨-, hpos⟩ := Cursor.place_eq_ok_iff.mp hmove
    obtain rfl : n = 0 := by omega
    cases room <;> simp only [rounds, hrun]
  | @cons c k _ w ws hw hlt _ ih =>
    obtain ⟨n, hrun, hmove⟩ := Outcome.ofReply_eq_ok_iff.mp hw
    obtain ⟨htext, hpos⟩ := Cursor.place_eq_ok_iff.mp hmove
    have hk := k.pos_le
    obtain ⟨n, rfl⟩ : ∃ n', n = n' + 1 := ⟨n - 1, by omega⟩
    rw [htext] at hk
    rw [c.length_remaining] at hroom
    cases room with
    | nil =>
      rw [List.length_nil] at hroom
      omega
    | cons _ room =>
      rw [List.length_cons] at hroom
      have hrest := ih hm hle room (by rw [k.length_remaining, htext]; omega)
      simp only [rounds, hrun]
      rw [← Cursor.remaining_of_advance hmove, hrest]
      rfl

private theorem runAt_many_of_stalls (hc : p.consumes = true) (h : p.Stalls c) :
    (many p).runAt c = .fault (.didNotAdvance p.describe) := by
  obtain ⟨vs, m, v, r, hsteps, hm, hle⟩ := h
  rw [runAt_eq_fault_iff, many_of_consumes hc]
  exact rounds_of_stalls hsteps hm hle _ (Nat.le_refl _)

/-- A repetition of quiet runs returns a chain of values, or raises an error where it stalls. -/
theorem Quiet.many_settles (hq : p.Quiet c) (hc : p.consumes = true) :
    (∃ vs r, p.Exhausts c vs r ∧ (many p).runAt c = .ok vs r) ∨
      p.Stalls c ∧ (many p).runAt c = .fault (.didNotAdvance p.describe) := by
  rcases hq.exhausts_or_stalls (keeps_runAt p) with ⟨vs, r, h⟩ | h
  · exact .inl ⟨vs, r, h, (runAt_many_eq_ok_iff hc).mpr h⟩
  · exact .inr ⟨h, runAt_many_of_stalls hc h⟩

/-- A repetition of quiet runs raises an error exactly where it stalls. -/
theorem Quiet.runAt_many_eq_fault_iff (hq : p.Quiet c) (hc : p.consumes = true) :
    (many p).runAt c = .fault (.didNotAdvance p.describe) ↔ p.Stalls c := by
  refine ⟨fun h ↦ ?_, runAt_many_of_stalls hc⟩
  rcases hq.many_settles hc with ⟨vs, r, -, hr⟩ | ⟨hs, -⟩
  · cases hr.symm.trans h
  · exact hs

/-- Whatever its runs raise, one or more values, or none at all, are zero or more values. -/
theorem run_many1_orElse (hp : p.Bounded) (hc : p.consumes = true) (shown : String)
    (s : List Char) : ((many1 p).orElse (pure shown [])).run s = (many p).run s := by
  have hstar := run_star hp s
  rw [run_orElse, many1, run_bind, many_of_consumes hc]
  cases hr : p.run s with
  | ok v n =>
    rw [hr] at hstar
    cases n with
    | zero =>
      simp only [Reply.andThen, List.drop_zero, run_map, hstar, Reply.map, Reply.shift,
        Reply.orElse]
    | succ n =>
      rw [hstar]
      simp only [Reply.andThen, run_map]
      have hne := run_star_ne_fail p (s.drop (n + 1))
      cases hrest : (star p).run (s.drop (n + 1)) with
      | fail => exact absurd hrest hne
      | _ => rfl
  | _ =>
    rw [hr] at hstar
    rw [hstar]
    rfl

/-! ## A first value and its repetitions -/

/-- What `whole` reads is a value of `first` and then, as far as they go, values of `more`. -/
structure Continues (whole : Parser γ) (first : Parser α) (more : Parser β)
    (join : α → List β → γ) : Prop where
  /-- it fails exactly where there is no first value -/
  fail_iff : ∀ c, whole.runAt c = .fail ↔ first.runAt c = .fail
  /-- it returns what the first value makes with a chain that is as long as can be -/
  ok_iff : ∀ c w r, whole.runAt c = .ok w r ↔
    ∃ v m us, first.runAt c = .ok v m ∧ more.Exhausts m us r ∧ join v us = w
  /-- behind a first value, quiet runs lead to such a chain or to the fault of one that stalls -/
  settles : ∀ c v m, first.runAt c = .ok v m → more.Quiet m →
    (∃ us r, more.Exhausts m us r ∧ whole.runAt c = .ok (join v us) r) ∨
      more.Stalls m ∧ whole.runAt c = .fault (.didNotAdvance more.describe)

/-- A first value is read, and behind it a repetition. -/
theorem continues_bind_many {first : Parser α} {more : Parser β} (hc : more.consumes = true)
    (join : α → List β → γ) :
    Continues (first.bind fun v ↦ (many more).map (join v)) first more join where
  fail_iff c := by
    rw [runAt_eq_fail_iff, runAt_eq_fail_iff]
    refine ⟨fun h ↦ ?_, run_bind_eq_fail⟩
    rw [run_bind] at h
    cases hr : first.run c.remaining with
    | ok v n =>
      rw [hr] at h
      have hmany := Reply.map_eq_fail_iff.mp (Reply.shift_eq_fail_iff.mp h)
      rw [many_of_consumes hc] at hmany
      exact absurd hmany (run_star_ne_fail more _)
    | fail => rfl
    | _ =>
      rw [hr] at h
      cases h
  ok_iff c w r := by
    refine runAt_bindAs_eq_ok_iff.trans ?_
    simp only [runAt_map, Outcome.map_eq_ok_iff, runAt_many_eq_ok_iff hc, exists_and_left]
  settles c v m hm hq := by
    have hrest : (first.bind fun v ↦ (many more).map (join v)).runAt c =
        ((many more).runAt m).map (join v) := (runAt_bindAs hm).trans (runAt_map _ _ _)
    rw [hrest]
    rcases hq.many_settles hc with ⟨us, r, hu, hmany⟩ | ⟨hs, hmany⟩
    · exact .inl ⟨us, r, hu, by rw [hmany]; rfl⟩
    · exact .inr ⟨hs, by rw [hmany]; rfl⟩

/-- Names do not matter to what is read. -/
theorem Continues.named {whole : Parser γ} {first : Parser α} {more : Parser β}
    {join : α → List β → γ} (h : Continues whole first more join) (name : String) :
    Continues (whole.named name) first more join :=
  ⟨h.fail_iff, h.ok_iff, h.settles⟩

/-- Where runs are quiet, one or more values, or none at all, are zero or more values. -/
theorem Quiet.runAt_many1_orElse (hq : p.Quiet c) (hc : p.consumes = true) (shown : String) :
    ((many1 p).orElse (pure shown [])).runAt c = (many p).runAt c := by
  have hmany1 : Continues (many1 p) p p List.cons := continues_bind_many hc List.cons
  rcases hq [] c (.nil c) with hf | ⟨v, m, hm⟩
  · rw [runAt_orElse_of_fail ((hmany1.fail_iff c).mpr hf), runAt_pure,
      (runAt_many_eq_ok_iff hc).mpr ⟨.nil c, hf⟩]
  have hne : (many1 p).runAt c ≠ .fail := fun h ↦ by cases hm.symm.trans ((hmany1.fail_iff c).mp h)
  rw [runAt_orElse_of_ne_fail hne]
  by_cases hlt : c.pos < m.pos
  · rcases hmany1.settles c v m hm (hq.of_step hm hlt) with
      ⟨vs, r, ⟨hsteps, hf⟩, hr⟩ | ⟨⟨vs, k, w, r, hsteps, hk, hle⟩, hr⟩
    · rw [hr, (runAt_many_eq_ok_iff hc).mpr ⟨.cons hm hlt hsteps, hf⟩]
    · rw [hr, runAt_many_of_stalls hc ⟨v :: vs, k, w, r, .cons hm hlt hsteps, hk, hle⟩]
  · -- the first round does not move the cursor, and the second one is caught in its place
    obtain ⟨htext, hle, -⟩ := runAt_eq_ok_iff.mp hm
    obtain rfl := Cursor.ext htext (by omega)
    have hmany := runAt_many_of_stalls hc ⟨[], m, v, m, .nil m, hm, Nat.le_refl _⟩
    rw [hmany, many1, bind, runAt_bindAs hm, runAt_map, hmany]
    rfl

/-! ## Separators -/

section Separators

variable {sep : Parser β}

/-- Values with separators between them are a value and then separators, each with a value. -/
theorem continues_sepBy1 (hc : (sep.andThen p).consumes = true) :
    Continues (sepBy1 p sep) p (sep.andThen p) List.cons :=
  continues_bind_many hc List.cons

/-- A list ends where its last value does. -/
theorem exists_runAt_getLast_of_sepBy1 (hc : (sep.andThen p).consumes = true)
    (h : (sepBy1 p sep).runAt c = .ok vs r) :
    ∃ v k, vs.getLast? = some v ∧ p.runAt k = .ok v r := by
  obtain ⟨v, m, us, hm, ⟨hsteps, -⟩, rfl⟩ := ((continues_sepBy1 hc).ok_iff c vs r).mp h
  rcases List.eq_nil_or_concat us with rfl | ⟨us, u, rfl⟩
  · cases hsteps
    exact ⟨v, c, rfl, hm⟩
  · rw [List.concat_eq_append] at hsteps ⊢
    obtain ⟨k, -, hk⟩ := hsteps.of_snoc
    obtain ⟨x, k', -, hu⟩ := runAt_andThen_eq_ok_iff.mp hk
    exact ⟨u, k', List.getLast?_concat (l := v :: us), hu⟩

/-- No value stands behind a separator that stands behind a list. -/
theorem runAt_eq_fail_of_sepBy1 (hc : (sep.andThen p).consumes = true)
    (h : (sepBy1 p sep).runAt c = .ok vs r) {x : β} {k : Cursor} (hx : sep.runAt r = .ok x k) :
    p.runAt k = .fail := by
  obtain ⟨-, -, -, -, ⟨-, hfail⟩, -⟩ := ((continues_sepBy1 hc).ok_iff c vs r).mp h
  exact (runAt_bindAs hx).symm.trans hfail

end Separators

end WhileSyntax.Parser
