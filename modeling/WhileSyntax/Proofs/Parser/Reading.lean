import WhileSyntax.Parser.Repetition

/-!
# Reading

What a successful run does to a text: `p.Reads s v r` says that `p` reads the value `v` off the
front of `s` and leaves `r`. Readings of composed parsers follow from those of their parts, one
equivalence for each way of composing. A choice is settled by the alternatives that do not fail, and
a repetition reads the values of a chain of readings up to the text on which its parser fails
(`reads_star_iff`).
-/

namespace WhileSyntax.Parser

variable {α β : Type} {p : Parser α} {q : Parser β} {s m r : List Char} {v : α} {w : β}

/-- A value is read off the front of `s`, and `r` is left. -/
def Reads (p : Parser α) (s : List Char) (v : α) (r : List Char) : Prop :=
  ∃ t, s = t ++ r ∧ p.run s = .ok v t.length

namespace Reads

/-- One value is read and one rest is left. -/
theorem unique {v' : α} {r' : List Char} (h : p.Reads s v r) (h' : p.Reads s v' r') :
    v = v' ∧ r = r' := by
  obtain ⟨t, hs, hr⟩ := h
  obtain ⟨t', hs', hr'⟩ := h'
  rw [hr, Reply.ok.injEq] at hr'
  exact ⟨hr'.1, (List.append_inj (hs.symm.trans hs') hr'.2).2⟩

/-- The run of a reading does not fail. -/
theorem ne_fail (h : p.Reads s v r) : p.run s ≠ .fail := by
  obtain ⟨t, -, hr⟩ := h
  rw [hr]
  exact nofun

/-- Equal readings come from equal runs. -/
theorem run_eq {p' : Parser α} (h : p.Reads s v r) (h' : p'.Reads s v r) : p.run s = p'.run s := by
  obtain ⟨t, hs, hr⟩ := h
  obtain ⟨t', hs', hr'⟩ := h'
  rw [hr, hr', List.append_cancel_right (hs.symm.trans hs')]

/-- What is read is not longer than the text. -/
theorem length_le (h : p.Reads s v r) : r.length ≤ s.length := by
  obtain ⟨t, hs, -⟩ := h
  rw [hs, List.length_append]
  omega

/-- What is left is the end of the text. -/
theorem suffix (h : p.Reads s v r) : r <:+ s := by
  obtain ⟨t, hs, -⟩ := h
  exact ⟨t, hs.symm⟩

/-- Equal runs read alike. -/
theorem of_run_eq {p' : Parser α} (he : p'.run s = p.run s) (h : p.Reads s v r) :
    p'.Reads s v r := by
  obtain ⟨t, hs, hr⟩ := h
  exact ⟨t, hs, he.trans hr⟩

end Reads

/-- A success within the text is a reading. -/
theorem reads_of_run {n : Nat} (h : p.run s = .ok v n) (hn : n ≤ s.length) :
    p.Reads s v (s.drop n) :=
  ⟨s.take n, (List.take_append_drop n s).symm, by rw [h, List.length_take, Nat.min_eq_left hn]⟩

/-- A parser that reads something wherever it does not fail. -/
def Definite (p : Parser α) : Prop := ∀ s, p.run s = .fail ∨ ∃ v r, p.Reads s v r

/-- Where such a parser reads nothing, it fails. -/
theorem Definite.run_eq_fail (hp : p.Definite) (h : ∀ v r, ¬p.Reads s v r) : p.run s = .fail := by
  rcases hp s with hf | ⟨v, r, hr⟩
  · exact hf
  · exact absurd hr (h v r)

/-! ## Sequence and change -/

/-- The rest of a sequence runs on what its first part left. -/
theorem run_bindAs_of_reads {c : Bool} {f : α → Parser β} (h : p.Reads s v r) :
    (bindAs c p f).run s = ((f v).run r).shift (s.length - r.length) := by
  obtain ⟨t, rfl, hr⟩ := h
  simp only [bindAs, hr, Reply.andThen, List.drop_left, List.length_append,
    Nat.add_sub_cancel_right]

/-- A sequence fails with its first part. -/
theorem run_bindAs_eq_fail {c : Bool} {f : α → Parser β} (h : p.run s = .fail) :
    (bindAs c p f).run s = .fail := by
  simp only [bindAs, h, Reply.andThen]

/-- A sequence chosen by a value fails where there is none. -/
theorem run_bind_eq_fail {f : α → Parser β} (h : p.run s = .fail) : (p.bind f).run s = .fail :=
  run_bindAs_eq_fail h

/-- A sequence reads with one part after the other. -/
theorem reads_bindAs_iff {c : Bool} {f : α → Parser β} :
    (bindAs c p f).Reads s w r ↔ ∃ v m, p.Reads s v m ∧ (f v).Reads m w r := by
  constructor
  · rintro ⟨t, hs, hr⟩
    obtain ⟨v, i, j, hp, hf, hn⟩ := run_bindAs_eq_ok_iff.mp hr
    have hl : i ≤ s.length := by
      rw [hs, List.length_append]
      omega
    refine ⟨v, s.drop i, reads_of_run hp hl, t.drop i, ?_, ?_⟩
    · rw [hs, List.drop_append_of_le_length (by omega)]
    · rw [hf, List.length_drop]
      congr 1
      omega
  · rintro ⟨v, m, ⟨t, hs, hp⟩, t', hm, hf⟩
    refine ⟨t ++ t', by rw [hs, hm, List.append_assoc], ?_⟩
    refine run_bindAs_eq_ok_iff.mpr ⟨v, t.length, t'.length, hp, ?_, List.length_append⟩
    rw [hs, List.drop_left]
    exact hf

/-- A sequence whose later part is chosen by the value of the first. -/
theorem reads_bind_iff {f : α → Parser β} :
    (p.bind f).Reads s w r ↔ ∃ v m, p.Reads s v m ∧ (f v).Reads m w r :=
  reads_bindAs_iff

/-- A sequence whose first value is dropped. -/
theorem reads_andThen_iff : (p.andThen q).Reads s w r ↔ ∃ v m, p.Reads s v m ∧ q.Reads m w r :=
  reads_bindAs_iff

/-- Values are changed after they are read. -/
theorem reads_map_iff {f : α → β} : (p.map f).Reads s w r ↔ ∃ v, p.Reads s v r ∧ f v = w := by
  constructor
  · rintro ⟨t, hs, hr⟩
    obtain ⟨v, hv, hw⟩ := Reply.map_eq_ok_iff.mp hr
    exact ⟨v, ⟨t, hs, hv⟩, hw⟩
  · rintro ⟨v, ⟨t, hs, hr⟩, hw⟩
    exact ⟨t, hs, Reply.map_eq_ok_iff.mpr ⟨v, hr, hw⟩⟩

/-- A sequence whose second value is dropped. -/
theorem reads_skip_iff : (p.skip q).Reads s v r ↔ ∃ m w, p.Reads s v m ∧ q.Reads m w r := by
  apply reads_bindAs_iff.trans
  constructor
  · rintro ⟨v', m, hp, hq⟩
    obtain ⟨w, hw, rfl⟩ := reads_map_iff.mp hq
    exact ⟨m, w, hp, hw⟩
  · rintro ⟨m, w, hp, hq⟩
    exact ⟨v, m, hp, reads_map_iff.mpr ⟨w, hq, rfl⟩⟩

/-- Names do not matter to a reading. -/
theorem reads_named_iff {name : String} : (p.named name).Reads s v r ↔ p.Reads s v r := Iff.rfl

/-- A filtered parser reads the values that pass. -/
theorem reads_filter_iff {test : α → Bool} :
    (p.filter test).Reads s v r ↔ p.Reads s v r ∧ test v = true := by
  simp only [Reads, run_filter_eq_ok_iff]
  constructor
  · rintro ⟨t, hs, hr, hv⟩
    exact ⟨⟨t, hs, hr⟩, hv⟩
  · rintro ⟨⟨t, hs, hr⟩, hv⟩
    exact ⟨t, hs, hr, hv⟩

/-- Filtering leaves a parser definite. -/
theorem Definite.filter (hp : p.Definite) (test : α → Bool) : (p.filter test).Definite := by
  intro s
  rcases hp s with hf | ⟨v, r, hr⟩
  · exact .inl (by simp only [Parser.filter, hf])
  · by_cases hv : test v = true
    · exact .inr ⟨v, r, reads_filter_iff.mpr ⟨hr, hv⟩⟩
    · obtain ⟨t, -, ht⟩ := hr
      exact .inl (by simp only [Parser.filter, ht, hv, if_false, Bool.false_eq_true])

/-- Values that may be refused are read when they are accepted. -/
theorem reads_tryMap_iff {f : α → Except Fault β} :
    (p.tryMap f).Reads s w r ↔ ∃ v, p.Reads s v r ∧ f v = .ok w := by
  simp only [Reads, tryMap, Reply.andThen_eq_ok_iff]
  constructor
  · rintro ⟨t, hs, v, i, j, hv, hw, hn⟩
    split at hw
    · next hf =>
      cases hw
      exact ⟨v, ⟨t, hs, hn ▸ hv⟩, hf⟩
    · cases hw
  · rintro ⟨v, ⟨t, hs, hr⟩, hf⟩
    exact ⟨t, hs, v, t.length, 0, hr, by simp only [hf], rfl⟩

/-- A failing parser fails with every change of its values. -/
theorem run_map_eq_fail {f : α → β} (h : p.run s = .fail) : (p.map f).run s = .fail := by
  rw [run_map, h]
  rfl

/-- A failing parser has no value to refuse. -/
theorem run_tryMap_eq_fail {f : α → Except Fault β} (h : p.run s = .fail) :
    (p.tryMap f).run s = .fail := by
  simp only [tryMap, h, Reply.andThen]

/-! ## Alternatives -/

/-- The second alternative is read only after the first one failed. -/
theorem reads_orElse_iff {p q : Parser α} :
    (p.orElse q).Reads s v r ↔ p.Reads s v r ∨ p.run s = .fail ∧ q.Reads s v r := by
  simp only [Reads, run_orElse, Reply.orElse_eq_ok_iff]
  constructor
  · rintro ⟨t, hs, hp | hq⟩
    · exact .inl ⟨t, hs, hp⟩
    · exact .inr ⟨hq.1, t, hs, hq.2⟩
  · rintro (⟨t, hs, hp⟩ | ⟨hf, t, hs, hq⟩)
    · exact ⟨t, hs, .inl hp⟩
    · exact ⟨t, hs, .inr ⟨hf, hq⟩⟩

/-- A choice tries its first parser before the others. -/
theorem run_choice_cons (p : Parser α) (ps : List (Parser α)) (s : List Char) :
    (choice (p :: ps)).run s = (p.run s).orElse fun _ ↦ (choice ps).run s := by
  induction ps generalizing p with
  | nil => cases h : p.run s <;> simp [choice, h, Reply.orElse, fail]
  | cons q ps ih =>
    have hc : choice (p :: q :: ps) = choice (p.orElse q :: ps) := rfl
    rw [hc, ih, ih, run_orElse]
    cases p.run s <;> rfl

/-- A choice without an alternative that reads anything fails. -/
theorem run_choice_eq_fail {ps : List (Parser α)} (h : ∀ q ∈ ps, q.run s = .fail) :
    (choice ps).run s = .fail := by
  induction ps with
  | nil => rfl
  | cons q ps ih =>
    rw [run_choice_cons, h q List.mem_cons_self]
    exact ih fun q' hq ↦ h q' (List.mem_cons_of_mem _ hq)

/-- Where all other alternatives fail or agree with one of them, that one decides a choice. -/
theorem run_choice_eq {p : Parser α} {ps : List (Parser α)} (hp : p ∈ ps)
    (h : ∀ q ∈ ps, q.run s = p.run s ∨ q.run s = .fail) : (choice ps).run s = p.run s := by
  induction ps with
  | nil => exact absurd hp List.not_mem_nil
  | cons q ps ih =>
    have ht : ∀ q' ∈ ps, q'.run s = p.run s ∨ q'.run s = .fail :=
      fun q' hq ↦ h q' (List.mem_cons_of_mem _ hq)
    rw [run_choice_cons]
    rcases h q List.mem_cons_self with hq | hq
    · rw [hq]
      cases hr : p.run s with
      | fail =>
        apply run_choice_eq_fail
        intro q' hq'
        rcases ht q' hq' with h' | h'
        · rw [h', hr]
        · exact h'
      | _ => rfl
    · rw [hq]
      rcases List.mem_cons.mp hp with rfl | hm
      · rw [hq]
        apply run_choice_eq_fail
        intro q' hq'
        rcases ht q' hq' with h' | h'
        · rw [h', hq]
        · exact h'
      · exact ih hm ht

/-- What a choice reads is read by one of its alternatives. -/
theorem exists_reads_of_choice {ps : List (Parser α)} (h : (choice ps).Reads s v r) :
    ∃ p ∈ ps, p.Reads s v r := by
  induction ps with
  | nil =>
    obtain ⟨t, -, hr⟩ := h
    cases hr
  | cons q ps ih =>
    obtain ⟨t, hs, hr⟩ := h
    rw [run_choice_cons, Reply.orElse_eq_ok_iff] at hr
    rcases hr with hq | ⟨-, hc⟩
    · exact ⟨q, List.mem_cons_self, t, hs, hq⟩
    · obtain ⟨p, hp, hr⟩ := ih ⟨t, hs, hc⟩
      exact ⟨p, List.mem_cons_of_mem _ hp, hr⟩

/-- A choice promises what all of its alternatives promise. -/
theorem consumes_choice {ps : List (Parser α)} (h : ∀ p ∈ ps, p.consumes = true) :
    (choice ps).consumes = true := by
  cases ps with
  | nil => rfl
  | cons p ps =>
    have hp := h p List.mem_cons_self
    have ht : ∀ q ∈ ps, q.consumes = true := fun q hq ↦ h q (List.mem_cons_of_mem _ hq)
    clear h
    induction ps generalizing p with
    | nil => exact hp
    | cons q ps ih =>
      refine ih (p.orElse q) ?_ fun q' hq ↦ ht q' (List.mem_cons_of_mem _ hq)
      rw [orElse, hp, ht q List.mem_cons_self]
      rfl

/-! ## Repetition -/

/-- Readings one after the other, each of which shortens the text, from `s` to the rest. -/
inductive Chain (p : Parser α) : (s : List Char) → List α → (rest : List Char) → Prop where
  | nil (s : List Char) : Chain p s [] s
  | cons {s m r : List Char} {v : α} {vs : List α} :
      p.Reads s v m → m.length < s.length → Chain p m vs r → Chain p s (v :: vs) r

/-- One more reading stands behind a chain. -/
theorem Chain.snoc {vs : List α} (h : Chain p s vs m) (hp : p.Reads m v r)
    (hlt : r.length < m.length) : Chain p s (vs ++ [v]) r := by
  induction h with
  | nil s => exact .cons hp hlt (.nil r)
  | cons hp' hlt' _ ih => exact .cons hp' hlt' (ih hp hlt)

/-- The last reading of a chain stands behind the others. -/
theorem Chain.of_snoc {vs : List α} (h : Chain p s (vs ++ [v]) r) :
    ∃ m, Chain p s vs m ∧ p.Reads m v r := by
  induction vs generalizing s with
  | nil =>
    cases h with
    | cons hp _ hrest =>
      cases hrest
      exact ⟨s, .nil s, hp⟩
  | cons w vs ih =>
    cases h with
    | cons hp hlt hrest =>
      obtain ⟨m, hc, hv⟩ := ih hrest
      exact ⟨m, .cons hp hlt hc, hv⟩

/-- What a chain leaves is the end of the text. -/
theorem Chain.suffix {vs : List α} (h : Chain p s vs r) : r <:+ s := by
  induction h with
  | nil s => exact List.suffix_rfl
  | cons hp _ _ ih => exact ih.trans hp.suffix

private theorem rounds_of_chain {vs : List α} (h : Chain p s vs r) (hf : p.run r = .fail)
    (room : List Char) (hl : s.length ≤ room.length) :
    ∃ t, s = t ++ r ∧ rounds p room s = .ok vs t.length := by
  induction h generalizing room with
  | nil s =>
    refine ⟨[], rfl, ?_⟩
    cases room <;> simp only [rounds, hf, List.length_nil]
  | cons hp hlt _ ih =>
    cases room with
    | nil => exact absurd hl (by simp only [List.length_nil]; omega)
    | cons c room =>
      obtain ⟨t, rfl, hr⟩ := hp
      simp only [List.length_append] at hlt
      simp only [List.length_append, List.length_cons] at hl
      obtain ⟨t', hm, hrest⟩ := ih hf room (by omega)
      obtain ⟨k, hk⟩ : ∃ k, t.length = k + 1 := ⟨t.length - 1, by omega⟩
      refine ⟨t ++ t', by rw [hm, List.append_assoc], ?_⟩
      simp only [rounds, hr, hk]
      rw [← hk, List.drop_left, hrest]
      simp only [Reply.map, Reply.shift, List.length_append]

private theorem chain_of_rounds {vs : List α} {t : List Char} (room : List Char)
    (h : rounds p room (t ++ r) = .ok vs t.length) : Chain p (t ++ r) vs r ∧ p.run r = .fail := by
  induction room generalizing t vs with
  | nil =>
    rw [rounds] at h
    split at h
    · cases h
    · next hp =>
      obtain ⟨rfl, ht⟩ := Reply.ok.inj h
      obtain rfl := List.length_eq_zero_iff.mp ht.symm
      exact ⟨.nil r, hp⟩
    · cases h
    · cases h
  | cons c room ih =>
    rw [rounds] at h
    split at h
    · cases h
    · next v n hp =>
      obtain ⟨j, hj, hn⟩ := Reply.shift_eq_ok_iff.mp h
      obtain ⟨vs', hvs, rfl⟩ := Reply.map_eq_ok_iff.mp hj
      have hread := reads_of_run hp (by rw [List.length_append]; omega)
      rw [List.drop_append_of_le_length (by omega)] at hvs hread
      have hjl : j = (t.drop (n + 1)).length := by rw [List.length_drop]; omega
      rw [hjl] at hvs
      obtain ⟨hc, hf⟩ := ih hvs
      refine ⟨.cons hread ?_ hc, hf⟩
      simp only [List.length_append, List.length_drop]
      omega
    · next hp =>
      obtain ⟨rfl, ht⟩ := Reply.ok.inj h
      obtain rfl := List.length_eq_zero_iff.mp ht.symm
      exact ⟨.nil r, hp⟩
    · cases h
    · cases h

/-- A repetition reads the values of a chain, up to the text on which its parser fails. -/
theorem reads_star_iff {vs : List α} :
    (star p).Reads s vs r ↔ Chain p s vs r ∧ p.run r = .fail := by
  constructor
  · rintro ⟨t, rfl, hr⟩
    exact chain_of_rounds _ hr
  · rintro ⟨hc, hf⟩
    exact rounds_of_chain hc hf s (Nat.le_refl _)

/-- The repetition of a parser that promises to use something. -/
theorem reads_many_iff {vs : List α} (hp : p.consumes = true) :
    (many p).Reads s vs r ↔ Chain p s vs r ∧ p.run r = .fail := by
  rw [many_of_consumes hp, reads_star_iff]

end WhileSyntax.Parser
