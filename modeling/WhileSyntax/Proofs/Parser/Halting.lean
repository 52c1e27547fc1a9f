import WhileSyntax.Proofs.Parser.Built
import WhileSyntax.Proofs.Parser.Lexeme

/-!
# Halted runs

A run that neither succeeds nor fails is halted: the text nests too deeply, or a fault was met. A
composed parser halts where one of its parts does, on what the parts in front of it left.
Punctuation and words never halt a run, and numbers halt it only by a run of digits beyond the
limit.
-/

namespace WhileSyntax.Parser

open WhileSyntax.Grammar (Stops Token Name Keyword Numeral skipBlank)

variable {α β : Type} {p : Parser α} {q : Parser β} {s m r : List Char} {v : α}

/-- Ways to halt a run. -/
inductive Halt where
  | tooDeep
  | fault (why : Fault)

/-- Reply of a run that is halted. -/
def Halt.reply {α : Type} : Halt → Reply α
  | tooDeep => .tooDeep
  | fault why => .fault why

/-- A run on `s` is halted in a given way. -/
def HaltsWith (p : Parser α) (h : Halt) (s : List Char) : Prop := p.run s = h.reply

/-- A run on `s` is halted. -/
def Halts (p : Parser α) (s : List Char) : Prop := ∃ h, p.HaltsWith h s

/-- A run on `s` meets a fault. -/
def Faults (p : Parser α) (s : List Char) : Prop := ∃ why, p.HaltsWith (.fault why) s

/-- A run on `s` is halted, or succeeds and leaves at most `length` characters. -/
def Reaches (p : Parser α) (s : List Char) (length : Nat) : Prop :=
  p.Halts s ∨ ∃ v r, p.Reads s v r ∧ r.length ≤ length

variable {h : Halt}

namespace Halt

private theorem reply_ne_fail (h : Halt) : h.reply ≠ (.fail : Reply α) := by
  cases h <;> exact nofun

/-- A halted run does not succeed. -/
theorem reply_ne_ok (h : Halt) (v : α) (n : Nat) : h.reply ≠ .ok v n := by
  cases h <;> exact nofun

private theorem map_eq_iff {f : α → β} {x : Reply α} : x.map f = h.reply ↔ x = h.reply := by
  cases x <;> cases h <;> simp [Reply.map, reply]

private theorem shift_eq_iff {x : Reply α} {k : Nat} : x.shift k = h.reply ↔ x = h.reply := by
  cases x <;> cases h <;> simp [Reply.shift, reply]

private theorem andThen_eq_iff {x : Reply α} {next : α → List Char → Reply β} :
    x.andThen s next = h.reply ↔
      x = h.reply ∨ ∃ v n, x = .ok v n ∧ next v (s.drop n) = h.reply := by
  cases x with
  | ok v n =>
    simp only [Reply.andThen, shift_eq_iff, Reply.ok.injEq]
    constructor
    · intro hn
      exact .inr ⟨v, n, ⟨rfl, rfl⟩, hn⟩
    · rintro (hx | ⟨_, _, ⟨rfl, rfl⟩, hn⟩)
      · exact absurd hx.symm (h.reply_ne_ok v n)
      · exact hn
  | _ => cases h <;> simp [Reply.andThen, reply]

/-- A choice is halted in its first part, or in its second part after the first one failed. -/
theorem orElse_eq_iff {x : Reply α} {second : Unit → Reply α} :
    x.orElse second = h.reply ↔ x = h.reply ∨ x = .fail ∧ second () = h.reply := by
  cases x <;> cases h <;> simp [Reply.orElse, reply]

end Halt

/-- Fewer characters left are further. -/
theorem Reaches.mono {l l' : Nat} (hr : p.Reaches s l) (hl : l ≤ l') : p.Reaches s l' := by
  rcases hr with hh | ⟨v, r, hr, hle⟩
  · exact .inl hh
  · exact .inr ⟨v, r, hr, by omega⟩

namespace HaltsWith

/-- A halted run does not fail. -/
theorem ne_fail (hp : p.HaltsWith h s) : p.run s ≠ .fail := by
  rw [hp]
  exact h.reply_ne_fail

/-- A run that reads something is not halted. -/
theorem not_reads (hp : p.HaltsWith h s) : ¬p.Reads s v r := by
  rintro ⟨t, -, hr⟩
  exact h.reply_ne_ok v t.length (hp.symm.trans hr)

/-- Equal runs are halted alike. -/
theorem of_run_eq {p' : Parser α} (he : p'.run s = p.run s) (hp : p.HaltsWith h s) :
    p'.HaltsWith h s :=
  he.trans hp

end HaltsWith

/-- A run is halted, reads something or fails. -/
theorem halts_or_reads_or_fail (hp : Built p) (s : List Char) :
    p.Halts s ∨ (∃ v r, p.Reads s v r) ∨ p.run s = .fail := by
  cases hr : p.run s with
  | ok v n => exact .inr (.inl ⟨v, _, hp.bounded.reads hr⟩)
  | fail => exact .inr (.inr rfl)
  | tooDeep => exact .inl ⟨.tooDeep, hr⟩
  | fault why => exact .inl ⟨.fault why, hr⟩

/-- A definite parser never halts. -/
theorem Definite.not_haltsWith (hp : p.Definite) : ¬p.HaltsWith h s := by
  intro hh
  rcases hp s with hf | ⟨v, r, hr⟩
  · exact hh.ne_fail hf
  · exact hh.not_reads hr

/-! ## Composed parsers -/

/-- A sequence is halted in its first part, or in its second part on what the first one left. -/
theorem haltsWith_bindAs_iff {c : Bool} {f : α → Parser β} (hp : Built p) :
    (bindAs c p f).HaltsWith h s ↔
      p.HaltsWith h s ∨ ∃ v m, p.Reads s v m ∧ (f v).HaltsWith h m := by
  refine Halt.andThen_eq_iff.trans ⟨?_, ?_⟩
  · rintro (hh | ⟨v, n, hr, hh⟩)
    · exact .inl hh
    · exact .inr ⟨v, _, hp.bounded.reads hr, hh⟩
  · rintro (hh | ⟨v, m, ⟨t, rfl, hr⟩, hh⟩)
    · exact .inl hh
    · refine .inr ⟨v, _, hr, ?_⟩
      rw [List.drop_left]
      exact hh

/-- A sequence whose later part is chosen by the value of the first. -/
theorem haltsWith_bind_iff {f : α → Parser β} (hp : Built p) :
    (p.bind f).HaltsWith h s ↔
      p.HaltsWith h s ∨ ∃ v m, p.Reads s v m ∧ (f v).HaltsWith h m :=
  haltsWith_bindAs_iff hp

/-- A sequence whose first value is dropped. -/
theorem haltsWith_andThen_iff (hp : Built p) :
    (p.andThen q).HaltsWith h s ↔
      p.HaltsWith h s ∨ ∃ v m, p.Reads s v m ∧ q.HaltsWith h m :=
  haltsWith_bindAs_iff hp

/-- A changed parser is halted where the parser is. -/
theorem haltsWith_map_iff {f : α → β} : (p.map f).HaltsWith h s ↔ p.HaltsWith h s :=
  Halt.map_eq_iff

/-- A filtered parser is halted where the parser is. -/
theorem haltsWith_filter_iff {test : α → Bool} :
    (p.filter test).HaltsWith h s ↔ p.HaltsWith h s := by
  simp only [HaltsWith, filter]
  cases hr : p.run s with
  | ok v n =>
    refine iff_of_false ?_ (h.reply_ne_ok v n).symm
    dsimp only
    split
    · exact (h.reply_ne_ok v n).symm
    · exact h.reply_ne_fail.symm
  | _ => rfl

/-- Values are refused after they are read. -/
theorem haltsWith_tryMap_iff {f : α → Except Fault β} (hp : Built p) :
    (p.tryMap f).HaltsWith h s ↔ p.HaltsWith h s ∨
      ∃ v r, p.Reads s v r ∧ ∃ why, f v = .error why ∧ h = .fault why := by
  simp only [HaltsWith, tryMap, Halt.andThen_eq_iff]
  constructor
  · rintro (hh | ⟨v, n, hr, hh⟩)
    · exact .inl hh
    · refine .inr ⟨v, _, hp.bounded.reads hr, ?_⟩
      split at hh
      · exact absurd hh.symm (h.reply_ne_ok _ _)
      · next why hw =>
        cases h with
        | tooDeep => cases hh
        | fault _ =>
          cases hh
          exact ⟨why, hw, rfl⟩
  · rintro (hh | ⟨v, r, ⟨t, -, hr⟩, why, hw, rfl⟩)
    · exact .inl hh
    · refine .inr ⟨v, _, hr, ?_⟩
      rw [hw]
      rfl

/-- A sequence whose second part never halts is halted in its first part. -/
theorem haltsWith_skip_iff (hp : Built p) (hq : q.Definite) :
    (p.skip q).HaltsWith h s ↔ p.HaltsWith h s := by
  refine (haltsWith_bindAs_iff hp).trans ⟨?_, .inl⟩
  rintro (hh | ⟨v, m, -, hh⟩)
  · exact hh
  · exact absurd (haltsWith_map_iff.mp hh) hq.not_haltsWith

/-- An alternative is halted in its first part, or in its second part after the first one failed. -/
theorem haltsWith_orElse_iff {p q : Parser α} :
    (p.orElse q).HaltsWith h s ↔ p.HaltsWith h s ∨ p.run s = .fail ∧ q.HaltsWith h s := by
  rw [HaltsWith, run_orElse]
  exact Halt.orElse_eq_iff

/-- A choice is halted in one of its alternatives. -/
theorem exists_haltsWith_of_choice {ps : List (Parser α)} (hh : (choice ps).HaltsWith h s) :
    ∃ p ∈ ps, p.HaltsWith h s := by
  induction ps with
  | nil => exact absurd rfl hh.ne_fail
  | cons q ps ih =>
    rw [HaltsWith, run_choice_cons] at hh
    rcases Halt.orElse_eq_iff.mp hh with hq | ⟨-, hps⟩
    · exact ⟨q, List.mem_cons_self, hq⟩
    · obtain ⟨p, hp, hh⟩ := ih hps
      exact ⟨p, List.mem_cons_of_mem _ hp, hh⟩

/-! ## Repetition -/

/-- Every success uses something. -/
def Advances (p : Parser α) : Prop := ∀ s v r, p.Reads s v r → r.length < s.length

/-- A repetition is halted in a round, on what a chain of rounds left. -/
theorem haltsWith_star_iff (hp : Built p) (ha : p.Advances) :
    (star p).HaltsWith h s ↔ ∃ vs m, Chain p s vs m ∧ p.HaltsWith h m := by
  constructor
  · intro hh
    induction hl : s.length using Nat.strongRecOn generalizing s with
    | ind l ih =>
      subst hl
      rw [HaltsWith, run_star hp.bounded] at hh
      split at hh
      · next v hv =>
        have hlt := ha _ _ _ (hp.bounded.reads hv)
        exact absurd hlt (by simp)
      · next v n hv =>
        have hread := hp.bounded.reads hv
        have hlt := ha _ _ _ hread
        have hrest := Halt.map_eq_iff.mp (Halt.shift_eq_iff.mp hh)
        obtain ⟨vs, m, hc, hm⟩ := ih _ hlt hrest rfl
        exact ⟨v :: vs, m, .cons hread hlt hc, hm⟩
      · exact absurd hh.symm (h.reply_ne_ok _ _)
      · next hr =>
        refine ⟨[], s, .nil s, hr.trans ?_⟩
        cases h with
        | tooDeep => rfl
        | fault _ => cases hh
      · next why hr =>
        refine ⟨[], s, .nil s, hr.trans ?_⟩
        cases h with
        | tooDeep => cases hh
        | fault _ =>
          cases hh
          rfl
  · rintro ⟨vs, m, hc, hm⟩
    induction hc with
    | nil s =>
      rw [HaltsWith, run_star hp.bounded, hm]
      cases h <;> rfl
    | @cons s m' m v vs hr hlt _ ih =>
      obtain ⟨t, rfl, hr⟩ := hr
      obtain ⟨k, hk⟩ : ∃ k, t.length = k + 1 :=
        ⟨t.length - 1, by rw [List.length_append] at hlt; omega⟩
      have hrest := ih hm
      rw [HaltsWith, run_star hp.bounded, hr, hk]
      simp only
      rw [← hk, List.drop_left]
      exact Halt.shift_eq_iff.mpr (Halt.map_eq_iff.mpr hrest)

private theorem Chain.length_le {vs : List α} (hc : Chain p s vs r) : r.length ≤ s.length := by
  induction hc with
  | nil s => exact Nat.le_refl _
  | cons _ hlt _ ih => omega

private theorem Chain.length_le_of_fail {vs vs' : List α} (hc : Chain p s vs r)
    (hf : p.run r = .fail) (hc' : Chain p s vs' m) : r.length ≤ m.length := by
  induction hc' generalizing vs with
  | nil s => exact hc.length_le
  | cons hr' _ _ ih =>
    cases hc with
    | nil => exact absurd hf hr'.ne_fail
    | cons hr _ hc =>
      obtain ⟨-, rfl⟩ := hr.unique hr'
      exact ih hc

/-- Behind a chain, a repetition is halted or goes on. -/
theorem reaches_star (hp : Built p) {vs : List α} (hc : Chain p s vs m) :
    (star p).Reaches s m.length := by
  rcases halts_or_reads_or_fail hp.star s with hh | ⟨vs', r, hr⟩ | hf
  · exact .inl hh
  · obtain ⟨hc', hf⟩ := reads_star_iff.mp hr
    exact .inr ⟨vs', r, hr, hc'.length_le_of_fail hf hc⟩
  · exact absurd hf (run_star_ne_fail p s)

/-! ## Lexemes -/

/-- White space in front never halts a run. -/
theorem haltsWith_token_iff : (token p).HaltsWith h s ↔ p.HaltsWith h (skipBlank s) := by
  rw [HaltsWith, run_token_eq]
  exact Halt.shift_eq_iff

/-- What stands behind punctuation is halted behind it, and nothing else is. -/
theorem haltsWith_symbol_andThen_iff {t : String} (ht : Grammar.isSolid t.toList = true) :
    ((symbol t).andThen p).HaltsWith h s ↔ ∃ m, Token t.toList s m ∧ p.HaltsWith h m := by
  refine (haltsWith_andThen_iff (.symbol t)).trans ⟨?_, ?_⟩
  · rintro (hh | ⟨w, m, hr, hh⟩)
    · exact absurd hh (definite_symbol t).not_haltsWith
    · exact ⟨m, ((reads_symbol_iff ht).mp hr).2, hh⟩
  · rintro ⟨m, hm, hh⟩
    exact .inr ⟨t, m, (reads_symbol_iff ht).mpr ⟨rfl, hm⟩, hh⟩

/-- What stands behind a keyword is halted behind it, and nothing else is. -/
theorem haltsWith_keyword_andThen_iff {k : String} (hk : Text.isWord k.toList = true) :
    ((keyword k).andThen p).HaltsWith h s ↔ ∃ m, Keyword k s m ∧ p.HaltsWith h m := by
  have hdefinite : (keyword k).Definite := (definite_word.filter _).token
  refine (haltsWith_andThen_iff (.keyword k)).trans ⟨?_, ?_⟩
  · rintro (hh | ⟨w, m, hr, hh⟩)
    · exact absurd hh hdefinite.not_haltsWith
    · exact ⟨m, ((reads_keyword_iff hk).mp hr).2, hh⟩
  · rintro ⟨m, hm, hh⟩
    exact .inr ⟨k, m, (reads_keyword_iff hk).mpr ⟨rfl, hm⟩, hh⟩

/-- What stands behind a name is halted behind it, and nothing else is. -/
theorem haltsWith_ident_bind_iff {f : String → Parser α} :
    (ident.bind f).HaltsWith h s ↔ ∃ x m, Name x s m ∧ (f x).HaltsWith h m := by
  have hdefinite : ident.Definite := (definite_word.filter _).token
  refine (haltsWith_bind_iff .ident).trans ⟨?_, ?_⟩
  · rintro (hh | ⟨x, m, hr, hh⟩)
    · exact absurd hh hdefinite.not_haltsWith
    · exact ⟨x, m, reads_ident_iff.mp hr, hh⟩
  · rintro ⟨x, m, hx, hh⟩
    exact .inr ⟨x, m, reads_ident_iff.mpr hx, hh⟩

private theorem definite_many1_satisfy (test : Char → Bool) (name : String) :
    (many1 (satisfy test name)).Definite := by
  intro s
  by_cases hs : Stops test s
  · exact .inl (run_bind_eq_fail (run_satisfy_eq_fail_iff.mpr hs))
  · cases s with
    | nil => exact absurd (Grammar.stops_nil test) hs
    | cons c s =>
      rw [Grammar.stops_cons, Bool.not_eq_false] at hs
      have hrest := reads_many_satisfy test name s
      exact .inr ⟨_, _, reads_bind_iff.mpr ⟨c, s, reads_satisfy_iff.mpr ⟨rfl, hs⟩,
        reads_map_iff.mpr ⟨_, hrest, rfl⟩⟩⟩

/-- A run of digits beyond the limit at the front of `s`, with `r` behind it. -/
def LongNumeral (digits s r : List Char) : Prop :=
  digits ≠ [] ∧ (∀ c ∈ digits, c.isDigit = true) ∧
    Text.Decimal.digitLimit < digits.length ∧ Token digits s r ∧ Stops Char.isDigit r

/-- A number is halted by a run of digits beyond the limit, and by nothing else. -/
theorem haltsWith_number_iff : number.HaltsWith h s ↔ ∃ digits r, LongNumeral digits s r ∧
    h = .fault (.numeral (.tooLongToRead digits.length)) := by
  have hread : ∀ digits why, (Text.Decimal.read digits).mapError Fault.numeral = .error why ↔
      Text.Decimal.digitLimit < digits.length ∧
        why = .numeral (.tooLongToRead digits.length) := by
    intro digits why
    unfold Text.Decimal.read
    split
    · next hl => simp [Except.mapError, Nat.not_lt.mpr hl]
    · next hl => simp [Except.mapError, Nat.lt_of_not_le hl, eq_comm]
  refine haltsWith_token_iff.trans ((haltsWith_tryMap_iff (Built.satisfy _ _).many1).trans ⟨?_, ?_⟩)
  · rintro (hh | ⟨digits, r, hd, why, hw, rfl⟩)
    · exact absurd hh (definite_many1_satisfy _ _).not_haltsWith
    · obtain ⟨hne, hall, hs, hr⟩ := reads_many1_satisfy_iff.mp hd
      obtain ⟨hl, rfl⟩ := (hread digits why).mp hw
      have ht := (Token.iff_skipBlank (Grammar.isSolid_of_digits hne hall)).mpr hs
      exact ⟨digits, r, ⟨hne, hall, hl, ht, hr⟩, rfl⟩
  · rintro ⟨digits, r, ⟨hne, hall, hl, ht, hr⟩, rfl⟩
    have hs := (Token.iff_skipBlank (Grammar.isSolid_of_digits hne hall)).mp ht
    exact .inr ⟨digits, r, reads_many1_satisfy_iff.mpr ⟨hne, hall, hs, hr⟩, _,
      (hread digits _).mpr ⟨hl, rfl⟩, rfl⟩

end WhileSyntax.Parser
