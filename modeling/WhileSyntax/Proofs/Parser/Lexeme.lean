import WhileSyntax.Parser.Lexeme
import WhileSyntax.Proofs.Grammar.Token
import WhileSyntax.Proofs.Parser.Reading

/-!
# Lexemes read tokens

The parsers of punctuation, names, keywords and numbers read exactly the tokens of a text. None of
them runs out of levels, and only numbers can end with a fault.
-/

namespace WhileSyntax.Parser

open WhileSyntax.Grammar (Stops Token Name Keyword Numeral IsName skipBlank isSolid stops_cons
  stops_nil stops_dropWhile drop_length_takeWhile isSolid_of_isWord isSolid_of_digits)

variable {α : Type} {p : Parser α} {s r : List Char} {v : α}

/-! ## Characters of a class -/

section Class

variable {test : Char → Bool} {name : String}

/-- One character of a class is read. -/
theorem reads_satisfy_iff {c : Char} :
    (satisfy test name).Reads s c r ↔ s = c :: r ∧ test c = true := by
  constructor
  · rintro ⟨t, rfl, hr⟩
    cases t with
    | nil =>
      cases r with
      | nil => cases hr
      | cons d r =>
        simp only [satisfy, List.nil_append] at hr
        split at hr <;> cases hr
    | cons d t =>
      simp only [satisfy, List.cons_append] at hr
      split at hr
      · next hd =>
        obtain ⟨rfl, hl⟩ := Reply.ok.inj hr
        obtain rfl := List.length_eq_zero_iff.mp (Nat.succ_inj.mp hl.symm)
        exact ⟨rfl, hd⟩
      · cases hr
  · rintro ⟨rfl, hc⟩
    exact ⟨[c], rfl, by simp only [satisfy, hc, if_true, List.length_singleton]⟩

/-- No character is read where the text stops being of a class. -/
theorem run_satisfy_eq_fail_iff : (satisfy test name).run s = .fail ↔ Stops test s := by
  cases s with
  | nil => exact ⟨fun _ ↦ stops_nil test, fun _ ↦ rfl⟩
  | cons c s =>
    rw [stops_cons]
    cases hc : test c <;> simp [satisfy, hc]

/-- A character of a class is there or not. -/
theorem definite_satisfy (test : Char → Bool) (name : String) : (satisfy test name).Definite := by
  intro s
  cases s with
  | nil => exact .inl rfl
  | cons c s =>
    by_cases hc : test c = true
    · exact .inr ⟨c, s, reads_satisfy_iff.mpr ⟨rfl, hc⟩⟩
    · rw [Bool.not_eq_true, ← stops_cons] at hc
      exact .inl (run_satisfy_eq_fail_iff.mpr hc)

private theorem chain_satisfy_iff {cs : List Char} :
    Chain (satisfy test name) s cs r ↔ s = cs ++ r ∧ ∀ c ∈ cs, test c = true := by
  constructor
  · intro h
    induction h with
    | nil s => exact ⟨rfl, fun c hc ↦ absurd hc List.not_mem_nil⟩
    | cons hp _ _ ih =>
      obtain ⟨rfl, hc⟩ := reads_satisfy_iff.mp hp
      exact ⟨by rw [ih.1, List.cons_append], List.forall_mem_cons.mpr ⟨hc, ih.2⟩⟩
  · rintro ⟨rfl, h⟩
    induction cs with
    | nil => exact .nil r
    | cons c cs ih =>
      obtain ⟨hc, hcs⟩ := List.forall_mem_cons.mp h
      exact .cons (reads_satisfy_iff.mpr ⟨rfl, hc⟩) (Nat.lt_succ_self _) (ih hcs)

private theorem reads_many_satisfy_iff {cs : List Char} : (many (satisfy test name)).Reads s cs r ↔
    s = cs ++ r ∧ (∀ c ∈ cs, test c = true) ∧ Stops test r := by
  rw [reads_many_iff rfl, chain_satisfy_iff, run_satisfy_eq_fail_iff, and_assoc]

/-- The repetition of a class always reads something. -/
theorem reads_many_satisfy (test : Char → Bool) (name : String) (s : List Char) :
    (many (satisfy test name)).Reads s (s.takeWhile test) (s.dropWhile test) :=
  reads_many_satisfy_iff.mpr ⟨List.takeWhile_append_dropWhile.symm,
    fun _ hc ↦ List.mem_takeWhile_imp hc, stops_dropWhile test s⟩

end Class

/-! ## White space and punctuation -/

/-- A token is read behind the white space in front. -/
theorem reads_token_iff : (token p).Reads s v r ↔ p.Reads (skipBlank s) v r := by
  have hw : whitespace.Reads s () (skipBlank s) :=
    ⟨s.takeWhile Text.isBlank, List.takeWhile_append_dropWhile.symm, rfl⟩
  refine reads_andThen_iff.trans ⟨?_, fun h ↦ ⟨(), skipBlank s, hw, h⟩⟩
  rintro ⟨_, m, h, hp⟩
  obtain ⟨-, rfl⟩ := h.unique hw
  exact hp

/-- A token replies as its parser does behind the white space in front. -/
theorem run_token_eq (p : Parser α) (s : List Char) :
    (token p).run s = (p.run (skipBlank s)).shift (s.takeWhile Text.isBlank).length := by
  rw [run_token, skipBlank, drop_length_takeWhile]

/-- Punctuation is read where it stands. -/
theorem reads_symbol_iff {t w : String} (ht : isSolid t.toList = true) :
    (symbol t).Reads s w r ↔ w = t ∧ Token t.toList s r := by
  rw [Token.iff_skipBlank ht]
  apply reads_token_iff.trans
  constructor
  · rintro ⟨u, hs, hr⟩
    simp only [literal] at hr
    split at hr
    · next hp =>
      obtain ⟨rfl, hl⟩ := Reply.ok.inj hr
      obtain ⟨r', hr'⟩ := List.isPrefixOf_iff_prefix.mp hp
      rw [hs] at hr'
      obtain ⟨rfl, rfl⟩ := List.append_inj hr' hl
      exact ⟨rfl, hs⟩
    · cases hr
  · rintro ⟨rfl, hs⟩
    refine ⟨w.toList, hs, ?_⟩
    have hp : w.toList.isPrefixOf (skipBlank s) = true :=
      List.isPrefixOf_iff_prefix.mpr ⟨r, hs.symm⟩
    simp only [literal, hp, if_true]

/-- What stands behind punctuation is read behind it. -/
theorem reads_symbol_andThen {t : String} {m : List Char} (h : Token t.toList s m)
    (hp : p.Reads m v r) (ht : isSolid t.toList = true) :
    ((symbol t).andThen p).Reads s v r :=
  reads_andThen_iff.mpr ⟨t, m, (reads_symbol_iff ht).mpr ⟨rfl, h⟩, hp⟩

/-- What is read behind punctuation stands behind it. -/
theorem exists_token_of_reads {t : String} (h : ((symbol t).andThen p).Reads s v r)
    (ht : isSolid t.toList = true) : ∃ m, Token t.toList s m ∧ p.Reads m v r := by
  obtain ⟨w, m, hw, hp⟩ := reads_andThen_iff.mp h
  exact ⟨m, ((reads_symbol_iff ht).mp hw).2, hp⟩

/-- What stands in front of punctuation is read in front of it. -/
theorem reads_skip_symbol {t : String} {m : List Char} (hp : p.Reads s v m)
    (h : Token t.toList m r) (ht : isSolid t.toList = true) :
    (p.skip (symbol t)).Reads s v r :=
  reads_skip_iff.mpr ⟨m, t, hp, (reads_symbol_iff ht).mpr ⟨rfl, h⟩⟩

/-- What is read in front of punctuation stands in front of it. -/
theorem exists_token_of_reads_skip {t : String} (h : (p.skip (symbol t)).Reads s v r)
    (ht : isSolid t.toList = true) : ∃ m, p.Reads s v m ∧ Token t.toList m r := by
  obtain ⟨m, w, hp, hw⟩ := reads_skip_iff.mp h
  exact ⟨m, hp, ((reads_symbol_iff ht).mp hw).2⟩

/-- Behind white space a parser is as definite as before. -/
theorem Definite.token (hp : p.Definite) : (token p).Definite := by
  intro s
  rcases hp (skipBlank s) with hf | ⟨v, r, hr⟩
  · exact .inl (by rw [run_token_eq, hf]; rfl)
  · exact .inr ⟨v, r, reads_token_iff.mpr hr⟩

/-- A literal is there or not. -/
theorem definite_literal (t : String) : (literal t).Definite := by
  intro s
  by_cases h : t.toList.isPrefixOf s = true
  · obtain ⟨r, rfl⟩ := List.isPrefixOf_iff_prefix.mp h
    exact .inr ⟨t, r, t.toList, rfl, by simp only [literal, h, if_true]⟩
  · exact .inl (by simp only [literal, h, if_false, Bool.false_eq_true])

/-- Punctuation is there or not. -/
theorem definite_symbol (t : String) : (symbol t).Definite := (definite_literal t).token

/-- Punctuation fails where something else stands. -/
theorem run_symbol_eq_fail {t : String} (h : ∀ r, ¬Token t.toList s r)
    (ht : isSolid t.toList = true) : (symbol t).run s = .fail :=
  (definite_symbol t).run_eq_fail fun _ r hr ↦ h r ((reads_symbol_iff ht).mp hr).2

/-- What stands behind punctuation fails where the punctuation is missing, or behind it. -/
theorem run_symbol_andThen_eq_fail_iff {t : String} (ht : isSolid t.toList = true) :
    ((symbol t).andThen p).run s = .fail ↔ ∀ m, Token t.toList s m → p.run m = .fail := by
  constructor
  · intro h m hm
    have hr : (symbol t).Reads s t m := (reads_symbol_iff ht).mpr ⟨rfl, hm⟩
    rw [andThen, run_bindAs_of_reads hr] at h
    exact Reply.shift_eq_fail_iff.mp h
  · intro h
    rcases definite_symbol t s with hf | ⟨w, m, hr⟩
    · exact run_bindAs_eq_fail hf
    · rw [andThen, run_bindAs_of_reads hr]
      exact Reply.shift_eq_fail_iff.mpr (h m ((reads_symbol_iff ht).mp hr).2)

/-! ## Words -/

/-- A word is read up to its end. -/
theorem reads_word_iff {w : String} : word.Reads s w r ↔
    Text.isWord w.toList = true ∧ s = w.toList ++ r ∧ Stops Text.isWordPart r := by
  apply reads_bind_iff.trans
  constructor
  · rintro ⟨c, m, hc, hm⟩
    obtain ⟨cs, hcs, rfl⟩ := reads_map_iff.mp hm
    obtain ⟨rfl, hstart⟩ := reads_satisfy_iff.mp hc
    obtain ⟨rfl, hall, hstop⟩ := reads_many_satisfy_iff.mp hcs
    rw [String.toList_ofList]
    refine ⟨?_, rfl, hstop⟩
    simp only [Text.isWord, hstart, Bool.true_and, List.all_eq_true]
    exact hall
  · rintro ⟨hw, rfl, hstop⟩
    obtain ⟨c, cs, hcs⟩ : ∃ c cs, w.toList = c :: cs := by
      cases hl : w.toList with
      | nil =>
        rw [hl] at hw
        cases hw
      | cons c cs => exact ⟨c, cs, rfl⟩
    rw [hcs] at hw ⊢
    simp only [Text.isWord, Bool.and_eq_true, List.all_eq_true] at hw
    refine ⟨c, cs ++ r, reads_satisfy_iff.mpr ⟨rfl, hw.1⟩, reads_map_iff.mpr ⟨cs, ?_, ?_⟩⟩
    · exact reads_many_satisfy_iff.mpr ⟨rfl, hw.2, hstop⟩
    · rw [← hcs, String.ofList_toList]

/-- A word is there or not. -/
theorem definite_word : word.Definite := by
  intro s
  by_cases h : Stops Text.isWordStart s
  · exact .inl (run_bind_eq_fail (run_satisfy_eq_fail_iff.mpr h))
  · cases s with
    | nil => exact absurd (stops_nil _) h
    | cons c s =>
      have hc : Text.isWordStart c = true := by
        rw [stops_cons, Bool.not_eq_false] at h
        exact h
      have hm := reads_many_satisfy Text.isWordPart "alnum" s
      exact .inr ⟨_, _, reads_bind_iff.mpr ⟨c, s, reads_satisfy_iff.mpr ⟨rfl, hc⟩,
        reads_map_iff.mpr ⟨_, hm, rfl⟩⟩⟩

/-- Names are read. -/
theorem reads_ident_iff {x : String} : ident.Reads s x r ↔ Name x s r := by
  apply reads_token_iff.trans
  apply reads_filter_iff.trans
  rw [reads_word_iff, Name, IsName]
  constructor
  · rintro ⟨⟨hw, hs, hstop⟩, hx⟩
    exact ⟨⟨hw, by simpa using hx⟩, (Token.iff_skipBlank (isSolid_of_isWord hw)).mpr hs, hstop⟩
  · rintro ⟨⟨hw, hx⟩, hs, hstop⟩
    exact ⟨⟨hw, (Token.iff_skipBlank (isSolid_of_isWord hw)).mp hs, hstop⟩, by simpa using hx⟩

/-- Where no name stands, none is read. -/
theorem run_ident_eq_fail (h : ∀ x r, ¬Name x s r) : ident.run s = .fail :=
  (definite_word.filter _).token.run_eq_fail fun x r hr ↦ h x r (reads_ident_iff.mp hr)

/-- Keywords are read. -/
theorem reads_keyword_iff {k w : String} (hk : Text.isWord k.toList = true) :
    (keyword k).Reads s w r ↔ w = k ∧ Keyword k s r := by
  apply reads_token_iff.trans
  apply reads_filter_iff.trans
  rw [reads_word_iff, Keyword]
  constructor
  · rintro ⟨⟨hw, hs, hstop⟩, he⟩
    obtain rfl : w = k := by simpa using he
    exact ⟨rfl, (Token.iff_skipBlank (isSolid_of_isWord hw)).mpr hs, hstop⟩
  · rintro ⟨rfl, hs, hstop⟩
    exact ⟨⟨hk, (Token.iff_skipBlank (isSolid_of_isWord hk)).mp hs, hstop⟩, by simp⟩

/-- What stands behind a keyword is read behind it. -/
theorem reads_keyword_andThen {k : String} {m : List Char} (h : Keyword k s m)
    (hp : p.Reads m v r) (hk : Text.isWord k.toList = true) :
    ((keyword k).andThen p).Reads s v r :=
  reads_andThen_iff.mpr ⟨k, m, (reads_keyword_iff hk).mpr ⟨rfl, h⟩, hp⟩

/-- What is read behind a keyword stands behind it. -/
theorem exists_keyword_of_reads {k : String} (h : ((keyword k).andThen p).Reads s v r)
    (hk : Text.isWord k.toList = true) : ∃ m, Keyword k s m ∧ p.Reads m v r := by
  obtain ⟨w, m, hw, hp⟩ := reads_andThen_iff.mp h
  exact ⟨m, ((reads_keyword_iff hk).mp hw).2, hp⟩

/-- Where a keyword does not stand, it is not read. -/
theorem run_keyword_eq_fail {k : String} (h : ∀ r, ¬Keyword k s r)
    (hk : Text.isWord k.toList = true) : (keyword k).run s = .fail :=
  (definite_word.filter _).token.run_eq_fail fun _ r hr ↦ h r ((reads_keyword_iff hk).mp hr).2

/-! ## Numbers -/

/-- A run of digits is read up to its end. -/
theorem reads_many1_satisfy_iff {test : Char → Bool} {name : String} {cs : List Char} :
    (many1 (satisfy test name)).Reads s cs r ↔
      cs ≠ [] ∧ (∀ c ∈ cs, test c = true) ∧ s = cs ++ r ∧ Stops test r := by
  apply reads_bind_iff.trans
  constructor
  · rintro ⟨c, m, hc, hm⟩
    obtain ⟨cs, hcs, rfl⟩ := reads_map_iff.mp hm
    obtain ⟨rfl, htest⟩ := reads_satisfy_iff.mp hc
    obtain ⟨rfl, hall, hstop⟩ := reads_many_satisfy_iff.mp hcs
    exact ⟨List.cons_ne_nil _ _, List.forall_mem_cons.mpr ⟨htest, hall⟩, rfl, hstop⟩
  · rintro ⟨hne, hall, rfl, hstop⟩
    cases cs with
    | nil => exact absurd rfl hne
    | cons c cs =>
      obtain ⟨hc, hcs⟩ := List.forall_mem_cons.mp hall
      refine ⟨c, cs ++ r, reads_satisfy_iff.mpr ⟨rfl, hc⟩, reads_map_iff.mpr ⟨cs, ?_, rfl⟩⟩
      exact reads_many_satisfy_iff.mpr ⟨rfl, hcs, hstop⟩

/-- Numbers are read from their numerals. -/
theorem reads_number_iff {n : Nat} : number.Reads s n r ↔ Numeral n s r := by
  have hread : ∀ digits, (Text.Decimal.read digits).mapError Fault.numeral = .ok n ↔
      digits.length ≤ Text.Decimal.digitLimit ∧ Nat.ofDigitChars 10 digits 0 = n := by
    intro digits
    rw [Text.Decimal.read]
    split
    · next hl => simp [Except.mapError, hl]
    · next hl => simp [Except.mapError, hl]
  apply reads_token_iff.trans
  apply reads_tryMap_iff.trans
  constructor
  · rintro ⟨digits, hd, hn⟩
    obtain ⟨hne, hall, hs, hstop⟩ := reads_many1_satisfy_iff.mp hd
    obtain ⟨hl, hv⟩ := (hread digits).mp hn
    refine ⟨digits, hne, hall, hl, hv, ?_, hstop⟩
    exact (Token.iff_skipBlank (isSolid_of_digits hne hall)).mpr hs
  · rintro ⟨digits, hne, hall, hl, hv, hs, hstop⟩
    refine ⟨digits, reads_many1_satisfy_iff.mpr ⟨hne, hall, ?_, hstop⟩, (hread digits).mpr ⟨hl, hv⟩⟩
    exact (Token.iff_skipBlank (isSolid_of_digits hne hall)).mp hs

/-- Where no digit stands, no number is read. -/
theorem run_number_eq_fail (h : Stops Char.isDigit (skipBlank s)) : number.run s = .fail := by
  have hf : (many1 (satisfy Char.isDigit "digit")).run (skipBlank s) = .fail :=
    run_bind_eq_fail (run_satisfy_eq_fail_iff.mpr h)
  rw [number, run_named, run_token_eq, run_tryMap_eq_fail hf]
  rfl

end WhileSyntax.Parser
