import WhileSyntax.Proofs.Parser.Lexeme
import WhileSyntax.Proofs.Parser.Located

/-!
# Names and keywords divide words

Behind the white space at a cursor stands a longest word, or none (`LongestWord`). Names and
keywords are read as that whole word or not at all: a word is never split. So at every cursor with a
word exactly one of the name and the five keywords is read, and at every other cursor none of them
(`reads_longest_word`).
-/

namespace WhileSyntax.Grammar

open WhileSyntax.Parser
open Source (Cursor)

variable {s w w' r : List Char} {c e : Cursor}

/-- `w` is the longest word at the front of `s`, or nothing where there is no word. -/
structure LongestWord (s w : List Char) : Prop where
  front : w <+: s
  shape : w = [] ∨ Text.isWord w = true
  longest : ∀ v, v <+: s → v = [] ∨ Text.isWord v = true → v.length ≤ w.length

private theorem ne_nil_of_isWord (h : Text.isWord w = true) : w ≠ [] := by
  rintro rfl
  cases h

private theorem isWord_append_singleton {ch : Char} (hw : Text.isWord w = true)
    (hch : Text.isWordPart ch = true) : Text.isWord (w ++ [ch]) = true := by
  cases w with
  | nil => cases hw
  | cons d ds => simpa [Text.isWord, hch] using hw

/-- Where a class stops behind `w`, no beginning that consists of the class goes further. -/
theorem length_le_of_stops {test : Char → Bool} (hstop : Stops test r) {v : List Char}
    (hv : v <+: w ++ r) (hclass : ∀ ch ∈ v, test ch = true) : v.length ≤ w.length := by
  by_contra hlt
  obtain ⟨v', rfl⟩ : w <+: v :=
    List.prefix_of_prefix_length_le (List.prefix_append w r) hv (by omega)
  cases v' with
  | nil => exact hlt (by rw [List.append_nil])
  | cons ch v' =>
    obtain ⟨rest, hrest⟩ := hv
    rw [List.append_assoc, List.append_cancel_left_eq] at hrest
    have hfalse : test ch = false := hstop ch (by rw [← hrest]; rfl)
    rw [hclass ch (List.mem_append_right _ List.mem_cons_self)] at hfalse
    cases hfalse

namespace LongestWord

/-- There is one longest word. -/
theorem unique (h : LongestWord s w) (h' : LongestWord s w') : w = w' := by
  have hle := h'.longest w h.front h.shape
  have hge := h.longest w' h'.front h'.shape
  exact (List.prefix_of_prefix_length_le h.front h'.front hle).eq_of_length_le hge

private theorem append_iff (hw : w ≠ []) :
    LongestWord (w ++ r) w ↔ Text.isWord w = true ∧ Stops Text.isWordPart r := by
  constructor
  · intro h
    have hword := h.shape.resolve_left hw
    refine ⟨hword, fun ch hch ↦ ?_⟩
    by_contra hpart
    rw [Bool.not_eq_false] at hpart
    obtain ⟨r', rfl⟩ := List.head?_eq_some_iff.mp hch
    -- the word with the character behind it would be longer
    have hle := h.longest (w ++ [ch]) ⟨r', by simp⟩ (.inr (isWord_append_singleton hword hpart))
    rw [List.length_append, List.length_singleton] at hle
    omega
  · rintro ⟨hword, hstop⟩
    refine ⟨List.prefix_append w r, .inr hword, fun v hv hshape ↦ ?_⟩
    refine length_le_of_stops hstop hv fun ch hch ↦ ?_
    rcases hshape with rfl | hshape
    · cases hch
    · exact Text.isWordPart_of_mem_of_isWord hshape hch

/-- Every text has a longest word at its front, if need be the empty one. -/
theorem exists_longestWord (s : List Char) : ∃ w, LongestWord s w := by
  by_cases hstart : Stops Text.isWordStart s
  · refine ⟨[], List.nil_prefix, .inl rfl, ?_⟩
    rintro v ⟨rest, rfl⟩ (rfl | hword)
    · exact Nat.le_refl _
    · cases v with
      | nil => cases hword
      | cons ch v =>
        have hch : Text.isWordStart ch = false := hstart ch rfl
        simp [Text.isWord, hch] at hword
  · cases s with
    | nil => exact absurd (stops_nil _) hstart
    | cons ch s =>
      rw [stops_cons, Bool.not_eq_false] at hstart
      refine ⟨ch :: s.takeWhile Text.isWordPart, ?_⟩
      have hword : Text.isWord (ch :: s.takeWhile Text.isWordPart) = true := by
        simp only [Text.isWord, hstart, Bool.true_and, List.all_eq_true]
        exact fun d hd ↦ List.mem_takeWhile_imp hd
      have := (append_iff (r := s.dropWhile Text.isWordPart) (List.cons_ne_nil _ _)).mpr
        ⟨hword, stops_dropWhile Text.isWordPart s⟩
      rwa [List.cons_append, List.takeWhile_append_dropWhile] at this

end LongestWord

/-- What stands behind the white space at a cursor ends at a cursor of the same text. -/
theorem exists_end_of_front {t : List Char} (h : skipBlank c.remaining = t ++ r) :
    ∃ e : Cursor, e.text = c.text ∧
      e.pos = c.pos + (c.remaining.takeWhile Text.isBlank).length + t.length ∧ e.remaining = r := by
  have hsplit : c.remaining = (c.remaining.takeWhile Text.isBlank ++ t) ++ r := by
    rw [List.append_assoc, ← h, skipBlank, List.takeWhile_append_dropWhile]
  obtain ⟨e, -, htext, hpos, hrest⟩ := exists_advance_of_append hsplit
  exact ⟨e, htext, by rw [hpos, List.length_append, Nat.add_assoc], hrest⟩

/-- `w` is the longest word behind the white space at `c`, and ends at `e`. -/
structure WordAt (c : Cursor) (w : List Char) (e : Cursor) : Prop where
  longest : LongestWord (skipBlank c.remaining) w
  text : e.text = c.text
  pos : e.pos = c.pos + (c.remaining.takeWhile Text.isBlank).length + w.length

namespace WordAt

/-- At every cursor stands a longest word, if need be the empty one. -/
theorem exists_wordAt (c : Cursor) : ∃ w e, WordAt c w e := by
  obtain ⟨w, hw⟩ := LongestWord.exists_longestWord (skipBlank c.remaining)
  obtain ⟨rest, hrest⟩ := hw.front
  obtain ⟨e, htext, hpos, -⟩ := exists_end_of_front hrest.symm
  exact ⟨w, e, hw, htext, hpos⟩

/-- Behind the white space stands the longest word, and behind it what remains at its end. -/
theorem split (h : WordAt c w e) : skipBlank c.remaining = w ++ e.remaining := by
  obtain ⟨rest, hrest⟩ := h.longest.front
  have hdrop : e.remaining = (skipBlank c.remaining).drop w.length := by
    rw [skipBlank, ← drop_length_takeWhile, Cursor.remaining, Cursor.remaining, h.text, h.pos,
      List.drop_drop, List.drop_drop, Nat.add_assoc]
    rfl
  rw [hdrop, ← hrest, List.drop_left]

/-- No word goes on behind the longest one. -/
theorem stops (h : WordAt c w e) (hw : w ≠ []) : Stops Text.isWordPart e.remaining :=
  ((LongestWord.append_iff hw).mp (h.split ▸ h.longest)).2

variable {test : String → Bool}

private theorem runAt_eq_ok_iff (h : WordAt c w e) {x : String} {r : Cursor} :
    (token (word.filter test)).runAt c = .ok x r ↔
      w ≠ [] ∧ x.toList = w ∧ test x = true ∧ r = e := by
  rw [Parser.runAt_eq_ok_iff, reads_token_iff, reads_filter_iff, reads_word_iff]
  constructor
  · rintro ⟨htext, -, ⟨hword, hsplit, hstop⟩, htest⟩
    have hne := ne_nil_of_isWord hword
    have hlongest : LongestWord (skipBlank c.remaining) x.toList :=
      hsplit ▸ (LongestWord.append_iff hne).mpr ⟨hword, hstop⟩
    obtain rfl := hlongest.unique h.longest
    have hrest := List.append_cancel_left (hsplit.symm.trans h.split)
    exact ⟨hne, rfl, htest, Cursor.eq_of_remaining (htext.trans h.text.symm) hrest⟩
  · rintro ⟨hne, rfl, htest, rfl⟩
    have hpos := h.pos
    have hword := h.longest.shape.resolve_left hne
    exact ⟨h.text, by omega, ⟨hword, h.split, h.stops hne⟩, htest⟩

/-- Words of any kind are read where the longest word is of that kind. -/
theorem runAt_eq (h : WordAt c w e) (test : String → Bool) :
    (token (word.filter test)).runAt c =
      if w ≠ [] ∧ test (String.ofList w) = true then .ok (String.ofList w) e else .fail := by
  split
  · next hw => exact h.runAt_eq_ok_iff.mpr ⟨hw.1, String.toList_ofList, hw.2, rfl⟩
  · next hw =>
    have hdefinite : (token (word.filter test)).Definite := (definite_word.filter test).token
    rcases hdefinite c.remaining with hf | ⟨x, s, hread⟩
    · exact runAt_eq_fail_iff.mpr hf
    · obtain ⟨r, hr, -⟩ := hread.exists_runAt
      obtain ⟨hne, rfl, htest, -⟩ := h.runAt_eq_ok_iff.mp hr
      rw [String.ofList_toList] at hw
      exact absurd ⟨hne, htest⟩ hw

private theorem runAt_ident (h : WordAt c w e) : ident.runAt c =
    if w ≠ [] ∧ Text.isReserved (String.ofList w) = false then .ok (String.ofList w) e
    else .fail := by
  have hname : ident.runAt c = (token (word.filter (!Text.isReserved ·))).runAt c := rfl
  rw [hname, h.runAt_eq]
  simp only [Bool.not_eq_true']

private theorem runAt_keyword (h : WordAt c w e) {k : String} (hk : Text.isWord k.toList = true) :
    (keyword k).runAt c = if k.toList = w then .ok k e else .fail := by
  have hname : (keyword k).runAt c = (token (word.filter (· == k))).runAt c := rfl
  rw [hname, h.runAt_eq]
  by_cases hkw : k.toList = w
  · subst hkw
    rw [String.ofList_toList, if_pos ⟨ne_nil_of_isWord hk, beq_self_eq_true k⟩, if_pos rfl]
  · rw [if_neg hkw, if_neg]
    rintro ⟨-, hw⟩
    exact hkw (by rw [← eq_of_beq hw, String.toList_ofList])

end WordAt

/-- The words with a keyword parser in the grammar. -/
def keywords : List String := ["if", "then", "else", "while", "do"]

/-- The parsers of names and of all keywords. -/
def wordParsers : List (Parser String) := ident :: keywords.map keyword

private theorem isReserved_iff {x : String} : Text.isReserved x = true ↔ x ∈ keywords := by
  have hperm : Text.reservedWords.Perm keywords := by decide +kernel
  rw [Text.isReserved, List.contains_iff_mem, hperm.mem_iff]

namespace WordAt

private theorem countP_keyword (h : WordAt c w e) :
    (keywords.countP fun k ↦ ((keyword k).runAt c).isOk) =
      if Text.isReserved (String.ofList w) = true then 1 else 0 := by
  have hword : ∀ k ∈ keywords, Text.isWord k.toList = true := by decide +kernel
  have hok : ∀ k ∈ keywords, ((keyword k).runAt c).isOk = (k == String.ofList w) := by
    intro k hk
    rw [h.runAt_keyword (hword k hk)]
    by_cases hkw : k.toList = w
    · subst hkw
      simp [Outcome.isOk]
    · have hne : k ≠ String.ofList w := fun he ↦ hkw (by rw [he, String.toList_ofList])
      simp [hkw, hne, Outcome.isOk]
  have hnodup : keywords.Nodup := by decide +kernel
  rw [List.countP_congr fun k hk ↦ by rw [hok k hk]]
  change keywords.count (String.ofList w) = _
  rw [hnodup.count]
  simp only [isReserved_iff]

private theorem countP_wordParsers (h : WordAt c w e) :
    (wordParsers.countP fun p ↦ (p.runAt c).isOk) = if w = [] then 0 else 1 := by
  rw [wordParsers, List.countP_cons, List.countP_map]
  change (keywords.countP fun k ↦ ((keyword k).runAt c).isOk) + _ = _
  rw [h.countP_keyword, h.runAt_ident]
  by_cases hw : w = []
  · subst hw
    have hempty : Text.isReserved (String.ofList []) = false := by decide +kernel
    simp [hempty, Outcome.isOk]
  · cases hreserved : Text.isReserved (String.ofList w) <;> simp [hw, Outcome.isOk]

end WordAt

/-- Names and keywords divide words by the longest match. At every cursor one longest word, or
nothing, stands behind the white space. A name is read exactly where it is a word that is not
reserved, and a keyword exactly where it is that keyword; both end at the end of the word, where no
character continues it. So where a word stands, exactly one of the name and the keywords is read,
and where none stands, none of them is. The parser of a keyword is refused exactly where the keyword
is no word. -/
theorem reads_longest_word (c : Cursor) :
    ∃ w e, LongestWord (skipBlank c.remaining) w ∧
      (∀ w', LongestWord (skipBlank c.remaining) w' → w' = w) ∧
      e.text = c.text ∧ e.pos = c.pos + (c.remaining.takeWhile Text.isBlank).length + w.length ∧
      (w ≠ [] → Stops Text.isWordPart e.remaining) ∧
      (ident.runAt c =
        if w ≠ [] ∧ Text.isReserved (String.ofList w) = false then .ok (String.ofList w) e
        else .fail) ∧
      (∀ k, Text.isWord k.toList = true →
        (keyword k).runAt c = if k.toList = w then .ok k e else .fail) ∧
      ((wordParsers.countP fun p ↦ (p.runAt c).isOk) = if w = [] then 0 else 1) ∧
      ∀ k, (keyword? k = .error (.notAWord k) ↔ Text.isWord k.toList = false) ∧
        (Text.isWord k.toList = true → keyword? k = .ok (keyword k)) := by
  obtain ⟨w, e, h⟩ := WordAt.exists_wordAt c
  refine ⟨w, e, h.longest, fun w' h' ↦ h'.unique h.longest, h.text, h.pos, h.stops, h.runAt_ident,
    fun k ↦ h.runAt_keyword, h.countP_wordParsers, fun k ↦ ?_⟩
  rw [keyword?]
  cases Text.isWord k.toList <;> simp

/-- A word that begins like a keyword is read as a name, and as a whole. -/
theorem reads_longest_word_ifx :
    let text := " ifx1;".toList
    let c : Cursor := ⟨text, 0, by decide⟩
    ident.runAt c = .ok "ifx1" ⟨text, 5, by decide⟩ ∧ (keyword "if").runAt c = .fail ∧
      (wordParsers.countP fun p ↦ (p.runAt c).isOk) = 1 := by
  intro text c
  obtain ⟨w, e, -, hunique, htext, hpos, -, hident, hkeyword, hcount, -⟩ := reads_longest_word c
  have hword : LongestWord ("ifx1".toList ++ [';']) "ifx1".toList :=
    (LongestWord.append_iff (by decide)).mpr ⟨by decide +kernel, stops_cons.mpr (by decide +kernel)⟩
  obtain rfl := hunique _ hword
  obtain rfl : e = ⟨text, 5, by decide⟩ := Cursor.ext htext hpos
  exact ⟨hident.trans (if_pos ⟨by decide, by decide +kernel⟩),
    (hkeyword "if" (by decide +kernel)).trans (if_neg (by decide)), hcount⟩

end WhileSyntax.Grammar
