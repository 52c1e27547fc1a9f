import WhileSyntax.Proofs.Grammar.Command

/-!
# What no command contains

Two slips that a derivation never makes. No semicolon stands before a closing brace: a scan of the
text that remembers the last semicolon comes out of every derivation as it went in. No conditional
lacks its second branch: every word of the text belongs to a derivation, and the words `if` are
those in front of conditionals.
-/

namespace WhileSyntax.Grammar

open WhileSyntax.Parser

variable {d k : Nat} {s m r : List Char} {c e : Tree}

/-! ## Semicolons before closing braces -/

/-- Whether a closing brace follows a semicolon with only white space between them. The flag says
whether the last character in front that is no white space was a semicolon. -/
def dangles : (semicolon : Bool) → List Char → Bool
  | _, [] => false
  | semicolon, c :: cs =>
    if Text.isBlank c then dangles semicolon cs
    else semicolon && c == '\x7d' || dangles (c == ';') cs

/-- Whether a character is neither white space nor a semicolon or a closing brace. -/
def isInert (c : Char) : Bool := !Text.isBlank c && c != ';' && c != '\x7d'

private theorem isInert_of_isWordPart {c : Char} (h : Text.isWordPart c = true) :
    isInert c = true := by
  have hb := isBlank_eq_false_of_isWordPart h
  have hs : c ≠ ';' := by
    rintro rfl
    exact absurd h (by decide)
  have hc : c ≠ '\x7d' := by
    rintro rfl
    exact absurd h (by decide)
  simp [isInert, hb, hs, hc]

private theorem dangles_blank {u : List Char} (hu : Blank u) (semicolon : Bool) :
    dangles semicolon (u ++ s) = dangles semicolon s := by
  induction u with
  | nil => rfl
  | cons c u ih =>
    obtain ⟨hc, hu⟩ := List.forall_mem_cons.mp hu
    rw [List.cons_append, dangles, if_pos hc, ih hu]

private theorem dangles_token {t : List Char} (h : Token t s r) (semicolon : Bool)
    (hsolid : isSolid t = true) (ht : t.all isInert = true) :
    dangles semicolon s = dangles false r := by
  obtain ⟨u, hu, rfl⟩ := h
  rw [List.append_assoc, dangles_blank hu]
  have hne : t ≠ [] := by
    rintro rfl
    cases hsolid
  clear hu hsolid
  induction t generalizing semicolon with
  | nil => exact absurd rfl hne
  | cons c t ih =>
    obtain ⟨hc, ht⟩ := Bool.and_eq_true_iff.mp ht
    simp only [isInert, Bool.and_eq_true, Bool.not_eq_true', bne_iff_ne] at hc
    obtain ⟨⟨hb, hs⟩, hclose⟩ := hc
    rw [List.cons_append, dangles, hb, if_neg Bool.false_ne_true, beq_eq_false_iff_ne.mpr hclose,
      beq_eq_false_iff_ne.mpr hs, Bool.and_false, Bool.false_or]
    by_cases htn : t = []
    · rw [htn, List.nil_append]
    · exact ih false ht htn

private theorem dangles_word {t : List Char} (h : Token t s r) (semicolon : Bool)
    (hw : Text.isWord t = true) : dangles semicolon s = dangles false r := by
  apply dangles_token h semicolon (isSolid_of_isWord hw)
  apply List.all_eq_true.mpr
  intro c hc
  exact isInert_of_isWordPart (Text.isWordPart_of_mem_of_isWord hw hc)

private theorem dangles_numeral {n : Nat} (h : Numeral n s r) (semicolon : Bool) :
    dangles semicolon s = dangles false r := by
  obtain ⟨digits, hne, hall, -, -, ht, -⟩ := h
  refine dangles_token ht semicolon (isSolid_of_digits hne hall)
    (List.all_eq_true.mpr fun c hc ↦ ?_)
  exact isInert_of_isWordPart (Text.isWordPart_of_isDigit (hall c hc))

private theorem dangles_symbol {op : Binop} (h : Token op.symbol.toList s r) (semicolon : Bool) :
    dangles semicolon s = dangles false r := by
  have hinert : op.symbol.toList.all isInert = true := by cases op <;> decide
  exact dangles_token h semicolon (isSolid_symbol op) hinert

private theorem dangles_close (h : Token ['\x7d'] s r) : dangles false s = dangles false r := by
  obtain ⟨u, hu, rfl⟩ := h
  rw [List.append_assoc, dangles_blank hu]
  rfl

private theorem dangles_semicolon (h : Token [';'] s r) (semicolon : Bool) :
    dangles semicolon s = dangles true r := by
  obtain ⟨u, hu, rfl⟩ := h
  rw [List.append_assoc, dangles_blank hu]
  cases semicolon <;> rfl

mutual

/-- An expression clears the flag. -/
theorem Derives.dangles_eq {d k : Nat} {s r : List Char} {e : Tree} :
    Derives d k s e r → ∀ semicolon, dangles semicolon s = dangles false r
  | .chain _ hfirst hpairs, semicolon => (hfirst.dangles_eq semicolon).trans hpairs.dangles_eq
  | .negName ht hx, semicolon =>
    (dangles_token ht semicolon rfl rfl).trans (dangles_word hx.2.1 false hx.1.1)
  | .negParens ht ho he hc, semicolon =>
    calc dangles semicolon _
        = dangles false _ := dangles_token ht semicolon rfl rfl
      _ = dangles false _ := dangles_token ho false rfl rfl
      _ = dangles false _ := he.dangles_eq false
      _ = dangles false _ := dangles_token hc false rfl rfl
  | .atom h, semicolon => h.dangles_eq semicolon
  | .parens ho he hc, semicolon =>
    calc dangles semicolon _
        = dangles false _ := dangles_token ho semicolon rfl rfl
      _ = dangles false _ := he.dangles_eq false
      _ = dangles false _ := dangles_token hc false rfl rfl
  | .name hx, semicolon => dangles_word hx.2.1 semicolon hx.1.1
  | .number hn, semicolon => dangles_numeral hn semicolon

/-- Pairs leave the flag cleared. -/
theorem Pairs.dangles_eq {d k : Nat} {s r : List Char} {pairs : List (Binop × Tree)} :
    Pairs d k s pairs r → dangles false s = dangles false r
  | .nil => rfl
  | .cons _ ht he hrest =>
    calc dangles false _
        = dangles false _ := dangles_symbol ht false
      _ = dangles false _ := he.dangles_eq false
      _ = dangles false _ := hrest.dangles_eq

end

mutual

/-- A command clears the flag. -/
theorem DerivesCommand.dangles_eq {d : Nat} {s r : List Char} {c : Tree} :
    DerivesCommand d s c r → ∀ semicolon, dangles semicolon s = dangles false r
  | .assign hx ht he, semicolon =>
    calc dangles semicolon _
        = dangles false _ := dangles_word hx.2.1 semicolon hx.1.1
      _ = dangles false _ := dangles_token ht false rfl rfl
      _ = dangles false _ := he.dangles_eq false
  | .conditional hif he hthen hy helse hz, semicolon =>
    calc dangles semicolon _
        = dangles false _ := dangles_word hif.1 semicolon rfl
      _ = dangles false _ := he.dangles_eq false
      _ = dangles false _ := dangles_word hthen.1 false rfl
      _ = dangles false _ := hy.dangles_eq false
      _ = dangles false _ := dangles_word helse.1 false rfl
      _ = dangles false _ := hz.dangles_eq false
  | .loop hwhile he hdo hb, semicolon =>
    calc dangles semicolon _
        = dangles false _ := dangles_word hwhile.1 semicolon rfl
      _ = dangles false _ := he.dangles_eq false
      _ = dangles false _ := dangles_word hdo.1 false rfl
      _ = dangles false _ := hb.dangles_eq false
  | .emptyBlock hopen hclose, semicolon =>
    (dangles_token hopen semicolon rfl rfl).trans (dangles_close hclose)
  | .block hopen hc hcs hclose, semicolon =>
    calc dangles semicolon _
        = dangles false _ := dangles_token hopen semicolon rfl rfl
      _ = dangles false _ := hc.dangles_eq false
      _ = dangles false _ := hcs.dangles_eq
      _ = dangles false _ := dangles_close hclose

/-- Members leave the flag cleared: each semicolon is followed by a command. -/
theorem Members.dangles_eq {d : Nat} {s r : List Char} {cs : List Tree} :
    Members d s cs r → dangles false s = dangles false r
  | .nil => rfl
  | .cons ht hc hrest =>
    calc dangles false _
        = dangles true _ := dangles_semicolon ht false
      _ = dangles false _ := hc.dangles_eq true
      _ = dangles false _ := hrest.dangles_eq

end

private theorem dangles_append {u v w : List Char} (hv : Blank v) (semicolon : Bool) :
    dangles semicolon (u ++ ';' :: v ++ '\x7d' :: w) = true := by
  induction u generalizing semicolon with
  | nil =>
    have hstep : dangles semicolon (';' :: (v ++ '\x7d' :: w)) =
        (semicolon && ';' == '\x7d' || dangles true (v ++ '\x7d' :: w)) := rfl
    rw [List.nil_append, List.cons_append, hstep, dangles_blank hv]
    have hclose : dangles true ('\x7d' :: w) = true := rfl
    rw [hclose, Bool.or_true]
  | cons c u ih =>
    rw [List.cons_append, List.cons_append, dangles]
    by_cases hc : Text.isBlank c = true
    · rw [if_pos hc]
      exact ih semicolon
    · rw [if_neg hc, ih, Bool.or_true]

/-- In no command is there a semicolon before a closing brace. -/
theorem CommandText.ne_semicolon_brace {text u v w : List Char} (h : CommandText d text c)
    (hv : Blank v) : text ≠ u ++ ';' :: v ++ '\x7d' :: w := by
  rintro rfl
  obtain ⟨r, hr, hc⟩ := h
  have hend : dangles false r = false := by
    have := dangles_blank (s := []) hr false
    rw [List.append_nil] at this
    rw [this]
    rfl
  have hscan := hc.dangles_eq false
  rw [dangles_append hv, hend] at hscan
  cases hscan

/-! ## Conditionals with one branch -/

/-- Places of a text where a word begins. -/
def wordPlaces : List Char → List (List Char)
  | [] => []
  | c :: cs =>
    if Text.isWordStart c then (c :: cs) :: wordPlaces (cs.dropWhile Text.isWordPart)
    else wordPlaces cs
termination_by s => s.length
decreasing_by
  · have := (List.dropWhile_suffix Text.isWordPart (l := cs)).length_le
    simp only [List.length_cons]
    omega
  · simp only [List.length_cons]
    omega

/-- A conditional without a second branch stands at the front of `s`: a condition and a branch, and
behind them neither `else` nor an operator with which the branch goes on. -/
def OneArmed (s : List Char) : Prop :=
  ∃ d d' m₁ e m₂ m₃ y m₄, Keyword "if" s m₁ ∧ Derives d 0 m₁ e m₂ ∧ Keyword "then" m₂ m₃ ∧
    DerivesCommand d' m₃ y m₄ ∧ Follow 0 m₄ ∧ ∀ m₅, ¬Keyword "else" m₄ m₅

/-- A conditional at the front of `s` has both branches, if there is one. -/
def TwoArmed (s : List Char) : Prop :=
  ∀ m₁, Keyword "if" s m₁ → ∃ d d' e m₂ m₃ y m₄ m₅, Derives d 0 m₁ e m₂ ∧ Keyword "then" m₂ m₃ ∧
    DerivesCommand d' m₃ y m₄ ∧ Keyword "else" m₄ m₅

/-- Between `s` and `r` all conditionals have both branches. -/
def Covers (s r : List Char) : Prop := ∀ p ∈ wordPlaces s, p ∈ wordPlaces r ∨ TwoArmed p

namespace Covers

/-- Nothing is to be covered in an empty part. -/
theorem refl (s : List Char) : Covers s s := fun _ hp ↦ .inl hp

/-- Parts one after the other are covered together. -/
theorem trans (h : Covers s m) (h' : Covers m r) : Covers s r := by
  intro p hp
  rcases h p hp with hm | ht
  · exact h' p hm
  · exact .inr ht

end Covers

private theorem wordPlaces_append {t : List Char} (ht : t.all (!Text.isWordStart ·) = true) :
    wordPlaces (t ++ r) = wordPlaces r := by
  induction t with
  | nil => rfl
  | cons c t ih =>
    obtain ⟨hc, ht⟩ := Bool.and_eq_true_iff.mp ht
    have hc : Text.isWordStart c = false := by simpa using hc
    rw [List.cons_append, wordPlaces, hc, ih ht]
    rfl

private theorem isWordStart_eq_false_of_isBlank {c : Char} (h : Text.isBlank c = true) :
    Text.isWordStart c = false := by
  by_contra hc
  rw [Bool.not_eq_false] at hc
  rw [isBlank_eq_false_of_isWordStart hc] at h
  cases h

private theorem wordPlaces_skipBlank (s : List Char) : wordPlaces s = wordPlaces (skipBlank s) := by
  obtain ⟨u, hu, hs⟩ := exists_blank_append s
  have hall : u.all (!Text.isWordStart ·) = true := List.all_eq_true.mpr fun c hc ↦ by
    rw [isWordStart_eq_false_of_isBlank (hu c hc)]
    rfl
  rw [← wordPlaces_append (r := skipBlank s) hall, ← hs]

namespace Covers

private theorem of_token {t : List Char} (h : Token t s r) (ht : isSolid t = true)
    (hl : t.all (!Text.isWordStart ·) = true) : Covers s r := by
  intro p hp
  rw [wordPlaces_skipBlank, (Token.iff_skipBlank ht).mp h, wordPlaces_append hl] at hp
  exact .inl hp

private theorem of_word {k : String} (h : Keyword k s r) (hp : TwoArmed (skipBlank s))
    (hw : Text.isWord k.toList = true) : Covers s r := by
  obtain ⟨h, hr⟩ := h
  generalize k.toList = w at h hw
  intro p hmem
  rw [wordPlaces_skipBlank] at hmem
  have hs := (Token.iff_skipBlank (isSolid_of_isWord hw)).mp h
  cases w with
  | nil => cases hw
  | cons c w =>
    have hc : Text.isWordStart c = true := (Bool.and_eq_true_iff.mp hw).1
    have hall : ∀ a ∈ w, Text.isWordPart a = true :=
      List.all_eq_true.mp (Bool.and_eq_true_iff.mp hw).2
    have hrest : (w ++ r).dropWhile Text.isWordPart = r := by
      rw [List.dropWhile_append_of_pos hall]
      cases r with
      | nil => rfl
      | cons a r => exact List.dropWhile_cons_of_neg (by rw [stops_cons.mp hr]; exact nofun)
    rw [hs, List.cons_append, wordPlaces, if_pos hc, hrest] at hmem
    rcases List.mem_cons.mp hmem with rfl | hmem
    · rw [hs] at hp
      exact .inr hp
    · exact .inl hmem

private theorem of_other {w : String} (h : Keyword w s r) (hne : w ≠ "if")
    (hw : Text.isWord w.toList = true) : Covers s r := by
  apply of_word h _ hw
  intro m hm
  have hs : Token w.toList (skipBlank s) r := by
    rw [(Token.iff_skipBlank (isSolid_of_isWord hw)).mp h.1]
    exact ⟨[], blank_nil, rfl⟩
  exact absurd (word_unique ⟨hs, h.2⟩ hm hw rfl).1 hne

private theorem of_name {x : String} (h : Name x s r) : Covers s r := by
  apply of_other h.2 _ h.1.1
  rintro rfl
  exact absurd h.1.2 (by decide)

private theorem of_numeral {n : Nat} (h : Numeral n s r) : Covers s r := by
  obtain ⟨digits, hne, hall, -, -, ht, -⟩ := h
  have hl : digits.all (!Text.isWordStart ·) = true := List.all_eq_true.mpr fun c hc ↦ by
    rw [isWordStart_eq_false_of_isDigit (hall c hc)]
    rfl
  exact of_token ht (isSolid_of_digits hne hall) hl

private theorem of_symbol {op : Binop} (h : Token op.symbol.toList s r) : Covers s r :=
  of_token h (isSolid_symbol op) (by cases op <;> decide)

end Covers

mutual

/-- No conditional stands in an expression. -/
theorem Derives.covers {d k : Nat} {s r : List Char} {e : Tree} : Derives d k s e r → Covers s r
  | .chain _ hfirst hpairs => hfirst.covers.trans hpairs.covers
  | .negName ht hx => (Covers.of_token ht rfl rfl).trans (.of_name hx)
  | .negParens ht ho he hc =>
    (Covers.of_token ht rfl rfl).trans
      ((Covers.of_token ho rfl rfl).trans
        (he.covers.trans (.of_token hc rfl rfl)))
  | .atom h => h.covers
  | .parens ho he hc =>
    (Covers.of_token ho rfl rfl).trans
      (he.covers.trans (.of_token hc rfl rfl))
  | .name hx => .of_name hx
  | .number hn => .of_numeral hn

/-- No conditional stands in the operands of a stratum. -/
theorem Pairs.covers {d k : Nat} {s r : List Char} {pairs : List (Binop × Tree)} :
    Pairs d k s pairs r → Covers s r
  | .nil => .refl _
  | .cons _ ht he hrest => (Covers.of_symbol ht).trans (he.covers.trans hrest.covers)

end

private theorem twoArmed_of_derives {d' : Nat} {m₁ m₂ m₃ m₄ m₅ : List Char} {y : Tree}
    (hif : Keyword "if" s m₁) (he : Derives d 0 m₁ e m₂) (hthen : Keyword "then" m₂ m₃)
    (hy : DerivesCommand d' m₃ y m₄) (helse : Keyword "else" m₄ m₅) : TwoArmed (skipBlank s) := by
  intro m hm
  have hs := (Token.iff_skipBlank (by decide)).mp hif.1
  have ht : Token "if".toList (skipBlank s) m₁ := ⟨[], blank_nil, hs⟩
  obtain rfl := ht.unique hm.1 rfl
  exact ⟨d, d', e, m₂, m₃, y, m₄, m₅, he, hthen, hy, helse⟩

mutual

/-- All conditionals in a command have both branches. -/
theorem DerivesCommand.covers {d : Nat} {s r : List Char} {c : Tree} :
    DerivesCommand d s c r → Covers s r
  | .assign hx ht he =>
    (Covers.of_name hx).trans ((Covers.of_token ht rfl rfl).trans he.covers)
  | .conditional hif he hthen hy helse hz =>
    have htwo := twoArmed_of_derives hif he hthen hy helse
    (Covers.of_word hif htwo rfl).trans
      (he.covers.trans
        ((Covers.of_other hthen (by decide) rfl).trans
          (hy.covers.trans
            ((Covers.of_other helse (by decide) rfl).trans hz.covers))))
  | .loop hwhile he hdo hb =>
    (Covers.of_other hwhile (by decide) rfl).trans
      (he.covers.trans
        ((Covers.of_other hdo (by decide) rfl).trans hb.covers))
  | .emptyBlock hopen hclose =>
    (Covers.of_token hopen rfl rfl).trans
      (.of_token hclose rfl rfl)
  | .block hopen hc hcs hclose =>
    (Covers.of_token hopen rfl rfl).trans
      (hc.covers.trans (hcs.covers.trans (.of_token hclose rfl rfl)))

/-- All conditionals in the members of a block have both branches. -/
theorem Members.covers {d : Nat} {s r : List Char} {cs : List Tree} :
    Members d s cs r → Covers s r
  | .nil => .refl _
  | .cons ht hc hrest =>
    (Covers.of_token ht rfl rfl).trans (hc.covers.trans hrest.covers)

end

/-- Nowhere in a command does a conditional lack its second branch. -/
theorem CommandText.not_oneArmed {text p : List Char} (h : CommandText d text c)
    (hp : p ∈ wordPlaces text) : ¬OneArmed p := by
  rintro ⟨d₁, d₂, m₁, e, m₂, m₃, y, m₄, hif, he, hthen, hy, hfollow, helse⟩
  obtain ⟨r, hr, hc⟩ := h
  have hend : wordPlaces r = [] := by
    rw [wordPlaces_skipBlank, skipBlank_eq_nil_iff.mpr hr, wordPlaces]
  rcases hc.covers p hp with hmem | htwo
  · rw [hend] at hmem
    cases hmem
  · obtain ⟨d₁', d₂', e', m₂', m₃', y', m₄', m₅, he', hthen', hy', helse'⟩ := htwo m₁ hif
    obtain ⟨-, rfl⟩ := he.unique he' (.of_keyword hthen rfl)
      (.of_keyword hthen' rfl)
    obtain rfl := hthen.1.unique hthen'.1 rfl
    obtain ⟨-, rfl⟩ := hy.unique hy' hfollow (.of_keyword helse' rfl)
    exact helse m₅ helse'

end WhileSyntax.Grammar
