import WhileSyntax.Proofs.Grammar.Token

/-!
# Pieces of a text

The pieces of a text are its longest runs of characters that are no white space, in their order. Two
texts have the same pieces when they differ in white space only, and in none where one of them has
some between two characters and the other has none. A token stands inside of one piece, so it is
found in both of them, and what is left has the same pieces again (`Token.respaced`).
-/

namespace WhileSyntax.Grammar

variable {s s' t r w : List Char}

/-- The longest runs of characters that are no white space. -/
def pieces (text : List Char) : List (List Char) := (text.splitOnP Text.isBlank).filter (· ≠ [])

/-- Characters that are no white space and nothing else. -/
def Unbroken (w : List Char) : Prop := ∀ c ∈ w, Text.isBlank c = false

/-! ## White space between pieces -/

private theorem pieces_append_cons {c : Char} (hc : Text.isBlank c = true) (s t : List Char) :
    pieces (s ++ c :: t) = pieces s ++ pieces t := by
  unfold pieces
  rw [List.splitOnP_append_cons s t hc, List.filter_append]

/-- Nothing has no pieces. -/
theorem pieces_nil : pieces [] = [] := by
  simp [pieces, List.splitOnP_nil]

/-- White space in front belongs to no piece. -/
theorem pieces_blank_append {u : List Char} (hu : Blank u) (s : List Char) :
    pieces (u ++ s) = pieces s := by
  induction u with
  | nil => rfl
  | cons c u ih =>
    obtain ⟨hc, hu⟩ := List.forall_mem_cons.mp hu
    have hsplit := pieces_append_cons hc [] (u ++ s)
    rw [pieces_nil, List.nil_append, List.nil_append] at hsplit
    rw [List.cons_append, hsplit, ih hu]

private theorem pieces_of_unbroken (hw : Unbroken w) (hne : w ≠ []) : pieces w = [w] := by
  rw [pieces, List.splitOnP_eq_singleton hw]
  simp [hne]

/-- A run that ends at white space or at the end of the text is a piece. -/
theorem pieces_append (hw : Unbroken w) (hne : w ≠ []) (hr : Stops (!Text.isBlank ·) r) :
    pieces (w ++ r) = w :: pieces r := by
  cases r with
  | nil => rw [List.append_nil, pieces_of_unbroken hw hne, pieces_nil]
  | cons c r =>
    have hc : Text.isBlank c = true := by simpa using stops_cons.mp hr
    have hfront : pieces r = pieces (c :: r) := (pieces_blank_append (blank_singleton hc) r).symm
    rw [pieces_append_cons hc, pieces_of_unbroken hw hne, hfront, List.singleton_append]

/-! ## The first piece -/

private theorem exists_skipBlank_eq_cons (h : ¬Blank s) :
    ∃ c t, skipBlank s = c :: t ∧ Text.isBlank c = false := by
  obtain ⟨c, t, hs⟩ := List.exists_cons_of_ne_nil (mt skipBlank_eq_nil_iff.mp h)
  refine ⟨c, t, hs, stops_dropWhile Text.isBlank s c ?_⟩
  rw [← skipBlank, hs]
  rfl

private theorem exists_piece (s : List Char) : ∃ w r,
    skipBlank s = w ++ r ∧ Unbroken w ∧ Stops (!Text.isBlank ·) r ∧ (w = [] → Blank s) := by
  have hs := List.takeWhile_append_dropWhile (p := (!Text.isBlank ·)) (l := skipBlank s)
  refine ⟨_, _, hs.symm, fun c hc ↦ ?_, stops_dropWhile _ _, fun hw ↦ ?_⟩
  · simpa using List.mem_takeWhile_imp hc
  · by_contra hs'
    obtain ⟨c, t, hskip, hc⟩ := exists_skipBlank_eq_cons hs'
    rw [hskip, List.takeWhile_cons_of_pos (by rw [hc]; rfl)] at hw
    cases hw

/-- White space in front belongs to no piece. -/
theorem pieces_skipBlank (s : List Char) : pieces (skipBlank s) = pieces s := by
  obtain ⟨u, hu, hs⟩ := exists_blank_append s
  calc pieces (skipBlank s) = pieces (u ++ skipBlank s) := (pieces_blank_append hu _).symm
    _ = pieces s := by rw [← hs]

/-- White space alone has no pieces. -/
theorem pieces_eq_nil_iff : pieces s = [] ↔ Blank s := by
  constructor
  · intro h
    obtain ⟨w, r, hs, hw, hr, hblank⟩ := exists_piece s
    by_cases hne : w = []
    · exact hblank hne
    · rw [← pieces_skipBlank, hs, pieces_append hw hne hr] at h
      cases h
  · intro h
    rw [← pieces_skipBlank, skipBlank_eq_nil_iff.mpr h, pieces_nil]

/-- A token inside of a piece is found in every text of the same pieces, and what is left has the
same pieces, and goes on with the same piece if it goes on with one. -/
theorem Token.respaced (ht : Token t s r) (hall : Unbroken t) (hne : t ≠ [])
    (h : pieces s = pieces s') : ∃ r', Token t s' r' ∧ pieces r = pieces r' ∧
      ∀ test : Char → Bool, (∀ c, Text.isBlank c = true → test c = false) →
        Stops test r → Stops test r' := by
  -- the rest `r` begins with what is left of the piece of the token
  let w := r.takeWhile (!Text.isBlank ·)
  let r₀ := r.dropWhile (!Text.isBlank ·)
  have hr : r = w ++ r₀ := List.takeWhile_append_dropWhile.symm
  have hw : Unbroken w := fun c hc ↦ by simpa using List.mem_takeWhile_imp hc
  have hr₀ : Stops (!Text.isBlank ·) r₀ := stops_dropWhile _ _
  have hpiece : Unbroken (t ++ w) := fun c hc ↦ (List.mem_append.mp hc).elim (hall c) (hw c)
  have hpieces : pieces s = (t ++ w) :: pieces r₀ := by
    obtain ⟨u, hu, rfl⟩ := ht
    rw [hr, List.append_assoc, pieces_blank_append hu, ← List.append_assoc,
      pieces_append hpiece (List.append_ne_nil_of_left_ne_nil hne w) hr₀]
  obtain ⟨w', r₀', hs', hw', hr₀', hblank⟩ := exists_piece s'
  have hne' : w' ≠ [] := by
    intro hnil
    rw [pieces_eq_nil_iff.mpr (hblank hnil), hpieces] at h
    cases h
  rw [hpieces, ← pieces_skipBlank s', hs', pieces_append hw' hne' hr₀'] at h
  obtain ⟨rfl, hrest⟩ := List.cons.inj h
  obtain ⟨u', hu', hsplit⟩ := exists_blank_append s'
  refine ⟨w ++ r₀', ⟨u', hu', ?_⟩, ?_, fun test htest hstop ↦ ?_⟩
  · rw [hsplit, hs']
    simp only [List.append_assoc]
  · rw [hr]
    by_cases hempty : w = []
    · rw [hempty]
      exact hrest
    · rw [pieces_append hw hempty hr₀, pieces_append hw hempty hr₀', hrest]
  · rw [hr] at hstop
    cases hcase : w with
    | nil =>
      intro c hc
      apply htest
      simpa using hr₀' c hc
    | cons c cs =>
      rw [hcase] at hstop
      exact stops_cons.mpr (stops_cons.mp hstop)

/-! ## Characters of pieces -/

/-- The pieces hold the characters that are no white space, in their order. -/
theorem flatten_pieces (s : List Char) : (pieces s).flatten = s.filter (!Text.isBlank ·) := by
  have hsplit : (s.splitOnP Text.isBlank).flatten = s.filter (!Text.isBlank ·) := by
    induction s with
    | nil => simp [List.splitOnP_nil]
    | cons c s ih =>
      rw [List.splitOnP_cons_eq_if_modifyHead]
      by_cases hc : Text.isBlank c = true
      · rw [if_pos hc, List.flatten_cons, List.nil_append, ih,
          List.filter_cons_of_neg (by simp [hc])]
      · obtain ⟨w, ws, hws⟩ := List.exists_cons_of_ne_nil (List.splitOnP_ne_nil Text.isBlank s)
        rw [hws] at ih
        rw [if_neg hc, hws, List.modifyHead_cons, List.flatten_cons, List.cons_append,
          ← List.flatten_cons, ih, List.filter_cons_of_pos (by simp [hc])]
  rw [pieces, List.flatten_filter_ne_nil, hsplit]

/-- The same character that is no white space stands at a place of each of two texts, with the same
such characters in front. -/
def Corresponds (s : List Char) (o : Nat) (s' : List Char) (o' : Nat) : Prop :=
  (∃ c, s[o]? = some c ∧ s'[o']? = some c ∧ Text.isBlank c = false) ∧
    (s.take o).filter (!Text.isBlank ·) = (s'.take o').filter (!Text.isBlank ·)

private theorem filter_eq_of_pieces (h : pieces s = pieces s') :
    s.filter (!Text.isBlank ·) = s'.filter (!Text.isBlank ·) := by
  rw [← flatten_pieces, h, flatten_pieces]

/-- Rests of the same pieces begin at corresponding places behind their white space. -/
theorem corresponds_of_pieces {o o' : Nat} {r' : List Char} (h : pieces s = pieces s')
    (ho : s.drop o = skipBlank r) (ho' : s'.drop o' = skipBlank r') (hr : pieces r = pieces r')
    (hleft : ¬Blank r) : Corresponds s o s' o' := by
  have hleft' : ¬Blank r' := by rwa [← pieces_eq_nil_iff, ← hr, pieces_eq_nil_iff]
  have hrest : (s.drop o).filter (!Text.isBlank ·) = (s'.drop o').filter (!Text.isBlank ·) := by
    apply filter_eq_of_pieces
    rw [ho, ho', pieces_skipBlank, pieces_skipBlank, hr]
  obtain ⟨c, t, hs, hc⟩ := exists_skipBlank_eq_cons hleft
  obtain ⟨c', t', hs', hc'⟩ := exists_skipBlank_eq_cons hleft'
  constructor
  · rw [ho, ho', hs, hs', List.filter_cons_of_pos (by simp [hc]),
      List.filter_cons_of_pos (by simp [hc'])] at hrest
    refine ⟨c, ?_, ?_, hc⟩
    · rw [← List.head?_drop, ho, hs, List.head?_cons]
    · rw [← List.head?_drop, ho', hs', List.head?_cons, (List.cons.inj hrest).1]
  · have hwhole := filter_eq_of_pieces h
    rw [← List.take_append_drop o s, ← List.take_append_drop o' s', List.filter_append,
      List.filter_append, hrest] at hwhole
    exact List.append_cancel_right hwhole

end WhileSyntax.Grammar
