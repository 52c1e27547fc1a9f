import WhileSyntax.Proofs.Grammar.Rejection
import WhileSyntax.Proofs.Parser.Whole

/-!
# Whole texts are accepted by their grammar

The texts that the parsers accept are the texts of the grammar, with the trees of the grammar. The
one exception are texts that nest too deeply, and a derivation that nests at most 20 deep is never
too deep. None of this depends on the number of levels there are, as long as they are enough for the
derivation: an expression that nests `d` deep takes `d + 1` levels, a command takes one more.
-/

namespace WhileSyntax.Grammar

open WhileSyntax.Parser

variable {d levels : Nat} {text : List Char} {e c : Tree}

/-! ## Expressions -/

/-- An accepted text is an expression. -/
theorem expressionText_of_accepted
    (h : ((expression levels).readAll text).answer = .ok (some e)) :
    ExpressionText levels text e := by
  obtain ⟨r, hread, hr⟩ := (readAll_eq_some_iff (bounded_expression levels)).mp h
  exact ⟨r, hr, derives_of_reads levels _ _ _ hread⟩

/-- An expression is accepted unless it nests too deeply. -/
theorem ExpressionText.accepted_or_tooDeep (h : ExpressionText d text e) (levels : Nat) :
    ((expression levels).readAll text).answer = .ok (some e) ∨
      (expression levels).readAll text = .note (.tooDeep "expression") (.ok none) := by
  obtain ⟨r, hr, he⟩ := h
  have hlevels : levels ≤ max levels (d + 1) := Nat.le_max_left _ _
  have hread := reads_expression_of_derives he (Follow.of_blank hr)
    (show d < max levels (d + 1) by omega)
  have := readAll_eq_some_or_tooDeep (below_expression hlevels) hread hr
  rwa [(describe_expression levels).1] at this

/-- An expression that leaves a level of nesting is accepted. -/
theorem ExpressionText.accepted (h : ExpressionText d text e) (hd : d < levels) :
    ((expression levels).readAll text).answer = .ok (some e) := by
  obtain ⟨r, hr, he⟩ := h
  exact (readAll_eq_some_iff (bounded_expression levels)).mpr
    ⟨r, reads_expression_of_derives he (Follow.of_blank hr) hd, hr⟩

/-- A text is one expression. -/
theorem ExpressionText.unique {d' : Nat} {e' : Tree} (h : ExpressionText d text e)
    (h' : ExpressionText d' text e') : e = e' := by
  obtain ⟨r, hr, he⟩ := h
  obtain ⟨r', hr', he'⟩ := h'
  exact (he.unique he' (Follow.of_blank hr) (Follow.of_blank hr')).1

/-- The expression parser accepts exactly its grammar: what it returns is derived, what is derived
it returns unless the nesting is too deep, and 20 levels are never too deep, here and with any other
limit above 20. The grammar gives a text one tree. -/
theorem parseExpression_exact (text : List Char) (e : Tree) :
    ((parseExpression text).answer = .ok (some e) → ∃ d, ExpressionText d text e) ∧
    (∀ d, ExpressionText d text e → (parseExpression text).answer = .ok (some e) ∨
      parseExpression text = .note (.tooDeep "expression") (.ok none)) ∧
    (∀ d, d ≤ 20 → ExpressionText d text e → (parseExpression text).answer = .ok (some e) ∧
      ∀ limit, 20 < limit → ((expression limit).readAll text).answer = .ok (some e)) ∧
    (∀ d d' e', ExpressionText d text e → ExpressionText d' text e' → e = e') := by
  refine ⟨fun h ↦ ⟨nestingLimit, expressionText_of_accepted h⟩, ?_, ?_, ?_⟩
  · intro d h
    exact h.accepted_or_tooDeep nestingLimit
  · intro d hd h
    have hall : ∀ limit, 20 < limit → ((expression limit).readAll text).answer = .ok (some e) :=
      fun limit hlimit ↦ h.accepted (Nat.lt_of_le_of_lt hd hlimit)
    exact ⟨hall nestingLimit (by decide), hall⟩
  · intro d d' e' h h'
    exact h.unique h'

/-- Shared beginnings of operators, two kinds of minus and a constant in parentheses. -/
theorem parseExpression_exact_minus : ∃ d, ExpressionText d "a<=b - -(5)*-c ".toList
    (.binary .lessEq (.var "a") (.binary .minus (.var "b")
      (.binary .times (.neg (.const 5)) (.neg (.var "c"))))) :=
  (parseExpression_exact _ _).1 rfl

/-! ## Commands -/

/-- An accepted text is a command. -/
theorem commandText_of_accepted (h : ((command levels).readAll text).answer = .ok (some c)) :
    CommandText levels text c := by
  obtain ⟨r, hread, hr⟩ := (readAll_eq_some_iff (bounded_command levels)).mp h
  exact ⟨r, hr, derivesCommand_of_reads levels _ _ _ hread⟩

/-- A command is accepted unless it nests too deeply. -/
theorem CommandText.accepted_or_tooDeep (h : CommandText d text c) (levels : Nat) :
    ((command levels).readAll text).answer = .ok (some c) ∨
      (command levels).readAll text = .note (.tooDeep "command") (.ok none) := by
  obtain ⟨r, hr, hc⟩ := h
  have hlevels : levels ≤ max levels (d + 2) := Nat.le_max_left _ _
  have hread := reads_command_of_derives hc (Follow.of_blank hr)
    (show d + 2 ≤ max levels (d + 2) by omega)
  have := readAll_eq_some_or_tooDeep (below_command hlevels) hread hr
  rwa [(describe_command levels).1] at this

/-- A command that leaves two levels of nesting is accepted. -/
theorem CommandText.accepted (h : CommandText d text c) (hd : d + 2 ≤ levels) :
    ((command levels).readAll text).answer = .ok (some c) := by
  obtain ⟨r, hr, hc⟩ := h
  exact (readAll_eq_some_iff (bounded_command levels)).mpr
    ⟨r, reads_command_of_derives hc (Follow.of_blank hr) hd, hr⟩

/-- The command parser accepts exactly its grammar: what it returns is derived, what is derived it
returns unless the nesting is too deep, and 20 levels are never too deep, here and with any other
limit that leaves one level for the command and one for its expressions. In an accepted text no name
is a reserved word, no semicolon stands before a closing brace, and no conditional lacks its second
branch. -/
theorem parseCommand_exact (text : List Char) (c : Tree) :
    ((parseCommand text).answer = .ok (some c) → ∃ d, CommandText d text c) ∧
    (∀ d, CommandText d text c → (parseCommand text).answer = .ok (some c) ∨
      parseCommand text = .note (.tooDeep "command") (.ok none)) ∧
    (∀ d, d ≤ 20 → CommandText d text c → (parseCommand text).answer = .ok (some c) ∧
      ∀ limit, 20 + 2 ≤ limit → ((command limit).readAll text).answer = .ok (some c)) ∧
    ((parseCommand text).answer = .ok (some c) →
      (∀ x, .name x ∈ c.leaves → Text.isReserved x = false) ∧
      (∀ u v w, Blank v → text ≠ u ++ ';' :: v ++ '\x7d' :: w) ∧
      ∀ p ∈ wordPlaces text, ¬OneArmed p) := by
  refine ⟨fun h ↦ ⟨nestingLimit, commandText_of_accepted h⟩, ?_, ?_, fun h ↦ ?_⟩
  · intro d h
    exact h.accepted_or_tooDeep nestingLimit
  · intro d hd h
    have hall : ∀ limit, 20 + 2 ≤ limit → ((command limit).readAll text).answer = .ok (some c) :=
      fun limit hlimit ↦ h.accepted (by omega)
    exact ⟨hall nestingLimit (by decide), hall⟩
  · have hc := commandText_of_accepted h
    obtain ⟨r, -, hd⟩ := id hc
    refine ⟨fun x hx ↦ (hd.spelled.2 _ hx).2, fun u v w hv ↦ ?_, fun p hp ↦ ?_⟩
    · exact hc.ne_semicolon_brace hv
    · exact hc.not_oneArmed hp

/-- A keyword right behind a number, and branches of both kinds. -/
theorem parseCommand_exact_keywords : ∃ d, CommandText d
    "if 1then\x7bthenx=2;\x7b\x7d\x7delse while a do b=-(c)".toList
    (.conditional (.const 1) (.block [.assign "thenx" (.const 2), .block []])
      (.loop (.var "a") (.assign "b" (.neg (.var "c"))))) :=
  (parseCommand_exact _ _).1 rfl

end WhileSyntax.Grammar
