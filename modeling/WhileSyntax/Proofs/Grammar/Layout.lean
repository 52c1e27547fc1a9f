import WhileSyntax.Proofs.Grammar.CommandExtension
import WhileSyntax.Proofs.Parser.Layout

/-!
# Layout

Expressions and commands are read without regard to layout: two texts that have the same pieces get
the same answers, and where a text is left over, its diagnostics are about corresponding characters
(`layout_is_irrelevant`).
-/

namespace WhileSyntax.Grammar

open WhileSyntax.Parser

variable {inner : Parser Tree}

/-! ## The parsers of the grammars -/

private theorem indifferent_const : Indifferent const := (Indifferent.number.map _).named _

private theorem indifferent_var : Indifferent var := (Indifferent.ident.map _).named _

private theorem indifferent_parens {α : Type} {p : Parser α} (hp : Indifferent p) :
    Indifferent (parens p) :=
  ((Indifferent.symbol (by decide) (by decide)).andThen hp).skip
    (.symbol (by decide) (by decide))

private theorem indifferent_unary (hi : Indifferent inner) : Indifferent (unary inner) := by
  have hminus : ∀ {p : Parser Tree}, Indifferent p →
      Indifferent (((symbol "-").andThen p).map Tree.neg) :=
    fun hp ↦ ((Indifferent.symbol (by decide) (by decide)).andThen hp).map _
  have hatom : Indifferent (atom inner) :=
    (((indifferent_parens hi).orElse indifferent_var).orElse indifferent_const).named _
  refine (Indifferent.choice fun p hp ↦ ?_).named _
  simp only [List.mem_cons, List.not_mem_nil, or_false] at hp
  rcases hp with rfl | rfl | rfl | rfl
  · exact hminus indifferent_var
  · exact hminus (indifferent_parens indifferent_const)
  · exact hminus (indifferent_parens hi)
  · exact hatom

private theorem indifferent_binaryTier {α : Type} {join : Binop → α → α → α} {operand : Parser α}
    {ops : List Binop} {name : String} (ho : Indifferent operand) :
    Indifferent (binaryTier join operand ops name) := by
  have hpair : Indifferent (pair operand ops) := by
    refine .choice fun p hp ↦ ?_
    obtain ⟨op, -, rfl⟩ := List.mem_map.mp hp
    have hop : Indifferent (symbol op.symbol) :=
      .symbol (by cases op <;> decide) (by cases op <;> decide)
    exact (hop.andThen ho).map _
  exact (ho.bind fun _ ↦ (hpair.many (advances_pair operand ops) consumes_pair).map _).named _

/-- Expressions are indifferent. -/
theorem indifferent_expression (n : Nat) : Indifferent (expression n) := by
  induction n with
  | zero => exact Indifferent.bottomless.lazy _ _
  | succ n ih =>
    have htier : Indifferent (disjunction (expression n)) :=
      indifferent_binaryTier (indifferent_binaryTier (indifferent_binaryTier
        (indifferent_binaryTier (indifferent_binaryTier (indifferent_unary ih)))))
    exact htier.lazy _ _

/-- Commands are indifferent. -/
theorem indifferent_command (n : Nat) : Indifferent (command n) := by
  induction n with
  | zero => exact Indifferent.bottomless.lazy _ _
  | succ n ih =>
    have he := indifferent_expression n
    have hkeyword : ∀ {p : Parser Tree} {k : String}, Text.isWord k.toList = true →
        Indifferent p → Indifferent ((keyword k).andThen p) :=
      fun hk hp ↦ (Indifferent.keyword hk).andThen hp
    have hlist : Indifferent (sepBy (command n) (symbol ";")) :=
      ih.sepBy (.symbol (by decide) (by decide)) (advances_member (command n)) rfl
    have hassign : Indifferent (assign (expression n)) :=
      (Indifferent.ident.bind fun _ ↦
        ((Indifferent.symbol (by decide) (by decide)).andThen he).map _).named _
    have hconditional : Indifferent (conditional (expression n) (command n)) :=
      ((hkeyword rfl he).bind fun _ ↦ (hkeyword rfl ih).bind fun _ ↦
        (hkeyword rfl ih).map _).named _
    have hloop : Indifferent (loop (expression n) (command n)) :=
      ((hkeyword rfl he).bind fun _ ↦ (hkeyword rfl ih).map _).named _
    have hblock : Indifferent (block (command n)) :=
      ((((Indifferent.symbol (by decide) (by decide)).andThen hlist).skip
        (.symbol (by decide) (by decide))).map _).named _
    refine Indifferent.lazy (Indifferent.choice fun p hp ↦ ?_) _ _
    simp only [List.mem_cons, List.not_mem_nil, or_false] at hp
    rcases hp with rfl | rfl | rfl | rfl
    · exact hassign
    · exact hconditional
    · exact hloop
    · exact hblock

/-! ## Whole texts -/

/-- Layout is irrelevant. Texts with the same pieces, whatever white space stands between them and
around them, are the same expression or command, or none, or meet the same fault, and their
diagnostics have one code and are about corresponding characters where text is left over. -/
theorem layout_is_irrelevant {text text' : List Char} (h : pieces text = pieces text') :
    (parseExpression text).answer = (parseExpression text').answer ∧
    (parseCommand text).answer = (parseCommand text').answer ∧
    ∀ filename,
      SameVerdict text text' (parseExpressionStrict text filename).answer
        (parseExpressionStrict text' filename).answer ∧
      SameVerdict text text' (parseCommandStrict text filename).answer
        (parseCommandStrict text' filename).answer := by
  have he := answersAlike_of_pieces (indifferent_expression nestingLimit) "expression" h
  have hc := answersAlike_of_pieces (indifferent_command nestingLimit) "command" h
  exact ⟨he.lax, hc.lax, fun filename ↦ ⟨he.strict filename, hc.strict filename⟩⟩

/-- The keyword that is left over is found behind any white space. -/
theorem layout_is_irrelevant_left_over :
    pieces "a-(b +c) then".toList = pieces "\ta-(b\n\n  +c)\r\nthen ".toList ∧
    SameVerdict "a-(b +c) then".toList "\ta-(b\n\n  +c)\r\nthen ".toList
      (parseExpressionStrict "a-(b +c) then".toList "left").answer
      (parseExpressionStrict "\ta-(b\n\n  +c)\r\nthen ".toList "left").answer := by
  have h : pieces "a-(b +c) then".toList = pieces "\ta-(b\n\n  +c)\r\nthen ".toList := by decide
  exact ⟨h, ((layout_is_irrelevant h).2.2 "left").1⟩

end WhileSyntax.Grammar
