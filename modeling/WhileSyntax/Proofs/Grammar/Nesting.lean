import WhileSyntax.Grammar.Command
import WhileSyntax.Proofs.Parser.Built
import WhileSyntax.Proofs.Parser.Deepening

/-!
# The parsers at different numbers of levels

Whatever the number of levels, the parsers of the grammar are built from the library and stay within
the text. With more levels they do what they did before wherever they did not run out of them.
-/

namespace WhileSyntax.Grammar

open WhileSyntax.Parser

variable {α : Type} {join : Binop → α → α → α} {ops : List Binop} {name : String}

/-! ## Parsers stay within the text -/

/-- Binary tiers are built from their operands. -/
theorem built_binaryTier {operand : Parser α} (h : Built operand) :
    Built (binaryTier join operand ops name) := by
  refine (h.bind fun first ↦ (Built.many (.choice fun p hp ↦ ?_)).map _).named name
  obtain ⟨op, -, rfl⟩ := List.mem_map.mp hp
  exact ((Built.symbol _).andThen h).map _

/-- Parentheses are built from their contents. -/
theorem built_parens {p : Parser α} (h : Built p) : Built (parens p) :=
  ((Built.symbol _).andThen h).skip (.symbol _)

/-- Constants are built from numbers. -/
theorem built_const : Built const := (Built.number.map _).named _

/-- A minus is built from what stands behind it. -/
theorem built_minus {p : Parser Tree} (h : Built p) :
    Built (((symbol "-").andThen p).map Tree.neg) :=
  ((Built.symbol _).andThen h).map _

/-- Unary minus is built from what parentheses hold. -/
theorem built_unary {inner : Parser Tree} (h : Built inner) : Built (unary inner) := by
  have hvar : Built var := (Built.ident.map _).named _
  have hatom : Built (atom inner) := (((built_parens h).orElse hvar).orElse built_const).named _
  refine (Built.choice fun p hp ↦ ?_).named _
  simp only [List.mem_cons, List.not_mem_nil, or_false] at hp
  rcases hp with rfl | rfl | rfl | rfl
  · exact built_minus hvar
  · exact built_minus (built_parens built_const)
  · exact built_minus (built_parens h)
  · exact hatom

/-- Expressions are built from the library. -/
theorem built_expression (n : Nat) : Built (expression n) := by
  induction n with
  | zero => exact Built.bottomless.lazy _ _
  | succ n ih =>
    have htier : Built (disjunction (expression n)) :=
      built_binaryTier (built_binaryTier (built_binaryTier (built_binaryTier
        (built_binaryTier (built_unary ih)))))
    exact htier.lazy _ _

/-- Commands are built from the library. -/
theorem built_command (n : Nat) : Built (command n) := by
  induction n with
  | zero => exact Built.bottomless.lazy _ _
  | succ n ih =>
    have he := built_expression n
    have hassign : Built (assign (expression n)) :=
      (Built.ident.bind fun _ ↦ ((Built.symbol _).andThen he).map _).named _
    have hconditional : Built (conditional (expression n) (command n)) :=
      (((Built.keyword _).andThen he).bind fun _ ↦ ((Built.keyword _).andThen ih).bind fun _ ↦
        ((Built.keyword _).andThen ih).map _).named _
    have hloop : Built (loop (expression n) (command n)) :=
      (((Built.keyword _).andThen he).bind fun _ ↦ ((Built.keyword _).andThen ih).map _).named _
    have hblock : Built (block (command n)) :=
      ((((Built.symbol _).andThen (ih.sepBy (.symbol _))).skip (.symbol _)).map _).named _
    refine Built.lazy (Built.choice fun p hp ↦ ?_) _ _
    simp only [List.mem_cons, List.not_mem_nil, or_false] at hp
    rcases hp with rfl | rfl | rfl | rfl
    · exact hassign
    · exact hconditional
    · exact hloop
    · exact hblock

/-- Expressions stay within the text. -/
theorem bounded_expression (n : Nat) : (expression n).Bounded := (built_expression n).bounded

/-- Commands stay within the text. -/
theorem bounded_command (n : Nat) : (command n).Bounded := (built_command n).bounded

/-! ## More levels -/

/-- Binary tiers keep the relation between their operands. -/
theorem below_binaryTier {operand operand' : Parser α} (h : Below operand operand') :
    Below (binaryTier join operand ops name) (binaryTier join operand' ops name) := by
  refine (h.bind fun first ↦ (Below.many (.choice ?_)).map _).named name
  induction ops with
  | nil => exact .nil
  | cons op ops ih => exact .cons (((Below.refl _).andThen h).map _) ih

/-- Parentheses keep the relation between their contents. -/
theorem below_parens {p p' : Parser α} (h : Below p p') : Below (parens p) (parens p') :=
  ((Below.refl _).andThen h).skip (.refl _)

/-- Unary minus keeps the relation between the contents of parentheses. -/
theorem below_unary {inner inner' : Parser Tree} (h : Below inner inner') :
    Below (unary inner) (unary inner') := by
  have hatom : Below (atom inner) (atom inner') :=
    (((below_parens h).orElse (.refl var)).orElse (.refl const)).named "atom"
  refine Below.named (.choice ?_) "unary"
  exact .cons (.refl _) (.cons (.refl _)
    (.cons (((Below.refl _).andThen (below_parens h)).map _) (.cons hatom .nil)))

/-- An expression that does not run out of levels is read alike with more of them. -/
theorem below_expression {n m : Nat} (h : n ≤ m) : Below (expression n) (expression m) := by
  induction n generalizing m with
  | zero =>
    obtain ⟨hn, hc⟩ := describe_expression m
    exact .bottom run_expression_zero hn.symm hc.symm
  | succ n ih =>
    obtain ⟨m, rfl⟩ := Nat.exists_eq_add_one.mpr (show 0 < m by omega)
    have htier : Below (disjunction (expression n)) (disjunction (expression m)) :=
      below_binaryTier (below_binaryTier (below_binaryTier (below_binaryTier (below_binaryTier
        (below_unary (ih (by omega)))))))
    obtain ⟨hn, hc⟩ := describe_expression (n + 1)
    obtain ⟨hn', hc'⟩ := describe_expression (m + 1)
    refine ⟨hn.trans hn'.symm, hc.trans hc'.symm, fun s ↦ ?_⟩
    rw [run_expression_succ, run_expression_succ]
    exact htier.run s

section Forms

variable {inner inner' body body' : Parser Tree}

/-- Assignments keep the relation between their expressions. -/
theorem below_assign (hi : Below inner inner') : Below (assign inner) (assign inner') :=
  ((Below.refl _).bind fun _ ↦ ((Below.refl _).andThen hi).map _).named _

/-- Conditionals keep the relation between their parts. -/
theorem below_conditional (hi : Below inner inner') (hb : Below body body') :
    Below (conditional inner body) (conditional inner' body') :=
  (((Below.refl _).andThen hi).bind fun _ ↦ ((Below.refl _).andThen hb).bind fun _ ↦
    ((Below.refl _).andThen hb).map _).named _

/-- Loops keep the relation between their parts. -/
theorem below_loop (hi : Below inner inner') (hb : Below body body') :
    Below (loop inner body) (loop inner' body') :=
  (((Below.refl _).andThen hi).bind fun _ ↦ ((Below.refl _).andThen hb).map _).named _

/-- Blocks keep the relation between their members. -/
theorem below_block (hb : Below body body') : Below (block body) (block body') :=
  ((((Below.refl _).andThen (hb.sepBy (.refl _))).skip (.refl _)).map _).named _

end Forms

/-- A command that does not run out of levels is read alike with more of them. -/
theorem below_command {n m : Nat} (h : n ≤ m) : Below (command n) (command m) := by
  induction n generalizing m with
  | zero =>
    obtain ⟨hn, hc⟩ := describe_command m
    exact .bottom run_command_zero hn.symm hc.symm
  | succ n ih =>
    obtain ⟨m, rfl⟩ := Nat.exists_eq_add_one.mpr (show 0 < m by omega)
    have he := below_expression (show n ≤ m by omega)
    have hc := ih (show n ≤ m by omega)
    have hall : Below (anyCommand (expression n) (command n))
        (anyCommand (expression m) (command m)) :=
      .choice (.cons (below_assign he) (.cons (below_conditional he hc)
        (.cons (below_loop he hc) (.cons (below_block hc) .nil))))
    obtain ⟨hn, hp⟩ := describe_command (n + 1)
    obtain ⟨hn', hp'⟩ := describe_command (m + 1)
    refine ⟨hn.trans hn'.symm, hp.trans hp'.symm, fun s ↦ ?_⟩
    rw [run_command_succ, run_command_succ]
    exact hall.run s

end WhileSyntax.Grammar
