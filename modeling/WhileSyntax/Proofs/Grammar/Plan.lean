import WhileSyntax.Grammar.Command
import WhileSyntax.Proofs.Parser.Promise
import WhileSyntax.Proofs.Parser.Walk

/-!
# Plans of the grammars

The grammars of expressions and of commands as one family of plans, in which parentheses lead back
to expressions and the parts of commands to expressions and commands. The parsers of the family are
those of the grammars, level by level (`build_expression`, `build_command`), and every promise that
the family declares is honest (`honest_grammar`).
-/

namespace WhileSyntax.Grammar

open WhileSyntax.Parser
open WhileSyntax.Source (Cursor)

/-- Names of the parsers that the grammars refer to. -/
inductive Reference : Type → Type where
  | expression : Reference Tree
  | command : Reference Tree

namespace Planned

variable {Ref : Type → Type} {α : Type}

/-- A pair of an operator and the operand behind it. -/
def pair (operand : Plan Ref α) (ops : List Binop) : Plan Ref (Binop × α) :=
  .choice (ops.map fun op ↦ ((Plan.symbol op.symbol).andThen operand).map fun right ↦ (op, right))

/-- One tier of binary operators, grouped to the left. -/
def binaryTier (join : Binop → α → α → α) (operand : Plan Ref α) (ops : List Binop)
    (name : String) : Plan Ref α :=
  (operand.bind fun first ↦ (pair operand ops).many.map fun pairs ↦
    pairs.foldl (fun left p ↦ join p.1 left p.2) first).named name

/-- A value between parentheses. -/
def parens (p : Plan Ref α) : Plan Ref α := ((Plan.symbol "(").andThen p).skip (.symbol ")")

/-- A name as an expression. -/
def var : Plan Ref Tree := (Plan.ident.map Tree.var).named "variable"

/-- A number as an expression. -/
def const : Plan Ref Tree := (Plan.number.map fun n : Nat ↦ Tree.const n).named "constant"

/-- A parenthesis, a name or a number. -/
def atom (expression : Plan Ref Tree) : Plan Ref Tree :=
  ((parens expression).orElse var |>.orElse const).named "atom"

/-- A minus before a name or a parenthesis, or an atom. -/
def unary (expression : Plan Ref Tree) : Plan Ref Tree :=
  (Plan.choice [
    ((Plan.symbol "-").andThen var).map Tree.neg,
    ((Plan.symbol "-").andThen (parens const)).map Tree.neg,
    ((Plan.symbol "-").andThen (parens expression)).map Tree.neg,
    atom expression]).named "unary"

/-- All tiers of binary operators over unary minus. -/
def disjunction (expression : Plan Ref Tree) : Plan Ref Tree :=
  let product := binaryTier Tree.binary (unary expression) [.times, .div] "factor"
  let sum := binaryTier Tree.binary product [.plus, .minus] "additive"
  let comparison := binaryTier Tree.binary sum [.less, .lessEq, .equal] "compare"
  let conjunction := binaryTier Tree.binary comparison [.and] "and"
  binaryTier Tree.binary conjunction [.or] "or"

/-- A name, an equals sign and an expression. -/
def assign (expression : Plan Ref Tree) : Plan Ref Tree :=
  (Plan.ident.bind fun name ↦
    ((Plan.symbol "=").andThen expression).map fun value ↦ Tree.assign name value).named "assign"

/-- A condition and two branches. -/
def conditional (expression command : Plan Ref Tree) : Plan Ref Tree :=
  (((Plan.keyword "if").andThen expression).bind fun condition ↦
    ((Plan.keyword "then").andThen command).bind fun yes ↦
      ((Plan.keyword "else").andThen command).map fun no ↦
        Tree.conditional condition yes no).named "if"

/-- A condition and a body. -/
def loop (expression command : Plan Ref Tree) : Plan Ref Tree :=
  (((Plan.keyword "while").andThen expression).bind fun condition ↦
    ((Plan.keyword "do").andThen command).map fun body ↦ Tree.loop condition body).named "while"

/-- Commands between braces. -/
def block (command : Plan Ref Tree) : Plan Ref Tree :=
  ((((Plan.symbol "\x7b").andThen (Plan.sepBy command (.symbol ";"))).skip
    (.symbol "\x7d")).map Tree.block).named "seq"

/-- Any one command. -/
def anyCommand (expression command : Plan Ref Tree) : Plan Ref Tree :=
  .choice [assign expression, conditional expression command, loop expression command,
    block command]

section Parsers

variable (refs : ∀ α, Ref α → Parser α)

@[simp] private theorem parser_binaryTier (join : Binop → α → α → α) (operand : Plan Ref α)
    (ops : List Binop) (name : String) :
    (binaryTier join operand ops name).parser refs =
      Grammar.binaryTier join (operand.parser refs) ops name := by
  simp only [binaryTier, pair, Plan.parser, Plan.parser_bind, Plan.parser_choice, List.map_map,
    Function.comp_def, Plan.parser_andThen, Plan.parser_symbol, Grammar.binaryTier]

@[simp] private theorem parser_parens (p : Plan Ref α) :
    (parens p).parser refs = Grammar.parens (p.parser refs) := by
  simp only [parens, Plan.parser_skip, Plan.parser_andThen, Plan.parser_symbol, Grammar.parens]

@[simp] private theorem parser_var : (var : Plan Ref Tree).parser refs = Grammar.var := by
  simp only [var, Plan.parser, Plan.parser_ident, Grammar.var]

@[simp] private theorem parser_const : (const : Plan Ref Tree).parser refs = Grammar.const := by
  simp only [const, Plan.parser, Plan.parser_number, Grammar.const]

@[simp] private theorem parser_atom (expression : Plan Ref Tree) :
    (atom expression).parser refs = Grammar.atom (expression.parser refs) := by
  simp only [atom, Plan.parser, parser_parens, parser_var, parser_const, Grammar.atom]

@[simp] private theorem parser_unary (expression : Plan Ref Tree) :
    (unary expression).parser refs = Grammar.unary (expression.parser refs) := by
  simp only [unary, Plan.parser, Plan.parser_choice, List.map_cons, List.map_nil,
    Plan.parser_andThen, Plan.parser_symbol, parser_parens, parser_var, parser_const, parser_atom,
    Grammar.unary]

@[simp] private theorem parser_disjunction (expression : Plan Ref Tree) :
    (disjunction expression).parser refs = Grammar.disjunction (expression.parser refs) := by
  simp only [disjunction, parser_binaryTier, parser_unary, Grammar.disjunction,
    Grammar.conjunction, Grammar.comparison, Grammar.sum, Grammar.product]

@[simp] private theorem parser_assign (expression : Plan Ref Tree) :
    (assign expression).parser refs = Grammar.assign (expression.parser refs) := by
  simp only [assign, Plan.parser, Plan.parser_bind, Plan.parser_ident, Plan.parser_andThen,
    Plan.parser_symbol, Grammar.assign]

@[simp] private theorem parser_conditional (expression command : Plan Ref Tree) :
    (conditional expression command).parser refs =
      Grammar.conditional (expression.parser refs) (command.parser refs) := by
  have hif := Plan.parser_keyword_of_isWord refs (k := "if") (by decide)
  have hthen := Plan.parser_keyword_of_isWord refs (k := "then") (by decide)
  have helse := Plan.parser_keyword_of_isWord refs (k := "else") (by decide)
  simp only [conditional, Plan.parser, Plan.parser_bind, Plan.parser_andThen, hif, hthen, helse,
    Grammar.conditional]

@[simp] private theorem parser_loop (expression command : Plan Ref Tree) :
    (loop expression command).parser refs =
      Grammar.loop (expression.parser refs) (command.parser refs) := by
  have hwhile := Plan.parser_keyword_of_isWord refs (k := "while") (by decide)
  have hdo := Plan.parser_keyword_of_isWord refs (k := "do") (by decide)
  simp only [loop, Plan.parser, Plan.parser_bind, Plan.parser_andThen, hwhile, hdo, Grammar.loop]

@[simp] private theorem parser_block (command : Plan Ref Tree) :
    (block command).parser refs = Grammar.block (command.parser refs) := by
  simp only [block, Plan.parser, Plan.parser_skip, Plan.parser_andThen, Plan.parser_symbol,
    Plan.parser_sepBy, Grammar.block]

@[simp] private theorem parser_anyCommand (expression command : Plan Ref Tree) :
    (anyCommand expression command).parser refs =
      Grammar.anyCommand (expression.parser refs) (command.parser refs) := by
  simp only [anyCommand, Plan.parser_choice, List.map_cons, List.map_nil, parser_assign,
    parser_conditional, parser_loop, parser_block, Grammar.anyCommand]

end Parsers

section Honest

variable {defs : Definitions Ref} {expression command : Plan Ref Tree}

private theorem honest_binaryTier (join : Binop → α → α → α) {operand : Plan Ref α}
    (h : operand.Honest defs) (ops : List Binop) (name : String) :
    (binaryTier join operand ops name).Honest defs := by
  have hpair : (pair operand ops).Honest defs := by
    apply Plan.Honest.choice
    intro p hp
    obtain ⟨op, -, rfl⟩ := List.mem_map.mp hp
    exact (Plan.Honest.symbol op.symbol).andThen h
  exact h.bind fun _ ↦ hpair

private theorem honest_parens {p : Plan Ref α} (h : p.Honest defs) : (parens p).Honest defs :=
  ((Plan.Honest.symbol "(").andThen h).skip (.symbol ")")

private theorem honest_var : (var : Plan Ref Tree).Honest defs := Plan.Honest.ident

private theorem honest_const : (const : Plan Ref Tree).Honest defs := Plan.Honest.number

private theorem honest_atom (h : expression.Honest defs) : (atom expression).Honest defs :=
  ⟨⟨honest_parens h, honest_var⟩, honest_const⟩

private theorem honest_unary (h : expression.Honest defs) : (unary expression).Honest defs := by
  have hminus : (Plan.symbol "-" : Plan Ref String).Honest defs := .symbol "-"
  apply Plan.Honest.choice
  simp only [List.forall_mem_cons, List.not_mem_nil, false_imp_iff, implies_true, and_true]
  exact ⟨hminus.andThen honest_var, hminus.andThen (honest_parens honest_const),
    hminus.andThen (honest_parens h), honest_atom h⟩

private theorem honest_disjunction (h : expression.Honest defs) :
    (disjunction expression).Honest defs :=
  honest_binaryTier _ (honest_binaryTier _ (honest_binaryTier _ (honest_binaryTier _
    (honest_binaryTier _ (honest_unary h) _ _) _ _) _ _) _ _) _ _

private theorem honest_anyCommand (he : expression.Honest defs) (hc : command.Honest defs) :
    (anyCommand expression command).Honest defs := by
  have hassign : (assign expression).Honest defs :=
    Plan.Honest.ident.bind fun _ ↦ (Plan.Honest.symbol "=").andThen he
  have hconditional : (conditional expression command).Honest defs :=
    ((Plan.Honest.keyword "if").andThen he).bind fun _ ↦
      ((Plan.Honest.keyword "then").andThen hc).bind fun _ ↦ (Plan.Honest.keyword "else").andThen hc
  have hloop : (loop expression command).Honest defs :=
    ((Plan.Honest.keyword "while").andThen he).bind fun _ ↦ (Plan.Honest.keyword "do").andThen hc
  have hblock : (block command).Honest defs :=
    ((Plan.Honest.symbol "\x7b").andThen (hc.sepBy (.symbol ";"))).skip (.symbol "\x7d")
  apply Plan.Honest.choice
  simp only [List.forall_mem_cons, List.not_mem_nil, false_imp_iff, implies_true, and_true]
  exact ⟨hassign, hconditional, hloop, hblock⟩

end Honest

/-- A reference to whole expressions. -/
def expression : Plan Reference Tree := .lazy true "expression" .expression

/-- A reference to whole commands. -/
def command : Plan Reference Tree := .lazy true "command" .command

end Planned

/-- The grammars as a family of plans. -/
def grammar : Definitions Reference
  | _, .expression => Planned.disjunction Planned.expression
  | _, .command => Planned.anyCommand Planned.expression Planned.command

/-- Whole expressions are planned by the family, level by level. -/
theorem build_expression (levels : Nat) :
    grammar.build levels Planned.expression = expression levels := by
  induction levels with
  | zero => rfl
  | succ levels ih =>
    have hd : grammar.parser (levels + 1) _ .expression = disjunction (expression levels) := by
      rw [← ih]
      exact Planned.parser_disjunction _ Planned.expression
    simp only [Definitions.build, Planned.expression, Plan.parser, hd, expression]

/-- Whole commands are planned by the family, level by level. -/
theorem build_command (levels : Nat) :
    grammar.build levels Planned.command = command levels := by
  induction levels with
  | zero => rfl
  | succ levels ih =>
    have hc : grammar.parser (levels + 1) _ .command =
        anyCommand (expression levels) (command levels) := by
      rw [← ih, ← build_expression]
      exact Planned.parser_anyCommand _ Planned.expression Planned.command
    simp only [Definitions.build, Planned.command, Plan.parser, hc, command]

/-- The references of the grammars promise what the tiers and the forms promise by their parts. -/
theorem honest_grammar : grammar.Honest := by
  have he : Planned.expression.Honest grammar := fun _ ↦ rfl
  have hc : Planned.command.Honest grammar := fun _ ↦ rfl
  rintro _ (_ | _)
  · exact Planned.honest_disjunction he
  · exact Planned.honest_anyCommand he hc

/-- Promises are kept. Over an honest family of plans, however its members refer to one another, a
parser that promises to use something moves every cursor that it succeeds on, and no parser is
stopped in a repetition for having used nothing. The grammars of expressions and commands are such a
family. -/
theorem promises_kept :
    (∀ {Ref : Type → Type} {defs : Definitions Ref} {α : Type} {t : Plan Ref α},
      defs.Honest → t.Honest defs → ∀ (levels : Nat) (c : Cursor),
        ((defs.build levels t).consumes = true →
          (∀ v rest, defs.walk levels t c = .ok v rest → c.pos < rest.pos) ∧
          ∀ v n, (defs.build levels t).run c.remaining = .ok v n → 0 < n) ∧
        ∀ parser, defs.walk levels t c ≠ .fault (.didNotAdvance parser) ∧
          (defs.build levels t).run c.remaining ≠ .fault (.didNotAdvance parser)) ∧
    grammar.Honest ∧ Planned.expression.Honest grammar ∧ Planned.command.Honest grammar ∧
    ∀ levels, grammar.build levels Planned.expression = expression levels ∧
      grammar.build levels Planned.command = command levels := by
  refine ⟨?_, honest_grammar, fun _ ↦ rfl, fun _ ↦ rfl,
    fun levels ↦ ⟨build_expression levels, build_command levels⟩⟩
  intro Ref defs α t hd ht levels c
  have hk := hd.keeps_build ht levels
  have hw := defs.follows levels t c
  have hrun : ∀ parser, (defs.build levels t).run c.remaining ≠ .fault (.didNotAdvance parser) :=
    hk.unstuck c.remaining
  refine ⟨fun hc ↦ ⟨?_, fun v n ↦ hk.pos_of_run hc⟩, fun parser ↦ ⟨?_, hrun parser⟩⟩
  · intro v rest h
    rw [hw, Outcome.ofReply_eq_ok_iff] at h
    obtain ⟨n, hr, hm⟩ := h
    have hn := hk.pos_of_run hc hr
    have hp := (Cursor.place_eq_ok_iff.mp hm).2
    omega
  · rw [hw, Ne, Outcome.ofReply_eq_fault_iff]
    exact hrun parser

/-- The grammar of commands moves a cursor over an assignment behind another command. -/
theorem promises_kept_assignment : grammar.Honest ∧ Planned.command.Honest grammar ∧
    ∃ rest, grammar.walk 3 Planned.command ⟨"a;x=1".toList, 2, by decide⟩ =
      .ok (Tree.assign "x" (.const 1)) rest ∧ 2 < rest.pos := by
  have hd : grammar.Honest := promises_kept.2.1
  have hc : Planned.command.Honest grammar := promises_kept.2.2.2.1
  obtain ⟨hkept, -⟩ := promises_kept.1 hd hc 3 ⟨"a;x=1".toList, 2, by decide⟩
  have hwalk : grammar.walk 3 Planned.command ⟨"a;x=1".toList, 2, by decide⟩ =
      .ok (Tree.assign "x" (.const 1)) ⟨"a;x=1".toList, 5, by decide⟩ := by
    rw [grammar.follows 3 Planned.command, build_command]
    rfl
  exact ⟨hd, hc, _, hwalk, (hkept (by rw [build_command]; rfl)).1 _ _ hwalk⟩

end WhileSyntax.Grammar
