import WhileSyntax.Proofs.Grammar.Nesting
import WhileSyntax.Proofs.Printer.Expression

/-!
# Contexts and tiers

What is printed inside an operator of some strength is what the tier of that strength reads. The
text may stand behind white space and in front of anything that goes on neither with its last word
nor with an operator: the tier reads the tree and leaves exactly what follows. Levels are needed
only for the parentheses of the text itself (`Spells.reads_tier`).

Main statement: this for every expression, context and text around, at the levels of the grammar
(`tier_reads_printed`).
-/

namespace WhileSyntax.Grammar

open WhileSyntax.Parser

/-- A tier that does not run out of levels reads alike with more of them. -/
theorem below_tier {inner inner' : Parser Tree} (h : Below inner inner') (k : Nat) :
    Below (tier inner k) (tier inner' k) := by
  have hunary : Below (tier inner 5) (tier inner' 5) := below_unary h
  have hproduct : Below (tier inner 4) (tier inner' 4) := below_binaryTier hunary
  have hsum : Below (tier inner 3) (tier inner' 3) := below_binaryTier hproduct
  have hcomparison : Below (tier inner 2) (tier inner' 2) := below_binaryTier hsum
  have hconjunction : Below (tier inner 1) (tier inner' 1) := below_binaryTier hcomparison
  match k with
  | 0 => exact below_binaryTier hconjunction
  | 1 => exact hconjunction
  | 2 => exact hcomparison
  | 3 => exact hsum
  | 4 => exact hproduct
  | 5 => exact hunary
  | _ + 6 => exact (((below_parens h).orElse (.refl var)).orElse (.refl const)).named "atom"

end WhileSyntax.Grammar

namespace WhileSyntax

open Grammar

namespace Spells

variable {e : Tree} {k n : Nat} {text u f : List Char}

/-- Text of a stratum is read by its tier where no operator follows that binds more strongly, with
as many levels as its parentheses nest deep. -/
theorem reads_tier (h : Spells k text e) (hu : Blank u) (hf : Stops Text.isWordPart f)
    (hfollow : Follow k f) (hn : parenDepth text ≤ n) :
    (tier (expression n) k).Reads (u ++ text ++ f) e f := by
  obtain ⟨d, hbalances, hderives⟩ := h
  rw [hbalances.parenDepth_eq] at hn
  exact reads_tier_of_derives (hderives u f hu hf) hfollow hn

/-- With any number of levels, such a text is read or the run is too deep. -/
theorem reads_tier_or_tooDeep (h : Spells k text e) (hu : Blank u)
    (hf : Stops Text.isWordPart f) (hfollow : Follow k f) (n : Nat) :
    (tier (expression n) k).Reads (u ++ text ++ f) e f ∨
      (tier (expression n) k).run (u ++ text ++ f) = .tooDeep := by
  have hread := h.reads_tier hu hf hfollow (Nat.le_max_right n (parenDepth text))
  exact (below_tier (below_expression (Nat.le_max_left n _)) k).reads_or_tooDeep hread

end Spells

namespace Tree

/-- Each context of printing is one tier of reading, in any text around. An expression whose names
can be names in a program, with constants that are not negative and keep to the limit, is printed in
each of the six contexts. The tier of the context, from disjunctions for the loosest one to unary
minus for the tightest, reads the expression off what is printed, behind any white space and in
front of any text that goes on with no word and whose first character behind white space begins no
operator. It leaves exactly that text. The exception are texts that nest too deeply, which does not
happen when the printed parentheses nest at most 20 deep. So it is with `nestingLimit` levels, and
with any other number of them from 20 on. -/
theorem tier_reads_printed (e : Tree) (he : e.IsExpression) (hr : e.Readable) (hw : e.Writable)
    (k : Nat) (hk : k ≤ 5) :
    ∃ text, e.printInside k = .ok text ∧ 20 ≤ nestingLimit ∧
      ∀ limit u f, Blank u → Stops Text.isWordPart f →
        (∀ c ∈ front f, isOperatorStart c = false) →
        ((tier (expression limit) k).Reads (u ++ text ++ f) e f ∨
          (tier (expression limit) k).run (u ++ text ++ f) = .tooDeep) ∧
        (parenDepth text ≤ 20 → 20 ≤ limit →
          (tier (expression limit) k).Reads (u ++ text ++ f) e f) := by
  obtain ⟨text, hprint, hspells⟩ := exists_printInside he hw hk
  refine ⟨text, hprint, by decide, fun limit u f hu hf hfront ↦ ?_⟩
  have hfollow : Follow k f := .of_front hfront
  constructor
  · exact (hspells hr).reads_tier_or_tooDeep hu hf hfollow limit
  · intro hdepth hlimit
    exact (hspells hr).reads_tier hu hf hfollow (Nat.le_trans hdepth hlimit)

/-- A difference inside a product, with another one on its right and a keyword behind it. -/
theorem tier_reads_printed_difference :
    let e := binary .minus (.var "a") (.binary .minus (.var "b") (.neg (.const 7)))
    (tier (expression nestingLimit) 4).Reads "\t(a-(b--(7))) then".toList e " then".toList := by
  intro e
  have he : e.IsExpression := .binary _ (.var _) (.binary _ (.var _) (.neg (.const _)))
  obtain ⟨text, hprint, hlimit, hreads⟩ :=
    tier_reads_printed e he (by decide) (by decide) 4 (by decide)
  obtain rfl : "(a-(b--(7)))".toList = text := Except.ok.inj hprint
  refine (hreads nestingLimit ['\t'] " then".toList (blank_singleton (by decide))
    (stops_cons.mpr (by decide)) ?_).2 (by decide) hlimit
  rintro _ ⟨⟩
  decide

end Tree
end WhileSyntax
