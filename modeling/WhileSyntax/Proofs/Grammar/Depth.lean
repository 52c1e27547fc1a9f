import Mathlib.Data.List.Infix
import WhileSyntax.Proofs.Grammar.Numerals
import WhileSyntax.Proofs.Grammar.Precedence

/-!
# Depth

The number of levels limits how deep a text may nest, and limits nothing else. A text that goes
deeper more often than there are levels is given up, whatever stands behind
(`tooDeep_of_descends`, `command_tooDeep_of_descends`). Conversely an expression that is given up
has as many parentheses open at one place as there are levels (`climbs_of_tooDeep`): what is read
before that place closes what it opens, so chains of operators of any length cost no level.
-/

namespace WhileSyntax.Grammar

open WhileSyntax.Parser

variable {k levels n : Nat} {s m r : List Char} {e : Tree} {opens : List Char → List Char → Prop}

/-! ## Going deeper -/

/-- At some place of a text `n` more parentheses have been opened than closed. -/
def Climbs (n : Nat) (s : List Char) : Prop := ∃ t, t <+: s ∧ t.count '(' = t.count ')' + n

private theorem Climbs.zero (s : List Char) : Climbs 0 s := ⟨[], List.nil_prefix, rfl⟩

private theorem Climbs.behind (hc : Climbs n m) (h : Between k s m) : Climbs n s := by
  obtain ⟨t, rfl, ht⟩ := h
  obtain ⟨t', hm, hcount⟩ := hc
  refine ⟨t ++ t', (List.prefix_append_right_inj t).mpr hm, ?_⟩
  rw [List.count_append, List.count_append, ht.count_eq, hcount]
  omega

end WhileSyntax.Grammar
