import WhileSyntax.Grammar.Expression
import WhileSyntax.Proofs.Grammar.Derivation
import WhileSyntax.Proofs.Parser.Bounded
import WhileSyntax.Proofs.Parser.Deepening
import WhileSyntax.Proofs.Parser.Lexeme

/-!
# Tiers of the expression grammar

The parsers of the tiers, numbered as the strata of the grammar. A binary tier reads an operand and
then a chain of pairs, up to a text on which every pair fails. Two operators stand at the same place
only where one spelling begins the other, and then no operand follows the shorter one.
-/

namespace WhileSyntax.Grammar

open WhileSyntax.Parser

/-! ## Operators in a text -/

/-- Whether an operator can begin with a character. -/
def isOperatorStart (c : Char) : Bool := ['+', '-', '*', '/', '<', '=', '&', '|'].contains c

/-- Whether an expression can begin with a character. -/
def isExpressionStart (c : Char) : Bool :=
  c == '-' || c == '(' || Text.isWordStart c || c.isDigit

/-- No operator stronger than `k` stands at the front. -/
def Follow (k : Nat) (r : List Char) : Prop :=
  ∀ op : Binop, (k : Int) < op.level → ∀ m, ¬Token op.symbol.toList r m

/-- Operators begin with their characters. -/
theorem exists_symbol_eq (op : Binop) :
    ∃ c cs, op.symbol.toList = c :: cs ∧ isOperatorStart c = true := by
  cases op <;> exact ⟨_, _, rfl, by decide⟩

/-- No word begins like an operator. -/
theorem isOperatorStart_eq_false_of_isWordPart {c : Char} (h : Text.isWordPart c = true) :
    isOperatorStart c = false := by
  have hall : ['+', '-', '*', '/', '<', '=', '&', '|'].all (!Text.isWordPart ·) = true := by decide
  by_contra hc
  rw [Bool.not_eq_false, isOperatorStart, List.contains_iff_mem] at hc
  have := List.all_eq_true.mp hall c hc
  rw [h] at this
  cases this

/-- Operators are solid. -/
theorem isSolid_symbol (op : Binop) : isSolid op.symbol.toList = true := by
  cases op <;> decide

private theorem eq_or_less_of_symbol_prefix {op op' : Binop}
    (h : op.symbol.toList <+: op'.symbol.toList) : op = op' ∨ op = .less ∧ op' = .lessEq := by
  have all : ∀ a ∈ Binop.all, ∀ b ∈ Binop.all,
      a.symbol.toList <+: b.symbol.toList → a = b ∨ a = .less ∧ b = .lessEq := by decide
  exact all op op.mem_all op' op'.mem_all h

private theorem token_symbol_unique {op op' : Binop} {s m m' : List Char}
    (h : Token op.symbol.toList s m) (h' : Token op'.symbol.toList s m') :
    op = op' ∨ op = .less ∧ op' = .lessEq ∧ m = '=' :: m' ∨
      op = .lessEq ∧ op' = .less ∧ m' = '=' :: m := by
  have he := ((Token.iff_skipBlank (isSolid_symbol op)).mp h).symm.trans
    ((Token.iff_skipBlank (isSolid_symbol op')).mp h')
  have hp : op.symbol.toList <+: op'.symbol.toList ++ m' := ⟨m, he⟩
  have hp' : op'.symbol.toList <+: op'.symbol.toList ++ m' := ⟨m', rfl⟩
  rcases List.prefix_or_prefix_of_prefix hp hp' with hq | hq
  · rcases eq_or_less_of_symbol_prefix hq with rfl | ⟨rfl, rfl⟩
    · exact .inl rfl
    · exact .inr (.inl ⟨rfl, rfl, (List.cons.inj he).2⟩)
  · rcases eq_or_less_of_symbol_prefix hq with rfl | ⟨rfl, rfl⟩
    · exact .inl rfl
    · exact .inr (.inr ⟨rfl, rfl, (List.cons.inj he).2.symm⟩)

namespace Follow

/-- Fewer operators are stronger than a stronger one. -/
theorem mono {k k' : Nat} {r : List Char} (hk : k ≤ k') (h : Follow k r) : Follow k' r :=
  fun op hop ↦ h op (by omega)

/-- No operator begins with another character than those of operators. -/
theorem of_front {k : Nat} {r : List Char} (h : ∀ c ∈ front r, isOperatorStart c = false) :
    Follow k r := by
  intro op _ m ht
  obtain ⟨c, cs, hs, hc⟩ := exists_symbol_eq op
  have hsolid := isSolid_symbol op
  rw [hs] at ht hsolid
  have hf := ht.front (by simpa [isSolid] using hsolid)
  rw [h c hf] at hc
  cases hc

/-- Nothing follows white space. -/
theorem of_blank {k : Nat} {r : List Char} (h : Blank r) : Follow k r := by
  apply of_front
  rw [front, skipBlank_eq_nil_iff.mpr h]
  intro c hc
  cases hc

/-- Other punctuation is no operator. -/
theorem of_token {k : Nat} {c : Char} {t r m : List Char} (h : Token (c :: t) r m)
    (hb : Text.isBlank c = false) (hc : isOperatorStart c = false) :
    Follow k r := by
  apply of_front
  rw [h.front hb]
  rintro _ ⟨⟩
  exact hc

/-- Where an operator stands, no stronger one does. -/
theorem of_symbol {k : Nat} {op : Binop} {r m : List Char} (h : Token op.symbol.toList r m)
    (hk : op.level ≤ k) : Follow k r := by
  intro op' hop' m' h'
  rcases token_symbol_unique h h' with rfl | ⟨rfl, rfl, -⟩ | ⟨rfl, rfl, -⟩
  · omega
  · exact absurd hop' (by simpa [Binop.level, Binop.precedence] using hk)
  · exact absurd hop' (by simpa [Binop.level, Binop.precedence] using hk)

end Follow

/-! ## Binary tiers -/

section Binary

variable {α : Type} {join : Binop → α → α → α} {operand : Parser α} {ops : List Binop}
  {s m r : List Char}

/-- An operator of a list with the operand behind it. -/
def pair (operand : Parser α) (ops : List Binop) : Parser (Binop × α) :=
  choice (ops.map fun op ↦ ((symbol op.symbol).andThen operand).map fun right ↦ (op, right))

/-- Every pair uses the characters of its operator. -/
theorem consumes_pair : (pair operand ops).consumes = true := by
  apply consumes_choice
  intro p hp
  obtain ⟨op, -, rfl⟩ := List.mem_map.mp hp
  cases op <;> rfl

/-- A binary tier reads an operand and a chain of pairs. -/
theorem reads_binaryTier_iff {name : String} {v : α} :
    (binaryTier join operand ops name).Reads s v r ↔
      ∃ first m pairs, operand.Reads s first m ∧ Chain (pair operand ops) m pairs r ∧
        (pair operand ops).run r = .fail ∧ pairs.foldl (fun a p ↦ join p.1 a p.2) first = v := by
  apply reads_bind_iff.trans
  constructor
  · rintro ⟨first, m, hf, hm⟩
    obtain ⟨pairs, hp, rfl⟩ := reads_map_iff.mp hm
    obtain ⟨hc, hr⟩ := (reads_many_iff consumes_pair).mp hp
    exact ⟨first, m, pairs, hf, hc, hr, rfl⟩
  · rintro ⟨first, m, pairs, hf, hc, hr, rfl⟩
    have hp := (reads_many_iff consumes_pair).mpr ⟨hc, hr⟩
    exact ⟨first, m, hf, reads_map_iff.mpr ⟨pairs, hp, rfl⟩⟩

/-- What a pair reads is one of its operators and an operand. -/
theorem token_of_reads_pair {p : Binop × α} (h : (pair operand ops).Reads s p r) :
    p.1 ∈ ops ∧ ∃ m, Token p.1.symbol.toList s m ∧ operand.Reads m p.2 r := by
  obtain ⟨q, hq, hr⟩ := exists_reads_of_choice h
  obtain ⟨op, hop, rfl⟩ := List.mem_map.mp hq
  obtain ⟨right, hright, rfl⟩ := reads_map_iff.mp hr
  exact ⟨hop, exists_token_of_reads hright (isSolid_symbol op)⟩

/-- One operator with the operand behind it. -/
def pairForm (operand : Parser α) (op : Binop) : Parser (Binop × α) :=
  ((symbol op.symbol).andThen operand).map fun right ↦ (op, right)

/-- An operator fails where it is missing or no operand stands behind it. -/
theorem run_pairForm_eq_fail_iff {op : Binop} : (pairForm operand op).run s = .fail ↔
    ∀ m, Token op.symbol.toList s m → operand.run m = .fail :=
  Reply.map_eq_fail_iff.trans (run_symbol_andThen_eq_fail_iff (isSolid_symbol op))

/-- At most one operator has an operand behind it, if no operand begins with the rest of a longer
spelling. -/
theorem pairForm_unique {op op' : Binop} (hrest : ∀ m, operand.run ('=' :: m) = .fail)
    (h : (pairForm operand op).run s ≠ .fail) (h' : (pairForm operand op').run s ≠ .fail) :
    op = op' := by
  rw [Ne, run_pairForm_eq_fail_iff] at h h'
  push Not at h h'
  obtain ⟨m, ht, hm⟩ := h
  obtain ⟨m', ht', hm'⟩ := h'
  rcases token_symbol_unique ht ht' with rfl | ⟨-, -, rfl⟩ | ⟨-, -, rfl⟩
  · rfl
  · exact absurd (hrest m') hm
  · exact absurd (hrest m) hm'

/-- Pairs fail where none of their operators stands. -/
theorem run_pair_eq_fail (h : ∀ op ∈ ops, ∀ m, ¬Token op.symbol.toList s m) :
    (pair operand ops).run s = .fail := by
  apply run_choice_eq_fail
  intro q hq
  obtain ⟨op, hop, rfl⟩ := List.mem_map.mp hq
  exact run_pairForm_eq_fail_iff.mpr fun m hm ↦ absurd hm (h op hop m)

/-- The operator that stands at the front decides, wherever it is in the list, if its operand does
not fail and no operand begins with the rest of a longer spelling. -/
theorem run_pair_eq {op : Binop} (hop : op ∈ ops) (ht : Token op.symbol.toList s m)
    (hm : operand.run m ≠ .fail) (hrest : ∀ m, operand.run ('=' :: m) = .fail) :
    (pair operand ops).run s =
      (((symbol op.symbol).andThen operand).map fun right ↦ (op, right)).run s := by
  have hform : (pairForm operand op).run s ≠ .fail :=
    fun hf ↦ hm (run_pairForm_eq_fail_iff.mp hf m ht)
  apply run_choice_eq (List.mem_map_of_mem hop)
  intro q hq
  obtain ⟨op', -, rfl⟩ := List.mem_map.mp hq
  by_cases hform' : (pairForm operand op').run s = .fail
  · exact .inr hform'
  · obtain rfl := pairForm_unique hrest hform hform'
    exact .inl rfl

/-- The operator that stands at the front is read with its operand, wherever it is in the list, if
no operand begins with the rest of a longer spelling. -/
theorem reads_pair {op : Binop} {v : α} (hop : op ∈ ops) (ht : Token op.symbol.toList s m)
    (hv : operand.Reads m v r) (hrest : ∀ m, operand.run ('=' :: m) = .fail) :
    (pair operand ops).Reads s (op, v) r := by
  have hread : (((symbol op.symbol).andThen operand).map fun right ↦ (op, right)).Reads s
      (op, v) r :=
    reads_map_iff.mpr ⟨v, reads_symbol_andThen ht hv (isSolid_symbol op), rfl⟩
  exact hread.of_run_eq (run_pair_eq hop ht hv.ne_fail hrest)

end Binary

/-! ## Numbered tiers -/

/-- Parser of a stratum, given the one for what stands in parentheses. -/
def tier (expression : Parser Tree) : (stratum : Nat) → Parser Tree
  | 0 => disjunction expression
  | 1 => conjunction expression
  | 2 => comparison expression
  | 3 => sum expression
  | 4 => product expression
  | 5 => unary expression
  | _ => atom expression

/-- The tiers below unary minus are binary. -/
theorem exists_tier_eq (expression : Parser Tree) {k : Nat} (hk : k < 5) :
    ∃ name, tier expression k =
      binaryTier Tree.binary (tier expression (k + 1)) (operators k) name := by
  match k with
  | 0 => exact ⟨_, rfl⟩
  | 1 => exact ⟨_, rfl⟩
  | 2 => exact ⟨_, rfl⟩
  | 3 => exact ⟨_, rfl⟩
  | 4 => exact ⟨_, rfl⟩
  | k + 5 => omega

end WhileSyntax.Grammar
