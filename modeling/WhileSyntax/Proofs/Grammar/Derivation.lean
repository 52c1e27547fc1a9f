import Mathlib.Data.Nat.Init
import WhileSyntax.Proofs.Tree.Leaves

/-!
# The grammar

What the texts of the language are, independently of how they are read. A derivation relates a text
`s`, a tree and the rest `r` of the text behind the part that the tree is derived from. White space
may stand before every token. Operators are stratified by strength, and each stratum groups to the
left:

* 0: `or ::= and ('||' and)*`
* 1: `and ::= cmp ('&&' cmp)*`
* 2: `cmp ::= add (('<' | '<=' | '==') add)*`
* 3: `add ::= fac (('+' | '-') fac)*`
* 4: `fac ::= un (('*' | '/') un)*`
* 5: `un ::= '-' name | '-' '(' or ')' | atom`
* 6: `atom ::= '(' or ')' | name | digits`

Stratum `k` is what may stand inside an operator of strength `k`. Commands are

* `com ::= name '=' or | 'if' or 'then' com 'else' com | 'while' or 'do' com`
* `     | '\x7b' [com (';' com)*] '\x7d'`

A derivation carries a bound on its nesting. What stands in parentheses, in a branch, in the body of
a loop or in a block is nested one deeper than what is around it; the condition of a conditional or
of a loop stands beside the branches or the body and not inside them.
-/

namespace WhileSyntax.Grammar

/-- Operators of a stratum. -/
def operators : (stratum : Nat) → List Binop
  | 0 => [.or]
  | 1 => [.and]
  | 2 => [.less, .lessEq, .equal]
  | 3 => [.plus, .minus]
  | 4 => [.times, .div]
  | _ => []

/-- Every operator has a stratum. -/
theorem exists_stratum (op : Binop) : ∃ k : Nat, k < 5 ∧ op.level = k + 1 := by
  have hpos := op.level_pos
  have hle : op.level ≤ 5 := by cases op <;> decide
  exact ⟨(op.level - 1).toNat, by omega, by omega⟩

/-- The operators of a stratum have one level. -/
theorem mem_operators_iff {k : Nat} {op : Binop} : op ∈ operators k ↔ op.level = k + 1 := by
  match k with
  | 0 => cases op <;> decide
  | 1 => cases op <;> decide
  | 2 => cases op <;> decide
  | 3 => cases op <;> decide
  | 4 => cases op <;> decide
  | k + 5 =>
    obtain ⟨j, hj, hl⟩ := exists_stratum op
    simp only [operators, List.not_mem_nil, false_iff]
    omega

/-- Pairs of an operator and an operand behind a first operand, grouped to the left. -/
def joinLeft (first : Tree) (pairs : List (Binop × Tree)) : Tree :=
  pairs.foldl (fun left p ↦ .binary p.1 left p.2) first

mutual

/-- Derivations of expressions in a stratum, nested no deeper than `depth`. -/
inductive Derives : (depth stratum : Nat) → (s : List Char) → (e : Tree) → (r : List Char) → Prop
  | chain {d k : Nat} {s m r : List Char} {first : Tree} {pairs : List (Binop × Tree)} :
      k < 5 → Derives d (k + 1) s first m → Pairs d k m pairs r →
        Derives d k s (joinLeft first pairs) r
  | negName {d : Nat} {s m r : List Char} {x : String} :
      Token ['-'] s m → Name x m r → Derives d 5 s (.neg (.var x)) r
  | negParens {d : Nat} {s m₁ m₂ m₃ r : List Char} {e : Tree} :
      Token ['-'] s m₁ → Token ['('] m₁ m₂ → Derives d 0 m₂ e m₃ → Token [')'] m₃ r →
        Derives (d + 1) 5 s (.neg e) r
  | atom {d : Nat} {s r : List Char} {e : Tree} : Derives d 6 s e r → Derives d 5 s e r
  | parens {d : Nat} {s m₁ m₂ r : List Char} {e : Tree} :
      Token ['('] s m₁ → Derives d 0 m₁ e m₂ → Token [')'] m₂ r → Derives (d + 1) 6 s e r
  | name {d : Nat} {s r : List Char} {x : String} : Name x s r → Derives d 6 s (.var x) r
  | number {d n : Nat} {s r : List Char} : Numeral n s r → Derives d 6 s (.const n) r

/-- Derivations of pairs of an operator of a stratum and an operand of the next one. -/
inductive Pairs :
    (depth stratum : Nat) → (s : List Char) → List (Binop × Tree) → (r : List Char) → Prop
  | nil {d k : Nat} {r : List Char} : Pairs d k r [] r
  | cons {d k : Nat} {s m₁ m₂ r : List Char} {op : Binop} {e : Tree}
      {pairs : List (Binop × Tree)} :
      op ∈ operators k → Token op.symbol.toList s m₁ → Derives d (k + 1) m₁ e m₂ →
        Pairs d k m₂ pairs r → Pairs d k s ((op, e) :: pairs) r

end

mutual

/-- Derivations of commands, nested no deeper than `depth`. -/
inductive DerivesCommand : (depth : Nat) → (s : List Char) → (c : Tree) → (r : List Char) → Prop
  | assign {d : Nat} {s m₁ m₂ r : List Char} {x : String} {e : Tree} :
      Name x s m₁ → Token ['='] m₁ m₂ → Derives d 0 m₂ e r → DerivesCommand d s (.assign x e) r
  | conditional {d : Nat} {s m₁ m₂ m₃ m₄ m₅ r : List Char} {e y n : Tree} :
      Keyword "if" s m₁ → Derives (d + 1) 0 m₁ e m₂ → Keyword "then" m₂ m₃ →
        DerivesCommand d m₃ y m₄ → Keyword "else" m₄ m₅ → DerivesCommand d m₅ n r →
          DerivesCommand (d + 1) s (.conditional e y n) r
  | loop {d : Nat} {s m₁ m₂ m₃ r : List Char} {e b : Tree} :
      Keyword "while" s m₁ → Derives (d + 1) 0 m₁ e m₂ → Keyword "do" m₂ m₃ →
        DerivesCommand d m₃ b r → DerivesCommand (d + 1) s (.loop e b) r
  | emptyBlock {d : Nat} {s m r : List Char} :
      Token ['\x7b'] s m → Token ['\x7d'] m r → DerivesCommand d s (.block []) r
  | block {d : Nat} {s m₁ m₂ m₃ r : List Char} {c : Tree} {cs : List Tree} :
      Token ['\x7b'] s m₁ → DerivesCommand d m₁ c m₂ → Members d m₂ cs m₃ →
        Token ['\x7d'] m₃ r → DerivesCommand (d + 1) s (.block (c :: cs)) r

/-- Derivations of commands with a semicolon before each. -/
inductive Members : (depth : Nat) → (s : List Char) → List Tree → (r : List Char) → Prop
  | nil {d : Nat} {r : List Char} : Members d r [] r
  | cons {d : Nat} {s m₁ m₂ r : List Char} {c : Tree} {cs : List Tree} :
      Token [';'] s m₁ → DerivesCommand d m₁ c m₂ → Members d m₂ cs r → Members d s (c :: cs) r

end

/-! ## Nesting -/

mutual

/-- A derivation nests no deeper than any higher bound. -/
theorem Derives.mono {d d' k : Nat} {s r : List Char} {e : Tree} :
    Derives d k s e r → d ≤ d' → Derives d' k s e r
  | .chain hk hfirst hpairs, hd => .chain hk (hfirst.mono hd) (hpairs.mono hd)
  | .negName ht hx, _ => .negName ht hx
  | .negParens ht ho he hc, hd => by
    obtain ⟨d', rfl⟩ := Nat.exists_eq_add_one.mpr (show 0 < d' by omega)
    exact .negParens ht ho (he.mono (Nat.le_of_succ_le_succ hd)) hc
  | .atom h, hd => .atom (h.mono hd)
  | .parens ho he hc, hd => by
    obtain ⟨d', rfl⟩ := Nat.exists_eq_add_one.mpr (show 0 < d' by omega)
    exact .parens ho (he.mono (Nat.le_of_succ_le_succ hd)) hc
  | .name hx, _ => .name hx
  | .number hn, _ => .number hn

/-- Pairs nest no deeper than any higher bound. -/
theorem Pairs.mono {d d' k : Nat} {s r : List Char} {pairs : List (Binop × Tree)} :
    Pairs d k s pairs r → d ≤ d' → Pairs d' k s pairs r
  | .nil, _ => .nil
  | .cons hop ht he hrest, hd => .cons hop ht (he.mono hd) (hrest.mono hd)

end

mutual

/-- A derivation of a command nests no deeper than any higher bound. -/
theorem DerivesCommand.mono {d d' : Nat} {s r : List Char} {c : Tree} :
    DerivesCommand d s c r → d ≤ d' → DerivesCommand d' s c r
  | .assign hx ht he, hd => .assign hx ht (he.mono hd)
  | .conditional hif he hthen hy helse hz, hd => by
    obtain ⟨d', rfl⟩ := Nat.exists_eq_add_one.mpr (show 0 < d' by omega)
    have hle := Nat.le_of_succ_le_succ hd
    exact .conditional hif (he.mono hd) hthen (hy.mono hle) helse (hz.mono hle)
  | .loop hwhile he hdo hb, hd => by
    obtain ⟨d', rfl⟩ := Nat.exists_eq_add_one.mpr (show 0 < d' by omega)
    exact .loop hwhile (he.mono hd) hdo (hb.mono (Nat.le_of_succ_le_succ hd))
  | .emptyBlock hopen hclose, _ => .emptyBlock hopen hclose
  | .block hopen hc hcs hclose, hd => by
    obtain ⟨d', rfl⟩ := Nat.exists_eq_add_one.mpr (show 0 < d' by omega)
    have hle := Nat.le_of_succ_le_succ hd
    exact .block hopen (hc.mono hle) (hcs.mono hle) hclose

/-- Members nest no deeper than any higher bound. -/
theorem Members.mono {d d' : Nat} {s r : List Char} {cs : List Tree} :
    Members d s cs r → d ≤ d' → Members d' s cs r
  | .nil, _ => .nil
  | .cons ht hc hrest, hd => .cons ht (hc.mono hd) (hrest.mono hd)

end

/-! ## From stratum to stratum -/

/-- A looser stratum derives what a tighter one does. -/
theorem Derives.loosen {d k k' : Nat} {s r : List Char} {e : Tree} (h : Derives d k' s e r)
    (hk : k ≤ k') (hk' : k' ≤ 5) : Derives d k s e r := by
  induction hk using Nat.decreasingInduction with
  | self => exact h
  | of_succ k hlt ih => exact .chain (by omega) ih .nil

private theorem Pairs.snoc {d k : Nat} {s m m' r : List Char} {pairs : List (Binop × Tree)}
    {op : Binop} {e : Tree} (hop : op ∈ operators k) (ht : Token op.symbol.toList m m')
    (he : Derives d (k + 1) m' e r) : Pairs d k s pairs m → Pairs d k s (pairs ++ [(op, e)]) r
  | .nil => .cons hop ht he .nil
  | .cons hop' ht' he' hrest => .cons hop' ht' he' (hrest.snoc hop ht he)

/-- An operator of a stratum takes what the stratum derives as its left operand. -/
theorem Derives.binary {d k : Nat} {s m m' r : List Char} {op : Binop} {a b : Tree} (hk : k < 5)
    (hop : op ∈ operators k) (ha : Derives d k s a m) (ht : Token op.symbol.toList m m')
    (hb : Derives d (k + 1) m' b r) : Derives d k s (.binary op a b) r := by
  cases ha with
  | @chain _ _ _ _ _ first pairs _ hfirst hpairs =>
    have hjoin : joinLeft first (pairs ++ [(op, b)]) = .binary op (joinLeft first pairs) b := by
      rw [joinLeft, List.foldl_append]
      rfl
    rw [← hjoin]
    exact .chain hk hfirst (hpairs.snoc hop ht hb)
  | _ => omega

/-! ## Trees that are derived -/

/-- An expression that a program can spell. -/
def Spelled (e : Tree) : Prop := e.IsExpression ∧ e.Readable

private theorem spelled_joinLeft {first : Tree} {pairs : List (Binop × Tree)} (hf : Spelled first)
    (hp : ∀ p ∈ pairs, Spelled p.2) : Spelled (joinLeft first pairs) := by
  induction pairs generalizing first with
  | nil => exact hf
  | cons p pairs ih =>
    obtain ⟨h, ht⟩ := List.forall_mem_cons.mp hp
    exact ih ⟨.binary p.1 hf.1 h.1, Tree.forall_leaves_binary.mpr ⟨hf.2, h.2⟩⟩ ht

mutual

/-- A derived tree is an expression that a program can spell. -/
theorem Derives.spelled {d k : Nat} {s r : List Char} {e : Tree} : Derives d k s e r → Spelled e
  | .chain _ hfirst hpairs => spelled_joinLeft hfirst.spelled hpairs.spelled
  | .negName _ hx => ⟨.neg (.var _), Tree.forall_leaves_neg.mpr (Tree.forall_leaves_var.mpr hx.1)⟩
  | .negParens _ _ he _ => ⟨.neg he.spelled.1, Tree.forall_leaves_neg.mpr he.spelled.2⟩
  | .atom h => h.spelled
  | .parens _ he _ => he.spelled
  | .name hx => ⟨.var _, Tree.forall_leaves_var.mpr hx.1⟩
  | .number _ => ⟨.const _, Tree.forall_leaves_const.mpr (Int.natCast_nonneg _)⟩

/-- Derived operands are expressions that a program can spell. -/
theorem Pairs.spelled {d k : Nat} {s r : List Char} {pairs : List (Binop × Tree)} :
    Pairs d k s pairs r → ∀ p ∈ pairs, Spelled p.2
  | .nil => nofun
  | .cons _ _ he hrest => List.forall_mem_cons.mpr ⟨he.spelled, hrest.spelled⟩

end

mutual

/-- A derived command is well sorted, and a program can spell its names and constants. -/
theorem DerivesCommand.spelled {d : Nat} {s r : List Char} {c : Tree} :
    DerivesCommand d s c r → c.IsCommand ∧ c.Readable
  | .assign hx _ he =>
    ⟨.assign _ he.spelled.1, Tree.forall_leaves_assign.mpr ⟨hx.1, he.spelled.2⟩⟩
  | .conditional _ he _ hy _ hn =>
    ⟨.conditional he.spelled.1 hy.spelled.1 hn.spelled.1,
      Tree.forall_leaves_conditional.mpr ⟨he.spelled.2, hy.spelled.2, hn.spelled.2⟩⟩
  | .loop _ he _ hb =>
    ⟨.loop he.spelled.1 hb.spelled.1, Tree.forall_leaves_loop.mpr ⟨he.spelled.2, hb.spelled.2⟩⟩
  | .emptyBlock _ _ => ⟨.block nofun, Tree.forall_leaves_block.mpr nofun⟩
  | .block _ hc hcs _ =>
    have hall : ∀ x ∈ _ :: _, Tree.IsCommand x ∧ Tree.Readable x :=
      List.forall_mem_cons.mpr ⟨hc.spelled, hcs.spelled⟩
    ⟨.block fun c h ↦ (hall c h).1, Tree.forall_leaves_block.mpr fun c h ↦ (hall c h).2⟩

/-- Derived members of a block are well sorted, and a program can spell them. -/
theorem Members.spelled {d : Nat} {s r : List Char} {cs : List Tree} :
    Members d s cs r → ∀ c ∈ cs, c.IsCommand ∧ c.Readable
  | .nil => nofun
  | .cons _ hc hcs => List.forall_mem_cons.mpr ⟨hc.spelled, hcs.spelled⟩

end

/-! ## Whole texts -/

/-- The whole text is an expression, with any white space at the end. -/
def ExpressionText (depth : Nat) (text : List Char) (e : Tree) : Prop :=
  ∃ r, Blank r ∧ Derives depth 0 text e r

/-- The whole text is a command, with any white space at the end. -/
def CommandText (depth : Nat) (text : List Char) (c : Tree) : Prop :=
  ∃ r, Blank r ∧ DerivesCommand depth text c r

end WhileSyntax.Grammar
