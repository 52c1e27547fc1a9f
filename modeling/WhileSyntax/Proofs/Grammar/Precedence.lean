import WhileSyntax.Proofs.Grammar.Extension
import WhileSyntax.Proofs.Printer.Expression

/-!
# Precedence of operators

The tiers of the grammar read operands with binary operators between them as the table of
precedences groups them: at the rightmost of the operators that bind loosest, and so on inside both
sides (`regroup`). Operands are names, numbers and parentheses, with or without a minus, and any
white space may stand between all tokens.

A text in parentheses is an operand when the parser accepts it, so its derivation has to be bounded
by what is seen of it: a derivation nests as deep as the parentheses of its text
(`Derives.nesting`).
-/

namespace WhileSyntax.Grammar

open WhileSyntax.Parser

variable {d k n n' : Nat} {s m m' r t text : List Char} {e first : Tree}
  {pairs : List (Binop × Tree)}

/-! ## Splitting at an operator -/

/-- Pairs of an operator and an operand, split at one of the operators. -/
structure Split where
  before : List (Binop × Tree)
  op : Binop
  operand : Tree
  after : List (Binop × Tree)

namespace Split

/-- The pairs that are split. -/
def joined (t : Split) : List (Binop × Tree) := t.before ++ (t.op, t.operand) :: t.after

/-- No operator binds looser, and none further right binds as loosely. -/
def IsLoosest (t : Split) : Prop :=
  (∀ p ∈ t.before, t.op.level ≤ p.1.level) ∧ ∀ p ∈ t.after, t.op.level < p.1.level

/-- The split at the rightmost operator of those that bind loosest. -/
def loosest : List (Binop × Tree) → Option Split
  | [] => none
  | (op, e) :: rest =>
    match loosest rest with
    | some t =>
      if op.level < t.op.level then some ⟨[], op, e, rest⟩
      else some { t with before := (op, e) :: t.before }
    | none => some ⟨[], op, e, rest⟩

private theorem loosest_eq_none_iff : loosest pairs = none ↔ pairs = [] := by
  cases pairs with
  | nil => exact ⟨fun _ ↦ rfl, fun _ ↦ rfl⟩
  | cons p rest =>
    refine iff_of_false ?_ (List.cons_ne_nil _ _)
    rw [loosest]
    split
    · split <;> exact nofun
    · exact nofun

private theorem loosest_spec {t : Split} (h : loosest pairs = some t) :
    pairs = t.joined ∧ t.IsLoosest := by
  induction pairs generalizing t with
  | nil => cases h
  | cons p rest ih =>
    rw [loosest] at h
    split at h
    · next t' ht' =>
      obtain ⟨hrest, hbefore, hafter⟩ := ih ht'
      split at h
      · next hlt =>
        cases h
        refine ⟨rfl, nofun, fun q hq ↦ ?_⟩
        -- everything on the right binds at least as tight as the loosest operator there
        rw [hrest, joined, List.mem_append, List.mem_cons] at hq
        rcases hq with hq | rfl | hq
        · exact Int.lt_of_lt_of_le hlt (hbefore q hq)
        · exact hlt
        · exact Int.lt_trans hlt (hafter q hq)
      · next hle =>
        cases h
        refine ⟨by rw [hrest]; rfl, List.forall_mem_cons.mpr ⟨Int.not_lt.mp hle, hbefore⟩, hafter⟩
    · next hnone =>
      cases h
      obtain rfl := loosest_eq_none_iff.mp hnone
      exact ⟨rfl, nofun, nofun⟩

private theorem loosest_append {before after : List (Binop × Tree)} {op : Binop} (e : Tree)
    (hbefore : ∀ p ∈ before, op.level ≤ p.1.level) (hafter : ∀ p ∈ after, op.level < p.1.level) :
    loosest (before ++ (op, e) :: after) = some ⟨before, op, e, after⟩ := by
  induction before with
  | nil =>
    rw [List.nil_append, loosest]
    split
    · next t ht =>
      have hmem : (t.op, t.operand) ∈ after := by
        have hsplit := (loosest_spec ht).1
        rw [hsplit, joined]
        exact List.mem_append_right _ List.mem_cons_self
      rw [if_pos (hafter _ hmem)]
    · rfl
  | cons p before ih =>
    obtain ⟨hp, hbefore⟩ := List.forall_mem_cons.mp hbefore
    rw [List.cons_append, loosest, ih hbefore]
    exact if_neg (Int.not_lt.mpr hp)

private theorem length_lt {t : Split} (h : loosest pairs = some t) :
    t.before.length < pairs.length ∧ t.after.length < pairs.length := by
  rw [(loosest_spec h).1, Split.joined, List.length_append, List.length_cons]
  omega

end Split

/-- The tree of operands with operators between them: the rightmost operator of those that bind
loosest is its root, and the two sides are regrouped in the same way. -/
def regroup (first : Tree) (pairs : List (Binop × Tree)) : Tree :=
  match _h : Split.loosest pairs with
  | none => first
  | some t => .binary t.op (regroup first t.before) (regroup t.operand t.after)
  termination_by pairs.length
  decreasing_by
  · exact (Split.length_lt _h).1
  · exact (Split.length_lt _h).2

private theorem regroup_nil (first : Tree) : regroup first [] = first := by
  rw [regroup]
  rfl

private theorem regroup_split {t : Split} (h : t.IsLoosest) (first : Tree) :
    regroup first t.joined = .binary t.op (regroup first t.before) (regroup t.operand t.after) := by
  have hloosest : Split.loosest t.joined = some t := Split.loosest_append t.operand h.1 h.2
  rw [regroup]
  split
  · next hnone =>
    rw [hloosest] at hnone
    cases hnone
  · next hsome =>
    rw [hloosest] at hsome
    cases hsome
    rfl

/-! ## Nesting of derivations -/

/-- White space holds no parentheses. -/
theorem Blank.isPlain {u : List Char} (hu : Blank u) : u.all isPlain = true := by
  apply List.all_eq_true.mpr
  intro c hc
  rw [Grammar.isPlain, Bool.and_eq_true, bne_iff_ne, bne_iff_ne]
  constructor
  · rintro rfl
    exact absurd (hu _ hc) (by decide)
  · rintro rfl
    exact absurd (hu _ hc) (by decide)

/-- Text that nests `n` deep and closes what it opens stands between `s` and its rest `r`. -/
def Between (n : Nat) (s r : List Char) : Prop := ∃ t, s = t ++ r ∧ Balances t n

namespace Between

/-- Between a text and itself stands nothing. -/
theorem refl (r : List Char) : Between 0 r r := ⟨[], rfl, .of_plain rfl⟩

/-- The deeper part decides. -/
theorem trans (h : Between n s m) (h' : Between n' m r) : Between (max n n') s r := by
  obtain ⟨t, rfl, ht⟩ := h
  obtain ⟨t', rfl, ht'⟩ := h'
  exact ⟨t ++ t', (List.append_assoc _ _ _).symm, ht.append ht'⟩

/-- Tokens without parentheses do not nest. -/
theorem of_token (h : Token t s r) (ht : t.all isPlain = true) : Between 0 s r := by
  obtain ⟨u, hu, rfl⟩ := h
  exact ⟨u ++ t, rfl, .of_plain (by rw [List.all_append, hu.isPlain, ht]; rfl)⟩

/-- Parentheses nest one deeper. -/
theorem parens {m₁ m₂ : List Char} (ho : Token ['('] s m₁) (h : Between n m₁ m₂)
    (hc : Token [')'] m₂ r) : Between (n + 1) s r := by
  obtain ⟨u, hu, rfl⟩ := ho
  obtain ⟨t, rfl, ht⟩ := h
  obtain ⟨v, hv, rfl⟩ := hc
  have hinner : Balances (t ++ v) n := by simpa using ht.append (.of_plain hv.isPlain)
  have houter : Balances (u ++ ('(' :: (t ++ v) ++ [')'])) (n + 1) := by
    simpa using (Balances.of_plain hu.isPlain).append hinner.parens
  exact ⟨_, by simp, houter⟩

/-- Names do not nest. -/
theorem of_name {x : String} (hx : Name x s r) : Between 0 s r :=
  of_token hx.2.1 (Spells.isPlain_of_isWordPart fun _ hc ↦
    Text.isWordPart_of_mem_of_isWord hx.1.1 hc)

/-- Numerals do not nest. -/
theorem of_numeral {v : Nat} (hv : Numeral v s r) : Between 0 s r := by
  obtain ⟨digits, -, hall, -, -, ht, -⟩ := hv
  exact of_token ht (Spells.isPlain_of_isWordPart fun c hc ↦ Text.isWordPart_of_isDigit (hall c hc))

/-- Operators do not nest. -/
theorem of_operator {op : Binop} (ht : Token op.symbol.toList s r) : Between 0 s r :=
  of_token ht (by cases op <;> decide)

end Between

mutual

/-- A derivation nests no deeper than the parentheses of its text. -/
theorem Derives.nesting {d k : Nat} {s r : List Char} {e : Tree} :
    Derives d k s e r → ∃ n, Between n s r ∧ Derives n k s e r
  | .chain hk hfirst hpairs => by
    obtain ⟨n, hn, hfirst⟩ := hfirst.nesting
    obtain ⟨n', hn', hpairs⟩ := hpairs.nesting
    exact ⟨max n n', hn.trans hn',
      .chain hk (hfirst.mono (Nat.le_max_left n n')) (hpairs.mono (Nat.le_max_right n n'))⟩
  | .negName ht hx => ⟨0, (Between.of_token ht rfl).trans (.of_name hx), .negName ht hx⟩
  | .negParens ht ho he hc => by
    obtain ⟨n, hn, he⟩ := he.nesting
    refine ⟨n + 1, ?_, .negParens ht ho he hc⟩
    simpa using (Between.of_token ht rfl).trans (.parens ho hn hc)
  | .atom h => by
    obtain ⟨n, hn, h⟩ := h.nesting
    exact ⟨n, hn, .atom h⟩
  | .parens ho he hc => by
    obtain ⟨n, hn, he⟩ := he.nesting
    exact ⟨n + 1, .parens ho hn hc, .parens ho he hc⟩
  | .name hx => ⟨0, .of_name hx, .name hx⟩
  | .number hv => ⟨0, .of_numeral hv, .number hv⟩

/-- Pairs nest no deeper than the parentheses of their text. -/
theorem Pairs.nesting {d k : Nat} {s r : List Char} {pairs : List (Binop × Tree)} :
    Pairs d k s pairs r → ∃ n, Between n s r ∧ Pairs n k s pairs r
  | .nil => ⟨0, .refl _, .nil⟩
  | .cons hop ht he hrest => by
    obtain ⟨n, hn, he⟩ := he.nesting
    obtain ⟨n', hn', hrest⟩ := hrest.nesting
    have hboth : Between (max n n') _ _ := hn.trans hn'
    refine ⟨max n n', ?_,
      .cons hop ht (he.mono (Nat.le_max_left n n')) (hrest.mono (Nat.le_max_right n n'))⟩
    simpa using (Between.of_operator ht).trans hboth

end

/-! ## Operands -/

/-- Texts of operands and their trees: a name, a number, a name behind a minus, or an expression
that the parser accepts in parentheses, also behind a minus. -/
inductive Operand : List Char → Tree → Prop
  | name {x : String} (hx : IsName x) : Operand x.toList (.var x)
  | number {digits : List Char} (hne : digits ≠ []) (hall : ∀ c ∈ digits, c.isDigit = true)
      (hl : digits.length ≤ Text.Decimal.digitLimit) :
      Operand digits (.const (Nat.ofDigitChars 10 digits 0))
  | negName {u : List Char} {x : String} (hu : Blank u) (hx : IsName x) :
      Operand ('-' :: (u ++ x.toList)) (.neg (.var x))
  | parens {s : List Char} {e : Tree} (h : (parseExpression s).answer = .ok (some e)) :
      Operand ('(' :: s ++ [')']) e
  | negParens {u s : List Char} {e : Tree} (hu : Blank u)
      (h : (parseExpression s).answer = .ok (some e)) :
      Operand ('-' :: (u ++ ('(' :: s ++ [')']))) (.neg e)

/-- Texts of operands with binary operators between them, and any white space around all of them. -/
inductive Operands : List Char → Tree → List (Binop × Tree) → Prop
  | one {u t v : List Char} {e : Tree} (hu : Blank u) (ht : Operand t e) (hv : Blank v) :
      Operands (u ++ (t ++ v)) e []
  | more {u t v s : List Char} {e e' : Tree} {op : Binop} {pairs : List (Binop × Tree)}
      (hu : Blank u) (ht : Operand t e) (hv : Blank v) (hs : Operands s e' pairs) :
      Operands (u ++ (t ++ v) ++ (op.symbol.toList ++ s)) e ((op, e') :: pairs)

private theorem exists_derives_inside (h : (parseExpression s).answer = .ok (some e)) :
    ∃ n r, Balances s n ∧ Blank r ∧ ∀ f, Derives n 0 (s ++ ')' :: f) e (r ++ ')' :: f) := by
  obtain ⟨r, hread, hr⟩ := (readAll_eq_some_iff (bounded_expression nestingLimit)).mp h
  obtain ⟨n, ⟨t, rfl, ht⟩, -⟩ := (derives_of_reads nestingLimit _ _ _ hread).nesting
  have hb : Balances (t ++ r) n := by simpa using ht.append (.of_plain hr.isPlain)
  refine ⟨n, r, hb, hr, fun f ↦ ?_⟩
  have hstop : Stops Text.isWordPart (')' :: f) := stops_cons.mpr (by decide)
  have hclose : Token [')'] (r ++ ')' :: f) f := ⟨r, hr, by simp⟩
  have hread' := (local_expression nestingLimit _ _ _ hread).extend hstop (.of_token hclose rfl rfl)
  obtain ⟨n', ⟨t', ht', hb'⟩, hd⟩ := (derives_of_reads nestingLimit _ _ _ hread').nesting
  rw [List.append_assoc] at ht'
  obtain rfl := List.append_cancel_right ht'
  obtain rfl : n = n' := ht.parenDepth_eq.symm.trans hb'.parenDepth_eq
  exact hd

/-- Operands are spelled without operators outside of parentheses. -/
theorem Operand.spells (h : Operand t e) : Spells 5 t e := by
  cases h with
  | name hx => exact (Spells.name hx).of_atom
  | number hne hall hl =>
    have hplain := Spells.isPlain_of_isWordPart fun c hc ↦ Text.isWordPart_of_isDigit (hall c hc)
    exact ⟨0, .of_plain hplain, fun u f hu hf ↦
      .atom (.number ⟨t, hne, hall, hl, rfl, ⟨u, hu, rfl⟩, hf.digit⟩)⟩
  | @negName u x hu hx =>
    have hminus : Balances ['-'] 0 := .of_plain (by decide)
    have hword : Balances x.toList 0 := .of_plain (Spells.isPlain_of_isWordPart fun _ hc ↦
      Text.isWordPart_of_mem_of_isWord hx.1 hc)
    refine ⟨0, hminus.append ((Balances.of_plain hu.isPlain).append hword), fun w f hw hf ↦ ?_⟩
    have ht : Token ['-'] (w ++ '-' :: (u ++ x.toList) ++ f) (u ++ (x.toList ++ f)) :=
      ⟨w, hw, by simp⟩
    exact .negName ht ⟨hx, .of_append hu, hf⟩
  | @parens s e h =>
    obtain ⟨n, r, hb, hr, hd⟩ := exists_derives_inside h
    refine Spells.of_atom ⟨n + 1, hb.parens, fun w f hw hf ↦ ?_⟩
    have ho : Token ['('] (w ++ ('(' :: s ++ [')']) ++ f) (s ++ ')' :: f) := ⟨w, hw, by simp⟩
    exact .parens ho (hd f) ⟨r, hr, by simp⟩
  | @negParens u s e hu h =>
    obtain ⟨n, r, hb, hr, hd⟩ := exists_derives_inside h
    have hall : Balances ('-' :: (u ++ ('(' :: s ++ [')']))) (n + 1) := by
      have hminus : Balances ('-' :: u) 0 := .of_plain (by rw [List.all_cons, hu.isPlain]; rfl)
      simpa using hminus.append hb.parens
    refine ⟨n + 1, hall, fun w f hw hf ↦ ?_⟩
    have ht : Token ['-'] (w ++ '-' :: (u ++ ('(' :: s ++ [')'])) ++ f)
        (u ++ '(' :: (s ++ ')' :: f)) := ⟨w, hw, by simp⟩
    have ho : Token ['('] (u ++ '(' :: (s ++ ')' :: f)) (s ++ ')' :: f) := ⟨u, hu, by simp⟩
    exact .negParens ht ho (hd f) ⟨r, hr, by simp⟩

/-! ## Chains of operands -/

/-- Wherever no word goes on, a text is derived in a stratum up to white space at its end, nested as
deep as its parentheses. -/
def SpellsPadded (k : Nat) (text : List Char) (e : Tree) : Prop :=
  ∃ n, Balances text n ∧ ∀ f, Stops Text.isWordPart f →
    ∃ v, Blank v ∧ Derives n k (text ++ f) e (v ++ f)

namespace SpellsPadded

private theorem of_spells {u v : List Char} (hu : Blank u) (h : Spells k t e) (hv : Blank v) :
    SpellsPadded k (u ++ (t ++ v)) e := by
  obtain ⟨n, hb, hd⟩ := h
  have hall : Balances (u ++ (t ++ v)) n := by
    simpa using (Balances.of_plain hu.isPlain).append (hb.append (.of_plain hv.isPlain))
  refine ⟨n, hall, fun f hf ↦ ⟨v, hv, ?_⟩⟩
  have hstops : Stops Text.isWordPart (v ++ f) := by
    cases v with
    | nil => exact hf
    | cons c v =>
      exact stops_cons.mpr (Text.isWordPart_eq_false_of_isBlank (hv c List.mem_cons_self))
  simpa using hd u (v ++ f) hu hstops

private theorem loosen {k' : Nat} (h : SpellsPadded k' text e) (hk : k ≤ k') (hk' : k' ≤ 5) :
    SpellsPadded k text e := by
  obtain ⟨n, hb, hd⟩ := h
  refine ⟨n, hb, fun f hf ↦ ?_⟩
  obtain ⟨v, hv, hd⟩ := hd f hf
  exact ⟨v, hv, hd.loosen hk hk'⟩

private theorem binary {op : Binop} {a b : List Char} {l r : Tree} (hk : k < 5)
    (hop : op.level = k + 1) (ha : SpellsPadded k a l) (hb : SpellsPadded (k + 1) b r) :
    SpellsPadded k (a ++ (op.symbol.toList ++ b)) (.binary op l r) := by
  obtain ⟨n, hba, hda⟩ := ha
  obtain ⟨n', hbb, hdb⟩ := hb
  have hsymbol : Balances op.symbol.toList 0 := .of_plain (by cases op <;> decide)
  have hall : Balances (a ++ (op.symbol.toList ++ b)) (max n n') := by
    simpa using hba.append (hsymbol.append hbb)
  refine ⟨max n n', hall, fun f hf ↦ ?_⟩
  have hstops : Stops Text.isWordPart (op.symbol.toList ++ (b ++ f)) := by
    cases op <;> exact stops_cons.mpr (by decide)
  obtain ⟨v, hv, hl⟩ := hda _ hstops
  obtain ⟨v', hv', hr⟩ := hdb f hf
  have ht : Token op.symbol.toList (v ++ (op.symbol.toList ++ (b ++ f))) (b ++ f) := .of_append hv
  have hbinary := (hl.mono (Nat.le_max_left n n')).binary hk (mem_operators_iff.mpr hop) ht
    (hr.mono (Nat.le_max_right n n'))
  exact ⟨v', hv', by simpa using hbinary⟩

private theorem accepted (h : SpellsPadded 0 text e) {levels : Nat}
    (hd : parenDepth text < levels) : ((expression levels).readAll text).answer = .ok (some e) := by
  obtain ⟨n, hb, hderives⟩ := h
  obtain ⟨v, hv, he⟩ := hderives [] (stops_nil _)
  rw [List.append_nil, List.append_nil] at he
  rw [hb.parenDepth_eq] at hd
  exact ExpressionText.accepted ⟨v, hv, he⟩ hd

end SpellsPadded

namespace Operands

private theorem split {before after : List (Binop × Tree)} {op : Binop}
    (h : Operands text first (before ++ (op, e) :: after)) :
    ∃ a b, text = a ++ (op.symbol.toList ++ b) ∧ Operands a first before ∧ Operands b e after := by
  induction before generalizing text first with
  | nil =>
    cases h with
    | more hu ht hv hs => exact ⟨_, _, rfl, .one hu ht hv, hs⟩
  | cons p before ih =>
    cases h with
    | more hu ht hv hs =>
      obtain ⟨a, b, rfl, ha, hb⟩ := ih hs
      exact ⟨_, b, by simp only [List.append_assoc], .more hu ht hv ha, hb⟩

private theorem spellsPadded (h : Operands text first pairs) (hk : k ≤ 5)
    (hl : ∀ p ∈ pairs, (k : Int) < p.1.level) : SpellsPadded k text (regroup first pairs) := by
  induction hn : pairs.length using Nat.strongRecOn generalizing text first pairs k with
  | ind n ih =>
    subst hn
    cases hsplit : Split.loosest pairs with
    | none =>
      obtain rfl := Split.loosest_eq_none_iff.mp hsplit
      rw [regroup_nil]
      cases h with
      | one hu ht hv =>
        exact (SpellsPadded.of_spells hu ht.spells hv).loosen hk (Nat.le_refl 5)
    | some t =>
      obtain ⟨hbefore, hafter⟩ := Split.length_lt hsplit
      obtain ⟨rfl, hloosest⟩ := Split.loosest_spec hsplit
      obtain ⟨a, b, rfl, ha, hb⟩ := h.split
      obtain ⟨j, hj, hop⟩ := exists_stratum t.op
      have hkop := hl (t.op, t.operand) (List.mem_append_right _ List.mem_cons_self)
      rw [regroup_split hloosest]
      refine SpellsPadded.loosen (.binary hj hop (ih _ hbefore ha (by omega) ?_ rfl)
        (ih _ hafter hb (by omega) ?_ rfl)) (by simp only at hkop; omega) (by omega)
      · intro p hp
        have := hloosest.1 p hp
        omega
      · intro p hp
        have := hloosest.2 p hp
        push_cast
        omega

end Operands

/-- The parser groups operands with operators between them as the table of precedences says: the
tree of the text has the rightmost of the loosest operators at its root, and the trees of the two
sides below it. Any limit above 20 levels gives this tree. -/
theorem parseExpression_regroups (h : Operands text first pairs) (hd : parenDepth text ≤ 20) :
    (parseExpression text).answer = .ok (some (regroup first pairs)) ∧
    ∀ limit, 20 < limit →
      ((expression limit).readAll text).answer = .ok (some (regroup first pairs)) := by
  have hspells : SpellsPadded 0 text (regroup first pairs) :=
    h.spellsPadded (Nat.zero_le 5) fun p _ ↦ p.1.level_pos
  have hall : ∀ limit, 20 < limit →
      ((expression limit).readAll text).answer = .ok (some (regroup first pairs)) :=
    fun limit hlimit ↦ hspells.accepted (Nat.lt_of_le_of_lt hd hlimit)
  exact ⟨hall nestingLimit (by decide), hall⟩

/-- Two differences are grouped to the left around a product, and an operand is a negation. -/
theorem parseExpression_regroups_differences :
    Operands "a - -( b<c )-d*2 ".toList (.var "a")
      [(.minus, .neg (.binary .less (.var "b") (.var "c"))), (.minus, .var "d"),
        (.times, .const 2)] ∧
    parenDepth "a - -( b<c )-d*2 ".toList ≤ 20 ∧
    (parseExpression "a - -( b<c )-d*2 ".toList).answer = .ok (some (.binary .minus
      (.binary .minus (.var "a") (.neg (.binary .less (.var "b") (.var "c"))))
      (.binary .times (.var "d") (.const 2)))) := by
  have hspace : Blank [' '] := List.forall_mem_singleton.mpr (by decide)
  have ha : Operand "a".toList (.var "a") := .name ⟨by decide, by decide⟩
  have hd : Operand "d".toList (.var "d") := .name ⟨by decide, by decide⟩
  have htwo : Operand ['2'] (.const 2) :=
    .number (List.cons_ne_nil _ _) (List.forall_mem_singleton.mpr (by decide)) (by decide)
  have hinner : (parseExpression " b<c ".toList).answer =
      .ok (some (.binary .less (.var "b") (.var "c"))) := rfl
  have hfactor : Operands "2 ".toList (.const 2) [] := .one blank_nil htwo hspace
  have hproduct : Operands "d*2 ".toList (.var "d") [(.times, .const 2)] :=
    @Operands.more _ _ _ _ _ _ .times _ blank_nil hd blank_nil hfactor
  have hdifference : Operands " -( b<c )-d*2 ".toList
      (.neg (.binary .less (.var "b") (.var "c"))) [(.minus, .var "d"), (.times, .const 2)] :=
    @Operands.more _ _ _ _ _ _ .minus _ hspace (.negParens blank_nil hinner) blank_nil hproduct
  have hall : Operands "a - -( b<c )-d*2 ".toList (.var "a")
      [(.minus, .neg (.binary .less (.var "b") (.var "c"))), (.minus, .var "d"),
        (.times, .const 2)] :=
    @Operands.more _ _ _ _ _ _ .minus _ blank_nil ha hspace hdifference
  have hdepth : parenDepth "a - -( b<c )-d*2 ".toList ≤ 20 := by decide
  refine ⟨hall, hdepth, (parseExpression_regroups hall hdepth).1.trans ?_⟩
  simp [regroup, Split.loosest, Binop.level, Binop.precedence, Precedence.strength]

end WhileSyntax.Grammar
