import WhileSyntax.Printer.Expression
import WhileSyntax.Proofs.Grammar.Recognition
import WhileSyntax.Proofs.Printer.Parentheses
import WhileSyntax.Tree.Equality

/-!
# Printed expressions are read back

A spine of operators is printed as if each operator printed its left operand in a context of its own
(`printAt_onSpine`). The text printed in a context is derived in the stratum of that context, nested
as deep as its parentheses, so the parser reads the tree back.
-/

namespace WhileSyntax

open Grammar

namespace Tree

/-! ## Spines -/

/-- On a spine a tree is printed as inside the operator around it, with the tails behind it. -/
theorem printAt_onSpine : ∀ (t : Tree) (level : Int) (tails : List (List Char)),
    t.printAt (.onSpine level tails) = (t.printInside (level - 1)).map (· ++ tails.flatten)
  | var name, level, tails => by
    simp [printInside, printAt, Place.following, Except.map]
  | const value, level, tails => by
    rw [printInside, printAt, printAt]
    cases Text.Decimal.write value with
    | error error => rfl
    | ok digits => simp [Place.following, Except.map]
  | neg operand, level, tails => by
    rw [printInside, printAt, printAt]
    cases operand.variableName? with
    | some name => simp [Place.following, Except.map]
    | none =>
      cases operand.printAt (.inside Precedence.none.strength) with
      | error error => rfl
      | ok text => simp [Place.following, Except.map, bind, Except.bind]
  | binary op left right, level, tails => by
    rw [printInside, printAt, printAt]
    cases right.printAt (.inside op.level) with
    | error error => rfl
    | ok operand =>
      simp only [bind, Except.bind]
      by_cases hl : op.level = level
      · subst hl
        rw [if_pos rfl, printAt_onSpine left, printAt_onSpine left]
        have hloose : ¬op.level ≤ op.level - 1 := by omega
        cases left.printInside (op.level - 1) with
        | error error => rfl
        | ok text => simp [Except.map, parenthesizeIf, hloose]
      · rw [if_neg hl]
        cases left.printAt (.onSpine op.level [op.symbol.toList ++ operand]) with
        | error error => rfl
        | ok text => rfl
  | assign _ _, _, _ => by simp [printInside, printAt, Except.map]
  | block _, _, _ => by simp [printInside, printAt, Except.map]
  | conditional _ _ _, _, _ => by simp [printInside, printAt, Except.map]
  | loop _ _, _, _ => by simp [printInside, printAt, Except.map]
  | bareExpression, _, _ => by simp [printInside, printAt, Except.map]
  | bareCommand, _, _ => by simp [printInside, printAt, Except.map]
  | plain _, _, _ => by simp [printInside, printAt, Except.map]

/-- What is printed for an operator, also where the printing of an operand fails. -/
theorem printInside_binary_eq (op : Binop) (left right : Tree) (context : Int) :
    (binary op left right).printInside context = (do
      let after ← right.printInside op.level
      let before ← left.printInside (op.level - 1)
      .ok (parenthesizeIf (op.level ≤ context) (before ++ (op.symbol.toList ++ after)))) := by
  rw [printInside, printAt, ← printInside]
  cases right.printInside op.level with
  | error error => rfl
  | ok after =>
    simp only [bind, Except.bind]
    rw [printAt_onSpine]
    cases left.printInside (op.level - 1) with
    | error error => rfl
    | ok before => simp [Except.map]

/-- An operator prints its left operand one context looser than its right one. -/
theorem printInside_binary {op : Binop} {left right : Tree} {a b : List Char} {context : Int}
    (ha : left.printInside (op.level - 1) = .ok a) (hb : right.printInside op.level = .ok b) :
    (binary op left right).printInside context =
      .ok (parenthesizeIf (op.level ≤ context) (a ++ (op.symbol.toList ++ b))) := by
  rw [printInside_binary_eq, hb, ha]
  rfl

/-- Unary minus stands in front of a name. -/
theorem printInside_neg_var (name : String) (context : Int) :
    (neg (var name)).printInside context = .ok ('-' :: name.toList) := by
  simp [printInside, printAt, variableName?, Place.following]

/-- Only variables consist of a name. -/
theorem eq_var_of_variableName? {t : Tree} {name : String} (h : t.variableName? = some name) :
    t = var name := by
  cases t with
  | var x => exact congrArg var (Option.some.inj h)
  | _ => cases h

/-- What is printed for a negated operand that is no name, also where its printing fails. -/
theorem printInside_neg_eq {operand : Tree} (hv : operand.variableName? = none) (context : Int) :
    (neg operand).printInside context = (do
      let text ← operand.printInside 0
      .ok ('-' :: '(' :: text ++ [')'])) := by
  rw [printInside, printAt, hv]
  rfl

private theorem printInside_neg {operand : Tree} {text : List Char} {context : Int}
    (hv : operand.variableName? = none) (h : operand.printInside 0 = .ok text) :
    (neg operand).printInside context = .ok ('-' :: ('(' :: text ++ [')'])) := by
  rw [printInside_neg_eq hv, h]
  rfl

end Tree

/-! ## Texts of expressions -/

/-- Wherever no word goes on, a text is derived in a stratum, nested as deep as its parentheses. -/
def Spells (k : Nat) (text : List Char) (e : Tree) : Prop :=
  ∃ n, Balances text n ∧ ∀ u f, Blank u → Stops Text.isWordPart f → Derives n k (u ++ text ++ f) e f

namespace Spells

variable {k k' : Nat} {text a b : List Char} {e l r : Tree}

/-- Words hold no parentheses. -/
theorem isPlain_of_isWordPart {t : List Char} (h : ∀ c ∈ t, Text.isWordPart c = true) :
    t.all isPlain = true := by
  apply List.all_eq_true.mpr
  intro c hc
  rw [isPlain, Bool.and_eq_true, bne_iff_ne, bne_iff_ne]
  constructor
  · rintro rfl
    exact absurd (h _ hc) (by decide)
  · rintro rfl
    exact absurd (h _ hc) (by decide)

/-- Text of a tighter stratum is text of a looser one. -/
theorem loosen (h : Spells k' text e) (hk : k ≤ k') (hk' : k' ≤ 5) : Spells k text e := by
  obtain ⟨n, hb, hd⟩ := h
  exact ⟨n, hb, fun u f hu hf ↦ (hd u f hu hf).loosen hk hk'⟩

/-- An atom is text of every stratum above it. -/
theorem of_atom (h : Spells 6 text e) : Spells 5 text e := by
  obtain ⟨n, hb, hd⟩ := h
  exact ⟨n, hb, fun u f hu hf ↦ .atom (hd u f hu hf)⟩

/-- A name spells a variable. -/
theorem name {x : String} (hx : IsName x) : Spells 6 x.toList (.var x) := by
  have hplain := isPlain_of_isWordPart fun c hc ↦ Text.isWordPart_of_mem_of_isWord hx.1 hc
  exact ⟨0, .of_plain hplain, fun u f hu hf ↦ .name ⟨hx, ⟨u, hu, rfl⟩, hf⟩⟩

/-- A name behind a minus spells its negation. -/
theorem negName {x : String} (hx : IsName x) : Spells 5 ('-' :: x.toList) (.neg (.var x)) := by
  have hplain := isPlain_of_isWordPart fun c hc ↦ Text.isWordPart_of_mem_of_isWord hx.1 hc
  have hall : ('-' :: x.toList).all isPlain = true := by rw [List.all_cons, hplain]; rfl
  refine ⟨0, .of_plain hall, fun u f hu hf ↦ ?_⟩
  have ht : Token ['-'] (u ++ '-' :: x.toList ++ f) (x.toList ++ f) :=
    ⟨u, hu, by simp only [List.append_assoc, List.cons_append, List.nil_append]⟩
  exact .negName ht ⟨hx, ⟨[], blank_nil, rfl⟩, hf⟩

/-- A numeral spells a constant. -/
theorem numeral {n : Nat} (hn : (Nat.toDigits 10 n).length ≤ Text.Decimal.digitLimit) :
    Spells 6 (Nat.toDigits 10 n) (.const n) := by
  have hall : ∀ c ∈ Nat.toDigits 10 n, c.isDigit = true := fun c hc ↦
    Nat.isDigit_of_mem_toDigits (by decide) (by decide) hc
  have hplain := isPlain_of_isWordPart fun c hc ↦ Text.isWordPart_of_isDigit (hall c hc)
  refine ⟨0, .of_plain hplain, fun u f hu hf ↦ ?_⟩
  have hstop : Stops Char.isDigit f := by
    intro c hc
    by_contra hd
    rw [Bool.not_eq_false] at hd
    have := Text.isWordPart_of_isDigit hd
    rw [hf c hc] at this
    cases this
  refine .number ⟨_, Nat.toDigits_ne_nil, hall, hn, ?_, ⟨u, hu, rfl⟩, hstop⟩
  exact Nat.ofDigitChars_toDigits (by decide) (by decide)

/-- Parentheses around an expression spell an atom. -/
theorem parens (h : Spells 0 text e) : Spells 6 ('(' :: text ++ [')']) e := by
  obtain ⟨n, hb, hd⟩ := h
  refine ⟨n + 1, hb.parens, fun u f hu hf ↦ ?_⟩
  have ho : Token ['('] (u ++ ('(' :: text ++ [')']) ++ f) ([] ++ text ++ ')' :: f) :=
    ⟨u, hu, by simp only [List.append_assoc, List.cons_append, List.nil_append]⟩
  have hc : Token [')'] (')' :: f) f := ⟨[], blank_nil, rfl⟩
  have hstop : Stops Text.isWordPart (')' :: f) := stops_cons.mpr (by decide)
  exact .parens ho (hd [] _ blank_nil hstop) hc

/-- Parentheses behind a minus spell a negation. -/
theorem negParens (h : Spells 0 text e) : Spells 5 ('-' :: ('(' :: text ++ [')'])) (.neg e) := by
  obtain ⟨n, hb, hd⟩ := h
  have hminus : Balances ['-'] 0 := .of_plain (by decide)
  have hall := hminus.append hb.parens
  rw [Nat.zero_max] at hall
  refine ⟨n + 1, hall, fun u f hu hf ↦ ?_⟩
  have ht : Token ['-'] (u ++ '-' :: ('(' :: text ++ [')']) ++ f) ('(' :: text ++ [')'] ++ f) :=
    ⟨u, hu, by simp only [List.append_assoc, List.cons_append, List.nil_append]⟩
  have ho : Token ['('] ('(' :: text ++ [')'] ++ f) ([] ++ text ++ ')' :: f) :=
    ⟨[], blank_nil, by simp only [List.append_assoc, List.cons_append, List.nil_append]⟩
  have hc : Token [')'] (')' :: f) f := ⟨[], blank_nil, rfl⟩
  have hstop : Stops Text.isWordPart (')' :: f) := stops_cons.mpr (by decide)
  exact .negParens ht ho (hd [] _ blank_nil hstop) hc

/-- An operator between an expression of its stratum and one of the next spells an expression of its
stratum. -/
theorem binary {op : Binop} (hk : k < 5) (hop : op.level = k + 1) (ha : Spells k a l)
    (hb : Spells (k + 1) b r) : Spells k (a ++ (op.symbol.toList ++ b)) (.binary op l r) := by
  obtain ⟨n, hba, hda⟩ := ha
  obtain ⟨n', hbb, hdb⟩ := hb
  have hsymbol : Balances op.symbol.toList 0 := .of_plain (by cases op <;> decide)
  have hstops : ∀ f, Stops Text.isWordPart (op.symbol.toList ++ f) := by
    intro f
    cases op <;> exact stops_cons.mpr (by decide)
  refine ⟨max n (max 0 n'), hba.append (hsymbol.append hbb), fun u f hu hf ↦ ?_⟩
  rw [Nat.zero_max]
  have hl := (hda u (op.symbol.toList ++ (b ++ f)) hu (hstops _)).mono (Nat.le_max_left n n')
  have hr := (hdb [] f blank_nil hf).mono (Nat.le_max_right n n')
  have ht : Token op.symbol.toList (op.symbol.toList ++ (b ++ f)) ([] ++ b ++ f) :=
    ⟨[], blank_nil, by simp only [List.nil_append]⟩
  have hall := hl.binary hk (mem_operators_iff.mpr hop) ht hr
  rwa [show u ++ (a ++ (op.symbol.toList ++ b)) ++ f = u ++ a ++ (op.symbol.toList ++ (b ++ f)) by
    simp only [List.append_assoc]]

end Spells

namespace Tree

/-- An expression with writable constants is printed in every context, and if a program can spell
its leaves, the text spells it in the stratum of the context. -/
theorem exists_printInside {e : Tree} (he : e.IsExpression) (hw : e.Writable) {k : Nat}
    (hk : k ≤ 5) : ∃ text, e.printInside k = .ok text ∧ (e.Readable → Spells k text e) := by
  induction he generalizing k with
  | var name =>
    refine ⟨name.toList, by simp [printInside, printAt, Place.following], fun h ↦ ?_⟩
    exact (Spells.name (forall_leaves_var.mp h)).of_atom.loosen hk (Nat.le_refl 5)
  | const value =>
    have hl := forall_leaves_const.mp hw
    have hwrite := Text.Decimal.write_eq_ok_iff.mpr ⟨hl, rfl⟩
    refine ⟨Text.Decimal.numeral value, ?_, fun h ↦ ?_⟩
    · simp [printInside, printAt, hwrite, Place.following]
    · obtain ⟨n, rfl⟩ := Int.eq_ofNat_of_zero_le (forall_leaves_const.mp h)
      rw [Text.Decimal.numeral_natCast]
      exact (Spells.numeral hl).of_atom.loosen hk (Nat.le_refl 5)
  | @neg operand ho ih =>
    cases hv : operand.variableName? with
    | some name =>
      obtain rfl := eq_var_of_variableName? hv
      refine ⟨_, printInside_neg_var name k, fun h ↦ ?_⟩
      have hx := forall_leaves_var.mp (forall_leaves_neg.mp h)
      exact (Spells.negName hx).loosen hk (Nat.le_refl 5)
    | none =>
      obtain ⟨text, hp, hs⟩ := ih (forall_leaves_neg.mp hw) (Nat.zero_le 5)
      refine ⟨_, printInside_neg hv hp, fun h ↦ ?_⟩
      exact (hs (forall_leaves_neg.mp h)).negParens.loosen hk (Nat.le_refl 5)
  | @binary op left right hl hr ihl ihr =>
    obtain ⟨j, hj, hop⟩ := exists_stratum op
    obtain ⟨hwl, hwr⟩ := forall_leaves_binary.mp hw
    obtain ⟨a, ha, hsa⟩ := ihl hwl (show j ≤ 5 by omega)
    obtain ⟨b, hb, hsb⟩ := ihr hwr (show j + 1 ≤ 5 by omega)
    rw [show (j : Int) = op.level - 1 by omega] at ha
    rw [show ((j + 1 : Nat) : Int) = op.level by omega] at hb
    refine ⟨_, printInside_binary ha hb, fun h ↦ ?_⟩
    obtain ⟨hrl, hrr⟩ := forall_leaves_binary.mp h
    have hspells := Spells.binary hj hop (hsa hrl) (hsb hrr)
    by_cases hparens : op.level ≤ k
    · rw [parenthesizeIf, decide_eq_true hparens, if_pos rfl]
      exact (hspells.loosen (Nat.zero_le j) (by omega)).parens.of_atom.loosen hk (Nat.le_refl 5)
    · rw [parenthesizeIf, decide_eq_false hparens, if_neg Bool.false_ne_true]
      exact hspells.loosen (by omega) (by omega)

/-- A printed expression whose leaves a program can spell is a text of the grammar, nested as deep
as its parentheses. -/
theorem exists_printExpression {e : Tree} (he : e.IsExpression) (hw : e.Writable) :
    ∃ text, e.printExpression = .ok text ∧ (e.Readable → Spells 0 text e) :=
  exists_printInside he hw (Nat.zero_le 5)

/-- The text of an expression is an expression. -/
theorem expressionText_of_spells {e : Tree} {text : List Char} (h : Spells 0 text e) :
    ExpressionText (parenDepth text) text e := by
  obtain ⟨n, hb, hd⟩ := h
  have := hd [] [] blank_nil (stops_nil _)
  rw [List.nil_append, List.append_nil] at this
  rw [hb.parenDepth_eq]
  exact ⟨[], blank_nil, this⟩

/-- A text reads back as a tree when the parser returns a tree of the same structure. -/
def ReadsBack (text : List Char) (e : Tree) : Prop :=
  ∃ e', (parseExpression text).answer = .ok (some e') ∧ e'.same e = true

private theorem readable_of_readsBack {e : Tree} {text : List Char} (h : ReadsBack text e) :
    e.Readable := by
  obtain ⟨e', hparse, hsame⟩ := h
  obtain ⟨r, -, hd⟩ := expressionText_of_accepted hparse
  rw [same_iff_of_isExpression hd.spelled.1] at hsame
  rw [← hsame]
  exact hd.spelled.2

private theorem readsBack_of_accepted {e : Tree} {text : List Char} (he : e.IsExpression)
    (h : (parseExpression text).answer = .ok (some e)) : ReadsBack text e :=
  ⟨e, h, (same_iff_of_isExpression he).mpr rfl⟩

/-- Expressions are printed, and their text is read back as a tree of the same structure exactly
when every name is a word that is not reserved and no constant is negative. The exception are texts
that nest too deeply, which does not happen when their parentheses nest at most 20 deep, here and
with any other limit above 20. -/
theorem printExpression_readsBack (e : Tree) (he : e.IsExpression) (hw : e.Writable) :
    ∃ text, e.printExpression = .ok text ∧
      (ReadsBack text e → e.Readable) ∧
      (e.Readable → ReadsBack text e ∨
        parseExpression text = .note (.tooDeep "expression") (.ok none)) ∧
      (e.Readable → parenDepth text ≤ 20 → ReadsBack text e ∧
        ∀ limit, 20 < limit → ((expression limit).readAll text).answer = .ok (some e)) := by
  obtain ⟨text, hp, hs⟩ := exists_printExpression he hw
  refine ⟨text, hp, readable_of_readsBack, fun h ↦ ?_, fun h hd ↦ ?_⟩
  · rcases (expressionText_of_spells (hs h)).accepted_or_tooDeep nestingLimit with ha | ht
    · exact .inl (readsBack_of_accepted he ha)
    · exact .inr ht
  · have hall : ∀ limit, 20 < limit → ((expression limit).readAll text).answer = .ok (some e) :=
      fun limit hlimit ↦ (expressionText_of_spells (hs h)).accepted (by omega)
    exact ⟨readsBack_of_accepted he (hall nestingLimit (by decide)), hall⟩

/-- A spine with a negated constant on it, and a tighter operator with a looser one inside. -/
theorem printExpression_readsBack_spine : ReadsBack "a--(5)-(b-1)*-c".toList
    (.binary .minus (.binary .minus (.var "a") (.neg (.const 5)))
      (.binary .times (.binary .minus (.var "b") (.const 1)) (.neg (.var "c")))) := by
  have he : IsExpression (.binary .minus (.binary .minus (.var "a") (.neg (.const 5)))
      (.binary .times (.binary .minus (.var "b") (.const 1)) (.neg (.var "c")))) :=
    .binary _ (.binary _ (.var _) (.neg (.const _)))
      (.binary _ (.binary _ (.var _) (.const _)) (.neg (.var _)))
  obtain ⟨text, hp, -, -, hback⟩ := printExpression_readsBack _ he (by decide)
  obtain rfl : "a--(5)-(b-1)*-c".toList = text := Except.ok.inj hp
  exact (hback (by decide) (by decide)).1

end Tree

end WhileSyntax
