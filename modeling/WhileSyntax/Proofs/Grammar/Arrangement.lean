import WhileSyntax.Proofs.Grammar.Numerals

/-!
# The order of alternatives

The grammars with their alternatives in another order: the operators of each tier, the forms of
atoms, of unary minus and of commands, also without the form of unary minus for a number in
parentheses. Whatever the order, both grammars read a text alike where neither runs out of levels
(`order_is_never_decisive`).

At most one alternative does not fail, because the alternatives begin differently, with two
exceptions. The spelling of one comparison begins that of another, but no operand begins with an
equals sign. And a number in parentheses behind a minus is an expression in parentheses, too, which
is read alike where there is a level for it.
-/

namespace WhileSyntax.Grammar

open WhileSyntax.Parser

variable {α : Type} {inner inner' body : Parser Tree} {k n m : Nat} {s : List Char}

/-! ## Forms -/

/-- Forms of atoms. -/
inductive AtomForm where
  | parens | name | number
  deriving DecidableEq

/-- Forms of unary minus. -/
inductive UnaryForm where
  | negName | negNumber | negParens | atom
  deriving DecidableEq

/-- Forms of commands. -/
inductive CommandForm where
  | assign | conditional | loop | block
  deriving DecidableEq

/-- All forms of atoms, in the order of the grammar. -/
def AtomForm.all : List AtomForm := [parens, name, number]

/-- All forms of unary minus, in the order of the grammar. -/
def UnaryForm.all : List UnaryForm := [negName, negNumber, negParens, atom]

private theorem UnaryForm.mem_all (i : UnaryForm) : i ∈ all := by
  cases i <;> decide

/-- All forms of commands, in the order of the grammar. -/
def CommandForm.all : List CommandForm := [assign, conditional, loop, block]

/-- Parser of a form of atoms. -/
def AtomForm.parser (inner : Parser Tree) : AtomForm → Parser Tree
  | parens => Grammar.parens inner
  | name => var
  | number => const

/-- Parser of a form of unary minus, given the parser of atoms. -/
def UnaryForm.parser (inner atom : Parser Tree) : UnaryForm → Parser Tree
  | negName => ((symbol "-").andThen var).map Tree.neg
  | negNumber => ((symbol "-").andThen (Grammar.parens const)).map Tree.neg
  | negParens => ((symbol "-").andThen (Grammar.parens inner)).map Tree.neg
  | .atom => atom

/-- Parser of a form of commands. -/
def CommandForm.parser (inner body : Parser Tree) : CommandForm → Parser Tree
  | assign => Grammar.assign inner
  | conditional => Grammar.conditional inner body
  | loop => Grammar.loop inner body
  | block => Grammar.block body

/-! ## Arranged grammars -/

/-- An order of all alternatives. The form of unary minus for a number may be left out. -/
structure Arrangement where
  operators : (stratum : Nat) → List Binop
  atoms : List AtomForm
  unaries : List UnaryForm
  commands : List CommandForm
  operators_perm : ∀ k, (operators k).Perm (Grammar.operators k)
  atoms_perm : atoms.Perm AtomForm.all
  unaries_perm : unaries.Perm UnaryForm.all ∨ unaries.Perm (UnaryForm.all.erase .negNumber)
  commands_perm : commands.Perm CommandForm.all

namespace Arrangement

/-- The order of the grammar itself. -/
def standard : Arrangement where
  operators := Grammar.operators
  atoms := AtomForm.all
  unaries := UnaryForm.all
  commands := CommandForm.all
  operators_perm _ := .refl _
  atoms_perm := .refl _
  unaries_perm := .inl (.refl _)
  commands_perm := .refl _

variable (a : Arrangement)

/-- A parenthesis, a name or a number, in this order of forms. -/
def atom (inner : Parser Tree) : Parser Tree :=
  (choice (a.atoms.map (AtomForm.parser inner))).named "atom"

/-- A minus before a name or a parenthesis, or an atom, in this order of forms. -/
def unary (inner : Parser Tree) : Parser Tree :=
  (choice (a.unaries.map (UnaryForm.parser inner (a.atom inner)))).named "unary"

/-- A tier with this order of its operators. -/
def binaryTier (stratum : Nat) (operand : Parser Tree) (name : String) : Parser Tree :=
  Grammar.binaryTier Tree.binary operand (a.operators stratum) name

/-- Disjunctions, and what stands in them. -/
def disjunction (inner : Parser Tree) : Parser Tree :=
  a.binaryTier 0 (a.binaryTier 1 (a.binaryTier 2 (a.binaryTier 3 (a.binaryTier 4 (a.unary inner)
    "factor") "additive") "compare") "and") "or"

/-- Whole expressions of a number of levels. -/
def expression : (levels : Nat) → Parser Tree
  | 0 => .lazy true "expression" fun _ ↦ .bottomless
  | levels + 1 => .lazy true "expression" fun _ ↦ a.disjunction (expression levels)

/-- Any one command, in this order of forms. -/
def anyCommand (inner body : Parser Tree) : Parser Tree :=
  choice (a.commands.map (CommandForm.parser inner body))

/-- Whole commands of a number of levels. -/
def command : (levels : Nat) → Parser Tree
  | 0 => .lazy true "command" fun _ ↦ .bottomless
  | levels + 1 => .lazy true "command" fun _ ↦ a.anyCommand (a.expression levels) (command levels)

private theorem describe_expression (levels : Nat) :
    (a.expression levels).name = "expression" ∧ (a.expression levels).consumes = true := by
  cases levels <;> exact ⟨rfl, rfl⟩

private theorem describe_command (levels : Nat) :
    (a.command levels).name = "command" ∧ (a.command levels).consumes = true := by
  cases levels <;> exact ⟨rfl, rfl⟩

/-- In its own order the grammar of expressions is itself. -/
theorem standard_expression (n : Nat) : standard.expression n = Grammar.expression n := by
  induction n with
  | zero => rfl
  | succ n ih =>
    rw [expression, ih]
    rfl

/-- In its own order the grammar of commands is itself. -/
theorem standard_command (n : Nat) : standard.command n = Grammar.command n := by
  induction n with
  | zero => rfl
  | succ n ih =>
    rw [command, ih, standard_expression]
    rfl

end Arrangement

/-! ## Alternatives begin differently -/

/-- The form of the atoms that begin with a character. -/
def formOfFront (c : Char) : Option AtomForm :=
  if c = '(' then some .parens
  else if Text.isWordStart c then some .name
  else if c.isDigit then some .number
  else none

private theorem AtomForm.exists_front (i : AtomForm) (h : (i.parser inner).run s ≠ .fail) :
    ∃ c, front s = some c ∧ formOfFront c = some i := by
  by_contra hno
  apply h
  cases i with
  | parens => exact run_parens_eq_fail fun hf ↦ hno ⟨'(', hf, rfl⟩
  | name =>
    refine run_var_eq_fail fun c hc ↦ ?_
    by_contra hw
    rw [Bool.not_eq_false] at hw
    have hne : c ≠ '(' := by
      rintro rfl
      exact absurd hw (by decide)
    exact hno ⟨c, hc, by rw [formOfFront, if_neg hne, if_pos hw]⟩
  | number =>
    refine run_const_eq_fail fun c hc ↦ ?_
    by_contra hd
    rw [Bool.not_eq_false] at hd
    have hne : c ≠ '(' := by
      rintro rfl
      exact absurd hd (by decide)
    have hw := isWordStart_eq_false_of_isDigit hd
    exact hno ⟨c, hc, by rw [formOfFront, if_neg hne, hw, hd]; rfl⟩

private theorem atomForm_unique {i j : AtomForm} (hi : (i.parser inner).run s ≠ .fail)
    (hj : (j.parser inner).run s ≠ .fail) : i = j := by
  obtain ⟨c, hc, hi⟩ := i.exists_front hi
  obtain ⟨c', hc', hj⟩ := j.exists_front hj
  obtain rfl := Option.some.inj (hc.symm.trans hc')
  exact Option.some.inj (hi.symm.trans hj)

/-- The form of the commands that begin with a word. -/
def formOfWord (w : String) : Option CommandForm :=
  if w = "if" then some .conditional
  else if w = "while" then some .loop
  else if Text.isReserved w then none
  else some .assign

/-- A form of commands begins with its brace or with its words. -/
def CommandForm.Begins (i : CommandForm) (s : List Char) : Prop :=
  i = block ∧ front s = some '\x7b' ∨
    ∃ w r, Text.isWord w.toList = true ∧ Keyword w s r ∧ formOfWord w = some i

private theorem CommandForm.eq_of_begins {i j : CommandForm} (hi : i.Begins s) (hj : j.Begins s) :
    i = j := by
  rcases hi with ⟨rfl, hi⟩ | ⟨w, r, hw, hi, hform⟩
  · rcases hj with ⟨rfl, -⟩ | ⟨w, r, hw, hj, -⟩
    · rfl
    · exact absurd hi (front_ne_brace_of_isWord hj.1 hw)
  · rcases hj with ⟨rfl, hj⟩ | ⟨w', r', hw', hj, hform'⟩
    · exact absurd hj (front_ne_brace_of_isWord hi.1 hw)
    · obtain ⟨rfl, -⟩ := word_unique hi hj hw hw'
      exact Option.some.inj (hform.symm.trans hform')

private theorem CommandForm.begins_of_run (i : CommandForm)
    (h : (i.parser inner body).run s ≠ .fail) : i.Begins s := by
  by_contra hno
  apply h
  cases i with
  | assign =>
    apply run_assign_eq_fail
    intro x r hx
    refine hno (.inr ⟨x, r, hx.1.1, hx.2, ?_⟩)
    have hne : ∀ w, Text.isReserved w = true → x ≠ w := by
      rintro w hw rfl
      rw [hx.1.2] at hw
      cases hw
    rw [formOfWord, if_neg (hne "if" rfl), if_neg (hne "while" rfl), hx.1.2]
    rfl
  | conditional => exact run_conditional_eq_fail fun r hk ↦ hno (.inr ⟨"if", r, rfl, hk, rfl⟩)
  | loop => exact run_loop_eq_fail fun r hk ↦ hno (.inr ⟨"while", r, rfl, hk, rfl⟩)
  | block => exact run_block_eq_fail fun hf ↦ hno (.inl ⟨rfl, hf⟩)

/-- At most one form of commands does not fail, whatever the parsers of their parts. -/
theorem commandForm_unique {i j : CommandForm} (hi : (i.parser inner body).run s ≠ .fail)
    (hj : (j.parser inner body).run s ≠ .fail) : i = j :=
  CommandForm.eq_of_begins (i.begins_of_run hi) (j.begins_of_run hj)

/-! ## Unary minus -/

private theorem run_negNumber (n : Nat) (s : List Char) (atom : Parser Tree) :
    (UnaryForm.negNumber.parser (expression n) atom).run s = .fail ∨
      (UnaryForm.negParens.parser (expression n) atom).run s = .tooDeep ∨
      (UnaryForm.negParens.parser (expression n) atom).run s =
        (UnaryForm.negNumber.parser (expression n) atom).run s := by
  have hb := built_expression n
  have hzero : ∀ {m}, n = 0 → (expression n).HaltsWith .tooDeep m := by
    rintro m rfl
    exact run_expression_zero m
  rcases halts_or_reads_or_fail (built_minus (built_parens built_const)) s with
    ⟨h, hh⟩ | ⟨e, r, hr⟩ | hf
  · right
    obtain ⟨m₁, ht, hp⟩ := haltsWith_minus_iff.mp hh
    obtain ⟨m₂, ho, hc⟩ := (haltsWith_parens_iff built_const).mp hp
    cases n with
    | zero => exact .inl (haltsWith_negParens hb ht ho (hzero rfl))
    | succ n =>
      have hinner : (expression (n + 1)).HaltsWith h m₂ := haltsWith_expression_of_unary
        (haltsWith_unary_of_atom ((haltsWith_atom_iff (built_expression n)).mpr (.inr hc)))
      exact .inr ((haltsWith_negParens hb ht ho hinner).trans hh.symm)
  · right
    obtain ⟨m₁, e', ht, hp, rfl⟩ := reads_minus_iff.mp hr
    obtain ⟨m₂, m₃, ho, hc, hclose⟩ := reads_parens_iff.mp hp
    cases n with
    | zero => exact .inl (haltsWith_negParens hb ht ho (hzero rfl))
    | succ n =>
      have hinner : (expression (n + 1)).Reads m₂ e' m₃ :=
        reads_tier_of_const (k := 0) (Nat.zero_le 5) hc hclose
      have hr' : (((symbol "-").andThen (parens (expression (n + 1)))).map Tree.neg).Reads s
          (.neg e') r :=
        reads_minus_iff.mpr ⟨m₁, e', ht, reads_parens_iff.mpr ⟨m₂, m₃, ho, hinner, hclose⟩, rfl⟩
      exact .inr (hr'.run_eq hr)
  · exact .inl hf

private theorem unaryForm_cases (inner : Parser Tree) (s : List Char) :
    (∀ i, i ≠ .atom → (UnaryForm.parser inner (Grammar.atom inner) i).run s = .fail) ∨
      (∀ i, i ≠ .negName → (UnaryForm.parser inner (Grammar.atom inner) i).run s = .fail) ∨
      ∀ i, i = .negName ∨ i = .atom →
        (UnaryForm.parser inner (Grammar.atom inner) i).run s = .fail := by
  by_cases hminus : front s = some '-'
  · have hatom : (Grammar.atom inner).run s = .fail := run_atom_eq_fail_of_minus hminus
    right
    by_cases hparens : ∃ m, Token ['-'] s m ∧ front m = some '('
    · obtain ⟨m, ht, hm⟩ := hparens
      have hname : var.run m = .fail := by
        apply run_var_eq_fail
        rw [hm]
        rintro _ ⟨⟩
        decide
      right
      rintro i (rfl | rfl)
      · exact run_minus_eq_fail_of_token ht hname
      · exact hatom
    · have hfail : ∀ p : Parser Tree,
          (((symbol "-").andThen (parens p)).map Tree.neg).run s = .fail := by
        intro p
        apply run_minus_eq_fail_iff.mpr
        intro m ht
        exact run_parens_eq_fail fun hm ↦ hparens ⟨m, ht, hm⟩
      left
      intro i hi
      cases i with
      | negName => exact absurd rfl hi
      | negNumber => exact hfail const
      | negParens => exact hfail inner
      | atom => exact hatom
  · left
    intro i hi
    cases i with
    | atom => exact absurd rfl hi
    | _ => exact run_minus_eq_fail hminus

private theorem compatible_of_unique {ι : Type} {f : ι → Parser α} {s : List Char} (all : List ι)
    (h : ∀ i j, (f i).run s ≠ .fail → (f j).run s ≠ .fail → i = j) :
    all.Pairwise fun i j ↦ Compatible s (f i) (f j) := by
  apply List.pairwise_of_forall
  intro i j hi hj
  obtain rfl := h i j hi hj
  exact .inr rfl

private theorem unaryForms_compatible (n : Nat) (s : List Char) : UnaryForm.all.Pairwise fun i j ↦
    Compatible s (i.parser (expression n) (Grammar.atom (expression n)))
      (j.parser (expression n) (Grammar.atom (expression n))) := by
  have hsingle : ∀ k : UnaryForm,
      (∀ i, i ≠ k → (i.parser (expression n) (Grammar.atom (expression n))).run s = .fail) →
        UnaryForm.all.Pairwise fun i j ↦
          Compatible s (i.parser (expression n) (Grammar.atom (expression n)))
            (j.parser (expression n) (Grammar.atom (expression n))) := by
    intro k hk
    apply compatible_of_unique
    intro i j hi hj
    have hik : i = k := by
      by_contra hne
      exact hi (hk i hne)
    have hjk : j = k := by
      by_contra hne
      exact hj (hk j hne)
    rw [hik, hjk]
  rcases unaryForm_cases (expression n) s with hatom | hname | hneither
  · exact hsingle .atom hatom
  · exact hsingle .negName hname
  · have hparens : Compatible s
        (UnaryForm.negNumber.parser (expression n) (Grammar.atom (expression n)))
        (UnaryForm.negParens.parser (expression n) (Grammar.atom (expression n))) :=
      fun hi _ ↦ (run_negNumber n s _).resolve_left hi
    refine .cons ?_ (.cons ?_ (.cons ?_ (.cons nofun .nil)))
    · exact fun j _ hi ↦ absurd (hneither _ (.inl rfl)) hi
    · intro j hj
      simp only [List.mem_cons, List.not_mem_nil, or_false] at hj
      rcases hj with rfl | rfl
      · exact hparens
      · exact fun _ hj ↦ absurd (hneither _ (.inr rfl)) hj
    · intro j hj
      obtain rfl := List.mem_singleton.mp hj
      exact fun _ hj ↦ absurd (hneither _ (.inr rfl)) hj

/-! ## Arranged grammars run as the grammar does -/

private theorem runsBelow_many {p p' : Parser α} (h : RunsBelow p p') (hc : p.consumes = true)
    (hc' : p'.consumes = true) (hb : p'.Bounded) (ha : p'.Advances) :
    RunsBelow (many p) (many p') := by
  rw [many_of_consumes hc, many_of_consumes hc']
  apply h.star
  intro s v n hr hempty
  have hlt := ha _ _ _ (hb.reads hr)
  rcases hempty with rfl | rfl
  · exact absurd hlt (Nat.lt_irrefl _)
  · exact absurd hlt (Nat.not_lt_zero _)

namespace Arrangement

variable (a : Arrangement)

private theorem runsBelow_atom (h : Below inner inner') :
    RunsBelow (a.atom inner) (Grammar.atom inner') := by
  refine RunsBelow.named ?_ "atom" "atom"
  apply RunsBelow.choice_map (AtomForm.parser inner) (AtomForm.parser inner') a.atoms AtomForm.all
  · intro i
    cases i with
    | parens => exact (below_parens h).run
    | name => exact .refl _
    | number => exact .refl _
  · exact a.atoms_perm.subset
  · exact fun s ↦ compatible_of_unique _ fun _ _ ↦ atomForm_unique
  · exact fun s hl i hi ↦ hl i (a.atoms_perm.mem_iff.mpr hi)

private theorem runsBelow_unary (h : Below inner (Grammar.expression n)) :
    RunsBelow (a.unary inner) (Grammar.unary (Grammar.expression n)) := by
  refine RunsBelow.named ?_ "unary" "unary"
  apply RunsBelow.choice_map (UnaryForm.parser inner (a.atom inner))
    (UnaryForm.parser (Grammar.expression n) (Grammar.atom (Grammar.expression n)))
    a.unaries UnaryForm.all
  · intro i
    cases i with
    | negName => exact .refl _
    | negNumber => exact .refl _
    | negParens => exact (((Below.refl _).andThen (below_parens h)).map _).run
    | atom => exact a.runsBelow_atom h
  · rcases a.unaries_perm with hperm | hperm
    · exact hperm.subset
    · exact List.Subset.trans hperm.subset List.erase_subset
  · exact unaryForms_compatible n
  · intro s hl i _
    have hothers : ∀ i, i ≠ .negNumber → (UnaryForm.parser (Grammar.expression n)
        (Grammar.atom (Grammar.expression n)) i).run s = .fail := by
      intro i hi
      apply hl i
      rcases a.unaries_perm with hperm | hperm
      · exact hperm.mem_iff.mpr i.mem_all
      · exact hperm.mem_iff.mpr ((List.mem_erase_of_ne hi).mpr i.mem_all)
    by_cases hi : i = .negNumber
    · rw [hi]
      have hparens := hothers .negParens nofun
      rcases run_negNumber n s (Grammar.atom (Grammar.expression n)) with hf | hd | he
      · exact hf
      · rw [hparens] at hd
        cases hd
      · rw [← he, hparens]
    · exact hothers i hi

private theorem runsBelow_binaryTier {operand : Parser Tree} (hk : k < 5)
    (h : RunsBelow operand (tier (Grammar.expression n) (k + 1))) (name : String) :
    RunsBelow (a.binaryTier k operand name) (tier (Grammar.expression n) k) := by
  have hbuilt : Built (tier (Grammar.expression n) (k + 1)) :=
    built_tier (built_expression n) hk
  have hpair : RunsBelow (pair operand (a.operators k))
      (pair (tier (Grammar.expression n) (k + 1)) (Grammar.operators k)) := by
    apply RunsBelow.choice_map (pairForm operand)
      (pairForm (tier (Grammar.expression n) (k + 1))) (a.operators k) (Grammar.operators k)
    · exact fun op ↦ RunsBelow.map (RunsBelow.bindAs (.refl _) (fun _ ↦ h) _ _) _
    · exact (a.operators_perm k).subset
    · exact fun s ↦ compatible_of_unique _ fun _ _ ↦ pairForm_unique (run_tier_equals (by omega))
    · exact fun s hl op hop ↦ hl op ((a.operators_perm k).mem_iff.mpr hop)
  have hmany := runsBelow_many hpair consumes_pair consumes_pair (built_pair hbuilt).bounded
    (advances_pair _ _)
  obtain ⟨name', hn⟩ := exists_tier_eq (Grammar.expression n) hk
  rw [hn]
  exact (h.bind fun _ ↦ hmany.map _).named name name'

private theorem runsBelow_disjunction (h : Below inner (Grammar.expression n)) :
    RunsBelow (a.disjunction inner) (Grammar.disjunction (Grammar.expression n)) := by
  have h4 := a.runsBelow_binaryTier (k := 4) (by decide) (a.runsBelow_unary h) "factor"
  have h3 := a.runsBelow_binaryTier (k := 3) (by decide) h4 "additive"
  have h2 := a.runsBelow_binaryTier (k := 2) (by decide) h3 "compare"
  have h1 := a.runsBelow_binaryTier (k := 1) (by decide) h2 "and"
  exact a.runsBelow_binaryTier (k := 0) (by decide) h1 "or"

/-- An arranged expression that does not run out of levels is read as by the grammar. -/
theorem below_expression (n : Nat) : Below (a.expression n) (Grammar.expression n) := by
  induction n with
  | zero => exact .refl _
  | succ n ih =>
    obtain ⟨hn, hc⟩ := a.describe_expression (n + 1)
    obtain ⟨hn', hc'⟩ := Grammar.describe_expression (n + 1)
    refine ⟨hn.trans hn'.symm, hc.trans hc'.symm, fun s ↦ ?_⟩
    rw [expression, run_lazy, run_expression_succ]
    exact a.runsBelow_disjunction ih s

/-- An arranged command that does not run out of levels is read as by the grammar. -/
theorem below_command (n : Nat) : Below (a.command n) (Grammar.command n) := by
  induction n with
  | zero => exact .refl _
  | succ n ih =>
    suffices hany : RunsBelow (a.anyCommand (a.expression n) (a.command n))
        (Grammar.anyCommand (Grammar.expression n) (Grammar.command n)) by
      obtain ⟨hn, hc⟩ := a.describe_command (n + 1)
      obtain ⟨hn', hc'⟩ := Grammar.describe_command (n + 1)
      refine ⟨hn.trans hn'.symm, hc.trans hc'.symm, fun s ↦ ?_⟩
      rw [command, run_lazy, run_command_succ]
      exact hany s
    apply RunsBelow.choice_map (CommandForm.parser (a.expression n) (a.command n))
      (CommandForm.parser (Grammar.expression n) (Grammar.command n)) a.commands CommandForm.all
    · intro i
      have he := a.below_expression n
      cases i with
      | assign => exact (below_assign he).run
      | conditional => exact (below_conditional he ih).run
      | loop => exact (below_loop he ih).run
      | block => exact (below_block ih).run
    · exact a.commands_perm.subset
    · exact fun s ↦ compatible_of_unique _ fun _ _ ↦ commandForm_unique
    · exact fun s hl i hi ↦ hl i (a.commands_perm.mem_iff.mpr hi)

/-- All alternatives in reverse order, without the form of unary minus for a number. -/
def reversed : Arrangement where
  operators k := (Grammar.operators k).reverse
  atoms := AtomForm.all.reverse
  unaries := (UnaryForm.all.erase .negNumber).reverse
  commands := CommandForm.all.reverse
  operators_perm _ := List.reverse_perm _
  atoms_perm := List.reverse_perm _
  unaries_perm := .inr (List.reverse_perm _)
  commands_perm := List.reverse_perm _

end Arrangement

/-! ## Prefixes of texts -/

private theorem readPrefix_eq_of_below {p : Nat → Parser α} {q : Parser α} {text : List Char}
    (hp : ∀ {n m}, n ≤ m → Below (p n) (p m)) (hq : Below q (p n)) (m : Nat)
    (hd : q.readPrefix text ≠ .tooDeep) (hd' : (p m).readPrefix text ≠ .tooDeep) :
    q.readPrefix text = (p m).readPrefix text := by
  rw [Ne, readPrefix_eq_tooDeep_iff] at hd hd'
  have hrun := (hq.run text).resolve_left hd
  rw [hrun] at hd
  have hlevels : (p n).run text = (p m).run text := by
    rcases Nat.le_total n m with h | h
    · exact ((hp h).run text).resolve_left hd
    · exact (((hp h).run text).resolve_left hd').symm
  rw [readPrefix_eq, readPrefix_eq, hrun, hlevels]

/-- Whatever the order of its alternatives, a grammar reads every prefix of a text alike, with the
same value and the same end, with a failure or with the same fault, unless it runs out of levels
or the grammar in its own order does. At most one form of commands can do anything but fail. -/
theorem order_is_never_decisive (a : Arrangement) (n m : Nat) (text : List Char) :
    ((a.expression n).readPrefix text ≠ .tooDeep → (expression m).readPrefix text ≠ .tooDeep →
      (a.expression n).readPrefix text = (expression m).readPrefix text) ∧
    ((a.command n).readPrefix text ≠ .tooDeep → (command m).readPrefix text ≠ .tooDeep →
      (a.command n).readPrefix text = (command m).readPrefix text) ∧
    ∀ i j : CommandForm, (i.parser (expression n) (command n)).run text ≠ .fail →
      (j.parser (expression n) (command n)).run text ≠ .fail → i = j :=
  ⟨readPrefix_eq_of_below below_expression (a.below_expression n) m,
    readPrefix_eq_of_below below_command (a.below_command n) m,
    fun _ _ ↦ commandForm_unique⟩

/-- The other way round the longer comparison comes first, and a number in parentheses goes without
its own form. -/
theorem order_is_never_decisive_reversed :
    ((Arrangement.reversed.expression 2).readPrefix "a<=-(7) ;".toList ≠ .tooDeep ∧
      (expression 3).readPrefix "a<=-(7) ;".toList ≠ .tooDeep ∧
      (Arrangement.reversed.expression 2).readPrefix "a<=-(7) ;".toList =
        (expression 3).readPrefix "a<=-(7) ;".toList) ∧
    (Arrangement.reversed.command 4).readPrefix "while a<b do {x=y}".toList ≠ .tooDeep ∧
      (command 5).readPrefix "while a<b do {x=y}".toList ≠ .tooDeep ∧
      (Arrangement.reversed.command 4).readPrefix "while a<b do {x=y}".toList =
        (command 5).readPrefix "while a<b do {x=y}".toList := by
  have hok : ∀ {reply : Reply Tree}, (∃ e used, reply = .ok e used) → reply ≠ .tooDeep := by
    rintro _ ⟨e, used, rfl⟩
    exact nofun
  have he : (Arrangement.reversed.expression 2).readPrefix "a<=-(7) ;".toList ≠ .tooDeep :=
    hok ⟨_, _, rfl⟩
  have he' : (expression 3).readPrefix "a<=-(7) ;".toList ≠ .tooDeep := hok ⟨_, _, rfl⟩
  have hc : (Arrangement.reversed.command 4).readPrefix "while a<b do {x=y}".toList ≠ .tooDeep :=
    hok ⟨_, _, rfl⟩
  have hc' : (command 5).readPrefix "while a<b do {x=y}".toList ≠ .tooDeep := hok ⟨_, _, rfl⟩
  exact ⟨⟨he, he', (order_is_never_decisive .reversed 2 3 _).1 he he'⟩,
    hc, hc', (order_is_never_decisive .reversed 4 5 _).2.1 hc hc'⟩

end WhileSyntax.Grammar
