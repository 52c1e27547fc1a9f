import WhileSyntax.Proofs.Grammar.CommandExtension
import WhileSyntax.Proofs.Parser.Drivers

/-!
# Numerals beyond the limit

The one fault that a text can cause is a numeral of too many digits. Parsers of the grammars begin
numbers only at the start of the text, behind white space or behind punctuation, never inside a
word or behind digits, also in alternatives that are given up later. So every fault is about a whole
run of digits of the text (`faults_only_for_runs`), and a text without a run of that length is
accepted or rejected.
-/

namespace WhileSyntax.Grammar

open WhileSyntax.Parser

variable {n k : Nat} {text s m r digits : List Char} {inner body : Parser Tree} {h : Halt}

/-- A text has a whole run of `n` digits, more than may be read, and the character in front of it
goes on with no word. -/
def HasLongRun (n : Nat) (text : List Char) : Prop :=
  ∃ before digits after, text = before ++ digits ++ after ∧ digits.length = n ∧
    Text.Decimal.digitLimit < n ∧ (∀ c ∈ digits, c.isDigit = true) ∧
    Stops Char.isDigit after ∧ ∀ c ∈ before.getLast?, Text.isWordPart c = false

/-- The rest `s` of a text begins where no word in front of it goes on. -/
def Fresh (text s : List Char) : Prop :=
  ∃ before, text = before ++ s ∧
    (Stops Text.isWordPart s ∨ ∀ c ∈ before.getLast?, Text.isWordPart c = false)

namespace Fresh

/-- At the start of a text no word goes on. -/
theorem start (text : List Char) : Fresh text text := ⟨[], rfl, .inr nofun⟩

/-- A fresh rest is the end of its text. -/
theorem suffix (hs : Fresh text s) : s <:+ text := by
  obtain ⟨before, htext, -⟩ := hs
  exact ⟨before, htext.symm⟩

/-- Behind punctuation no word goes on. -/
theorem of_token {t : List Char} (hs : s <:+ text) (ht : Token t s m) (hne : t ≠ [])
    (hall : t.all (!Text.isWordPart ·) = true) : Fresh text m := by
  obtain ⟨before, rfl⟩ := hs
  obtain ⟨u, -, rfl⟩ := ht
  refine ⟨before ++ u ++ t, by simp only [List.append_assoc], .inr fun c hc ↦ ?_⟩
  rw [List.getLast?_append_of_ne_nil _ hne] at hc
  have hc := List.all_eq_true.mp hall c (List.mem_of_getLast? hc)
  rwa [Bool.not_eq_true'] at hc

/-- Behind an operator no word goes on. -/
theorem of_operator {op : Binop} (hs : s <:+ text) (ht : Token op.symbol.toList s m) :
    Fresh text m :=
  of_token hs ht (by cases op <;> decide) (by cases op <;> decide)

/-- Behind a keyword it does not go on. -/
theorem of_keyword {w : String} (hs : s <:+ text) (hw : Keyword w s m) : Fresh text m := by
  obtain ⟨before, hbefore⟩ := hw.1.suffix.trans hs
  exact ⟨before, hbefore.symm, .inl hw.2⟩

private theorem hasLongRun (hs : Fresh text s) (hd : LongNumeral digits s r) :
    HasLongRun digits.length text := by
  obtain ⟨before, rfl, hfresh⟩ := hs
  obtain ⟨hne, hall, hlong, ⟨u, hu, rfl⟩, hr⟩ := hd
  refine ⟨before ++ u, digits, r, by simp only [List.append_assoc], rfl, hlong, hall, hr, ?_⟩
  intro c hc
  by_cases hnil : u = []
  · -- without white space the digits themselves stand at the fresh place
    subst hnil
    rw [List.append_nil] at hc
    rcases hfresh with hstops | hlast
    · obtain ⟨d, ds, rfl⟩ := List.exists_cons_of_ne_nil hne
      have hd := Text.isWordPart_of_isDigit (hall d List.mem_cons_self)
      rw [List.nil_append, List.cons_append, stops_cons, hd] at hstops
      cases hstops
    · exact hlast c hc
  · rw [List.getLast?_append_of_ne_nil _ hnil] at hc
    exact Text.isWordPart_eq_false_of_isBlank (hu c (List.mem_of_getLast? hc))

end Fresh

/-- Reasons for a halt that are found in a text: it nests too deeply, which only the number of
levels decides, or it has a run of too many digits. -/
def Explains (text : List Char) : Halt → Prop
  | .tooDeep => True
  | .fault why => ∃ n, why = .numeral (.tooLongToRead n) ∧ HasLongRun n text

/-- Behind any fresh place, a parser is halted only for reasons that are found in the text. -/
def Explained (p : Parser Tree) : Prop :=
  ∀ text s h, Fresh text s → p.HaltsWith h s → Explains text h

/-! ## Expressions -/

private theorem explained_const : Explained const := by
  intro text s h hs hh
  obtain ⟨digits, r, hd, rfl⟩ := haltsWith_const_iff.mp hh
  exact ⟨digits.length, rfl, hs.hasLongRun hd⟩

private theorem explained_atom (hb : Built inner) (hi : Explained inner) :
    Explained (atom inner) := by
  intro text s h hs hh
  rcases (haltsWith_atom_iff hb).mp hh with ⟨m, ho, hh⟩ | hh
  · exact hi text m h (.of_token hs.suffix ho (List.cons_ne_nil _ _) (by decide)) hh
  · exact explained_const text s h hs hh

private theorem explained_unary (hb : Built inner) (hi : Explained inner) :
    Explained (unary inner) := by
  intro text s h hs hh
  rcases haltsWith_unary_cases hb hh with ⟨m₁, m₂, ht, ho, hcases⟩ | hh
  · have hfresh : Fresh text m₂ :=
      .of_token (ht.suffix.trans hs.suffix) ho (List.cons_ne_nil _ _) (by decide)
    rcases hcases with hh | hh
    · exact explained_const text m₂ h hfresh hh
    · exact hi text m₂ h hfresh hh
  · exact explained_atom hb hi text s h hs hh

/-- What a chain of operands leaves is the end of the text. -/
theorem Opens.suffix {e : Tree} (ho : Opens inner k s e m) : m <:+ s := by
  obtain ⟨first, m₀, pairs, hfirst, hc, -⟩ := ho
  exact hc.suffix.trans hfirst.suffix

private theorem explained_tier (hb : Built inner) (hi : Explained inner) (hk : k ≤ 5) :
    Explained (tier inner k) := by
  induction hk using Nat.decreasingInduction with
  | self => exact explained_unary hb hi
  | of_succ k hk ih =>
    intro text s h hs hh
    rcases (haltsWith_tier_iff hb hk).mp hh with hh | ⟨e, m, op, m', ho, -, ht, hh⟩
    · exact ih text s h hs hh
    · exact ih text m' h (.of_operator (ho.suffix.trans hs.suffix) ht) hh

/-- Expressions are halted only for reasons that are found in the text. -/
theorem explained_expression (n : Nat) : Explained (expression n) := by
  induction n with
  | zero =>
    intro text s h _ hh
    cases h with
    | tooDeep => trivial
    | fault why => cases hh
  | succ n ih => exact explained_tier (built_expression n) ih (Nat.zero_le 5)

private theorem haltsWith_tier_of_unary (hb : Built inner) (hk : k ≤ 5)
    (hh : (unary inner).HaltsWith h s) : (tier inner k).HaltsWith h s := by
  induction hk using Nat.decreasingInduction with
  | self => exact hh
  | of_succ k hk ih => exact (haltsWith_tier_iff hb hk).mpr (.inl ih)

/-- What halts unary minus at the front halts expressions. -/
theorem haltsWith_expression_of_unary (hh : (unary (expression n)).HaltsWith h s) :
    (expression (n + 1)).HaltsWith h s := by
  rw [HaltsWith, run_expression_succ]
  exact haltsWith_tier_of_unary (built_expression n) (Nat.zero_le 5) hh

/-! ## Commands -/

section Forms

variable (hi : Explained inner)
include hi

private theorem explained_assign : Explained (assign inner) := by
  intro text s h hs hh
  obtain ⟨x, m₁, hx, m₂, ht, hh⟩ := haltsWith_assign_iff.mp hh
  have hm₁ : m₁ <:+ text := hx.2.1.suffix.trans hs.suffix
  exact hi text m₂ h (.of_token hm₁ ht (List.cons_ne_nil _ _) (by decide)) hh

variable (hib : Built inner) (hb : Explained body)
include hib hb

private theorem explained_conditional (hbb : Built body) : Explained (conditional inner body) := by
  intro text s h hs hh
  obtain ⟨m₁, hif, hh⟩ := (haltsWith_conditional_iff hib hbb).mp hh
  have hm₁ : Fresh text m₁ := .of_keyword hs.suffix hif
  rcases hh with hh | ⟨e, m₂, he, m₃, hthen, hh⟩
  · exact hi text m₁ h hm₁ hh
  have hm₃ : Fresh text m₃ := .of_keyword (he.suffix.trans hm₁.suffix) hthen
  rcases hh with hh | ⟨y, m₄, hy, m₅, helse, hh⟩
  · exact hb text m₃ h hm₃ hh
  · exact hb text m₅ h (.of_keyword (hy.suffix.trans hm₃.suffix) helse) hh

private theorem explained_loop : Explained (loop inner body) := by
  intro text s h hs hh
  obtain ⟨m₁, hwhile, hh⟩ := (haltsWith_loop_iff hib).mp hh
  have hm₁ : Fresh text m₁ := .of_keyword hs.suffix hwhile
  rcases hh with hh | ⟨e, m₂, he, m₃, hdo, hh⟩
  · exact hi text m₁ h hm₁ hh
  · exact hb text m₃ h (.of_keyword (he.suffix.trans hm₁.suffix) hdo) hh

end Forms

private theorem explained_block (hbb : Built body) (hb : Explained body) :
    Explained (block body) := by
  intro text s h hs hh
  obtain ⟨m₁, hopen, hh⟩ := (haltsWith_block_iff hbb).mp hh
  have hm₁ : Fresh text m₁ := .of_token hs.suffix hopen (List.cons_ne_nil _ _) (by decide)
  rcases (haltsWith_sepBy_iff hbb).mp hh with hh | ⟨c, m, hc, cs, m', hchain, m'', ht, hh⟩
  · exact hb text m₁ h hm₁ hh
  · have hm' : m' <:+ text := hchain.suffix.trans (hc.suffix.trans hm₁.suffix)
    exact hb text m'' h (.of_token hm' ht (List.cons_ne_nil _ _) (by decide)) hh

/-- Commands are halted only for reasons that are found in the text. -/
theorem explained_command (n : Nat) : Explained (command n) := by
  induction n with
  | zero =>
    intro text s h _ hh
    cases h with
    | tooDeep => trivial
    | fault why => cases hh
  | succ n ih =>
    have hi := explained_expression n
    have hib := built_expression n
    have hbb := built_command n
    intro text s h hs hh
    obtain ⟨p, hp, hh⟩ : ∃ p ∈ commandForms (expression n) (command n), p.HaltsWith h s :=
      exists_haltsWith_of_choice (hh.of_run_eq (run_command_succ n s).symm)
    simp only [commandForms, List.mem_cons, List.not_mem_nil, or_false] at hp
    rcases hp with rfl | rfl | rfl | rfl
    · exact explained_assign hi text s h hs hh
    · exact explained_conditional hi hib ih hbb text s h hs hh
    · exact explained_loop hi hib ih text s h hs hh
    · exact explained_block hbb ih text s h hs hh

/-! ## Whole texts -/

/-- What the two ways of reading a text come to: both give one value, both reject the text, or both
pass on the fault of one numeral beyond the limit, which is a whole run of digits of the text. -/
inductive Answered (text : List Char) (lax : Except Fault (Option Tree))
    (strict : String → Except ReadError Tree) : Prop
  | accepted (e : Tree) (hlax : lax = .ok (some e)) (hstrict : ∀ filename, strict filename = .ok e)
  | rejected (hlax : lax = .ok none)
      (hstrict : ∀ filename, ∃ d, strict filename = .error (.rejected d))
  | refused (n : Nat) (hlax : lax = .error (.numeral (.tooLongToRead n)))
      (hstrict : ∀ filename, strict filename = .error (.fault (.numeral (.tooLongToRead n))))
      (hrun : HasLongRun n text)

private theorem Explained.answered {p : Parser Tree} (hp : Explained p) (hb : Built p)
    (text : List Char) (what : String) :
    Answered text (p.readAll text).answer
      fun filename ↦ (p.readStrict text what filename).answer := by
  rcases answers_alike hb text what with ⟨e, hlax, hstrict⟩ | ⟨hlax, hstrict⟩ |
    ⟨why, hrun, hlax, hstrict⟩
  · exact .accepted e hlax hstrict
  · exact .rejected hlax hstrict
  · obtain ⟨n, rfl, hlong⟩ := hp text text (.fault why) (.start text) hrun
    exact .refused n hlax hstrict hlong

private theorem Answered.ne_error {lax : Except Fault (Option Tree)}
    {strict : String → Except ReadError Tree} (h : Answered text lax strict)
    (hno : ∀ n, ¬HasLongRun n text) (why : Fault) :
    lax ≠ .error why ∧ ∀ filename, strict filename ≠ .error (.fault why) := by
  cases h with
  | accepted e hlax hstrict =>
    exact ⟨by rw [hlax]; exact nofun, fun filename ↦ by rw [hstrict]; exact nofun⟩
  | rejected hlax hstrict =>
    refine ⟨by rw [hlax]; exact nofun, fun filename ↦ ?_⟩
    obtain ⟨d, hd⟩ := hstrict filename
    rw [hd]
    exact nofun
  | refused n _ _ hrun => exact absurd hrun (hno n)

/-- Every text is accepted, rejected, or refused for a run of digits beyond the limit, by both ways
of reading alike. No nesting and no other text raises a fault, and without such a run there is
none. -/
theorem faults_only_for_runs (text : List Char) :
    Answered text (parseExpression text).answer
      (fun filename ↦ (parseExpressionStrict text filename).answer) ∧
    Answered text (parseCommand text).answer
      (fun filename ↦ (parseCommandStrict text filename).answer) ∧
    ((∀ n, ¬HasLongRun n text) → ∀ why,
      (parseExpression text).answer ≠ .error why ∧ (parseCommand text).answer ≠ .error why) ∧
    ∀ n, (Fault.numeral (.tooLongToRead n)).message =
      "Exceeds the limit (4300 digits) for integer string conversion: value has " ++
        s!"{n} digits; use sys.set_int_max_str_digits() to increase the limit" := by
  have he := (explained_expression nestingLimit).answered (built_expression _) text "expression"
  have hc := (explained_command nestingLimit).answered (built_command _) text "command"
  exact ⟨he, hc, fun hno why ↦ ⟨(he.ne_error hno why).1, (hc.ne_error hno why).1⟩, fun _ ↦ rfl⟩

/-- Behind a minus and a parenthesis one digit too many is a fault, and it is about all digits that
stand there. -/
theorem faults_only_for_runs_negated :
    ∃ n, (parseExpression ('-' :: '(' :: List.replicate 4301 '7')).answer =
      .error (.numeral (.tooLongToRead n)) ∧
      HasLongRun n ('-' :: '(' :: List.replicate 4301 '7') := by
  have hlong : LongNumeral (List.replicate 4301 '7') (List.replicate 4301 '7') [] := by
    refine ⟨List.cons_ne_nil _ _, fun c hc ↦ ?_, ?_, ⟨[], blank_nil, ?_⟩, stops_nil _⟩
    · obtain rfl := List.eq_of_mem_replicate hc
      decide
    · rw [List.length_replicate]
      decide
    · rw [List.append_nil, List.nil_append]
  have hconst := haltsWith_const_iff.mpr ⟨_, _, hlong, rfl⟩
  have hunary : (unary (expression 99)).HaltsWith _ ('-' :: '(' :: List.replicate 4301 '7') :=
    haltsWith_unary_of_const ⟨[], blank_nil, rfl⟩ ⟨[], blank_nil, rfl⟩ hconst
  have hfault := readAll_eq_error_iff.mpr (haltsWith_expression_of_unary hunary)
  cases (faults_only_for_runs ('-' :: '(' :: List.replicate 4301 '7')).1 with
  | accepted e hlax => exact absurd (hfault.symm.trans hlax) nofun
  | rejected hlax => exact absurd (hfault.symm.trans hlax) nofun
  | refused n hlax _ hlongRun => exact ⟨n, hlax, hlongRun⟩

end WhileSyntax.Grammar
