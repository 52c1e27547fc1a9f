import WhileSyntax.Proofs.Printer.Format

/-!
# Printed texts are minimal

Every text that is read as an expression becomes what is printed for it when white space,
parentheses and zeros are left out, so nothing shorter and nothing with fewer parentheses is read as
the same expression. The characters of a printed command that are no white space are the same at
every width (`solid_layout`), and those of its sources become them when parentheses and zeros are
left out (`print_minimal`).
-/

namespace WhileSyntax

open Grammar Text

/-- The characters of a text that are no white space. -/
def solid (text : List Char) : List Char := text.filter (!isBlank ·)

variable {u text a b s m r p q unit indent : List Char} {c e y z : Tree} {cs : List Tree} {n : Nat}

/-! ## Characters that are no white space -/

private theorem solid_of_blank (hu : Blank u) : solid u = [] := by
  simp only [solid, List.filter_eq_nil_iff]
  intro c hc
  simp [hu c hc]

@[simp] private theorem solid_append (a b : List Char) : solid (a ++ b) = solid a ++ solid b :=
  List.filter_append a b

private theorem solid_intercalate (lines : List (List Char)) :
    solid ([';', '\n'].intercalate lines) = [';'].intercalate (lines.map solid) := by
  induction lines with
  | nil => rfl
  | cons line lines ih =>
    cases lines with
    | nil => simp [List.intercalate_singleton]
    | cons line' lines =>
      rw [List.intercalate_cons_cons, List.map_cons, List.map_cons, List.intercalate_cons_cons,
        solid_append, solid_append, ih]
      rfl

/-! ## What every layout of a command shows -/

namespace Tree

/-- What is printed for an expression, without white space. -/
def tightExpression (e : Tree) : List Char :=
  match e.printExpression with
  | .ok text => solid text
  | .error _ => []

mutual

/-- What is printed for a command, without white space. -/
def tight : Tree → List Char
  | assign x value => solid x.toList ++ '=' :: value.tightExpression
  | block commands => '\x7b' :: ([';'].intercalate (tightAll commands) ++ ['\x7d'])
  | conditional condition yes no =>
    "if".toList ++ (condition.tightExpression ++ ("then".toList ++ (tight yes ++
      ("else".toList ++ tight no))))
  | loop condition body =>
    "while".toList ++ (condition.tightExpression ++ ("do".toList ++ tight body))
  | _ => []

/-- What is printed for commands one by one, without white space. -/
def tightAll : List Tree → List (List Char)
  | [] => []
  | c :: cs => tight c :: tightAll cs

end

private theorem solid_printExpression (h : e.printExpression = .ok text) :
    solid text = e.tightExpression := by
  rw [tightExpression, h]

mutual

/-- At every width and from every indentation the same solid characters are laid out. -/
theorem solid_layout (hu : Blank unit) :
    ∀ (c : Tree) {indent text}, Blank indent → c.layout unit indent = .ok text →
      solid text = c.tight
  | assign x value, indent, text, _, h => by
    rw [layout] at h
    obtain ⟨t, ht, h⟩ := bind_eq_ok_iff.mp h
    rw [← Except.ok.inj h, tight, ← solid_printExpression ht, solid_append]
    rfl
  | block commands, indent, text, hi, h => by
    rw [layout] at h
    obtain ⟨lines, hl, h⟩ := bind_eq_ok_iff.mp h
    have hs := solid_layoutAll hu commands (blank_append hi hu) hl
    rw [tight, ← hs]
    cases lines with
    | nil => rw [← Except.ok.inj h]; rfl
    | cons line lines =>
      have hline : solid ('\n' :: indent ++ ['\x7d']) = ['\x7d'] := by
        rw [solid_append, solid_of_blank (Gap.newline hi).1]
        rfl
      rw [← Except.ok.inj h, List.append_assoc, solid_append, hline, ← solid_intercalate]
      rfl
  | conditional e y z, indent, text, hi, h => by
    rw [layout_conditional_eq] at h
    obtain ⟨t, ht, h⟩ := bind_eq_ok_iff.mp h
    obtain ⟨a, ha, h⟩ := bind_eq_ok_iff.mp h
    obtain ⟨b, hb, h⟩ := bind_eq_ok_iff.mp h
    have hsa := solid_layout hu y (blank_branchIndent _ hu hi) ha
    have hsb := solid_layout hu z (blank_branchIndent _ hu hi) hb
    rw [← Except.ok.inj h, tight, ← solid_printExpression ht, ← hsa, ← hsb]
    have hif : solid "if ".toList = "if".toList := by decide
    have hthen : solid " then".toList = "then".toList := by decide
    have helse : solid "else".toList = "else".toList := by decide
    simp only [solid_append, solid_of_blank (gap_branchGap _ hu hi).1, hif, hthen, helse,
      solid_of_blank (gap_elseGap _ hi).1, List.append_assoc, List.nil_append]
  | loop e y, indent, text, hi, h => by
    rw [layout_loop_eq] at h
    obtain ⟨t, ht, h⟩ := bind_eq_ok_iff.mp h
    obtain ⟨a, ha, h⟩ := bind_eq_ok_iff.mp h
    have hsa := solid_layout hu y (blank_branchIndent _ hu hi) ha
    rw [← Except.ok.inj h, tight, ← solid_printExpression ht, ← hsa]
    have hwhile : solid "while ".toList = "while".toList := by decide
    have hdo : solid " do".toList = "do".toList := by decide
    simp only [solid_append, solid_of_blank (gap_branchGap _ hu hi).1, hwhile, hdo,
      List.append_assoc, List.nil_append]
  | var _, _, _, _, h => by cases h
  | const _, _, _, _, h => by cases h
  | neg _, _, _, _, h => by cases h
  | binary _ _ _, _, _, _, h => by cases h
  | bareExpression, _, _, _, h => by cases h
  | bareCommand, _, _, _, h => by cases h
  | plain _, _, _, _, h => by cases h

/-- The same solid characters are laid out line by line. -/
theorem solid_layoutAll (hu : Blank unit) :
    ∀ (cs : List Tree) {indent lines}, Blank indent → layoutAll unit cs indent = .ok lines →
      lines.map solid = tightAll cs
  | [], _, _, _, h => by cases h; rfl
  | c :: cs, indent, lines, hi, h => by
    rw [layoutAll] at h
    obtain ⟨text, ht, h⟩ := bind_eq_ok_iff.mp h
    obtain ⟨texts, hts, h⟩ := bind_eq_ok_iff.mp h
    obtain rfl := Except.ok.inj h
    have hs := solid_layout hu c hi ht
    have hss := solid_layoutAll hu cs hi hts
    rw [List.map_cons, solid_append, solid_of_blank hi, hs, hss]
    rfl

end

end Tree

namespace Grammar

open WhileSyntax.Parser WhileSyntax.Tree

/-! ## Sources of commands -/

/-- The solid characters in front of `r` become `p` when parentheses and zeros are left out. -/
def Tightens (s p r : List Char) : Prop := ∃ t, s = t ++ r ∧ Erases isSurplus (solid t) p

namespace Tightens

private theorem token (h : Token a s r) : Tightens s (solid a) r := by
  obtain ⟨u, hu, rfl⟩ := h
  refine ⟨u ++ a, rfl, ?_⟩
  rw [solid_append, solid_of_blank hu]
  exact .refl _ _

private theorem seq (h : Tightens s p m) (h' : Tightens m q r) : Tightens s (p ++ q) r := by
  obtain ⟨t, rfl, hp⟩ := h
  obtain ⟨t', rfl, hq⟩ := h'
  refine ⟨t ++ t', (List.append_assoc _ _ _).symm, ?_⟩
  rw [solid_append]
  exact hp.append hq

private theorem expression (h : (expression n).Reads s e r) : Tightens s e.tightExpression r := by
  obtain ⟨t, p, rfl, hp, he⟩ := condenses_of_reads n s e r h
  refine ⟨t, rfl, ?_⟩
  rw [← solid_printExpression hp]
  refine he.filter fun c hc hs ↦ ?_
  simp only [Bool.not_eq_true'] at hs
  rwa [isSpare, hs, Bool.false_or] at hc

private theorem members {p : Parser Tree} (hp : ∀ s c r, p.Reads s c r → Tightens s c.tight r)
    (h : Chain (member p) m cs r) (hc : Tightens s c.tight m) :
    Tightens s ([';'].intercalate (tightAll (c :: cs))) r := by
  induction h generalizing s c with
  | nil m =>
    rw [tightAll, tightAll, List.intercalate_singleton]
    exact hc
  | cons hread _ _ ih =>
    obtain ⟨m', ht, hread⟩ := exists_token_of_reads hread rfl
    rw [tightAll, tightAll, List.intercalate_cons_cons]
    exact (hc.seq (token ht)).seq (ih (hp _ _ _ hread))

end Tightens

/-- Sources of commands become what is printed for them. -/
theorem tightens_of_reads (n : Nat) :
    ∀ s c r, (command n).Reads s c r → Tightens s c.tight r := by
  induction n with
  | zero => exact fun s c r h ↦ absurd h not_reads_command_zero
  | succ n ih =>
    intro s c r h
    obtain ⟨p, hp, h⟩ := exists_form_of_reads h
    simp only [commandForms, List.mem_cons, List.not_mem_nil, or_false] at hp
    rcases hp with rfl | rfl | rfl | rfl
    · obtain ⟨x, m₁, m₂, e, hx, ht, he, rfl⟩ := reads_assign_iff.mp h
      rw [tight]
      exact (Tightens.token hx.2.1).seq ((Tightens.token ht).seq (.expression he))
    · obtain ⟨m₁, e, m₂, m₃, y, m₄, m₅, z, hif, he, hthen, hy, helse, hz, rfl⟩ :=
        reads_conditional_iff.mp h
      rw [tight]
      exact (Tightens.token hif.1).seq ((Tightens.expression he).seq ((Tightens.token hthen.1).seq
        ((ih _ _ _ hy).seq ((Tightens.token helse.1).seq (ih _ _ _ hz)))))
    · obtain ⟨m₁, e, m₂, m₃, b, hwhile, he, hdo, hb, rfl⟩ := reads_loop_iff.mp h
      rw [tight]
      exact (Tightens.token hwhile.1).seq ((Tightens.expression he).seq
        ((Tightens.token hdo.1).seq (ih _ _ _ hb)))
    · obtain ⟨m₁, cs, m₂, hopen, hcs, hclose, rfl⟩ := reads_block_iff.mp h
      rw [tight]
      rcases reads_sepBy_cases hcs with ⟨c, m, cs', hc, hchain, rfl⟩ | ⟨rfl, rfl⟩
      · exact (Tightens.token hopen).seq ((Tightens.members ih hchain (ih _ _ _ hc)).seq
          (.token hclose))
      · exact (Tightens.token hopen).seq (.token hclose)

/-! ## Whole texts -/

private theorem erases_of_accepted (h : (parseExpression s).answer = .ok (some e)) :
    ∃ text, e.printExpression = .ok text ∧ Erases isSpare s text := by
  obtain ⟨r, hread, hr⟩ := (readAll_eq_some_iff (bounded_expression nestingLimit)).mp h
  obtain ⟨t, text, rfl, hp, he⟩ := condenses_of_reads _ _ _ _ hread
  exact ⟨text, hp, he.skip_right hr.isSpare⟩

private theorem erases_tight_of_accepted (h : (parseCommand s).answer = .ok (some c)) :
    Erases isSurplus (solid s) c.tight := by
  obtain ⟨r, hread, hr⟩ := (readAll_eq_some_iff (bounded_command nestingLimit)).mp h
  obtain ⟨t, rfl, he⟩ := tightens_of_reads _ _ _ _ hread
  rwa [solid_append, solid_of_blank hr, List.append_nil]

/-- Printing an expression leaves out white space, parentheses and zeros of each of its texts and
nothing else, so among all texts of the expression the printed one has the fewest characters and the
fewest parentheses. Apart from white space, printing a command leaves out parentheses and zeros and
nothing else, at every width. -/
theorem print_minimal (s : List Char) :
    (∀ e, (parseExpression s).answer = .ok (some e) → ∃ text, e.printExpression = .ok text ∧
      text.Sublist s ∧ Erases isSpare s text ∧ (parseExpression text).answer = .ok (some e) ∧
        ∀ s', (parseExpression s').answer = .ok (some e) →
          text.length ≤ s'.length ∧ text.countP isParen ≤ s'.countP isParen) ∧
    ∀ c, (parseCommand s).answer = .ok (some c) → ∀ width : Int, 0 ≤ width →
      ∃ text, (c.printCommand width).answer = .ok text ∧
        (solid text).Sublist (solid s) ∧ Erases isSurplus (solid s) (solid text) := by
  refine ⟨fun e h ↦ ?_, fun c h width hw ↦ ?_⟩
  · obtain ⟨text, hp, hback⟩ := exists_accepted_expression h
    have herases : ∀ s', (parseExpression s').answer = .ok (some e) → Erases isSpare s' text := by
      intro s' hs'
      obtain ⟨text', hp', he⟩ := erases_of_accepted hs'
      rwa [← Except.ok.inj (hp.symm.trans hp')] at he
    refine ⟨text, hp, (herases s h).sublist, herases s h, hback, fun s' hs' ↦ ?_⟩
    have hsub := (herases s' hs').sublist
    exact ⟨hsub.length_le, hsub.countP_le⟩
  · obtain ⟨text, hp, -⟩ := exists_accepted_command h hw
    have hlayout : c.layout (List.replicate width.toNat ' ') [] = .ok text := by
      rw [answer_printCommand, render, if_neg (by omega)] at hp
      obtain ⟨text', ht, hp⟩ := bind_eq_ok_iff.mp hp
      rwa [← Except.ok.inj hp]
    have herases := erases_tight_of_accepted h
    rw [← solid_layout (blank_replicate _) c blank_nil hlayout] at herases
    exact ⟨text, hp, herases.sublist, herases⟩

/-- Parentheses that group to the left are left out, those that group to the right stay. -/
theorem print_minimal_groups :
    let e : Tree := .binary .minus (.binary .minus (.var "a") (.var "b"))
      (.binary .plus (.const 7) (.neg (.var "c")))
    let c : Tree := .loop (.var "a") (.block [.assign "x" (.const 1)])
    e.printExpression = .ok "a-b-(7+-c)".toList ∧
    "a-b-(7+-c)".toList.Sublist "((a) - b) - ( 007+-c)".toList ∧
    (∀ s', (parseExpression s').answer = .ok (some e) → 10 ≤ s'.length ∧ 2 ≤ s'.countP isParen) ∧
    (c.printCommand 4).answer = .ok "while a do \x7b\n    x = 1\n\x7d".toList ∧
    Erases isSurplus "whileado\x7bx=(01)\x7d".toList "whileado\x7bx=1\x7d".toList := by
  intro e c
  obtain ⟨text, hp, hsub, -, -, hmin⟩ :=
    (print_minimal "((a) - b) - ( 007+-c)".toList).1 e rfl
  obtain rfl : "a-b-(7+-c)".toList = text := Except.ok.inj hp
  obtain ⟨printed, hc, -, herases⟩ :=
    (print_minimal "while a do\x7bx =(01)\x7d".toList).2 c rfl 4 (by decide)
  obtain rfl : "while a do \x7b\n    x = 1\n\x7d".toList = printed := Except.ok.inj hc
  exact ⟨hp, hsub, hmin, hc, herases⟩

end Grammar
end WhileSyntax
