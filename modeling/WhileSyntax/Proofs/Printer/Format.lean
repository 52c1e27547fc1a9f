import WhileSyntax.Proofs.Printer.Command
import WhileSyntax.Proofs.Printer.Condense
import WhileSyntax.Proofs.Printer.Levels

/-!
# Formatting

To format a text is to print what it is read as. Every text that is read can be formatted at every
width, and the formatted text is read as the same tree (`format_stable`). The proof lays out a
command from the runs that read its source and keeps the number of levels of every run.
-/

namespace WhileSyntax.Grammar

open WhileSyntax.Parser WhileSyntax.Tree Text

variable {n : Nat} {s m r u f text a b unit indent : List Char} {c e y z : Tree} {cs : List Tree}

/-! ## Forms are read where no operator follows -/

/-- A parser reads a tree unless an operator follows. -/
def ReadsApart (p : Parser Tree) (s : List Char) (c : Tree) (r : List Char) : Prop :=
  Follow 0 r → p.Reads s c r

/-- Wherever neither a word nor an expression goes on, a parser reads a tree from a text. -/
def Rereads (p : Parser Tree) (text : List Char) (c : Tree) : Prop := Stands (ReadsApart p) text c

/-- Members are read unless an operator follows, and no operator stands in front of them. -/
def MembersApart (n : Nat) (s : List Char) (cs : List Tree) (r : List Char) : Prop :=
  Follow 0 r → Chain (member (command n)) s cs r ∧ Follow 0 s

section Forms

variable {m₁ m₂ m₃ m₄ m₅ : List Char}

private theorem readsApart_assign {x : String} (hx : Name x s m₁) (ht : Token ['='] m₁ m₂)
    (he : ReadsApart (expression n) m₂ e r) :
    ReadsApart (command (n + 1)) s (.assign x e) r :=
  fun hf ↦ reads_command_of_assign hx ht (he hf)

private theorem readsApart_conditional (hif : Keyword "if" s m₁)
    (he : ReadsApart (expression n) m₁ e m₂) (hthen : Keyword "then" m₂ m₃)
    (hy : ReadsApart (command n) m₃ y m₄) (helse : Keyword "else" m₄ m₅)
    (hz : ReadsApart (command n) m₅ z r) :
    ReadsApart (command (n + 1)) s (.conditional e y z) r :=
  fun hf ↦ reads_command_of_conditional hif (he (.of_keyword hthen rfl)) hthen
    (hy (.of_keyword helse rfl)) helse (hz hf)

private theorem readsApart_loop (hwhile : Keyword "while" s m₁)
    (he : ReadsApart (expression n) m₁ e m₂) (hdo : Keyword "do" m₂ m₃)
    (hy : ReadsApart (command n) m₃ y r) :
    ReadsApart (command (n + 1)) s (.loop e y) r :=
  fun hf ↦ reads_command_of_loop hwhile (he (.of_keyword hdo rfl)) hdo (hy hf)

private theorem membersApart_nil : MembersApart n r [] r := fun hf ↦ ⟨.nil r, hf⟩

private theorem membersApart_cons (ht : Token [';'] s m₁) (hc : ReadsApart (command n) m₁ c m₂)
    (hcs : MembersApart n m₂ cs r) : MembersApart n s (c :: cs) r := by
  intro hf
  obtain ⟨hchain, hnext⟩ := hcs hf
  exact ⟨chain_member_cons ht (hc hnext) hchain, .of_token ht rfl rfl⟩

private theorem readsApart_block (hopen : Token ['\x7b'] s m₁) (hc : ReadsApart (command n) m₁ c m₂)
    (hcs : MembersApart n m₂ cs m₃) (hclose : Token ['\x7d'] m₃ r) :
    ReadsApart (command (n + 1)) s (.block (c :: cs)) r := by
  intro _
  obtain ⟨hchain, hnext⟩ := hcs (.of_token hclose rfl rfl)
  exact reads_command_of_block hopen (hc hnext) hchain hclose

private theorem readsApart_emptyBlock (hopen : Token ['\x7b'] s m) (hclose : Token ['\x7d'] m r) :
    ReadsApart (command (n + 2)) s (.block []) r :=
  fun _ ↦ reads_command_of_emptyBlock hopen hclose

end Forms

/-! ## Sources are laid out -/

/-- From every indentation a command is laid out, and the text is read back by a parser. -/
def Reformats (p : Parser Tree) (unit : List Char) (c : Tree) : Prop :=
  ∀ indent, Blank indent → ∃ text, c.layout unit indent = .ok text ∧ Rereads p text c

private theorem rereads_of_printExpression (h : (expression n).Reads s e r)
    (hp : e.printExpression = .ok text) : Rereads (expression n) text e := by
  intro u f hu hf hnext
  obtain ⟨he, hr⟩ := (derives_of_reads n s e r h).spelled
  have hlt := levels_lt_of_reads n s e r h
  obtain ⟨n, rfl⟩ := Nat.exists_eq_add_one.mpr (show 0 < n by omega)
  have hphrase := phrase_of_printInside he hr (Nat.zero_le 5) hp (Nat.le_of_lt_succ hlt) hu hf
  exact hphrase.reads_succ (Nat.zero_le 5) hnext

/-- An expression that was read is printed, and the text is read back with as many levels. -/
theorem exists_rereads (h : (expression n).Reads s e r) :
    ∃ text, e.printExpression = .ok text ∧ Rereads (expression n) text e := by
  obtain ⟨t, p, -, hp, -⟩ := condenses_of_reads n s e r h
  exact ⟨p, hp, rereads_of_printExpression h hp⟩

private theorem exists_rereads_layoutAll {p : Parser Tree} (h : ∀ c ∈ cs, Reformats p unit c)
    (hi : Blank indent) :
    ∃ ls, layoutAll unit cs indent = .ok ls ∧ List.Forall₂ (Rereads p) ls cs := by
  induction cs with
  | nil => exact ⟨[], by rw [layoutAll], .nil⟩
  | cons c cs ih =>
    obtain ⟨hc, hcs⟩ := List.forall_mem_cons.mp h
    obtain ⟨text, ht, hs⟩ := hc indent hi
    obtain ⟨ls, hl, hss⟩ := ih hcs
    refine ⟨(indent ++ text) :: ls, ?_, .cons (Stands.indented hi hs) hss⟩
    rw [layoutAll, ht, hl]
    rfl

private theorem reformats_of_chain {p : Parser Tree}
    (hp : ∀ s c r, p.Reads s c r → Reformats p unit c) (h : Chain (member p) s cs r) :
    ∀ c ∈ cs, Reformats p unit c := by
  induction h with
  | nil => exact nofun
  | cons hc _ _ ih =>
    obtain ⟨m, -, hc⟩ := exists_token_of_reads hc rfl
    exact List.forall_mem_cons.mpr ⟨hp _ _ _ hc, ih⟩

private theorem reformats_block (hu : Blank unit) (hc : Reformats (command n) unit c)
    (hcs : ∀ c ∈ cs, Reformats (command n) unit c) :
    Reformats (command (n + 1)) unit (.block (c :: cs)) := by
  intro indent hi
  have hinner := blank_append hi hu
  obtain ⟨text, ht, hs⟩ := hc _ hinner
  obtain ⟨ls, hl, hss⟩ := exists_rereads_layoutAll hcs hinner
  refine ⟨_, ?_, Stands.block membersApart_nil membersApart_cons readsApart_block hi
    (Stands.indented hinner hs) hss⟩
  rw [layout, layoutAll, ht, hl]
  rfl

/-- Every command that is read is laid out, and the text is read back with as many levels. -/
theorem reformats_of_reads (hu : Blank unit) (n : Nat) :
    ∀ s c r, (command n).Reads s c r → Reformats (command n) unit c := by
  induction n with
  | zero => exact fun s c r h ↦ absurd h not_reads_command_zero
  | succ n ih =>
    intro s c r h
    obtain ⟨p, hp, h⟩ := exists_form_of_reads h
    simp only [commandForms, List.mem_cons, List.not_mem_nil, or_false] at hp
    rcases hp with rfl | rfl | rfl | rfl
    · obtain ⟨x, m₁, m₂, e, hx, ht, he, rfl⟩ := reads_assign_iff.mp h
      intro indent _
      obtain ⟨text, hp, he⟩ := exists_rereads he
      refine ⟨_, ?_, Stands.assign readsApart_assign hx.1 he⟩
      rw [layout, hp]
      rfl
    · obtain ⟨m₁, e, m₂, m₃, y, m₄, m₅, z, hif, he, hthen, hy, helse, hz, rfl⟩ :=
        reads_conditional_iff.mp h
      intro indent hi
      obtain ⟨text, hp, he⟩ := exists_rereads he
      obtain ⟨a, ha, hy⟩ := ih _ _ _ hy _ (blank_branchIndent _ hu hi)
      obtain ⟨b, hb, hz⟩ := ih _ _ _ hz _ (blank_branchIndent _ hu hi)
      exact ⟨_, layout_conditional hp ha hb, Stands.conditional readsApart_conditional he hy hz
        (gap_branchGap _ hu hi) (gap_elseGap _ hi) (gap_branchGap _ hu hi)⟩
    · obtain ⟨m₁, e, m₂, m₃, b, hwhile, he, hdo, hb, rfl⟩ := reads_loop_iff.mp h
      intro indent hi
      obtain ⟨text, hp, he⟩ := exists_rereads he
      obtain ⟨a, ha, hb⟩ := ih _ _ _ hb _ (blank_branchIndent _ hu hi)
      exact ⟨_, layout_loop hp ha, Stands.loop readsApart_loop he hb (gap_branchGap _ hu hi)⟩
    · obtain ⟨m₁, cs, m₂, hopen, hcs, hclose, rfl⟩ := reads_block_iff.mp h
      rcases reads_sepBy_cases hcs with ⟨c, m, cs', hc, hchain, rfl⟩ | ⟨rfl, rfl⟩
      · exact reformats_block hu (ih _ _ _ hc) (reformats_of_chain ih hchain)
      · cases n with
        | zero => exact absurd h not_reads_block_zero
        | succ n =>
          intro indent _
          refine ⟨_, ?_, Stands.emptyBlock readsApart_emptyBlock⟩
          rw [layout, layoutAll]
          rfl

/-! ## Formatted texts -/

/-- The text of an expression as it is printed, if the text is one. -/
def formatExpression (text : List Char) : Option (List Char) :=
  match (parseExpression text).answer with
  | .ok (some e) => e.printExpression.toOption
  | _ => none

/-- The text of a command as it is printed at a width, if the text is one. -/
def formatCommand (width : Int) (text : List Char) : Option (List Char) :=
  match (parseCommand text).answer with
  | .ok (some c) => (c.printCommand width).answer.toOption
  | _ => none

/-- An accepted expression is formatted as it is printed. -/
theorem formatExpression_eq (h : (parseExpression s).answer = .ok (some e))
    (hp : e.printExpression = .ok text) : formatExpression s = some text := by
  unfold formatExpression
  rw [h]
  exact congrArg Except.toOption hp

/-- An accepted command is formatted as it is printed. -/
theorem formatCommand_eq {width : Int} (h : (parseCommand s).answer = .ok (some c))
    (hp : (c.printCommand width).answer = .ok text) : formatCommand width s = some text := by
  unfold formatCommand
  rw [h]
  exact congrArg Except.toOption hp

private theorem Rereads.accepted {p : Parser Tree} (h : Rereads p text c) :
    (p.readAll text).answer = .ok (some c) := by
  have hread := h [] [] blank_nil (stops_nil _) (.of_blank blank_nil)
  rw [List.nil_append, List.append_nil] at hread
  rw [readAll_of_reads hread blank_nil]
  rfl

/-- What is printed for an accepted expression is accepted as the same expression. -/
theorem exists_accepted_expression (h : (parseExpression s).answer = .ok (some e)) :
    ∃ text, e.printExpression = .ok text ∧ (parseExpression text).answer = .ok (some e) := by
  obtain ⟨r, hread, -⟩ := (readAll_eq_some_iff (bounded_expression nestingLimit)).mp h
  obtain ⟨text, hp, hback⟩ := exists_rereads hread
  exact ⟨text, hp, hback.accepted⟩

/-- What is printed for an accepted command at any width is accepted as the same command. -/
theorem exists_accepted_command (h : (parseCommand s).answer = .ok (some c)) {width : Int}
    (hw : 0 ≤ width) :
    ∃ text, (c.printCommand width).answer = .ok text ∧
      (parseCommand text).answer = .ok (some c) := by
  obtain ⟨r, hread, -⟩ := (readAll_eq_some_iff (bounded_command nestingLimit)).mp h
  obtain ⟨text, hp, hback⟩ := reformats_of_reads (blank_replicate width.toNat) _ _ _ _ hread []
    blank_nil
  refine ⟨text, ?_, hback.accepted⟩
  rw [answer_printCommand, render, if_neg (by omega), hp]
  rfl

/-- What is accepted can be printed, whatever its names, constants and nesting; the printed text is
accepted as the same tree; and formatting a formatted text again, at any width, is formatting the
text itself. -/
theorem format_stable (s : List Char) :
    (∀ e, (parseExpression s).answer = .ok (some e) → ∃ text,
      e.printExpression = .ok text ∧ (parseExpression text).answer = .ok (some e) ∧
        formatExpression s = some text ∧ formatExpression text = some text) ∧
    ∀ c, (parseCommand s).answer = .ok (some c) → ∀ width width' : Int, 0 ≤ width → 0 ≤ width' →
      ∃ text text', (c.printCommand width).answer = .ok text ∧
        (parseCommand text).answer = .ok (some c) ∧
          (c.printCommand width').answer = .ok text' ∧
            formatCommand width s = some text ∧ formatCommand width' s = some text' ∧
              formatCommand width' text = some text' := by
  refine ⟨fun e h ↦ ?_, fun c h width width' hw hw' ↦ ?_⟩
  · obtain ⟨text, hp, hback⟩ := exists_accepted_expression h
    exact ⟨text, hp, hback, formatExpression_eq h hp, formatExpression_eq hback hp⟩
  · obtain ⟨text, hp, hback⟩ := exists_accepted_command h hw
    obtain ⟨text', hp', -⟩ := exists_accepted_command h hw'
    exact ⟨text, text', hp, hback, hp', formatCommand_eq h hp, formatCommand_eq h hp',
      formatCommand_eq hback hp'⟩

/-- Leading zeros, spare parentheses, a negated constant, and two widths. -/
theorem format_stable_spare :
    formatExpression "-( 5 )*((b)) ".toList = some "-(5)*b".toList ∧
    formatCommand 0 "if((a))then\x7bx=007;\x7b\x7d\x7d else y = -( 5 )*(b)".toList =
      some "if a then \x7b\nx = 7;\n\x7b\x7d\n\x7d else\ny = -(5)*b".toList ∧
    formatCommand 2 "if a then \x7b\nx = 7;\n\x7b\x7d\n\x7d else\ny = -(5)*b".toList =
      formatCommand 2 "if((a))then\x7bx=007;\x7b\x7d\x7d else y = -( 5 )*(b)".toList := by
  have he := (format_stable "-( 5 )*((b)) ".toList).1
    (.binary .times (.neg (.const 5)) (.var "b")) rfl
  obtain ⟨text, hp, -, hformat, -⟩ := he
  obtain rfl : "-(5)*b".toList = text := Except.ok.inj hp
  have hc := (format_stable "if((a))then\x7bx=007;\x7b\x7d\x7d else y = -( 5 )*(b)".toList).2
    (.conditional (.var "a") (.block [.assign "x" (.const 7), .block []])
      (.assign "y" (.binary .times (.neg (.const 5)) (.var "b")))) rfl 0 2 (by decide) (by decide)
  obtain ⟨text, text', hp, -, -, hs, hs', hback⟩ := hc
  obtain rfl : "if a then \x7b\nx = 7;\n\x7b\x7d\n\x7d else\ny = -(5)*b".toList = text :=
    Except.ok.inj hp
  exact ⟨hformat, hs, hback.trans hs'.symm⟩

end WhileSyntax.Grammar
