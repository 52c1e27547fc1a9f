import WhileSyntax.Printer.Command
import WhileSyntax.Proofs.Printer.Expression

/-!
# Printed commands are read back

Whatever the layout, words are kept apart by white space: behind every keyword stands a gap, which
is a space or a line feed with an indentation. So the text of a command is derived in the grammar,
at every width and from every indentation, nested as deep as its parentheses, blocks, loops and
conditionals.
-/

namespace WhileSyntax

open Grammar

/-! ## Gaps -/

/-- White space that ends a word. -/
def Gap (u : List Char) : Prop := Blank u ∧ u ≠ []

namespace Gap

/-- A space is a gap. -/
theorem space : Gap [' '] :=
  ⟨List.forall_mem_singleton.mpr rfl, List.cons_ne_nil _ _⟩

/-- A new line is a gap, indented or not. -/
theorem newline {indent : List Char} (h : Blank indent) : Gap ('\n' :: indent) :=
  ⟨List.forall_mem_cons.mpr ⟨rfl, h⟩, List.cons_ne_nil _ _⟩

/-- No word goes on behind a gap. -/
theorem stops {u : List Char} (h : Gap u) (s : List Char) : Stops Text.isWordPart (u ++ s) := by
  obtain ⟨hu, hne⟩ := h
  cases u with
  | nil => exact absurd rfl hne
  | cons c u =>
    obtain ⟨hc, -⟩ := List.forall_mem_cons.mp hu
    exact stops_cons.mpr (Text.isWordPart_eq_false_of_isBlank hc)

end Gap

private theorem blank_newline : Blank ['\n'] := blank_singleton rfl

/-- An indentation unit is white space. -/
theorem blank_replicate (n : Nat) : Blank (List.replicate n ' ') := by
  intro c hc
  rw [List.eq_of_mem_replicate hc]
  rfl

private theorem keyword_append {k : String} {u v s : List Char} (hu : Blank u) (hv : Gap v) :
    Keyword k (u ++ (k.toList ++ (v ++ s))) (v ++ s) :=
  ⟨⟨u, hu, (List.append_assoc _ _ _).symm⟩, hv.stops s⟩

/-! ## Texts of commands -/

/-- Behind any white space and wherever no word goes on, a text stands for a tree, as a relation
between texts, trees and the text left over understands it. -/
def Stands (P : List Char → Tree → List Char → Prop) (text : List Char) (c : Tree) : Prop :=
  ∀ u f, Blank u → Stops Text.isWordPart f → P (u ++ (text ++ f)) c f

namespace Stands

-- `E` is about the expressions of a command, `P` about its parts and `Q` about the whole.
variable {E P Q : List Char → Tree → List Char → Prop} {text a b : List Char} {e y z c : Tree}

/-- An indentation in front belongs to the text. -/
theorem indented {v : List Char} (hv : Blank v) (h : Stands P a c) : Stands P (v ++ a) c := by
  intro u f hu hf
  have := h (u ++ v) f (blank_append hu hv) hf
  rwa [List.append_assoc u, ← List.append_assoc v] at this

/-- An equals sign between spaces makes an assignment. -/
theorem assign {x : String}
    (rule : ∀ {s m₁ m₂ r}, Name x s m₁ → Token ['='] m₁ m₂ → E m₂ e r → Q s (.assign x e) r)
    (hx : IsName x) (he : Stands E text e) :
    Stands Q (x.toList ++ ' ' :: '=' :: ' ' :: text) (.assign x e) := by
  intro u f hu hf
  have hname : Name x (u ++ (x.toList ++ ' ' :: '=' :: ' ' :: text ++ f))
      ([' '] ++ (['='] ++ ([' '] ++ (text ++ f)))) :=
    ⟨hx, ⟨u, hu, by simp only [List.append_assoc, List.cons_append, List.nil_append]⟩,
      Gap.space.stops _⟩
  exact rule hname (.of_append Gap.space.1) (he _ _ Gap.space.1 hf)

/-- Gaps around the branches make a conditional. -/
theorem conditional {s₁ s₂ s₃ : List Char}
    (rule : ∀ {s m₁ m₂ m₃ m₄ m₅ r}, Keyword "if" s m₁ → E m₁ e m₂ → Keyword "then" m₂ m₃ →
      P m₃ y m₄ → Keyword "else" m₄ m₅ → P m₅ z r → Q s (.conditional e y z) r)
    (he : Stands E text e) (hy : Stands P a y) (hz : Stands P b z)
    (h₁ : Gap s₁) (h₂ : Gap s₂) (h₃ : Gap s₃) :
    Stands Q ("if ".toList ++ text ++ " then".toList ++
      (s₁ ++ (a ++ (s₂ ++ "else".toList))) ++ (s₃ ++ b)) (.conditional e y z) := by
  intro u f hu hf
  have hif : "if ".toList = "if".toList ++ [' '] := rfl
  have hthen : " then".toList = [' '] ++ "then".toList := rfl
  rw [hif, hthen]
  simp only [List.append_assoc]
  exact rule (keyword_append hu Gap.space) (he _ _ Gap.space.1 (Gap.space.stops _))
    (keyword_append Gap.space.1 h₁) (hy _ _ h₁.1 (h₂.stops _)) (keyword_append h₂.1 h₃)
    (hz _ _ h₃.1 hf)

/-- A gap in front of the body makes a loop. -/
theorem loop {s₁ : List Char}
    (rule : ∀ {s m₁ m₂ m₃ r}, Keyword "while" s m₁ → E m₁ e m₂ → Keyword "do" m₂ m₃ → P m₃ y r →
      Q s (.loop e y) r)
    (he : Stands E text e) (hy : Stands P a y) (h₁ : Gap s₁) :
    Stands Q ("while ".toList ++ text ++ " do".toList ++ (s₁ ++ a)) (.loop e y) := by
  intro u f hu hf
  have hwhile : "while ".toList = "while".toList ++ [' '] := rfl
  have hdo : " do".toList = [' '] ++ "do".toList := rfl
  rw [hwhile, hdo]
  simp only [List.append_assoc]
  exact rule (keyword_append hu Gap.space) (he _ _ Gap.space.1 (Gap.space.stops _))
    (keyword_append Gap.space.1 h₁) (hy _ _ h₁.1 hf)

/-- Braces with nothing between them make a block without members. -/
theorem emptyBlock
    (rule : ∀ {s m r}, Token ['\x7b'] s m → Token ['\x7d'] m r → Q s (.block []) r) :
    Stands Q ['\x7b', '\x7d'] (.block []) := by
  intro u f hu _
  have hopen : Token ['\x7b'] (u ++ (['\x7b', '\x7d'] ++ f)) ('\x7d' :: f) := .of_append hu
  exact rule hopen (show Token ['\x7d'] _ f from .of_append blank_nil)

section Block

variable {M : List Char → List Tree → List Char → Prop} {line : List Char}
  {ls : List (List Char)} {cs : List Tree}
  (nil : ∀ {r}, M r [] r)
  (cons : ∀ {s m₁ m₂ r c cs}, Token [';'] s m₁ → P m₁ c m₂ → M m₂ cs r → M s (c :: cs) r)

include nil cons

private theorem lines (h : Stands P line c) (hs : List.Forall₂ (Stands P) ls cs) {u f : List Char}
    (hu : Blank u) (hf : Stops Text.isWordPart f) :
    ∃ m, P (u ++ ([';', '\n'].intercalate (line :: ls) ++ f)) c m ∧ M m cs f := by
  induction hs generalizing u line c with
  | nil =>
    rw [List.intercalate_singleton]
    exact ⟨f, h u f hu hf, nil⟩
  | @cons line' c' ls cs hc' _ ih =>
    obtain ⟨m, hm, hms⟩ := ih hc' blank_newline
    have hstop : Stops Text.isWordPart
        (';' :: (['\n'] ++ ([';', '\n'].intercalate (line' :: ls) ++ f))) :=
      stops_cons.mpr (by decide)
    have hline := h u _ hu hstop
    refine ⟨_, ?_, cons ⟨[], blank_nil, rfl⟩ hm hms⟩
    rw [List.intercalate_cons_cons]
    simpa only [List.append_assoc, List.cons_append, List.nil_append] using hline

/-- Lines with semicolons between them make a block. -/
theorem block {indent : List Char}
    (rule : ∀ {s m₁ m₂ m₃ r}, Token ['\x7b'] s m₁ → P m₁ c m₂ → M m₂ cs m₃ →
      Token ['\x7d'] m₃ r → Q s (.block (c :: cs)) r)
    (hi : Blank indent) (h : Stands P line c) (hs : List.Forall₂ (Stands P) ls cs) :
    Stands Q ('\x7b' :: '\n' :: [';', '\n'].intercalate (line :: ls) ++
      '\n' :: indent ++ ['\x7d']) (.block (c :: cs)) := by
  intro u f hu hf
  have hgap := Gap.newline hi
  have hclose : Token ['\x7d'] ('\n' :: indent ++ '\x7d' :: f) f := .of_append hgap.1
  obtain ⟨m, hm, hms⟩ := lines nil cons h hs blank_newline (hgap.stops ('\x7d' :: f))
  refine rule ⟨u, hu, ?_⟩ hm hms hclose
  simp only [List.append_assoc, List.cons_append, List.nil_append]

end Block

end Stands

/-- Wherever no word goes on, a text is derived as a command, nested no deeper than `d`. -/
def SpellsCommand (d : Nat) (text : List Char) (c : Tree) : Prop :=
  ∀ u f, Blank u → Stops Text.isWordPart f → DerivesCommand d (u ++ (text ++ f)) c f

private theorem SpellsCommand.mono {d d' : Nat} {text : List Char} {c : Tree}
    (h : SpellsCommand d text c) (hd : d ≤ d') : SpellsCommand d' text c :=
  fun u f hu hf ↦ (h u f hu hf).mono hd

private theorem Spells.stands {k d : Nat} {text : List Char} {e : Tree} (h : Spells k text e)
    (hd : parenDepth text ≤ d) : Stands (Derives d k) text e := by
  intro u f hu hf
  obtain ⟨n, hb, hn⟩ := h
  rw [hb.parenDepth_eq] at hd
  have := (hn u f hu hf).mono hd
  rwa [List.append_assoc] at this

/-! ## Layout -/

/-- Indentation of a branch that hugs its keyword, or stands on lines of its own. -/
def branchIndent (hugs : Bool) (unit indent : List Char) : List Char :=
  if hugs then indent else indent ++ unit

/-- Gap in front of a branch. -/
def branchGap (hugs : Bool) (unit indent : List Char) : List Char :=
  if hugs then [' '] else '\n' :: (indent ++ unit)

/-- Gap behind the first of two branches. -/
def elseGap (hugs : Bool) (indent : List Char) : List Char :=
  if hugs then [' '] else '\n' :: indent

section Branches

variable {unit indent : List Char}

/-- Branches are indented by white space. -/
theorem blank_branchIndent (hugs : Bool) (hu : Blank unit) (hi : Blank indent) :
    Blank (branchIndent hugs unit indent) := by
  cases hugs
  · exact blank_append hi hu
  · exact hi

/-- A keyword ends in front of a branch. -/
theorem gap_branchGap (hugs : Bool) (hu : Blank unit) (hi : Blank indent) :
    Gap (branchGap hugs unit indent) := by
  cases hugs
  · exact .newline (blank_append hi hu)
  · exact .space

/-- A branch ends in front of the second keyword. -/
theorem gap_elseGap (hugs : Bool) (hi : Blank indent) : Gap (elseGap hugs indent) := by
  cases hugs
  · exact .newline hi
  · exact .space

end Branches

namespace Tree

variable {unit indent text a b : List Char} {c e y n : Tree}

/-- A conditional is laid out from its condition and its branches, the second of which also hugs
its keyword when it is a conditional. -/
theorem layout_conditional_eq (e y n : Tree) (unit indent : List Char) :
    (conditional e y n).layout unit indent = (do
      let text ← e.printExpression
      let a ← y.layout unit (branchIndent y.isBlock unit indent)
      let b ← n.layout unit (branchIndent (n.isBlock || n.isConditional) unit indent)
      .ok ("if ".toList ++ text ++ " then".toList ++
        (branchGap y.isBlock unit indent ++ (a ++ (elseGap y.isBlock indent ++ "else".toList))) ++
        (branchGap (n.isBlock || n.isConditional) unit indent ++ b))) := by
  have helse : " else".toList = ' ' :: "else".toList := rfl
  rw [layout]
  unfold branchIndent branchGap elseGap
  cases y.isBlock <;> cases (n.isBlock || n.isConditional)
  all_goals
    simp only [if_true, if_false, Bool.false_eq_true, helse]
    simp [bind, Except.bind]

/-- A loop is laid out from its condition and its body. -/
theorem layout_loop_eq (e y : Tree) (unit indent : List Char) :
    (loop e y).layout unit indent = (do
      let text ← e.printExpression
      let a ← y.layout unit (branchIndent y.isBlock unit indent)
      .ok ("while ".toList ++ text ++ " do".toList ++ (branchGap y.isBlock unit indent ++ a))) := by
  rw [layout]
  unfold branchIndent branchGap
  cases y.isBlock
  all_goals
    simp only [if_true, if_false, Bool.false_eq_true]
    simp [bind, Except.bind]

/-- The parts of a conditional are laid out one by one. -/
theorem layout_conditional (he : e.printExpression = .ok text)
    (hy : y.layout unit (branchIndent y.isBlock unit indent) = .ok a)
    (hn : n.layout unit (branchIndent (n.isBlock || n.isConditional) unit indent) = .ok b) :
    (conditional e y n).layout unit indent = .ok ("if ".toList ++ text ++ " then".toList ++
      (branchGap y.isBlock unit indent ++ (a ++ (elseGap y.isBlock indent ++ "else".toList))) ++
      (branchGap (n.isBlock || n.isConditional) unit indent ++ b)) := by
  rw [layout_conditional_eq, he, hy, hn]
  rfl

/-- The parts of a loop are laid out one by one. -/
theorem layout_loop (he : e.printExpression = .ok text)
    (hy : y.layout unit (branchIndent y.isBlock unit indent) = .ok a) :
    (loop e y).layout unit indent = .ok ("while ".toList ++ text ++ " do".toList ++
      (branchGap y.isBlock unit indent ++ a)) := by
  rw [layout_loop_eq, he, hy]
  rfl

/-! ## Nesting of commands -/

/-- How deep the parentheses of a printed expression nest. -/
def parens (e : Tree) : Nat :=
  match e.printExpression with
  | .ok text => parenDepth text
  | .error _ => 0

mutual

/-- How deep parentheses, blocks, conditionals and loops of a printed command nest together. A
condition stands beside the branches or the body. -/
def nesting : Tree → Nat
  | assign _ value => value.parens
  | block commands => nestingAll commands
  | conditional condition yes no => max condition.parens (max (nesting yes) (nesting no) + 1)
  | loop condition body => max condition.parens (nesting body + 1)
  | _ => 0

/-- How deep a block nests around its members. -/
def nestingAll : List Tree → Nat
  | [] => 0
  | c :: cs => max (nesting c + 1) (nestingAll cs)

end

private theorem nesting_lt_nestingAll {cs : List Tree} (h : c ∈ cs) :
    c.nesting < nestingAll cs := by
  induction cs with
  | nil => cases h
  | cons c' cs ih =>
    rw [nestingAll]
    rcases List.mem_cons.mp h with rfl | h
    · omega
    · have := ih h
      omega

/-! ## Laid out commands are spelled -/

/-- From every indentation a command is laid out, and if a program can spell its leaves, the text
spells it. -/
def LaysOut (unit : List Char) (c : Tree) : Prop :=
  ∀ indent, Blank indent → ∃ text, c.layout unit indent = .ok text ∧
    (c.Readable → SpellsCommand c.nesting text c)

private theorem exists_layoutAll {cs : List Tree} (h : ∀ c ∈ cs, LaysOut unit c)
    (hi : Blank indent) : ∃ lines, layoutAll unit cs indent = .ok lines ∧
      ((∀ c ∈ cs, c.Readable) → ∀ d, (∀ c ∈ cs, c.nesting ≤ d) →
        List.Forall₂ (SpellsCommand d) lines cs) := by
  induction cs with
  | nil => exact ⟨[], by rw [layoutAll], fun _ _ _ ↦ .nil⟩
  | cons c cs ih =>
    obtain ⟨hc, hcs⟩ := List.forall_mem_cons.mp h
    obtain ⟨text, ht, hs⟩ := hc indent hi
    obtain ⟨lines, hl, hss⟩ := ih hcs
    refine ⟨(indent ++ text) :: lines, ?_, fun hr d hd ↦ ?_⟩
    · rw [layoutAll, ht, hl]
      rfl
    · obtain ⟨hrc, hrcs⟩ := List.forall_mem_cons.mp hr
      obtain ⟨hdc, hdcs⟩ := List.forall_mem_cons.mp hd
      exact .cons (Stands.indented hi ((hs hrc).mono hdc)) (hss hrcs d hdcs)

private theorem exists_condition (he : e.IsExpression) (hw : e.Writable) :
    ∃ text, e.printExpression = .ok text ∧ e.parens = parenDepth text ∧
      (e.Readable → Spells 0 text e) := by
  obtain ⟨text, hp, hs⟩ := exists_printExpression he hw
  exact ⟨text, hp, by rw [parens, hp], hs⟩

/-- Every command with writable constants is laid out. -/
theorem laysOut (hc : c.IsCommand) (hw : c.Writable) (hu : Blank unit) : LaysOut unit c := by
  induction hc with
  | assign name he =>
    intro indent _
    obtain ⟨text, hp, hd, hs⟩ := exists_condition he (forall_leaves_assign.mp hw).2
    refine ⟨name.toList ++ ' ' :: '=' :: ' ' :: text, ?_, fun h ↦ ?_⟩
    · rw [layout, hp]
      rfl
    · obtain ⟨hx, he⟩ := forall_leaves_assign.mp h
      rw [nesting, hd]
      exact Stands.assign .assign hx ((hs he).stands (Nat.le_refl _))
  | @block cs _ ih =>
    intro indent hi
    have hall : ∀ c ∈ cs, LaysOut unit c := fun c hc ↦ ih c hc (forall_leaves_block.mp hw c hc)
    have hinner := blank_append hi hu
    cases cs with
    | nil =>
      refine ⟨['\x7b', '\x7d'], ?_, fun _ ↦ Stands.emptyBlock .emptyBlock⟩
      rw [layout, layoutAll]
      rfl
    | cons c cs =>
      obtain ⟨hc, hcs⟩ := List.forall_mem_cons.mp hall
      obtain ⟨text, ht, hs⟩ := hc _ hinner
      obtain ⟨lines, hl, hss⟩ := exists_layoutAll hcs hinner
      refine ⟨'\x7b' :: '\n' :: [';', '\n'].intercalate ((indent ++ unit ++ text) :: lines) ++
        '\n' :: indent ++ ['\x7d'], ?_, fun h ↦ ?_⟩
      · rw [layout, layoutAll, ht, hl]
        rfl
      · obtain ⟨hr, hrs⟩ := List.forall_mem_cons.mp (forall_leaves_block.mp h)
        have hlt : ∀ c' ∈ c :: cs, c'.nesting < nestingAll (c :: cs) :=
          fun c' hc' ↦ nesting_lt_nestingAll hc'
        obtain ⟨hltc, hltcs⟩ := List.forall_mem_cons.mp hlt
        obtain ⟨d, hd⟩ : ∃ d, nestingAll (c :: cs) = d + 1 :=
          ⟨nestingAll (c :: cs) - 1, by omega⟩
        rw [hd] at hltc hltcs
        rw [nesting, hd]
        have hline := Stands.indented hinner ((hs hr).mono (Nat.le_of_lt_succ hltc))
        have hlines := hss hrs d fun c' hc' ↦ Nat.le_of_lt_succ (hltcs c' hc')
        exact Stands.block .nil .cons .block hi hline hlines
  | conditional he _ _ ihy ihn =>
    intro indent hi
    obtain ⟨hwe, hwy, hwn⟩ := forall_leaves_conditional.mp hw
    obtain ⟨text, hp, hd, hs⟩ := exists_condition he hwe
    obtain ⟨a, ha, hsa⟩ := ihy hwy _ (blank_branchIndent _ hu hi)
    obtain ⟨b, hb, hsb⟩ := ihn hwn _ (blank_branchIndent _ hu hi)
    refine ⟨_, layout_conditional hp ha hb, fun h ↦ ?_⟩
    obtain ⟨hre, hry, hrn⟩ := forall_leaves_conditional.mp h
    rw [nesting, hd, ← Nat.sub_add_cancel (show 1 ≤ max _ (max _ _ + 1) by omega)]
    exact Stands.conditional .conditional ((hs hre).stands (by omega)) ((hsa hry).mono (by omega))
      ((hsb hrn).mono (by omega)) (gap_branchGap _ hu hi) (gap_elseGap _ hi)
      (gap_branchGap _ hu hi)
  | loop he _ ihb =>
    intro indent hi
    obtain ⟨hwe, hwb⟩ := forall_leaves_loop.mp hw
    obtain ⟨text, hp, hd, hs⟩ := exists_condition he hwe
    obtain ⟨a, ha, hsa⟩ := ihb hwb _ (blank_branchIndent _ hu hi)
    refine ⟨_, layout_loop hp ha, fun h ↦ ?_⟩
    obtain ⟨hre, hrb⟩ := forall_leaves_loop.mp h
    rw [nesting, hd, ← Nat.sub_add_cancel (show 1 ≤ max _ (_ + 1) by omega)]
    exact Stands.loop .loop ((hs hre).stands (by omega)) ((hsa hrb).mono (by omega))
      (gap_branchGap _ hu hi)

/-- Every command with writable constants is rendered, and if a program can spell its leaves, the
text spells it. -/
theorem exists_render (hc : c.IsCommand) (hw : c.Writable) {width : Int} (hwidth : 0 ≤ width)
    (hi : Blank indent) : ∃ text, c.render width indent = .ok text ∧
      (c.Readable → SpellsCommand c.nesting text c) := by
  obtain ⟨text, ht, hs⟩ := laysOut hc hw (blank_replicate width.toNat) indent hi
  refine ⟨indent ++ text, ?_, fun h ↦ Stands.indented hi (hs h)⟩
  rw [render, if_neg (by omega), ht]
  rfl

/-- The text of a command is a command. -/
theorem commandText_of_spells {d : Nat} (h : SpellsCommand d text c) : CommandText d text c := by
  have := h [] [] blank_nil (stops_nil _)
  rw [List.nil_append, List.append_nil] at this
  exact ⟨[], blank_nil, this⟩

/-- A text reads back as a command when the parser returns a tree of the same structure. -/
def ReadsBackCommand (text : List Char) (c : Tree) : Prop :=
  ∃ c', (parseCommand text).answer = .ok (some c') ∧ c'.same c = true

private theorem readable_of_readsBackCommand (h : ReadsBackCommand text c) : c.Readable := by
  obtain ⟨c', hparse, hsame⟩ := h
  obtain ⟨r, -, hd⟩ := commandText_of_accepted hparse
  rw [same_iff_of_isCommand hd.spelled.1] at hsame
  rw [← hsame]
  exact hd.spelled.2

private theorem readsBackCommand_of_accepted (hc : c.IsCommand)
    (h : (parseCommand text).answer = .ok (some c)) : ReadsBackCommand text c :=
  ⟨c, h, (same_iff_of_isCommand hc).mpr rfl⟩

/-- A whole command is printed as it is rendered without an indentation. -/
theorem answer_printCommand (c : Tree) (width : Int) :
    (c.printCommand width).answer = c.render width [] := by
  rw [printCommand]
  cases c.render width [] with
  | ok text => rfl
  | error error => rfl

/-- Well-sorted nodes have a text of their own. If a program can spell the leaves of a node, it is a
text of the grammar, and the node is its tree. -/
theorem exists_nodeText (hw : c.Writable) :
    (c.IsExpression → ∃ text, c.nodeText? = some (.silent (.ok text)) ∧
      (c.Readable → ExpressionText (parenDepth text) text c)) ∧
    (c.IsCommand → ∃ text, c.nodeText?.map Noted.answer = some (.ok text) ∧
      (c.Readable → CommandText c.nesting text c)) := by
  constructor
  · intro he
    obtain ⟨text, ht, hs⟩ := exists_printExpression he hw
    refine ⟨text, ?_, fun h ↦ expressionText_of_spells (hs h)⟩
    rw [← ht]
    cases he <;> rfl
  · intro hc
    have hwidth : 0 ≤ (standardIndent : Int) := Int.natCast_nonneg _
    obtain ⟨text, ht, hs⟩ := exists_render hc hw hwidth blank_nil
    refine ⟨text, ?_, fun h ↦ commandText_of_spells (hs h)⟩
    rw [← ht, ← answer_printCommand]
    cases hc <;> rfl

/-- At every width and from every indentation, commands are rendered, and their text is read back as
a tree of the same structure exactly when every name is a word that is not reserved and no constant
is negative. The exception are texts that nest too deeply, which does not happen when their
parentheses, blocks, conditionals and loops together nest at most 20 deep, here and with any other
limit that leaves one level for the command and one for its expressions. -/
theorem render_readsBack (c : Tree) (hc : c.IsCommand) (hw : c.Writable) (width : Int)
    (hwidth : 0 ≤ width) :
    (c.printCommand width).answer = c.render width [] ∧
    ∀ indent, Blank indent → ∃ text, c.render width indent = .ok text ∧
      (ReadsBackCommand text c → c.Readable) ∧
      (c.Readable → ReadsBackCommand text c ∨
        parseCommand text = .note (.tooDeep "command") (.ok none)) ∧
      (c.Readable → c.nesting ≤ 20 → ReadsBackCommand text c ∧
        ∀ limit, 20 + 2 ≤ limit → ((command limit).readAll text).answer = .ok (some c)) := by
  refine ⟨answer_printCommand c width, fun indent hi ↦ ?_⟩
  obtain ⟨text, ht, hs⟩ := exists_render hc hw hwidth hi
  refine ⟨text, ht, readable_of_readsBackCommand, fun h ↦ ?_, fun h hd ↦ ?_⟩
  · rcases (commandText_of_spells (hs h)).accepted_or_tooDeep nestingLimit with ha | ht
    · exact .inl (readsBackCommand_of_accepted hc ha)
    · exact .inr ht
  · have hall : ∀ limit, 20 + 2 ≤ limit → ((command limit).readAll text).answer = .ok (some c) :=
      fun limit hlimit ↦ (commandText_of_spells (hs h)).accepted (by omega)
    exact ⟨readsBackCommand_of_accepted hc (hall nestingLimit (by decide)), hall⟩

/-- Without any width, a tab in front of every line: branches of all kinds in a chain. -/
theorem render_readsBack_chain : ReadsBackCommand
    "\tif a then\n\tif 1 then\n\tx = -(5)\n\telse \x7b\x7d\n\telse if b then \x7b\n\ty = z;\n\t\x7b\x7d\n\t\x7d else\n\twhile c do\n\ty = (y+1)*y".toList
    (.conditional (.var "a") (.conditional (.const 1) (.assign "x" (.neg (.const 5))) (.block []))
      (.conditional (.var "b") (.block [.assign "y" (.var "z"), .block []])
        (.loop (.var "c") (.assign "y" (.binary .times (.binary .plus (.var "y") (.const 1))
          (.var "y")))))) := by
  have hempty : IsCommand (.block []) := .block fun _ h ↦ absurd h List.not_mem_nil
  have hblock : IsCommand (.block [.assign "y" (.var "z"), .block []]) :=
    .block (List.forall_mem_cons.mpr ⟨.assign _ (.var _), List.forall_mem_singleton.mpr hempty⟩)
  have hloop : IsCommand (.loop (.var "c") (.assign "y" (.binary .times
      (.binary .plus (.var "y") (.const 1)) (.var "y")))) :=
    .loop (.var _) (.assign _ (.binary _ (.binary _ (.var _) (.const _)) (.var _)))
  have hc := IsCommand.conditional (.var "a")
    (.conditional (.const 1) (.assign "x" (.neg (.const 5))) hempty)
    (.conditional (.var "b") hblock hloop)
  have hindent : Blank ['\t'] := List.forall_mem_singleton.mpr (by decide)
  obtain ⟨-, h⟩ := render_readsBack _ hc (by decide) 0 (Int.le_refl 0)
  obtain ⟨text, ht, -, -, hback⟩ := h ['\t'] hindent
  obtain rfl := Except.ok.inj ht
  exact (hback (by decide) (by decide)).1

end Tree

end WhileSyntax
