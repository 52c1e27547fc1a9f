import WhileSyntax.Proofs.Printer.Misplaced
import WhileSyntax.Proofs.Printer.Outline

/-!
# Lines of printed commands

The lines of a command are put together from its names, what is printed for its expressions, and
keywords and punctuation, with nothing or a space between them. So what holds of all these and is
kept by such concatenations holds of every line: lines hold no line feed, and they begin and end
with something else than white space. Indentation stands in front of them and nowhere else
(`Tree.render_lines`).
-/

namespace WhileSyntax

open Grammar (Stops)

variable {P : List Char → Prop} {a b s : List Char} {unit indent text : List Char}

/-- A property of a leaf that is a name. -/
def Leaf.Named (P : List Char → Prop) : Leaf → Prop
  | name x => P x.toList
  | constant _ => True

instance [DecidablePred P] (l : Leaf) : Decidable (l.Named P) :=
  match l with
  | .name x => inferInstanceAs (Decidable (P x.toList))
  | .constant _ => inferInstanceAs (Decidable True)

private theorem Leaf.Named.imp {Q : List Char → Prop} {l : Leaf} (hl : l.Named P)
    (h : ∀ {x}, P x → Q x) : l.Named Q := by
  cases l with
  | name x => exact h hl
  | constant n => trivial

/-! ## Properties of lines -/

/-- Keywords and punctuation of printed commands. -/
def fixedParts : List (List Char) :=
  ["if".toList, "then".toList, "else".toList, "while".toList, "do".toList, ['='], [';'], ['\x7b'],
    ['\x7d'], ['\x7b', '\x7d']]

/-- A property of lines that hold of keywords and punctuation, and of two parts together if it holds
of each. -/
structure LineClass (P : List Char → Prop) : Prop where
  append : ∀ {a b}, P a → P b → P (a ++ b)
  spaced : ∀ {a b}, P a → P b → P (a ++ ' ' :: b)
  fixed : ∀ s ∈ fixedParts, P s

namespace Outline

/-- All lines have a property. -/
def Each (P : List Char → Prop) (o : Outline) : Prop := ∀ l ∈ o.lines, P l.2

namespace Each

variable {o o' : Outline} {os : List Outline} {sep : List Char}

/-- One line is all of them. -/
theorem line (h : P s) : (line s).Each P := List.forall_mem_singleton.mpr h

/-- Where two outlines are joined, a line of the one and a line of the other become one. -/
theorem join (happend : ∀ {a b}, P a → P b → P (a ++ sep ++ b)) (h : o.Each P) (h' : o'.Each P) :
    (join sep o o').Each P := by
  obtain ⟨first, below⟩ := o
  obtain ⟨hfirst', hbelow'⟩ := List.forall_mem_cons.mp h'
  induction below generalizing first with
  | nil =>
    have hfirst : P first := h (0, first) List.mem_cons_self
    exact List.forall_mem_cons.mpr ⟨happend hfirst hfirst', hbelow'⟩
  | cons l below ih =>
    obtain ⟨hfirst, hrest⟩ := List.forall_mem_cons.mp h
    obtain ⟨hl, hbelow⟩ := List.forall_mem_cons.mp hrest
    have hjoin := ih l.2 (List.forall_mem_cons.mpr ⟨hl, hbelow⟩)
    obtain ⟨hjoin, hlines⟩ := List.forall_mem_cons.mp hjoin
    exact List.forall_mem_cons.mpr ⟨hfirst, List.forall_mem_cons.mpr ⟨hjoin, hlines⟩⟩

/-- Stacked outlines have the lines of both. -/
theorem stack (depth : Nat) (h : o.Each P) (h' : o'.Each P) : (stack depth o o').Each P := by
  obtain ⟨hfirst, hbelow⟩ := List.forall_mem_cons.mp h
  refine List.forall_mem_cons.mpr ⟨hfirst, List.forall_mem_append.mpr ⟨hbelow, ?_⟩⟩
  exact List.forall_mem_map.mpr h'

/-- A branch is joined with a space, or has lines of its own. -/
theorem attach (hP : LineClass P) (hugs : Bool) (depth : Nat) (h : o.Each P) (h' : o'.Each P) :
    (attach hugs depth o o').Each P := by
  cases hugs
  · exact h.stack depth h'
  · refine h.join (fun ha hb ↦ ?_) h'
    rw [List.append_assoc]
    exact hP.spaced ha hb

/-- Semicolons belong to the lines of the members. -/
theorem members (hP : LineClass P) (h : o.Each P) (hs : ∀ o ∈ os, o.Each P) :
    (members o os).Each P := by
  induction os generalizing o with
  | nil => exact h
  | cons o' os ih =>
    obtain ⟨ho', hos⟩ := List.forall_mem_cons.mp hs
    refine stack 0 (h.join (fun ha hb ↦ ?_) (line (hP.fixed _ (by decide)))) (ih ho' hos)
    rw [List.append_nil]
    exact hP.append ha hb

end Each
end Outline

namespace Tree

private theorem outlines_eq_map (cs : List Tree) : outlines cs = cs.map outline := by
  induction cs with
  | nil => rfl
  | cons c cs ih => rw [outlines, ih, List.map_cons]

/-- What holds of the names of a command and of the texts of its expressions holds of its lines. -/
theorem each_outline (hP : LineClass P) {N : List Char → Prop} (hname : ∀ {x}, N x → P x)
    (hexpression : ∀ {e : Tree} {text}, e.printExpression = .ok text →
      (∀ l ∈ e.leaves, l.Named N) → P text)
    {c : Tree} (hc : c.IsCommand) (hw : c.Writable) (hn : ∀ l ∈ c.leaves, l.Named N) :
    c.outline.Each P := by
  have htext : ∀ {e : Tree}, e.IsExpression → e.Writable → (∀ l ∈ e.leaves, l.Named N) →
      P e.expressionText := by
    intro e he hw hn
    obtain ⟨text, ht, -⟩ := exists_printExpression he hw
    rw [expressionText_eq ht]
    exact hexpression ht hn
  induction hc with
  | assign x he =>
    obtain ⟨-, hw⟩ := forall_leaves_assign.mp hw
    obtain ⟨hx, hn⟩ := forall_leaves_assign.mp hn
    have hequals := hP.spaced (hP.fixed ['='] (by decide)) (htext he hw hn)
    exact .line (hP.spaced (hname hx) hequals)
  | @block cs hcs ih =>
    rw [outline, outlines_eq_map]
    have heach : ∀ o ∈ cs.map outline, o.Each P := List.forall_mem_map.mpr fun c hc ↦
      ih c hc (forall_leaves_block.mp hw c hc) (forall_leaves_block.mp hn c hc)
    cases hos : cs.map outline with
    | nil => exact .line (hP.fixed _ (by decide))
    | cons o os =>
      rw [hos] at heach
      obtain ⟨ho, hos⟩ := List.forall_mem_cons.mp heach
      exact .stack 0 (.stack 1 (.line (hP.fixed _ (by decide))) (.members hP ho hos))
        (.line (hP.fixed _ (by decide)))
  | conditional he _ _ ihy ihn =>
    obtain ⟨hwe, hwy, hwn⟩ := forall_leaves_conditional.mp hw
    obtain ⟨hne, hny, hnn⟩ := forall_leaves_conditional.mp hn
    have hcondition := hP.spaced (htext he hwe hne) (hP.fixed "then".toList (by decide))
    have hopening := hP.spaced (hP.fixed "if".toList (by decide)) hcondition
    exact .attach hP _ 1 (.attach hP _ 0 (.attach hP _ 1 (.line hopening) (ihy hwy hny))
      (.line (hP.fixed _ (by decide)))) (ihn hwn hnn)
  | loop he _ ihb =>
    obtain ⟨hwe, hwb⟩ := forall_leaves_loop.mp hw
    obtain ⟨hne, hnb⟩ := forall_leaves_loop.mp hn
    have hcondition := hP.spaced (htext he hwe hne) (hP.fixed "do".toList (by decide))
    have hopening := hP.spaced (hP.fixed "while".toList (by decide)) hcondition
    exact .attach hP _ 1 (.line hopening) (ihb hwb hnb)

/-! ## Characters of printed expressions -/

/-- Characters of printed expressions that belong neither to names nor to numerals. -/
def marks : List Char := ['-', '(', ')', '+', '*', '/', '=', '<', '&', '|']

private theorem mem_marks_of_mem_symbol (op : Binop) : ∀ ch ∈ op.symbol.toList, ch ∈ marks := by
  have hall : op.symbol.toList.all (marks.contains ·) = true := by cases op <;> decide
  exact fun ch hch ↦ List.contains_iff_mem.mp (List.all_eq_true.mp hall ch hch)

private theorem ne_newline_of_mem_marks : ∀ ch ∈ marks, ch ≠ '\n' := by
  have hall : marks.all (· != '\n') = true := by decide
  exact fun ch hch ↦ bne_iff_ne.mp (List.all_eq_true.mp hall ch hch)

private theorem isBlank_eq_false_of_mem_marks : ∀ ch ∈ marks, Text.isBlank ch = false := by
  have hall : marks.all (!Text.isBlank ·) = true := by decide
  exact fun ch hch ↦ by simpa using List.all_eq_true.mp hall ch hch

private theorem forall_mem_parenthesizeIf {R : Char → Prop} (hmark : ∀ ch ∈ marks, R ch)
    {needed : Bool} (h : ∀ ch ∈ text, R ch) : ∀ ch ∈ parenthesizeIf needed text, R ch := by
  cases needed
  · exact h
  · refine List.forall_mem_cons.mpr ⟨hmark _ (by decide), List.forall_mem_append.mpr ⟨h, ?_⟩⟩
    exact List.forall_mem_singleton.mpr (hmark _ (by decide))

private theorem forall_mem_printInside {R : Char → Prop} (hmark : ∀ ch ∈ marks, R ch)
    (hdigit : ∀ ch, ch.isDigit = true → R ch) : ∀ {e : Tree} {context : Int} {text : List Char},
    e.printInside context = .ok text → (∀ l ∈ e.leaves, l.Named fun x ↦ ∀ ch ∈ x, R ch) →
      ∀ ch ∈ text, R ch
  | var x, context, text, h, hn => by
    rw [printInside_var] at h
    rw [← Except.ok.inj h]
    exact forall_leaves_var.mp hn
  | const n, context, text, h, _ => by
    obtain ⟨-, rfl⟩ := printInside_const_iff.mp h
    refine List.forall_mem_append.mpr ⟨fun ch hch ↦ ?_, fun ch hch ↦ hdigit ch ?_⟩
    · split at hch
      · exact hmark ch (List.mem_singleton.mp hch ▸ by decide)
      · cases hch
    · exact Nat.isDigit_of_mem_toDigits (by decide) (by decide) hch
  | neg operand, context, text, h, hn => by
    obtain ⟨t, ht, rfl⟩ := printInside_neg_iff.mp h
    have hoperand := forall_mem_printInside hmark hdigit ht (forall_leaves_neg.mp hn)
    exact List.forall_mem_cons.mpr ⟨hmark _ (by decide), forall_mem_parenthesizeIf hmark hoperand⟩
  | binary op left right, context, text, h, hn => by
    obtain ⟨t, u, ht, hu, rfl⟩ := printInside_binary_iff.mp h
    obtain ⟨hnl, hnr⟩ := forall_leaves_binary.mp hn
    have hleft := forall_mem_printInside hmark hdigit ht hnl
    have hright := forall_mem_printInside hmark hdigit hu hnr
    have hoperator : ∀ ch ∈ op.symbol.toList, R ch :=
      fun ch hch ↦ hmark ch (mem_marks_of_mem_symbol op ch hch)
    exact forall_mem_parenthesizeIf hmark
      (List.forall_mem_append.mpr ⟨hleft, List.forall_mem_append.mpr ⟨hoperator, hright⟩⟩)

private theorem ne_nil_of_printInside {e : Tree} {context : Int}
    (h : e.printInside context = .ok text) (hn : ∀ l ∈ e.leaves, l.Named (· ≠ [])) : text ≠ [] := by
  cases e with
  | var x =>
    rw [printInside_var] at h
    rw [← Except.ok.inj h]
    exact forall_leaves_var.mp hn
  | const n =>
    obtain ⟨-, rfl⟩ := printInside_const_iff.mp h
    exact List.append_ne_nil_of_right_ne_nil _ Nat.toDigits_ne_nil
  | neg operand =>
    obtain ⟨t, -, rfl⟩ := printInside_neg_iff.mp h
    exact List.cons_ne_nil _ _
  | binary op left right =>
    obtain ⟨t, u, -, -, rfl⟩ := printInside_binary_iff.mp h
    have hoperator : op.symbol.toList ≠ [] := by cases op <;> decide
    cases decide (op.level ≤ context)
    · exact List.append_ne_nil_of_right_ne_nil _ (List.append_ne_nil_of_left_ne_nil hoperator _)
    · exact List.cons_ne_nil _ _
  | _ => cases h

end Tree

/-! ## Lines without line feeds -/

private theorem lineClass_newline : LineClass ('\n' ∉ ·) where
  append ha hb h := (List.mem_append.mp h).elim ha hb
  spaced ha hb h := by
    rcases List.mem_append.mp h with h | h
    · exact ha h
    · rcases List.mem_cons.mp h with h | h
      · cases h
      · exact hb h
  fixed := by decide

private theorem newline_not_mem_of_printExpression {e : Tree} (h : e.printExpression = .ok text)
    (hn : ∀ l ∈ e.leaves, l.Named ('\n' ∉ ·)) : '\n' ∉ text := by
  have hall : ∀ ch ∈ text, ch ≠ '\n' := by
    refine Tree.forall_mem_printInside Tree.ne_newline_of_mem_marks ?_ h fun l hl ↦ (hn l hl).imp ?_
    · rintro _ hdigit rfl
      cases hdigit
    · rintro x hx _ hch rfl
      exact hx hch
  exact fun hmem ↦ hall _ hmem rfl

/-! ## Tidy lines -/

/-- A line with something on it, at both ends. -/
structure Tidy (s : List Char) : Prop where
  nonempty : s ≠ []
  starts : ∀ ch ∈ s.head?, Text.isBlank ch = false
  ends : ∀ ch ∈ s.getLast?, Text.isBlank ch = false

namespace Tidy

/-- Nothing but solid characters is tidy. -/
theorem of_forall (hne : s ≠ []) (h : ∀ ch ∈ s, Text.isBlank ch = false) : Tidy s where
  nonempty := hne
  starts ch hch := h ch (List.mem_of_mem_head? hch)
  ends ch hch := h ch (List.mem_of_mem_getLast? hch)

/-- Between tidy ends anything may stand. -/
theorem around (ha : Tidy a) (hb : Tidy b) (m : List Char) : Tidy (a ++ (m ++ b)) where
  nonempty := List.append_ne_nil_of_left_ne_nil ha.nonempty _
  starts ch hch := ha.starts ch (by rwa [List.head?_append_of_ne_nil _ ha.nonempty] at hch)
  ends ch hch := by
    rw [← List.append_assoc, List.getLast?_append_of_ne_nil _ hb.nonempty] at hch
    exact hb.ends ch hch

/-- Words are tidy. -/
theorem of_isWord (h : Text.isWord s = true) : Tidy s := by
  refine of_forall ?_ fun ch hch ↦
    Grammar.isBlank_eq_false_of_isWordPart (Text.isWordPart_of_mem_of_isWord h hch)
  rintro rfl
  cases h

/-- What is printed for an expression is tidy when its names are words. -/
theorem of_printExpression {e : Tree} (h : e.printExpression = .ok text)
    (hn : ∀ l ∈ e.leaves, l.Named (Text.isWord · = true)) : Tidy text := by
  refine of_forall (Tree.ne_nil_of_printInside h fun l hl ↦ (hn l hl).imp ?_)
    (Tree.forall_mem_printInside Tree.isBlank_eq_false_of_mem_marks ?_ h fun l hl ↦
      (hn l hl).imp ?_)
  · rintro x hx rfl
    cases hx
  · intro ch hch
    exact Grammar.isBlank_eq_false_of_isWordPart (Text.isWordPart_of_isDigit hch)
  · intro x hx ch hch
    exact Grammar.isBlank_eq_false_of_isWordPart (Text.isWordPart_of_mem_of_isWord hx hch)

/-- Tidy parts make tidy lines. -/
theorem lineClass : LineClass Tidy where
  append ha hb := ha.around hb []
  spaced ha hb := ha.around hb [' ']
  fixed := by
    intro s hs
    have hsolid : ∀ s ∈ fixedParts, s ≠ [] ∧ s.all (!Text.isBlank ·) = true := by decide
    obtain ⟨hne, hall⟩ := hsolid s hs
    exact of_forall hne fun ch hch ↦ by simpa using List.all_eq_true.mp hall ch hch

end Tidy

/-! ## Texts and their lines -/

private theorem lineCount_intercalate {lines : List (List Char)} (hne : lines ≠ [])
    (h : ∀ l ∈ lines, '\n' ∉ l) : Tree.lineCount (['\n'].intercalate lines) = lines.length := by
  induction lines with
  | nil => exact absurd rfl hne
  | cons l ls ih =>
    obtain ⟨hl, hls⟩ := List.forall_mem_cons.mp h
    have hcount : l.count '\n' = 0 := List.count_eq_zero.mpr hl
    cases ls with
    | nil => rw [List.intercalate_singleton, Tree.lineCount, hcount]; rfl
    | cons l' ls =>
      have := ih (List.cons_ne_nil _ _) hls
      simp only [Tree.lineCount] at this
      simp only [Tree.lineCount, List.intercalate_cons_cons, List.count_append, hcount,
        List.count_singleton_self, List.length_cons] at this ⊢
      omega

namespace Outline

variable (o : Outline)

private theorem text_eq_intercalate (unit indent : List Char) :
    indent ++ o.text unit indent =
      ['\n'].intercalate (o.lines.map fun l ↦ indent ++ levelIndent unit l.1 ++ l.2) := by
  obtain ⟨first, below⟩ := o
  have hlines : ∀ s, ['\n'].intercalate
      (s :: below.map fun l ↦ indent ++ levelIndent unit l.1 ++ l.2) =
        s ++ below.flatMap fun l ↦ '\n' :: (indent ++ levelIndent unit l.1 ++ l.2) := by
    induction below with
    | nil => intro s; rw [List.map_nil, List.intercalate_singleton, List.flatMap_nil,
        List.append_nil]
    | cons l below ih =>
      intro s
      rw [List.map_cons, List.intercalate_cons_cons, ih, List.flatMap_cons]
      simp only [List.append_assoc, List.cons_append, List.nil_append]
  rw [lines, List.map_cons, hlines, text, levelIndent, List.replicate_zero, List.flatten_nil,
    List.append_nil, List.append_assoc]

private theorem tidy_text (h : o.Each Tidy) (unit indent : List Char) :
    Tidy (o.text unit indent) := by
  obtain ⟨first, below⟩ := o
  induction below generalizing first with
  | nil =>
    have hfirst : Tidy first := h (0, first) List.mem_cons_self
    rwa [text, List.flatMap_nil, List.append_nil]
  | cons l below ih =>
    obtain ⟨hfirst, hrest⟩ := List.forall_mem_cons.mp h
    obtain ⟨hl, hbelow⟩ := List.forall_mem_cons.mp hrest
    have hlast := ih l.2 (List.forall_mem_cons.mpr ⟨hl, hbelow⟩)
    have := Tidy.around hfirst hlast ('\n' :: (indent ++ levelIndent unit l.1))
    simpa only [text, List.flatMap_cons, List.append_assoc, List.cons_append] using this

end Outline

namespace Tree

private theorem nonneg_of_render {c : Tree} {width : Int} (h : c.render width indent = .ok text) :
    0 ≤ width := by
  by_contra hneg
  rw [render, if_pos (by omega)] at h
  cases h

private theorem eq_text_of_render {c : Tree} {width : Int} (h : c.render width indent = .ok text) :
    text = indent ++ c.outline.text (List.replicate width.toNat ' ') indent := by
  have hwidth := nonneg_of_render h
  rw [render, if_neg (by omega)] at h
  obtain ⟨t, ht, h⟩ := bind_eq_ok_iff.mp h
  rw [← Except.ok.inj h, layout_eq_text _ c ht]

/-- At every width and from every indentation a command is rendered line by line. -/
theorem render_eq_lines {c : Tree} (hc : c.IsCommand) (hw : c.Writable) {width : Int}
    (hwidth : 0 ≤ width) (indent : List Char) :
    c.render width indent = .ok (['\n'].intercalate (c.outline.lines.map fun l ↦
      indent ++ List.replicate (width.toNat * l.1) ' ' ++ l.2)) := by
  obtain ⟨text, htext⟩ : ∃ text, c.render width indent = .ok text :=
    (exists_render_iff hwidth).mpr ⟨hc, hw⟩
  rw [htext, eq_text_of_render htext, Outline.text_eq_intercalate]
  simp only [levelIndent, List.flatten_replicate_replicate, Nat.mul_comm]

private theorem exists_render_prefixed {c : Tree} {lines : List (Nat × List Char)}
    (hne : lines ≠ []) (hlines : ∀ l ∈ lines, '\n' ∉ l.2) {width : Int}
    (h : ∀ indent, c.render width indent = .ok (['\n'].intercalate (lines.map fun l ↦
      indent ++ List.replicate (width.toNat * l.1) ' ' ++ l.2))) :
    ∃ text, c.render width [] = .ok text ∧
      c.printCommand width = .note (.rendered c.kind lines.length) (.ok text) ∧
      ∀ indent, c.render width indent =
        .ok (['\n'].intercalate ((text.splitOn '\n').map (indent ++ ·))) := by
  have hfeeds : ∀ s ∈ lines.map fun l ↦
      [] ++ List.replicate (width.toNat * l.1) ' ' ++ l.2, '\n' ∉ s := by
    refine List.forall_mem_map.mpr fun l hl hfeed ↦ ?_
    rcases List.mem_append.mp hfeed with hfeed | hfeed
    · exact absurd (List.eq_of_mem_replicate hfeed) (by decide)
    · exact hlines l hl hfeed
  have hmap : (lines.map fun l ↦ [] ++ List.replicate (width.toNat * l.1) ' ' ++ l.2) ≠ [] :=
    mt List.map_eq_nil_iff.mp hne
  refine ⟨_, h [], ?_, fun indent ↦ ?_⟩
  · rw [printCommand, h []]
    dsimp only
    rw [lineCount_intercalate hmap hfeeds, List.length_map]
  · rw [h indent, List.splitOn_intercalate _ hfeeds hmap, List.map_map]
    simp only [Function.comp_def, List.nil_append, List.append_assoc]

/-- Indentation is purely additive. A command that is rendered at all has one list of lines with
their depths, such that at every width and from every indentation these lines are rendered, each
behind the indentation and as many units of it as the line is deep. When all names are words, no
line is empty, and none begins or ends with white space. So rendering from an indentation is
rendering without one and putting it in front of every line, and printing notes the same number of
lines at every width. -/
theorem render_lines (c : Tree) {width₀ : Int} {indent₀ text₀ : List Char}
    (hrender : c.render width₀ indent₀ = .ok text₀)
    (hnames : ∀ l ∈ c.leaves, l.Named ('\n' ∉ ·)) :
    ∃ lines : List (Nat × List Char), (∀ l ∈ lines, '\n' ∉ l.2) ∧
      (∀ width : Int, 0 ≤ width → ∀ indent, c.render width indent =
        .ok (['\n'].intercalate (lines.map fun l ↦
          indent ++ List.replicate (width.toNat * l.1) ' ' ++ l.2))) ∧
      ((∀ l ∈ c.leaves, l.Named (Text.isWord · = true)) → (∀ l ∈ lines, Tidy l.2) ∧
        ∀ width indent text, c.render width indent = .ok text →
          ∀ ch ∈ text.getLast?, Text.isBlank ch = false) ∧
      ∀ width : Int, 0 ≤ width → ∃ text, c.render width [] = .ok text ∧
        c.printCommand width = .note (.rendered c.kind lines.length) (.ok text) ∧
        ∀ indent, c.render width indent =
          .ok (['\n'].intercalate ((text.splitOn '\n').map (indent ++ ·))) := by
  obtain ⟨hc, hw⟩ := (exists_render_iff (nonneg_of_render hrender)).mp ⟨text₀, hrender⟩
  have hfeeds := each_outline lineClass_newline id newline_not_mem_of_printExpression hc hw hnames
  refine ⟨c.outline.lines, hfeeds, fun width ↦ render_eq_lines hc hw, fun hwords ↦ ?_,
    fun width hwidth ↦ exists_render_prefixed (List.cons_ne_nil _ _) hfeeds
      (render_eq_lines hc hw hwidth)⟩
  have htidy := each_outline Tidy.lineClass .of_isWord .of_printExpression hc hw hwords
  refine ⟨htidy, fun width indent text htext ch hch ↦ ?_⟩
  have hlast := c.outline.tidy_text htidy (List.replicate width.toNat ' ') indent
  rw [eq_text_of_render htext, List.getLast?_append_of_ne_nil _ hlast.nonempty] at hch
  exact hlast.ends ch hch

/-- Blocks, a chain of conditionals and a body of its own: a tab goes in front of every line. -/
theorem render_lines_chain :
    let c := conditional (.var "a") (.block [.assign "x" (.const 1), .block []])
      (.conditional (.var "b") (.assign "y" (.const 2)) (.loop (.var "c") (.block [.block []])))
    let text := "if a then \x7b\n x = 1;\n \x7b\x7d\n\x7d else if b then\n y = 2\nelse\n".toList ++
      " while c do \x7b\n  \x7b\x7d\n \x7d".toList
    c.render 1 [] = .ok text ∧
      c.render 1 ['\t'] = .ok (['\n'].intercalate ((text.splitOn '\n').map (['\t'] ++ ·))) ∧
      c.printCommand 1 = .note (.rendered "If" 9) (.ok text) ∧
      ∀ width indent text, c.render width indent = .ok text →
        ∀ ch ∈ text.getLast?, Text.isBlank ch = false := by
  intro c text
  have hrender : c.render 1 [] = .ok text := rfl
  obtain ⟨lines, -, -, htidy, hwidth⟩ := render_lines c hrender (by decide)
  obtain ⟨text', htext, -, hindent⟩ := hwidth 1 (by decide)
  obtain rfl := Except.ok.inj (hrender.symm.trans htext)
  exact ⟨hrender, hindent ['\t'], rfl, (htidy (by decide)).2⟩

end Tree
end WhileSyntax
