import WhileSyntax.Proofs.Printer.Command
import WhileSyntax.Proofs.Printer.Context

/-!
# Outlines

The lines of a printed command without their indentation: each has a content and a depth. The
outline of a command is found without knowing the indentation or the width of a level. What is laid
out is the outline with both of them put in front of its lines (`Tree.layout_eq_text`).

An outline begins in the middle of a line, behind whatever stands in front of the command there. So
two outlines can be put together in two ways: the second begins on the last line of the first, or
on a line of its own, some levels deeper.
-/

namespace WhileSyntax

/-- Lines of a text: the end of the line that it begins on, and those below with their depths. -/
structure Outline where
  first : List Char
  below : List (Nat × List Char)

/-- White space of a number of levels. -/
def levelIndent (unit : List Char) (depth : Nat) : List Char := (List.replicate depth unit).flatten

namespace Outline

/-- An outline of one line. -/
def line (content : List Char) : Outline := ⟨content, []⟩

/-- All lines with their depths. -/
def lines (o : Outline) : List (Nat × List Char) := (0, o.first) :: o.below

/-- Put an outline behind the last of some lines, with a separator. -/
def continueWith (sep : List Char) (o : Outline) :
    (first : List Char) → (below : List (Nat × List Char)) → Outline
  | first, [] => ⟨first ++ sep ++ o.first, o.below⟩
  | first, (depth, content) :: below =>
    let rest := continueWith sep o content below
    ⟨first, (depth, rest.first) :: rest.below⟩

/-- Two outlines, the second of which begins on the last line of the first. -/
def join (sep : List Char) (a b : Outline) : Outline := continueWith sep b a.first a.below

/-- Two outlines, the second of which begins on a line of its own, some levels deeper. -/
def stack (depth : Nat) (a b : Outline) : Outline :=
  ⟨a.first, a.below ++ b.lines.map fun l ↦ (depth + l.1, l.2)⟩

/-- A branch behind a keyword: it hugs the keyword or begins on a line of its own. -/
def attach (hugs : Bool) (depth : Nat) (a b : Outline) : Outline :=
  if hugs then join [' '] a b else stack depth a b

/-- Members of a block, each on lines of its own with a semicolon behind all but the last. -/
def members : Outline → List Outline → Outline
  | o, [] => o
  | o, o' :: os => stack 0 (join [] o (line [';'])) (members o' os)

/-- Text of an outline that begins behind an indentation. -/
def text (unit indent : List Char) (o : Outline) : List Char :=
  o.first ++ o.below.flatMap fun l ↦ '\n' :: (indent ++ levelIndent unit l.1 ++ l.2)

/-! ## Texts of outlines -/

section Text

variable (unit indent : List Char)

@[simp] private theorem text_line (content : List Char) :
    (line content).text unit indent = content :=
  List.append_nil content

@[simp] private theorem text_join (sep : List Char) (a b : Outline) :
    (join sep a b).text unit indent = a.text unit indent ++ sep ++ b.text unit indent := by
  obtain ⟨first, below⟩ := a
  simp only [join, text]
  induction below generalizing first with
  | nil => simp [continueWith]
  | cons l below ih =>
    obtain ⟨depth, content⟩ := l
    simp only [List.append_assoc] at ih
    simp only [continueWith, List.flatMap_cons, List.append_assoc, List.cons_append, ih content]

@[simp] private theorem text_stack (depth : Nat) (a b : Outline) :
    (stack depth a b).text unit indent = a.text unit indent ++
      '\n' :: (indent ++ levelIndent unit depth ++
        b.text unit (indent ++ levelIndent unit depth)) := by
  have hdeeper : ∀ d, levelIndent unit (depth + d) = levelIndent unit depth ++ levelIndent unit d :=
    fun d ↦ by rw [levelIndent, List.replicate_add, List.flatten_append]; rfl
  simp only [stack, text, lines, List.map_cons, List.flatMap_append, List.flatMap_cons,
    List.flatMap_map, Nat.add_zero, hdeeper, List.append_assoc, List.cons_append]

private theorem text_attach (hugs : Bool) (a b : Outline) :
    (attach hugs 1 a b).text unit indent = a.text unit indent ++
      (branchGap hugs unit indent ++ b.text unit (branchIndent hugs unit indent)) := by
  cases hugs <;> simp [attach, branchGap, branchIndent, levelIndent]

private theorem text_attach_line (hugs : Bool) (a : Outline) (content : List Char) :
    (attach hugs 0 a (line content)).text unit indent = a.text unit indent ++
      (elseGap hugs indent ++ content) := by
  cases hugs <;> simp [attach, elseGap, levelIndent]

private theorem text_members (o : Outline) (os : List Outline) :
    indent ++ (members o os).text unit indent =
      [';', '\n'].intercalate ((o :: os).map fun o ↦ indent ++ o.text unit indent) := by
  induction os generalizing o with
  | nil => simp [members, List.intercalate_singleton]
  | cons o' os ih =>
    have hrest := ih o'
    rw [List.map_cons] at hrest
    rw [List.map_cons, List.map_cons, List.intercalate_cons_cons, ← hrest, members]
    simp [levelIndent]

end Text

end Outline

namespace Tree

/-- What is printed for an expression, if anything is. -/
def expressionText (e : Tree) : List Char :=
  match e.printExpression with
  | .ok text => text
  | .error _ => []

mutual

/-- Lines of a command. -/
def outline : Tree → Outline
  | assign name value => .line (name.toList ++ ' ' :: '=' :: ' ' :: value.expressionText)
  | block commands =>
    match outlines commands with
    | [] => .line ['\x7b', '\x7d']
    | o :: os => .stack 0 (.stack 1 (.line ['\x7b']) (.members o os)) (.line ['\x7d'])
  | conditional condition yes no =>
    let opening := .line ("if ".toList ++ condition.expressionText ++ " then".toList)
    let first := .attach yes.isBlock 0 (.attach yes.isBlock 1 opening (outline yes))
      (.line "else".toList)
    .attach (no.isBlock || no.isConditional) 1 first (outline no)
  | loop condition body =>
    .attach body.isBlock 1
      (.line ("while ".toList ++ condition.expressionText ++ " do".toList)) (outline body)
  | _ => .line []

/-- Lines of commands one by one. -/
def outlines : List Tree → List Outline
  | [] => []
  | c :: cs => outline c :: outlines cs

end

/-- What is printed for an expression is its text. -/
theorem expressionText_eq {e : Tree} {text : List Char} (h : e.printExpression = .ok text) :
    e.expressionText = text := by
  rw [expressionText, h]

mutual

/-- What is laid out is the outline, indented. -/
theorem layout_eq_text (unit : List Char) : ∀ (c : Tree) {indent text : List Char},
    c.layout unit indent = .ok text → text = c.outline.text unit indent
  | assign name value, indent, text, h => by
    rw [layout] at h
    obtain ⟨t, ht, h⟩ := bind_eq_ok_iff.mp h
    rw [← Except.ok.inj h, outline, Outline.text_line, expressionText_eq ht]
  | block commands, indent, text, h => by
    rw [layout] at h
    obtain ⟨lines, hl, h⟩ := bind_eq_ok_iff.mp h
    have hlines := layoutAll_eq_texts unit commands hl
    rw [outline]
    cases ho : outlines commands with
    | nil =>
      rw [ho] at hlines
      subst hlines
      exact (Except.ok.inj h).symm
    | cons o os =>
      rw [ho] at hlines
      subst hlines
      rw [← Except.ok.inj h, ← Outline.text_members]
      simp [levelIndent]
  | conditional condition yes no, indent, text, h => by
    rw [layout_conditional_eq] at h
    obtain ⟨t, ht, h⟩ := bind_eq_ok_iff.mp h
    obtain ⟨a, ha, h⟩ := bind_eq_ok_iff.mp h
    obtain ⟨b, hb, h⟩ := bind_eq_ok_iff.mp h
    rw [← Except.ok.inj h, outline, Outline.text_attach, Outline.text_attach_line,
      Outline.text_attach, Outline.text_line, expressionText_eq ht, layout_eq_text unit yes ha,
      layout_eq_text unit no hb]
    simp only [List.append_assoc]
  | loop condition body, indent, text, h => by
    rw [layout_loop_eq] at h
    obtain ⟨t, ht, h⟩ := bind_eq_ok_iff.mp h
    obtain ⟨a, ha, h⟩ := bind_eq_ok_iff.mp h
    rw [← Except.ok.inj h, outline, Outline.text_attach, Outline.text_line, expressionText_eq ht,
      layout_eq_text unit body ha]
  | var _, _, _, h => by cases h
  | const _, _, _, h => by cases h
  | neg _, _, _, h => by cases h
  | binary _ _ _, _, _, h => by cases h
  | bareExpression, _, _, h => by cases h
  | bareCommand, _, _, h => by cases h
  | plain _, _, _, h => by cases h

/-- Commands that are laid out one by one are their outlines, indented. -/
theorem layoutAll_eq_texts (unit : List Char) : ∀ (cs : List Tree) {indent : List Char}
    {lines : List (List Char)}, layoutAll unit cs indent = .ok lines →
      lines = (outlines cs).map fun o ↦ indent ++ o.text unit indent
  | [], _, _, h => by cases h; rfl
  | c :: cs, indent, lines, h => by
    rw [layoutAll] at h
    obtain ⟨text, ht, h⟩ := bind_eq_ok_iff.mp h
    obtain ⟨texts, hts, h⟩ := bind_eq_ok_iff.mp h
    rw [← Except.ok.inj h, outlines, List.map_cons, layout_eq_text unit c ht,
      layoutAll_eq_texts unit cs hts]

end

end Tree
end WhileSyntax
