import WhileSyntax.Proofs.Printer.Command
import WhileSyntax.Proofs.Printer.Context

/-!
# The first node that cannot be printed

Every node of a tree is printed as a command or as an expression. Which of them it is depends on
where the node stands and not on what it is: conditions, values and operands stand for expressions,
branches, bodies and members of blocks for commands. A node has an error of its own when it is
nothing of the sort, or a constant with too many digits.

Nodes are met in a fixed order, at every width and from every indentation. Printing fails exactly
when one of them has an error, and then with the error of the first (`errorOf?_layout`).
-/

namespace WhileSyntax

/-- What a node of a tree stands for. -/
inductive Role where
  | expression
  | command
  deriving DecidableEq, Repr

namespace Role

/-- How messages end that name a role. -/
def phrase : Role → String
  | expression => " as an expression"
  | command => " as a command"

/-- Error of a node of some kind that cannot take a role. -/
def refusal : Role → (kind : String) → PrintError
  | expression => .notExpression
  | command => .notCommand

private theorem message_refusal (role : Role) (kind : String) :
    (role.refusal kind).message = "Cannot pretty-print " ++ kind ++ role.phrase := by
  cases role <;> rfl

end Role

/-- A node of a tree in its role. -/
structure Occurrence where
  role : Role
  node : Tree

namespace Tree

/-- The role that the form of a tree's root can take. -/
def role? : Tree → Option Role
  | var _ | const _ | neg _ | binary _ _ _ => some .expression
  | assign _ _ | block _ | conditional _ _ _ | loop _ _ => some .command
  | bareExpression | bareCommand | plain _ => none

/-- Nodes of a tree that stands for an expression, in the order in which they are met: of an
operator the right operand is met before the left one. -/
def inExpression : Tree → List Occurrence
  | neg operand => ⟨.expression, neg operand⟩ :: inExpression operand
  | binary op left right =>
    ⟨.expression, binary op left right⟩ :: (inExpression right ++ inExpression left)
  | t => [⟨.expression, t⟩]

mutual

/-- Nodes of a tree that stands for a command, in the order in which they are met. -/
def inCommand : Tree → List Occurrence
  | assign name value => ⟨.command, assign name value⟩ :: value.inExpression
  | block commands => ⟨.command, block commands⟩ :: inCommands commands
  | conditional condition yes no =>
    ⟨.command, conditional condition yes no⟩ ::
      (condition.inExpression ++ (inCommand yes ++ inCommand no))
  | loop condition body =>
    ⟨.command, loop condition body⟩ :: (condition.inExpression ++ inCommand body)
  | t => [⟨.command, t⟩]

/-- Nodes of trees that stand for commands, one tree after the other. -/
def inCommands : List Tree → List Occurrence
  | [] => []
  | c :: cs => inCommand c ++ inCommands cs

end

end Tree

/-- The error that a node has by itself: its form cannot take its role, or it is a constant with
more digits than a numeral may have. -/
def Occurrence.error? (o : Occurrence) : Option PrintError :=
  if o.node.role? = some o.role then
    match o.node with
    | .const n =>
      if (Nat.toDigits 10 n.natAbs).length ≤ Text.Decimal.digitLimit then none
      else some (.numeral .tooLongToWrite)
    | _ => none
  else some (o.role.refusal o.node.kind)

private theorem Occurrence.error?_const (n : Int) : error? ⟨.expression, .const n⟩ =
    if (Nat.toDigits 10 n.natAbs).length ≤ Text.Decimal.digitLimit then none
    else some (.numeral .tooLongToWrite) :=
  if_pos rfl

/-- A node has an error when its form cannot take its role, and a constant when it is too long. -/
theorem Occurrence.error?_eq_some_iff {o : Occurrence} {error : PrintError} :
    o.error? = some error ↔
      (o.node.role? ≠ some o.role ∧ error = o.role.refusal o.node.kind) ∨
      ∃ n, o = ⟨.expression, .const n⟩ ∧ error = .numeral .tooLongToWrite ∧
        Text.Decimal.digitLimit < (Nat.toDigits 10 n.natAbs).length := by
  obtain ⟨role, node⟩ := o
  by_cases hr : node.role? = some role
  · cases node with
    | const n =>
      obtain rfl : role = .expression := (Option.some.inj hr).symm
      rw [error?_const]
      split
      · next hl => simp [Nat.not_lt.mpr hl, Tree.role?]
      · next hl => simp [Nat.lt_of_not_le hl, Tree.role?, eq_comm]
    | _ => simp [error?, hr]
  · simp only [error?, if_neg hr, Option.some.injEq]
    constructor
    · rintro rfl
      exact .inl ⟨hr, rfl⟩
    · rintro (⟨-, rfl⟩ | ⟨n, he, -⟩)
      · rfl
      · cases he
        exact absurd rfl hr

/-- The first of some nodes to have an error has this one. -/
def FirstError (os : List Occurrence) (error : PrintError) : Prop :=
  ∃ before o after, os = before ++ o :: after ∧ o.error? = some error ∧
    ∀ o' ∈ before, o'.error? = none

private theorem findSome?_error?_eq_some_iff {os : List Occurrence} {error : PrintError} :
    os.findSome? Occurrence.error? = some error ↔ FirstError os error :=
  List.findSome?_eq_some_iff

/-! ## Errors of a computation -/

section Error

variable {ε α β : Type}

/-- The error that a computation ends with, if it does. -/
def errorOf? : Except ε α → Option ε
  | .ok _ => none
  | .error error => some error

private theorem errorOf?_eq_some_iff {x : Except ε α} {error : ε} :
    errorOf? x = some error ↔ x = .error error := by
  cases x <;> simp [errorOf?]

private theorem errorOf?_eq_none_iff {x : Except ε α} : errorOf? x = none ↔ ∃ v, x = .ok v := by
  cases x <;> simp [errorOf?]

private theorem errorOf?_bind {x : Except ε α} {next : α → Except ε β} {error : Option ε}
    (h : ∀ v, errorOf? (next v) = error) :
    errorOf? (x >>= next) = (errorOf? x).or error := by
  cases x with
  | ok v => simpa [bind, Except.bind, errorOf?] using h v
  | error e => rfl

end Error

namespace Tree

/-! ## Expressions -/

/-- In every context an expression is printed, or fails with the first error of its nodes. -/
theorem errorOf?_printInside : ∀ (e : Tree) (context : Int),
    errorOf? (e.printInside context) = e.inExpression.findSome? Occurrence.error?
  | var x, context => by
    rw [printInside_var]
    rfl
  | const n, context => by
    have hnodes : (const n).inExpression = [⟨.expression, const n⟩] := rfl
    rw [printInside, printAt, Text.Decimal.write, hnodes, List.findSome?_singleton,
      Occurrence.error?_const]
    by_cases hn : (Nat.toDigits 10 n.natAbs).length ≤ Text.Decimal.digitLimit
    · simp only [if_pos hn, errorOf?]
    · simp only [if_neg hn, errorOf?]
  | neg operand, context => by
    have ih := errorOf?_printInside operand 0
    cases hv : operand.variableName? with
    | some x =>
      obtain rfl := eq_var_of_variableName? hv
      rw [printInside_neg_var]
      rfl
    | none =>
      rw [printInside_neg_eq hv]
      refine Eq.trans (errorOf?_bind fun _ ↦ rfl) ?_
      rw [ih, Option.or_none]
      rfl
  | binary op left right, context => by
    have ihl := errorOf?_printInside left (op.level - 1)
    have ihr := errorOf?_printInside right op.level
    have hfirst : (Occurrence.mk .expression (binary op left right)).error? = none := rfl
    rw [printInside_binary_eq]
    refine Eq.trans (errorOf?_bind fun _ ↦ errorOf?_bind fun _ ↦ rfl) ?_
    rw [ihl, ihr, Option.or_none, inExpression, List.findSome?_cons, hfirst, List.findSome?_append]
  | assign _ _, _ => rfl
  | block _, _ => rfl
  | conditional _ _ _, _ => rfl
  | loop _ _, _ => rfl
  | bareExpression, _ => rfl
  | bareCommand, _ => rfl
  | plain _, _ => rfl

/-! ## Commands -/

mutual

/-- At every width and from every indentation a command is laid out, or fails with the first error
of its nodes. -/
theorem errorOf?_layout (unit : List Char) : ∀ (c : Tree) (indent : List Char),
    errorOf? (c.layout unit indent) = c.inCommand.findSome? Occurrence.error?
  | assign name value, indent => by
    rw [layout]
    refine Eq.trans (errorOf?_bind fun _ ↦ rfl) ?_
    rw [printExpression, errorOf?_printInside, Option.or_none]
    rfl
  | block commands, indent => by
    rw [layout]
    have hclose : ∀ (P : Prop) [Decidable P] (a b : List Char),
        errorOf? (if P then .ok a else .ok b : Except PrintError (List Char)) = none := by
      intro P _ a b
      split <;> rfl
    refine Eq.trans (errorOf?_bind fun _ ↦ hclose _ _ _) ?_
    rw [errorOf?_layoutAll, Option.or_none]
    rfl
  | conditional condition yes no, indent => by
    have hfirst : (Occurrence.mk .command (conditional condition yes no)).error? = none := rfl
    rw [layout_conditional_eq]
    refine Eq.trans (errorOf?_bind fun _ ↦ errorOf?_bind fun _ ↦ errorOf?_bind fun _ ↦ rfl) ?_
    rw [printExpression, errorOf?_printInside, errorOf?_layout unit yes, errorOf?_layout unit no,
      Option.or_none, inCommand, List.findSome?_cons, hfirst, List.findSome?_append,
      List.findSome?_append]
  | loop condition body, indent => by
    have hfirst : (Occurrence.mk .command (loop condition body)).error? = none := rfl
    rw [layout_loop_eq]
    refine Eq.trans (errorOf?_bind fun _ ↦ errorOf?_bind fun _ ↦ rfl) ?_
    rw [printExpression, errorOf?_printInside, errorOf?_layout unit body, Option.or_none, inCommand,
      List.findSome?_cons, hfirst, List.findSome?_append]
  | var _, _ => rfl
  | const _, _ => rfl
  | neg _, _ => rfl
  | binary _ _ _, _ => rfl
  | bareExpression, _ => rfl
  | bareCommand, _ => rfl
  | plain _, _ => rfl

/-- Commands are laid out one by one, or fail with the first error of their nodes. -/
theorem errorOf?_layoutAll (unit : List Char) : ∀ (cs : List Tree) (indent : List Char),
    errorOf? (layoutAll unit cs indent) = (inCommands cs).findSome? Occurrence.error?
  | [], _ => rfl
  | c :: cs, indent => by
    rw [layoutAll]
    refine Eq.trans (errorOf?_bind fun _ ↦ errorOf?_bind fun _ ↦ rfl) ?_
    rw [errorOf?_layout, errorOf?_layoutAll, Option.or_none, inCommands, List.findSome?_append]

end

/-! ## Trees without errors -/

private theorem isExpression_of_clean : ∀ {e : Tree}, (∀ o ∈ e.inExpression, o.error? = none) →
    e.IsExpression ∧ e.Writable
  | var x, _ => ⟨.var x, forall_leaves_var.mpr trivial⟩
  | const n, h => by
    have hn := h ⟨.expression, const n⟩ List.mem_cons_self
    rw [Occurrence.error?_const] at hn
    split at hn
    · next hl => exact ⟨.const n, forall_leaves_const.mpr hl⟩
    · cases hn
  | neg operand, h => by
    obtain ⟨-, h⟩ := List.forall_mem_cons.mp h
    obtain ⟨he, hw⟩ := isExpression_of_clean h
    exact ⟨.neg he, forall_leaves_neg.mpr hw⟩
  | binary op left right, h => by
    obtain ⟨-, h⟩ := List.forall_mem_cons.mp h
    obtain ⟨hr, hl⟩ := List.forall_mem_append.mp h
    obtain ⟨her, hwr⟩ := isExpression_of_clean hr
    obtain ⟨hel, hwl⟩ := isExpression_of_clean hl
    exact ⟨.binary op hel her, forall_leaves_binary.mpr ⟨hwl, hwr⟩⟩
  | assign _ _, h | block _, h | conditional _ _ _, h | loop _ _, h | bareExpression, h
  | bareCommand, h | plain _, h => by
    cases h _ List.mem_cons_self

mutual

/-- Nodes without errors make a well-sorted command that can be written. -/
theorem isCommand_of_clean : ∀ {c : Tree}, (∀ o ∈ c.inCommand, o.error? = none) →
    c.IsCommand ∧ c.Writable
  | assign x value, h => by
    obtain ⟨-, h⟩ := List.forall_mem_cons.mp h
    obtain ⟨he, hw⟩ := isExpression_of_clean h
    exact ⟨.assign x he, forall_leaves_assign.mpr ⟨trivial, hw⟩⟩
  | block commands, h => by
    obtain ⟨-, h⟩ := List.forall_mem_cons.mp h
    have hall := isCommand_of_clean_members h
    exact ⟨.block fun c hc ↦ (hall c hc).1, forall_leaves_block.mpr fun c hc ↦ (hall c hc).2⟩
  | conditional condition yes no, h => by
    obtain ⟨-, h⟩ := List.forall_mem_cons.mp h
    obtain ⟨he, h⟩ := List.forall_mem_append.mp h
    obtain ⟨hy, hn⟩ := List.forall_mem_append.mp h
    obtain ⟨he, hwe⟩ := isExpression_of_clean he
    obtain ⟨hy, hwy⟩ := isCommand_of_clean hy
    obtain ⟨hn, hwn⟩ := isCommand_of_clean hn
    exact ⟨.conditional he hy hn, forall_leaves_conditional.mpr ⟨hwe, hwy, hwn⟩⟩
  | loop condition body, h => by
    obtain ⟨-, h⟩ := List.forall_mem_cons.mp h
    obtain ⟨he, hb⟩ := List.forall_mem_append.mp h
    obtain ⟨he, hwe⟩ := isExpression_of_clean he
    obtain ⟨hb, hwb⟩ := isCommand_of_clean hb
    exact ⟨.loop he hb, forall_leaves_loop.mpr ⟨hwe, hwb⟩⟩
  | var _, h | const _, h | neg _, h | binary _ _ _, h | bareExpression, h | bareCommand, h
  | plain _, h => by
    cases h _ List.mem_cons_self

/-- Members of which no node has an error are such commands. -/
theorem isCommand_of_clean_members : ∀ {cs : List Tree}, (∀ o ∈ inCommands cs, o.error? = none) →
    ∀ c ∈ cs, c.IsCommand ∧ c.Writable
  | [], _ => fun c hc ↦ absurd hc List.not_mem_nil
  | c :: cs, h => by
    obtain ⟨hc, hcs⟩ := List.forall_mem_append.mp h
    exact List.forall_mem_cons.mpr ⟨isCommand_of_clean hc, isCommand_of_clean_members hcs⟩

end

/-- At every width that is not negative and from every indentation a command is rendered, or fails
with the first error of its nodes. -/
theorem errorOf?_render (c : Tree) {width : Int} (hw : 0 ≤ width) (indent : List Char) :
    errorOf? (c.render width indent) = c.inCommand.findSome? Occurrence.error? := by
  rw [render, if_neg (by omega)]
  refine Eq.trans (errorOf?_bind fun _ ↦ rfl) ?_
  rw [errorOf?_layout, Option.or_none]

/-- A command is rendered exactly when it is well sorted and its constants can be written. -/
theorem exists_render_iff {c : Tree} {width : Int} (hwidth : 0 ≤ width) {indent : List Char} :
    (∃ text, c.render width indent = .ok text) ↔ c.IsCommand ∧ c.Writable := by
  rw [← errorOf?_eq_none_iff, errorOf?_render c hwidth]
  constructor
  · intro h
    exact isCommand_of_clean (List.findSome?_eq_none_iff.mp h)
  · rintro ⟨hc, hw⟩
    -- Whether there is an error does not depend on the indentation, so none at all will do.
    obtain ⟨text, ht, -⟩ := exists_render hc hw hwidth Grammar.blank_nil
    rw [← errorOf?_render c hwidth [], ht, errorOf?]

private theorem printCommand_eq_error_iff {c : Tree} {width : Int} {error : PrintError} :
    c.printCommand width = .silent (.error error) ↔ c.render width [] = .error error := by
  rw [printCommand]
  cases c.render width [] with
  | ok text => simp [Noted.note, Noted.silent]
  | error e => simp [Noted.silent]

private theorem role?_eq_iff_kind (t : Tree) :
    (t.role? = some .expression ↔ t.kind ∈ ["Var", "Const", "Uminus", "BinaryOp"]) ∧
      (t.role? = some .command ↔ t.kind ∈ ["Assign", "Seq", "If", "While"]) := by
  cases t with
  | plain value => cases value <;> simp [role?, kind, Plain.kind]
  | _ => simp [role?, kind]

/-- A negative width is refused before anything is printed. At any other width printing gives a text
exactly when every expression and every command is in its place and no constant is too long, and
otherwise the error of the first node that has one. That error names the kind of the node and the
role that it cannot take, or it is that of a constant. The kinds of expressions are `Var`, `Const`,
`Uminus` and `BinaryOp`, those of commands `Assign`, `Seq`, `If` and `While`. -/
theorem printCommand_firstError (c : Tree) (width : Int) :
    (width < 0 → c.printCommand width = .silent (.error (.negativeWidth width))) ∧
    (0 ≤ width →
      ((∃ text, (c.printCommand width).answer = .ok text) ↔ c.IsCommand ∧ c.Writable) ∧
      ∀ error, c.printCommand width = .silent (.error error) ↔ FirstError c.inCommand error) ∧
    (∀ (o : Occurrence) (error : PrintError), o.error? = some error ↔
      (o.node.role? ≠ some o.role ∧ error = o.role.refusal o.node.kind ∧
        error.message = "Cannot pretty-print " ++ o.node.kind ++ o.role.phrase) ∨
      ∃ n, o = ⟨.expression, .const n⟩ ∧ error = .numeral .tooLongToWrite ∧
        Text.Decimal.digitLimit < (Nat.toDigits 10 n.natAbs).length) ∧
    ∀ t : Tree, (t.role? = some .expression ↔ t.kind ∈ ["Var", "Const", "Uminus", "BinaryOp"]) ∧
      (t.role? = some .command ↔ t.kind ∈ ["Assign", "Seq", "If", "While"]) := by
  refine ⟨fun hw ↦ ?_, fun hw ↦ ⟨?_, fun error ↦ ?_⟩, fun o error ↦ ?_, role?_eq_iff_kind⟩
  · rw [printCommand_eq_error_iff, render, if_pos hw]
  · rw [answer_printCommand]
    exact exists_render_iff hw
  · rw [printCommand_eq_error_iff, ← errorOf?_eq_some_iff, errorOf?_render c hw,
      findSome?_error?_eq_some_iff]
  · rw [Occurrence.error?_eq_some_iff]
    refine or_congr_left (and_congr_right fun _ ↦ ⟨?_, And.left⟩)
    rintro rfl
    exact ⟨rfl, Role.message_refusal _ _⟩

/-- A command as the right operand of a right operand is found before the value on the left and
before what is out of place in the branches. Conditions that are none are found before the body, and
members that are no commands before the next one, each by its name. -/
theorem printCommand_firstError_condition :
    (Tree.conditional (.binary .less (.plain (.whole 3)) (.binary .plus (.var "x") .bareCommand))
      (.const 1) .bareExpression).printCommand 2 = .silent (.error (.notExpression "Command")) ∧
    (∀ p ∈ [(Tree.plain (.whole 3), "Cannot pretty-print int as an expression"),
        (.plain .nothing, "Cannot pretty-print NoneType as an expression"),
        (.plain (.flag true), "Cannot pretty-print bool as an expression"),
        (.plain (.fraction 15 1), "Cannot pretty-print float as an expression"),
        (.plain (.text "x"), "Cannot pretty-print str as an expression"),
        (.plain (.list []), "Cannot pretty-print list as an expression"),
        (.plain (.table []), "Cannot pretty-print dict as an expression"),
        (.assign "x" .bareExpression, "Cannot pretty-print Assign as an expression"),
        (.block [.bareExpression], "Cannot pretty-print Seq as an expression"),
        (.conditional (.var "a") (.block []) (.block []),
          "Cannot pretty-print If as an expression"),
        (.loop (.var "a") (.block []), "Cannot pretty-print While as an expression"),
        (.bareExpression, "Cannot pretty-print Expression as an expression")],
      ∃ error, (Tree.loop p.1 .bareCommand).printCommand 2 = .silent (.error error) ∧
        error.message = p.2) ∧
    (∀ p ∈ [(Tree.var "x", "Cannot pretty-print Var as a command"),
        (.const 1, "Cannot pretty-print Const as a command"),
        (.neg (.block []), "Cannot pretty-print Uminus as a command"),
        (.binary .plus (.block []) (.block []), "Cannot pretty-print BinaryOp as a command"),
        (.bareCommand, "Cannot pretty-print Command as a command")],
      ∃ error, (Tree.block [.block [], p.1, .bareExpression]).printCommand 2 =
        .silent (.error error) ∧ error.message = p.2) ∧
    (Tree.const 1).printCommand (-1) = .silent (.error (.negativeWidth (-1))) := by
  obtain ⟨hnegative, -, -⟩ := printCommand_firstError (Tree.const 1) (-1)
  refine ⟨?_, fun p hp ↦ ?_, fun p hp ↦ ?_, hnegative (by decide)⟩
  · obtain ⟨-, hfirst, -⟩ := printCommand_firstError (Tree.conditional
      (.binary .less (.plain (.whole 3)) (.binary .plus (.var "x") .bareCommand))
        (.const 1) .bareExpression) 2
    exact ((hfirst (by decide)).2 _).mpr (findSome?_error?_eq_some_iff.mp rfl)
  · obtain ⟨-, hfirst, -⟩ := printCommand_firstError (Tree.loop p.1 .bareCommand) 2
    have hfound := fun error ↦ ((hfirst (by decide)).2 error).mpr
    simp only [List.mem_cons, List.not_mem_nil, or_false] at hp
    rcases hp with rfl | rfl | rfl | rfl | rfl | rfl | rfl | rfl | rfl | rfl | rfl | rfl <;>
      exact ⟨_, hfound _ (findSome?_error?_eq_some_iff.mp rfl), by decide⟩
  · obtain ⟨-, hfirst, -⟩ :=
      printCommand_firstError (Tree.block [.block [], p.1, .bareExpression]) 2
    have hfound := fun error ↦ ((hfirst (by decide)).2 error).mpr
    simp only [List.mem_cons, List.not_mem_nil, or_false] at hp
    rcases hp with rfl | rfl | rfl | rfl | rfl <;>
      exact ⟨_, hfound _ (findSome?_error?_eq_some_iff.mp rfl), by decide⟩

end Tree
end WhileSyntax
