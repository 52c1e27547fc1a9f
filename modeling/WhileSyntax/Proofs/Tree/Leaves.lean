import WhileSyntax.Proofs.Grammar.Token
import WhileSyntax.Tree.Basic

/-!
# Leaves of trees

The names and constants of a tree, wherever they stand. A tree is readable when its names can be
names in a program and no constant is negative; it is writable when no constant has more digits than
a numeral may have.
-/

namespace WhileSyntax

/-- A name or a constant in a tree. -/
inductive Leaf where
  | name (x : String)
  | constant (n : Int)

/-- Whether a program can spell a leaf. -/
def Leaf.Readable : Leaf → Prop
  | name x => Grammar.IsName x
  | constant n => 0 ≤ n

/-- Whether the numeral of a leaf keeps to the limit. The sign does not count. -/
def Leaf.Writable : Leaf → Prop
  | name _ => True
  | constant n => (Nat.toDigits 10 n.natAbs).length ≤ Text.Decimal.digitLimit

instance (l : Leaf) : Decidable l.Readable :=
  match l with
  | .name x => inferInstanceAs (Decidable (Text.isWord x.toList = true ∧ Text.isReserved x = false))
  | .constant n => inferInstanceAs (Decidable (0 ≤ n))

instance (l : Leaf) : Decidable l.Writable :=
  match l with
  | .name _ => inferInstanceAs (Decidable True)
  | .constant n =>
    inferInstanceAs (Decidable ((Nat.toDigits 10 n.natAbs).length ≤ Text.Decimal.digitLimit))

namespace Tree

mutual

/-- Names and constants of a tree, from left to right. -/
def leaves : Tree → List Leaf
  | var x => [.name x]
  | const n => [.constant n]
  | neg operand => leaves operand
  | binary _ left right => leaves left ++ leaves right
  | assign x value => .name x :: leaves value
  | block commands => leavesAll commands
  | conditional condition yes no => leaves condition ++ leaves yes ++ leaves no
  | loop condition body => leaves condition ++ leaves body
  | _ => []

/-- Names and constants of several trees. -/
def leavesAll : List Tree → List Leaf
  | [] => []
  | t :: ts => leaves t ++ leavesAll ts

end

/-- All names can be names in a program, and no constant is negative. -/
def Readable (t : Tree) : Prop := ∀ l ∈ t.leaves, l.Readable

/-- No constant has more digits than a numeral may have. -/
def Writable (t : Tree) : Prop := ∀ l ∈ t.leaves, l.Writable

instance (t : Tree) : Decidable t.Readable :=
  List.decidableBAll Leaf.Readable t.leaves

instance (t : Tree) : Decidable t.Writable :=
  List.decidableBAll Leaf.Writable t.leaves

/-! ## The leaves of each form -/

variable {P : Leaf → Prop} {x : String} {n : Int} {op : Binop} {c e a b y z : Tree} {cs : List Tree}

@[simp] theorem leaves_var : (var x).leaves = [.name x] := rfl

@[simp] theorem leaves_const : (const n).leaves = [.constant n] := rfl

@[simp] theorem leaves_neg : (neg e).leaves = e.leaves := rfl

@[simp] theorem leaves_binary : (binary op a b).leaves = a.leaves ++ b.leaves := rfl

@[simp] theorem leaves_assign : (assign x e).leaves = .name x :: e.leaves := rfl

@[simp] theorem leaves_block : (block cs).leaves = leavesAll cs := rfl

@[simp] theorem leaves_conditional :
    (conditional c y z).leaves = c.leaves ++ y.leaves ++ z.leaves := rfl

@[simp] theorem leaves_loop : (loop c b).leaves = c.leaves ++ b.leaves := rfl

private theorem mem_leavesAll_iff {l : Leaf} : l ∈ leavesAll cs ↔ ∃ t ∈ cs, l ∈ t.leaves := by
  induction cs with
  | nil =>
    rw [show leavesAll [] = [] from rfl]
    simp
  | cons t cs ih =>
    rw [show leavesAll (t :: cs) = t.leaves ++ leavesAll cs from rfl, List.mem_append, ih]
    simp

/-! ## A property of all leaves, form by form -/

/-- The only leaf of a variable is its name. -/
theorem forall_leaves_var : (∀ l ∈ (var x).leaves, P l) ↔ P (.name x) := by
  simp

/-- The only leaf of a constant is the constant. -/
theorem forall_leaves_const : (∀ l ∈ (const n).leaves, P l) ↔ P (.constant n) := by
  simp

/-- A sign adds no leaf. -/
theorem forall_leaves_neg : (∀ l ∈ (neg e).leaves, P l) ↔ ∀ l ∈ e.leaves, P l := by
  simp

/-- An operator has the leaves of its operands. -/
theorem forall_leaves_binary :
    (∀ l ∈ (binary op a b).leaves, P l) ↔ (∀ l ∈ a.leaves, P l) ∧ ∀ l ∈ b.leaves, P l := by
  rw [leaves_binary]
  exact List.forall_mem_append

/-- An assignment adds its name. -/
theorem forall_leaves_assign :
    (∀ l ∈ (assign x e).leaves, P l) ↔ P (.name x) ∧ ∀ l ∈ e.leaves, P l := by
  rw [leaves_assign]
  exact List.forall_mem_cons

/-- A block has the leaves of its members. -/
theorem forall_leaves_block :
    (∀ l ∈ (block cs).leaves, P l) ↔ ∀ c ∈ cs, ∀ l ∈ c.leaves, P l := by
  simp only [leaves_block, mem_leavesAll_iff]
  constructor
  · intro h c hc l hl
    exact h l ⟨c, hc, hl⟩
  · rintro h l ⟨c, hc, hl⟩
    exact h c hc l hl

/-- A conditional has the leaves of its condition and its branches. -/
theorem forall_leaves_conditional : (∀ l ∈ (conditional c y z).leaves, P l) ↔
    (∀ l ∈ c.leaves, P l) ∧ (∀ l ∈ y.leaves, P l) ∧ ∀ l ∈ z.leaves, P l := by
  rw [leaves_conditional, List.forall_mem_append, List.forall_mem_append, and_assoc]

/-- A loop has the leaves of its condition and its body. -/
theorem forall_leaves_loop : (∀ l ∈ (loop c b).leaves, P l) ↔
    (∀ l ∈ c.leaves, P l) ∧ ∀ l ∈ b.leaves, P l := by
  rw [leaves_loop]
  exact List.forall_mem_append

end Tree
end WhileSyntax
