import WhileSyntax.Tree.Basic

/-!
# Equality of trees

Trees are compared by structure. Plain values are compared by content, numbers by their value
whatever their kind, and a node of no particular form equals nothing, not even another one. On
well-sorted trees the comparison decides equality.
-/

namespace WhileSyntax

namespace Plain

/-- A number as mantissa and decimal places; truth values count as zero and one. -/
def number? : Plain → Option (Int × Nat)
  | flag value => some (if value then 1 else 0, 0)
  | whole value => some (value, 0)
  | fraction mantissa places => some (mantissa, places)
  | _ => none

/-- Whether two numbers, given by mantissa and decimal places, have one value. -/
def sameNumber (a b : Int × Nat) : Bool := a.1 * Nat.pow 10 b.2 == b.1 * Nat.pow 10 a.2

mutual

/-- Whether two plain values have one content; tables list their entries by ascending key. -/
def same : Plain → Plain → Bool
  | nothing, nothing => true
  | text a, text b => a == b
  | list as, list bs => sameItems as bs
  | table as, table bs => sameEntries as bs
  | a, b =>
    match a.number?, b.number? with
    | some m, some n => sameNumber m n
    | _, _ => false

/-- Whether two lists of plain values have one content. -/
def sameItems : List Plain → List Plain → Bool
  | [], [] => true
  | a :: as, b :: bs => same a b && sameItems as bs
  | _, _ => false

/-- Whether two lists of entries have the same keys with values of one content. -/
def sameEntries : List (String × Plain) → List (String × Plain) → Bool
  | [], [] => true
  | (k, a) :: as, (l, b) :: bs => k == l && same a b && sameEntries as bs
  | _, _ => false

end

end Plain

namespace Tree

mutual

/-- Whether two trees have one structure. -/
def same : Tree → Tree → Bool
  | var a, var b => a == b
  | const m, const n => m == n
  | neg a, neg b => same a b
  | binary o a b, binary p c d => o == p && same a c && same b d
  | assign x a, assign y b => x == y && same a b
  | block as, block bs => sameAll as bs
  | conditional a b c, conditional d e f => same a d && same b e && same c f
  | loop a b, loop c d => same a c && same b d
  | plain a, plain b => a.same b
  | _, _ => false

/-- Whether two lists of trees have one structure. -/
def sameAll : List Tree → List Tree → Bool
  | [], [] => true
  | a :: as, b :: bs => same a b && sameAll as bs
  | _, _ => false

end

/-- An expression has the same structure as itself and as no other tree. -/
theorem same_iff_of_isExpression {a b : Tree} (ha : a.IsExpression) :
    same a b = true ↔ a = b := by
  induction ha generalizing b with
  | var name => cases b <;> simp [same]
  | const value => cases b <;> simp [same]
  | neg _ ih => cases b <;> simp [same, ih]
  | binary op _ _ ihl ihr => cases b <;> simp [same, ihl, ihr, and_assoc]

private theorem sameAll_iff_of_forall {as bs : List Tree}
    (ha : ∀ a ∈ as, ∀ b, same a b = true ↔ a = b) : sameAll as bs = true ↔ as = bs := by
  induction as generalizing bs with
  | nil => cases bs <;> simp [sameAll]
  | cons a as ih =>
    cases bs with
    | nil => simp [sameAll]
    | cons b bs =>
      simp [sameAll, ha a List.mem_cons_self,
        ih fun x hx ↦ ha x (List.mem_cons_of_mem _ hx)]

/-- A command has the same structure as itself and as no other tree. -/
theorem same_iff_of_isCommand {a b : Tree} (ha : a.IsCommand) : same a b = true ↔ a = b := by
  induction ha generalizing b with
  | assign name hv => cases b <;> simp [same, same_iff_of_isExpression hv]
  | block _ ih =>
    cases b <;> simp [same, sameAll_iff_of_forall fun x hx b ↦ ih x hx (b := b)]
  | conditional hc _ _ ihy ihn =>
    cases b <;> simp [same, same_iff_of_isExpression hc, ihy, ihn, and_assoc]
  | loop hc _ ih => cases b <;> simp [same, same_iff_of_isExpression hc, ih]

end Tree
end WhileSyntax
