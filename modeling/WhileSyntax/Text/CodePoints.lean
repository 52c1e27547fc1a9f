/-!
# Sets of code points

A character class of the Unicode standard is stored as the closed ranges of code points that belong
to it, in ascending order. A lookup walks the ranges and stops at the first one that does not end
below the code point, so common characters are decided after a few comparisons.

Main statements: in ascending ranges a lookup finds every member of every range (`inRanges_of_mem`),
and lists of ranges that do not meet have no code point in common (`inRanges_eq_false_of_apart`).
-/

namespace WhileSyntax.Text

/-- Membership in ascending closed ranges. -/
def inRanges : List (Nat × Nat) → Nat → Bool
  | [], _ => false
  | (first, last) :: rest, n => if n ≤ last then decide (first ≤ n) else inRanges rest n

/-- Ranges ascend from `bound` when each is nonempty and starts after everything before it. -/
def ascendFrom : Nat → List (Nat × Nat) → Bool
  | _, [] => true
  | bound, (first, last) :: rest => bound ≤ first && first ≤ last && ascendFrom (last + 1) rest

/-- No range of one list meets a range of the other. -/
def apart (rs ss : List (Nat × Nat)) : Bool :=
  rs.all fun r ↦ ss.all fun s ↦ r.2 < s.1 || s.2 < r.1

private theorem exists_range_of_inRanges {rs : List (Nat × Nat)} {n : Nat}
    (h : inRanges rs n = true) : ∃ r ∈ rs, r.1 ≤ n ∧ n ≤ r.2 := by
  induction rs with
  | nil => simp [inRanges] at h
  | cons r rs ih =>
    rw [inRanges] at h
    split at h
    · next hn => exact ⟨r, List.mem_cons_self, of_decide_eq_true h, hn⟩
    · next hn =>
      obtain ⟨r', hr', hb⟩ := ih h
      exact ⟨r', List.mem_cons_of_mem _ hr', hb⟩

private theorem le_of_ascendFrom {rs : List (Nat × Nat)} {bound : Nat} {r : Nat × Nat}
    (ha : ascendFrom bound rs = true) (hr : r ∈ rs) : bound ≤ r.1 := by
  induction rs generalizing bound with
  | nil => simp at hr
  | cons s rs ih =>
    simp only [ascendFrom, Bool.and_eq_true, decide_eq_true_eq] at ha
    rcases List.mem_cons.mp hr with rfl | hm
    · exact ha.1.1
    · have := ih ha.2 hm
      omega

/-- In ascending ranges, every code point of every range is found. -/
theorem inRanges_of_mem {rs : List (Nat × Nat)} {bound n : Nat} {r : Nat × Nat}
    (ha : ascendFrom bound rs = true) (hr : r ∈ rs) (hn : r.1 ≤ n ∧ n ≤ r.2) :
    inRanges rs n = true := by
  induction rs generalizing bound with
  | nil => simp at hr
  | cons s rs ih =>
    simp only [ascendFrom, Bool.and_eq_true, decide_eq_true_eq] at ha
    rw [inRanges]
    rcases List.mem_cons.mp hr with rfl | hm
    · simp [hn.1, hn.2]
    · have hlt := le_of_ascendFrom ha.2 hm
      split
      · next hle => omega
      · exact ih ha.2 hm

/-- A code point of one list is not found in a list apart from it. -/
theorem inRanges_eq_false_of_apart {rs ss : List (Nat × Nat)} {n : Nat} (ha : apart rs ss = true)
    (hr : inRanges rs n = true) : inRanges ss n = false := by
  by_cases hs : inRanges ss n = true
  · obtain ⟨r, hr, hnr⟩ := exists_range_of_inRanges hr
    obtain ⟨s, hs, hns⟩ := exists_range_of_inRanges hs
    have h := List.all_eq_true.mp (List.all_eq_true.mp ha r hr) s hs
    simp only [Bool.or_eq_true, decide_eq_true_eq] at h
    omega
  · exact Bool.not_eq_true _ ▸ hs

end WhileSyntax.Text
