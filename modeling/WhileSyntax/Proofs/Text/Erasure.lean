import Mathlib.Data.List.Induction
import WhileSyntax.Text.Decimal

/-!
# Erasure

One text is erased to another when characters of a class are left out and all others stay in their
order. The erased text is a part of the whole, and erasing is compatible with putting texts one
behind the other. A run of digits is erased to the shortest numeral of its number by leaving out
zeros (`Erases.digits`).
-/

namespace WhileSyntax.Text

/-- The second text is the first one without some of the characters that pass a test. -/
inductive Erases (test : Char → Bool) : (s t : List Char) → Prop
  | nil : Erases test [] []
  | keep {s t : List Char} (c : Char) : Erases test s t → Erases test (c :: s) (c :: t)
  | drop {s t : List Char} {c : Char} : test c = true → Erases test s t → Erases test (c :: s) t

namespace Erases

variable {test test' : Char → Bool} {s t s' t' : List Char}

/-- Nothing needs to be left out. -/
theorem refl (test : Char → Bool) (s : List Char) : Erases test s s := by
  induction s with
  | nil => exact .nil
  | cons c s ih => exact .keep c ih

private theorem of_forall (h : ∀ c ∈ s, test c = true) : Erases test s [] := by
  induction s with
  | nil => exact .nil
  | cons c s ih =>
    obtain ⟨hc, hs⟩ := List.forall_mem_cons.mp h
    exact .drop hc (ih hs)

/-- Parts of a text are erased one by one. -/
theorem append (h : Erases test s t) (h' : Erases test s' t') :
    Erases test (s ++ s') (t ++ t') := by
  induction h with
  | nil => exact h'
  | keep c _ ih => exact .keep c ih
  | drop hc _ ih => exact .drop hc ih

/-- A text of the class in front is left out. -/
theorem skip (hs : ∀ c ∈ s, test c = true) (h : Erases test s' t') : Erases test (s ++ s') t' :=
  (of_forall hs).append h

/-- A text of the class behind is left out. -/
theorem skip_right (h : Erases test s t) (hs : ∀ c ∈ s', test c = true) :
    Erases test (s ++ s') t := by
  have := h.append (of_forall hs)
  rwa [List.append_nil] at this

/-- What is left out in two steps may be left out in one. -/
theorem trans {u : List Char} (h : Erases test s t) (h' : Erases test t u) : Erases test s u := by
  induction h generalizing u with
  | nil => exact h'
  | keep c _ ih =>
    cases h' with
    | keep _ h' => exact .keep c (ih h')
    | drop hc h' => exact .drop hc (ih h')
  | drop hc _ ih => exact .drop hc (ih h')

/-- The erased text is a part of the whole. -/
theorem sublist (h : Erases test s t) : t.Sublist s := by
  induction h with
  | nil => exact .slnil
  | keep c _ ih => exact ih.cons_cons c
  | drop _ _ ih => exact ih.cons _

/-- Where only some characters are looked at, only those of them that are of the class are left
out. -/
theorem filter (h : Erases test s t) {seen : Char → Bool}
    (ht : ∀ c, test c = true → seen c = true → test' c = true) :
    Erases test' (s.filter seen) (t.filter seen) := by
  induction h with
  | nil => exact .nil
  | keep c _ ih =>
    simp only [List.filter_cons]
    split
    · exact .keep c ih
    · exact ih
  | @drop s t c hc _ ih =>
    rw [List.filter_cons]
    split
    · next hs => exact .drop (ht c hc hs) ih
    · exact ih

end Erases

/-! ## Leading zeros -/

private theorem exists_digit_value {c : Char} (hc : c.isDigit = true) :
    c.toNat - '0'.toNat < 10 ∧ Nat.toDigits 10 (c.toNat - '0'.toNat) = [c] := by
  have hmem := Decimal.mem_digitCharacters_iff.mpr hc
  have hall : Decimal.digitCharacters.toList.all (fun c ↦ c.toNat - '0'.toNat < 10 ∧
      Nat.toDigits 10 (c.toNat - '0'.toNat) = [c]) = true := by decide
  exact of_decide_eq_true (List.all_eq_true.mp hall c hmem)

/-- A run of digits is the numeral of its number behind leading zeros. -/
theorem exists_zeros_append {digits : List Char} (hne : digits ≠ [])
    (hall : ∀ c ∈ digits, c.isDigit = true) :
    ∃ k, digits = List.replicate k '0' ++ Nat.toDigits 10 (Nat.ofDigitChars 10 digits 0) := by
  induction digits using List.reverseRecOn with
  | nil => exact absurd rfl hne
  | append_singleton digits c ih =>
    obtain ⟨hdigits, hc⟩ := List.forall_mem_append.mp hall
    obtain ⟨hlt, hvalue⟩ := exists_digit_value (hc c List.mem_cons_self)
    rw [Nat.ofDigitChars_append, Nat.ofDigitChars_cons, Nat.ofDigitChars_nil]
    by_cases hd : digits = []
    · subst hd
      refine ⟨0, ?_⟩
      rw [Nat.ofDigitChars_nil, Nat.mul_zero, Nat.zero_add, hvalue]
      rfl
    · obtain ⟨k, hk⟩ := ih hd hdigits
      by_cases hn : Nat.ofDigitChars 10 digits 0 = 0
      · refine ⟨k + 1, ?_⟩
        rw [hn] at hk ⊢
        rw [Nat.mul_zero, Nat.zero_add, hvalue, hk, List.replicate_succ']
        rfl
      · refine ⟨k, ?_⟩
        rw [← Nat.toDigits_append_toDigits (by decide) (Nat.pos_of_ne_zero hn) hlt, hvalue,
          ← List.append_assoc, ← hk]

/-- A run of digits is erased to the shortest numeral of its number by leaving out zeros. -/
theorem Erases.digits {test : Char → Bool} (hzero : test '0' = true) {digits : List Char}
    (hne : digits ≠ []) (hall : ∀ c ∈ digits, c.isDigit = true) :
    Erases test digits (Nat.toDigits 10 (Nat.ofDigitChars 10 digits 0)) := by
  obtain ⟨k, hk⟩ := exists_zeros_append hne hall
  have hzeros : ∀ c ∈ List.replicate k '0', test c = true := by
    intro c hc
    rw [List.eq_of_mem_replicate hc]
    exact hzero
  have := skip hzeros (refl test (Nat.toDigits 10 (Nat.ofDigitChars 10 digits 0)))
  rwa [← hk] at this

/-- The shortest numeral of the number of a run of digits is not longer than the run. -/
theorem length_toDigits_le {digits : List Char} (hne : digits ≠ [])
    (hall : ∀ c ∈ digits, c.isDigit = true) :
    (Nat.toDigits 10 (Nat.ofDigitChars 10 digits 0)).length ≤ digits.length := by
  have herases : Erases (· == '0') digits _ := Erases.digits rfl hne hall
  exact herases.sublist.length_le

end WhileSyntax.Text
