import Mathlib.Data.List.Induction
import Mathlib.Data.List.TakeWhile
import WhileSyntax.Source.Cursor

/-!
# Lines and columns of positions

A location is counted from the text in front of it, character by character or line by line. Both
counts agree: a position stands behind as many whole lines as its line says and behind as many
characters of its own line as its column says (`standsAt_after`). Positions are ordered as their
lines and columns are, so either of them is found again from the other (`location_exact`).
-/

namespace WhileSyntax.Source

variable {text l r : List Char} {i i' j j' pos pos' : Nat} {c c' : Cursor}

/-! ## Character by character -/

namespace Location

/-- Line and column behind one more character. -/
def stepOver : (place : Int × Int) → Char → Int × Int
  | (line, column), ch => if ch = '\n' then (line + 1, 1) else (line, column + 1)

/-- Whether a location is on an earlier line than another one, or on its line and further left. -/
def Precedes (a b : Location) : Prop :=
  a.line < b.line ∨ a.line = b.line ∧ a.column < b.column

/-- Line and column are counted from the start of the text. -/
theorem line_column_after (filename : String) (before : List Char) :
    ((after filename before).line, (after filename before).column) =
      before.foldl stepOver (1, 1) := by
  induction before using List.reverseRecOn with
  | nil => rfl
  | append_singleton before ch ih =>
    rw [List.foldl_append, ← ih]
    by_cases hch : ch = '\n'
    · rw [hch, after_newline]
      rfl
    · rw [after_other filename before hch]
      simp [stepOver, hch]

private theorem after_of_not_mem (filename : String) (h : '\n' ∉ l) :
    after filename l = ⟨filename, 1, l.length + 1, l.length⟩ := by
  induction l using List.reverseRecOn with
  | nil => rfl
  | append_singleton l ch ih =>
    rw [List.mem_append, not_or, List.mem_singleton] at h
    rw [after_other filename l (Ne.symm h.2), ih h.1]
    simp

/-- A line in front moves a location one line on and leaves its column alone. -/
theorem after_line (filename : String) (h : '\n' ∉ l) (before : List Char) :
    after filename (l ++ '\n' :: before) =
      ⟨filename, (after filename before).line + 1, (after filename before).column,
        l.length + 1 + (after filename before).offset⟩ := by
  induction before using List.reverseRecOn with
  | nil =>
    rw [after_newline, after_of_not_mem filename h]
    simp [after_nil]
  | append_singleton before ch ih =>
    rw [← List.cons_append, ← List.append_assoc]
    by_cases hch : ch = '\n'
    · rw [hch, after_newline, after_newline, ih]
      simp only [Int.add_assoc]
    · rw [after_other _ _ hch, after_other _ _ hch, ih]
      simp only [Int.add_assoc]

end Location

/-! ## Line by line -/

/-- A position of a text behind `i` whole lines and `j` characters of the next one. -/
structure StandsAt (text : List Char) (i j pos : Nat) : Prop where
  /-- the line is there and has that many characters -/
  within : ∃ line, (text.splitOn '\n')[i]? = some line ∧ j ≤ line.length
  /-- each line in front of it takes one line feed more than its characters -/
  pos_eq : pos = ((text.splitOn '\n').take i).flatten.length + i + j

/-- A property of all texts holds if it holds of each single line, and of a line in front of a text
whenever it holds of that text. -/
theorem line_induction {P : List Char → Prop} (last : ∀ l, '\n' ∉ l → P l)
    (line : ∀ l r, '\n' ∉ l → P r → P (l ++ '\n' :: r)) (text : List Char) : P text := by
  have hsplit := List.takeWhile_append_dropWhile (p := (· ≠ '\n')) (l := text)
  have hfirst : '\n' ∉ text.takeWhile (· ≠ '\n') := fun h ↦ by
    simpa using List.mem_takeWhile_imp h
  cases hrest : text.dropWhile (· ≠ '\n') with
  | nil =>
    rw [hrest, List.append_nil] at hsplit
    rw [← hsplit]
    exact last _ hfirst
  | cons ch r =>
    have hch := List.head?_dropWhile_not (· ≠ '\n') text
    rw [hrest, List.head?_cons] at hch
    obtain rfl : ch = '\n' := by simpa using hch
    rw [hrest] at hsplit
    have hlt : r.length < text.length := by
      rw [← hsplit, List.length_append, List.length_cons]
      omega
    rw [← hsplit]
    exact line _ r hfirst (line_induction last line r)
  termination_by text.length

private theorem standsAt_zero_iff {lines : List (List Char)} (h : text.splitOn '\n' = l :: lines) :
    StandsAt text 0 j pos ↔ j ≤ l.length ∧ pos = j := by
  constructor
  · rintro ⟨⟨line, hline, hj⟩, hpos⟩
    rw [h] at hline
    obtain rfl := Option.some.inj hline
    exact ⟨hj, by simpa using hpos⟩
  · rintro ⟨hj, rfl⟩
    exact ⟨⟨l, by rw [h]; rfl, hj⟩, by simp⟩

private theorem standsAt_last_iff (h : '\n' ∉ l) :
    StandsAt l i j pos ↔ i = 0 ∧ j ≤ l.length ∧ pos = j := by
  have hlines : l.splitOn '\n' = [l] := List.splitOn_eq_singleton h
  cases i with
  | zero => rw [standsAt_zero_iff hlines, eq_self, true_and]
  | succ i =>
    refine iff_of_false ?_ fun hzero ↦ Nat.succ_ne_zero i hzero.1
    rintro ⟨⟨line, hline, -⟩, -⟩
    rw [hlines] at hline
    simp at hline

private theorem standsAt_line_zero_iff (h : '\n' ∉ l) :
    StandsAt (l ++ '\n' :: r) 0 j pos ↔ j ≤ l.length ∧ pos = j :=
  standsAt_zero_iff (List.splitOn_append_cons_self_of_not_mem h r)

private theorem standsAt_line_succ_iff (h : '\n' ∉ l) : StandsAt (l ++ '\n' :: r) (i + 1) j pos ↔
    ∃ k, pos = l.length + 1 + k ∧ StandsAt r i j k := by
  have hlines : (l ++ '\n' :: r).splitOn '\n' = l :: r.splitOn '\n' :=
    List.splitOn_append_cons_self_of_not_mem h r
  constructor
  · rintro ⟨hwithin, hpos⟩
    rw [hlines] at hwithin hpos
    rw [List.take_succ_cons, List.flatten_cons, List.length_append] at hpos
    exact ⟨_, by omega, hwithin, rfl⟩
  · rintro ⟨k, rfl, hwithin, rfl⟩
    refine ⟨by rw [hlines]; exact hwithin, ?_⟩
    rw [hlines, List.take_succ_cons, List.flatten_cons, List.length_append]
    omega

namespace StandsAt

/-- What stands in the lines of a text stands within the text. -/
theorem pos_le (h : StandsAt text i j pos) : pos ≤ text.length := by
  induction text using line_induction generalizing i pos with
  | last l hl =>
    obtain ⟨-, hj, rfl⟩ := (standsAt_last_iff hl).mp h
    exact hj
  | line l r hl ih =>
    rw [List.length_append, List.length_cons]
    cases i with
    | zero =>
      obtain ⟨hj, rfl⟩ := (standsAt_line_zero_iff hl).mp h
      omega
    | succ i =>
      obtain ⟨k, rfl, hk⟩ := (standsAt_line_succ_iff hl).mp h
      have := ih hk
      omega

/-- Positions are ordered by their lines, and on one line by the characters in front of them. -/
theorem lt_iff (h : StandsAt text i j pos) (h' : StandsAt text i' j' pos') :
    pos < pos' ↔ i < i' ∨ i = i' ∧ j < j' := by
  induction text using line_induction generalizing i i' pos pos' with
  | last l hl =>
    obtain ⟨rfl, -, rfl⟩ := (standsAt_last_iff hl).mp h
    obtain ⟨rfl, -, rfl⟩ := (standsAt_last_iff hl).mp h'
    omega
  | line l r hl ih =>
    cases i with
    | zero =>
      obtain ⟨hj, rfl⟩ := (standsAt_line_zero_iff hl).mp h
      cases i' with
      | zero =>
        obtain ⟨hj', rfl⟩ := (standsAt_line_zero_iff hl).mp h'
        omega
      | succ i' =>
        obtain ⟨k', rfl, -⟩ := (standsAt_line_succ_iff hl).mp h'
        omega
    | succ i =>
      obtain ⟨k, rfl, hk⟩ := (standsAt_line_succ_iff hl).mp h
      cases i' with
      | zero =>
        obtain ⟨hj', rfl⟩ := (standsAt_line_zero_iff hl).mp h'
        omega
      | succ i' =>
        obtain ⟨k', rfl, hk'⟩ := (standsAt_line_succ_iff hl).mp h'
        have := ih hk hk'
        omega

/-- At one position stands one place of the lines. -/
theorem unique (h : StandsAt text i j pos) (h' : StandsAt text i' j' pos) : i = i' ∧ j = j' := by
  have hle := h.lt_iff h'
  have hge := h'.lt_iff h
  omega

end StandsAt

/-- Every position of a text stands where its location says, lines and columns counted from one. -/
theorem standsAt_after (filename : String) (h : pos ≤ text.length) :
    ∃ i j : Nat, Location.after filename (text.take pos) = ⟨filename, i + 1, j + 1, pos⟩ ∧
      StandsAt text i j pos := by
  induction text using line_induction generalizing pos with
  | last l hl =>
    refine ⟨0, pos, ?_, (standsAt_last_iff hl).mpr ⟨rfl, h, rfl⟩⟩
    rw [Location.after_of_not_mem filename fun hm ↦ hl (List.mem_of_mem_take hm),
      List.length_take, Nat.min_eq_left h]
    rfl
  | line l r hl ih =>
    by_cases hpos : pos ≤ l.length
    · refine ⟨0, pos, ?_, (standsAt_line_zero_iff hl).mpr ⟨hpos, rfl⟩⟩
      rw [List.take_append_of_le_length hpos,
        Location.after_of_not_mem filename fun hm ↦ hl (List.mem_of_mem_take hm),
        List.length_take, Nat.min_eq_left hpos]
      rfl
    · -- the first line and its line feed are in front of the position
      obtain ⟨k, rfl⟩ : ∃ k, pos = l.length + 1 + k := ⟨pos - (l.length + 1), by omega⟩
      rw [List.length_append, List.length_cons] at h
      obtain ⟨i, j, hafter, hstands⟩ := ih (show k ≤ r.length by omega)
      refine ⟨i + 1, j, ?_, (standsAt_line_succ_iff hl).mpr ⟨k, rfl, hstands⟩⟩
      have htake : (l ++ '\n' :: r).take (l.length + 1 + k) = l ++ '\n' :: r.take k := by
        rw [Nat.add_assoc, List.take_length_add_append, Nat.add_comm, List.take_succ_cons]
      rw [htake, Location.after_line filename hl, hafter]
      simp

/-! ## Cursors -/

namespace Cursor

private theorem exists_place_iff {pos : Int} :
    (∃ c, place text pos = .ok c) ↔ 0 ≤ pos ∧ pos ≤ text.length := by
  constructor
  · rintro ⟨c, hc⟩
    obtain ⟨rfl, rfl⟩ := place_eq_ok_iff.mp hc
    have := c.pos_le
    omega
  · rintro ⟨hstart, hend⟩
    refine ⟨⟨text, pos.toNat, by omega⟩, place_eq_ok_iff.mpr ⟨rfl, ?_⟩⟩
    exact Int.toNat_of_nonneg hstart

/-- A cursor stands where its location says. -/
theorem standsAt_location (c : Cursor) (filename : String) :
    ∃ i j : Nat, c.location filename = ⟨filename, i + 1, j + 1, c.pos⟩ ∧
      StandsAt c.text i j c.pos :=
  standsAt_after filename c.pos_le

private theorem location_of_standsAt (filename : String) (h : StandsAt c.text i j c.pos) :
    c.location filename = ⟨filename, i + 1, j + 1, c.pos⟩ := by
  obtain ⟨i', j', hlocation, hstands⟩ := c.standsAt_location filename
  obtain ⟨rfl, rfl⟩ := h.unique hstands
  exact hlocation

/-- In one text, cursors are ordered as their locations are. -/
theorem lt_iff_precedes (filename : String) (h : c.text = c'.text) :
    c.pos < c'.pos ↔ (c.location filename).Precedes (c'.location filename) := by
  obtain ⟨i, j, hlocation, hstands⟩ := c.standsAt_location filename
  obtain ⟨i', j', hlocation', hstands'⟩ := c'.standsAt_location filename
  rw [h] at hstands
  rw [hlocation, hlocation', hstands.lt_iff hstands', Location.Precedes]
  dsimp only
  omega

/-- In one text, cursors with the same line and column have the same position. -/
theorem pos_eq_iff (filename : String) (h : c.text = c'.text) :
    c.pos = c'.pos ↔ (c.location filename).line = (c'.location filename).line ∧
      (c.location filename).column = (c'.location filename).column := by
  have hlt := lt_iff_precedes filename h
  have hgt := lt_iff_precedes filename h.symm
  simp only [Location.Precedes] at hlt hgt
  constructor
  · intro hpos
    have hbefore : c.before = c'.before := by rw [before, before, h, hpos]
    rw [location, location, hbefore]
    exact ⟨rfl, rfl⟩
  · intro hplace
    omega

end Cursor

/-- Locations are exact and are found again. A cursor can be placed at every position of a text and
nowhere else. Its location has the position as offset, and the line and the column that are counted
over the text in front of it, from one and one. With the text split into its lines, these are the
line and the column of the one place in the lines whose position it is, and every place in the lines
is the location of a position. So positions are ordered as lines and columns are, and distinct
positions have distinct lines or columns. -/
theorem location_exact (text : List Char) (filename : String) :
    (∀ pos : Int, (∃ c, Cursor.place text pos = .ok c) ↔ 0 ≤ pos ∧ pos ≤ text.length) ∧
    (∀ pos c, Cursor.place text pos = .ok c →
      ∃ i j : Nat, c.location filename = ⟨filename, i + 1, j + 1, pos⟩ ∧
        ((i : Int) + 1, (j : Int) + 1) = (text.take pos.toNat).foldl Location.stepOver (1, 1)) ∧
    (∀ i j pos : Nat, StandsAt text i j pos ↔
      ∃ c, Cursor.place text pos = .ok c ∧
        c.location filename = ⟨filename, i + 1, j + 1, pos⟩) ∧
    ∀ pos pos' c c', Cursor.place text pos = .ok c → Cursor.place text pos' = .ok c' →
      (pos < pos' ↔ (c.location filename).Precedes (c'.location filename)) ∧
      (pos = pos' ↔ (c.location filename).line = (c'.location filename).line ∧
        (c.location filename).column = (c'.location filename).column) := by
  refine ⟨fun pos ↦ Cursor.exists_place_iff, fun pos c hc ↦ ?_, fun i j pos ↦ ?_,
    fun pos pos' c c' hc hc' ↦ ?_⟩
  · obtain ⟨rfl, rfl⟩ := Cursor.place_eq_ok_iff.mp hc
    obtain ⟨i, j, hlocation, -⟩ := c.standsAt_location filename
    refine ⟨i, j, hlocation, ?_⟩
    have hcounted := Location.line_column_after filename c.before
    rw [← Cursor.location, hlocation] at hcounted
    exact hcounted
  · constructor
    · intro h
      have hle := h.pos_le
      obtain ⟨c, hc⟩ := Cursor.exists_place_iff.mpr
        (show 0 ≤ (pos : Int) ∧ (pos : Int) ≤ text.length by omega)
      obtain ⟨rfl, hpos⟩ := Cursor.place_eq_ok_iff.mp hc
      obtain rfl : c.pos = pos := Int.ofNat.inj hpos
      exact ⟨c, hc, Cursor.location_of_standsAt filename h⟩
    · rintro ⟨c, hc, hplace⟩
      obtain ⟨rfl, hpos⟩ := Cursor.place_eq_ok_iff.mp hc
      obtain rfl : c.pos = pos := Int.ofNat.inj hpos
      obtain ⟨i', j', hlocation, hstands⟩ := c.standsAt_location filename
      rw [hlocation, Location.mk.injEq] at hplace
      obtain rfl : i' = i := by omega
      obtain rfl : j' = j := by omega
      exact hstands
  · obtain ⟨rfl, rfl⟩ := Cursor.place_eq_ok_iff.mp hc
    obtain ⟨htext, rfl⟩ := Cursor.place_eq_ok_iff.mp hc'
    rw [Int.ofNat_lt, Int.natCast_inj]
    exact ⟨Cursor.lt_iff_precedes filename htext.symm, Cursor.pos_eq_iff filename htext.symm⟩

/-- A position on an empty line, and one on the line behind it. -/
theorem location_exact_empty_line :
    let text := "ab\n\ncd".toList
    ∃ c c' : Cursor, Cursor.place text 5 = .ok c ∧ Cursor.place text 3 = .ok c' ∧
      c.location "f" = ⟨"f", 3, 2, 5⟩ ∧ StandsAt text 2 1 5 ∧ StandsAt text 1 0 3 ∧
      (c'.location "f").Precedes (c.location "f") := by
  intro text
  obtain ⟨-, -, hstands, horder⟩ := location_exact text "f"
  have hc : Cursor.place text 5 = .ok ⟨text, 5, by decide⟩ := rfl
  have hc' : Cursor.place text 3 = .ok ⟨text, 3, by decide⟩ := rfl
  exact ⟨_, _, hc, hc', rfl, (hstands 2 1 5).mpr ⟨_, hc, rfl⟩, (hstands 1 0 3).mpr ⟨_, hc', rfl⟩,
    (horder 3 5 _ _ hc' hc).1.mp (by decide)⟩

end WhileSyntax.Source
