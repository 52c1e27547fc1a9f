import Mathlib.Data.Nat.Digits.Defs
import WhileSyntax.Proofs.Grammar.Words
import WhileSyntax.Proofs.Parser.Halting
import WhileSyntax.Proofs.Printer.Levels
import WhileSyntax.Proofs.Text.Erasure

/-!
# Numbers are whole runs of digits

Behind the white space at a cursor stands a longest run of digits, or none (`DigitsAt`). A number is
read as that whole run or not at all: a run is never split, whatever follows it, and a run beyond
the limit is a fault that counts all of its digits. The value of a run goes by the places of its
digits, and is printed as the run without the zeros in front (`toDigits_placeValue`). So what is
printed for a number is read as that number in front of anything but another digit
(`reads_longest_digits`).
-/

namespace WhileSyntax.Grammar

open WhileSyntax.Parser
open Source (Cursor)

variable {digits digits' : List Char} {c e e' : Cursor}

/-! ## Values of runs of digits -/

/-- Number that a run of digits denotes in base ten, the last digit counting ones. -/
def placeValue (digits : List Char) : Nat :=
  Nat.ofDigits 10 (digits.reverse.map fun ch ↦ ch.toNat - '0'.toNat)

/-- A run of digits without the zeros in front. Of zeros alone one is left. -/
def withoutZeros (digits : List Char) : List Char :=
  match digits.dropWhile (· == '0') with
  | [] => ['0']
  | ch :: rest => ch :: rest

private theorem ofDigitChars_eq_placeValue (digits : List Char) :
    Nat.ofDigitChars 10 digits 0 = placeValue digits := by
  induction digits using List.reverseRecOn with
  | nil => rfl
  | append_singleton digits ch ih =>
    rw [Nat.ofDigitChars_append, ih, Nat.ofDigitChars_cons, Nat.ofDigitChars_nil, placeValue,
      placeValue, List.reverse_append, List.reverse_singleton, List.singleton_append,
      List.map_cons, Nat.ofDigits_cons]
    exact Nat.add_comm _ _

/-- The shortest numeral of the number of a run is the run without the zeros in front. -/
theorem toDigits_placeValue (h : ∀ ch ∈ digits, ch.isDigit = true) :
    Nat.toDigits 10 (placeValue digits) = withoutZeros digits := by
  rw [← ofDigitChars_eq_placeValue]
  induction digits with
  | nil => rfl
  | cons ch digits ih =>
    by_cases hzero : ch = '0'
    · subst hzero
      exact ih fun d hd ↦ h d (List.mem_cons_of_mem _ hd)
    · have hdrop : withoutZeros (ch :: digits) = ch :: digits := by
        rw [withoutZeros, List.dropWhile_cons_of_neg (by simpa using hzero)]
      rw [hdrop]
      -- no zero can stand in front of the numeral
      obtain ⟨k, hk⟩ := Text.exists_zeros_append (List.cons_ne_nil ch digits) h
      cases k with
      | zero => exact hk.symm
      | succ k => exact absurd (List.cons.inj hk).1 hzero

/-! ## Runs of digits at cursors -/

/-- `digits` is the longest run of digits behind the white space at `c`, if need be the empty one,
and ends at `e`. -/
structure DigitsAt (c : Cursor) (digits : List Char) (e : Cursor) : Prop where
  digit : ∀ ch ∈ digits, ch.isDigit = true
  text : e.text = c.text
  split : skipBlank c.remaining = digits ++ e.remaining
  stops : Stops Char.isDigit e.remaining

namespace DigitsAt

/-- At every cursor stands a longest run of digits. -/
theorem exists_digitsAt (c : Cursor) : ∃ digits e, DigitsAt c digits e := by
  obtain ⟨e, htext, -, hrest⟩ := exists_end_of_front (c := c)
    (List.takeWhile_append_dropWhile (p := Char.isDigit) (l := skipBlank c.remaining)).symm
  refine ⟨(skipBlank c.remaining).takeWhile Char.isDigit, e, fun _ ↦ List.mem_takeWhile_imp, htext,
    ?_, ?_⟩
  · rw [hrest, List.takeWhile_append_dropWhile]
  · rw [hrest]
    exact stops_dropWhile Char.isDigit _

private theorem length_le (h : DigitsAt c digits e) (h' : DigitsAt c digits' e') :
    digits'.length ≤ digits.length := by
  apply length_le_of_stops h.stops _ h'.digit
  rw [← h.split, h'.split]
  exact List.prefix_append _ _

/-- There is one longest run of digits, and one cursor at its end. -/
theorem unique (h : DigitsAt c digits e) (h' : DigitsAt c digits' e') :
    digits' = digits ∧ e' = e := by
  have hlength : digits'.length = digits.length := Nat.le_antisymm (h.length_le h') (h'.length_le h)
  obtain ⟨hdigits, hrest⟩ := List.append_inj (h'.split.symm.trans h.split) hlength
  exact ⟨hdigits, Cursor.eq_of_remaining (h'.text.trans h.text.symm) hrest⟩

/-- A run of digits ends behind the white space and as many characters as it has digits. -/
theorem pos_eq (h : DigitsAt c digits e) :
    e.pos = c.pos + (c.remaining.takeWhile Text.isBlank).length + digits.length := by
  obtain ⟨e', htext, hpos, hrest⟩ := exists_end_of_front h.split
  rw [Cursor.eq_of_remaining (h.text.trans htext.symm) hrest.symm, hpos]

/-- A number is the value of the longest run of digits. There is none where there is no digit, and
a run beyond the limit is a fault. -/
theorem runAt_number (h : DigitsAt c digits e) : number.runAt c =
    if digits = [] then .fail
    else if digits.length ≤ Text.Decimal.digitLimit then .ok (placeValue digits) e
    else .fault (.numeral (.tooLongToRead digits.length)) := by
  by_cases hnil : digits = []
  · have hstop : Stops Char.isDigit (skipBlank c.remaining) := by
      rw [h.split, hnil]
      exact h.stops
    rw [if_pos hnil]
    exact runAt_eq_fail_iff.mpr (run_number_eq_fail hstop)
  · have htoken : Token digits c.remaining e.remaining :=
      (Token.iff_skipBlank (isSolid_of_digits hnil h.digit)).mpr h.split
    rw [if_neg hnil]
    by_cases hlimit : digits.length ≤ Text.Decimal.digitLimit
    · have hread : number.Reads c.remaining (placeValue digits) e.remaining :=
        reads_number_iff.mpr ⟨digits, hnil, h.digit, hlimit, ofDigitChars_eq_placeValue digits,
          htoken, h.stops⟩
      obtain ⟨r, hrun, hrest⟩ := hread.exists_runAt
      have htext := (runAt_eq_ok_iff.mp hrun).1
      rw [if_pos hlimit, hrun, Cursor.eq_of_remaining (htext.trans h.text.symm) hrest]
    · rw [if_neg hlimit]
      exact runAt_eq_fault_iff.mpr (haltsWith_number_iff.mpr ⟨digits, e.remaining,
        ⟨hnil, h.digit, Nat.lt_of_not_le hlimit, htoken, h.stops⟩, rfl⟩)

end DigitsAt

/-! ## Numbers and their numerals -/

private theorem printInside_placeValue (hnil : digits ≠ []) (h : ∀ ch ∈ digits, ch.isDigit = true)
    (hlimit : digits.length ≤ Text.Decimal.digitLimit) (context : Int) :
    (Tree.const (placeValue digits)).printInside context = .ok (withoutZeros digits) := by
  have hle := Text.length_toDigits_le hnil h
  rw [ofDigitChars_eq_placeValue] at hle
  apply Tree.printInside_const_iff.mpr
  rw [Text.Decimal.numeral_natCast, toDigits_placeValue h]
  exact ⟨Nat.le_trans hle hlimit, rfl⟩

private theorem write_of_lt {n : Nat} (hn : n < 10 ^ Text.Decimal.digitLimit) :
    Text.Decimal.write n = .ok (Nat.toDigits 10 n) := by
  apply Text.Decimal.write_eq_ok_iff.mpr
  rw [Text.Decimal.numeral_natCast]
  exact ⟨(Nat.length_toDigits_le_iff (by decide) (by decide)).mpr hn, rfl⟩

private theorem reads_number_of_write {n : Nat} {text f : List Char}
    (h : Text.Decimal.write n = .ok text) (hf : Stops Char.isDigit f) :
    number.Reads (text ++ f) n f := by
  obtain ⟨hlimit, rfl⟩ := Text.Decimal.write_eq_ok_iff.mp h
  rw [Text.Decimal.numeral_natCast]
  exact reads_number_iff.mpr (numeral_toDigits hlimit blank_nil hf)

/-- Numbers are read exactly. Behind the white space at every cursor stands one longest run of
digits, if need be the empty one. Where it is empty no number is read, where it has more digits than
the limit allows the run ends with a fault that counts them all, and everywhere else the number is
the value of the whole run in base ten and ends where the run does. That value is printed as the run
without the zeros in front. In the other direction, every number within the limit is written, and
what is written is read as the number in front of any text that begins with no digit. -/
theorem reads_longest_digits :
    (∀ c : Cursor, ∃ digits e, DigitsAt c digits e ∧
      (∀ digits' e', DigitsAt c digits' e' → digits' = digits ∧ e' = e) ∧
      e.pos = c.pos + (c.remaining.takeWhile Text.isBlank).length + digits.length ∧
      number.runAt c =
        (if digits = [] then .fail
        else if digits.length ≤ Text.Decimal.digitLimit then .ok (placeValue digits) e
        else .fault (.numeral (.tooLongToRead digits.length))) ∧
      (digits ≠ [] → digits.length ≤ Text.Decimal.digitLimit → ∀ context,
        (Tree.const (placeValue digits)).printInside context = .ok (withoutZeros digits))) ∧
    (∀ n : Nat, n < 10 ^ Text.Decimal.digitLimit →
      ∃ text, Text.Decimal.write n = .ok text ∧
        ∀ f, Stops Char.isDigit f → number.Reads (text ++ f) n f) ∧
    ∀ n, (Fault.numeral (.tooLongToRead n)).message =
      "Exceeds the limit (4300 digits) for integer string conversion: value has " ++
        s!"{n} digits; use sys.set_int_max_str_digits() to increase the limit" := by
  refine ⟨fun c ↦ ?_,
    fun n hn ↦ ⟨_, write_of_lt hn, fun f ↦ reads_number_of_write (write_of_lt hn)⟩, fun n ↦ rfl⟩
  obtain ⟨digits, e, h⟩ := DigitsAt.exists_digitsAt c
  exact ⟨digits, e, h, fun _ _ ↦ h.unique, h.pos_eq, h.runAt_number,
    fun hnil ↦ printInside_placeValue hnil h.digit⟩

/-- Zeros in front count for the end of a number and not for its value, and a digit of another
script does not go on with it. -/
theorem reads_longest_digits_zeros :
    let text := " 007\u0663".toList
    let c : Cursor := ⟨text, 0, by decide⟩
    number.runAt c = .ok 7 ⟨text, 4, by decide⟩ ∧
      (Tree.const 7).printInside 0 = .ok ['7'] ∧
      number.Reads "120\u0663".toList 120 ['\u0663'] := by
  intro text c
  obtain ⟨hcursor, hwritten, -⟩ := reads_longest_digits
  obtain ⟨digits, e, -, hunique, hpos, hrun, hprint⟩ := hcursor c
  have hdigits : DigitsAt c "007".toList ⟨text, 4, by decide⟩ :=
    ⟨List.all_eq_true.mp rfl, rfl, by decide +kernel, stops_cons.mpr (by decide)⟩
  obtain ⟨rfl, rfl⟩ := hunique _ _ hdigits
  obtain ⟨written, hwrite, hread⟩ := hwritten 120
    (Nat.lt_of_lt_of_le (show 120 < 10 ^ 3 by decide)
      (Nat.pow_le_pow_right (by decide) (by decide)))
  obtain rfl : "120".toList = written := Except.ok.inj hwrite
  exact ⟨hrun, hprint (by decide) (by decide) 0, hread _ (stops_cons.mpr (by decide))⟩

end WhileSyntax.Grammar
