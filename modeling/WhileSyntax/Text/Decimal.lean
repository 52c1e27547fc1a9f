/-!
# Decimal numerals

Whole numbers are read from and written as runs of the ten ASCII digits. Both directions refuse
numerals of more than `digitLimit` digits: reading counts leading zeros, writing does not count the
sign.

Main statement: what is written for a natural number reads back as that number
(`read_of_write_natCast`).
-/

namespace WhileSyntax.Text.Decimal

/-- The most digits a numeral may have. -/
def digitLimit : Nat := 4300

/-- The digits, in order of their value. -/
def digitCharacters : String := "0123456789"

/-- Why a numeral is refused. -/
inductive NumeralError where
  /-- a run of this many digits is too long to read -/
  | tooLongToRead (digits : Nat)
  /-- a number has too many digits to write -/
  | tooLongToWrite
  deriving DecidableEq, Repr

/-- Text of a numeral error. -/
def NumeralError.message : NumeralError → String
  | tooLongToRead digits =>
    s!"Exceeds the limit ({digitLimit} digits) for integer string conversion: value has " ++
      s!"{digits} digits; use sys.set_int_max_str_digits() to increase the limit"
  | tooLongToWrite =>
    s!"Exceeds the limit ({digitLimit} digits) for integer string conversion; " ++
      "use sys.set_int_max_str_digits() to increase the limit"

/-- Number denoted by a run of digits, the empty run denoting zero. -/
def read (digits : List Char) : Except NumeralError Nat :=
  if digits.length ≤ digitLimit then .ok (Nat.ofDigitChars 10 digits 0)
  else .error (.tooLongToRead digits.length)

/-- Shortest numeral of a number, with a minus sign in front of a negative one. -/
def numeral (n : Int) : List Char :=
  (if n < 0 then ['-'] else []) ++ Nat.toDigits 10 n.natAbs

/-- Numeral of a number that has no more digits than the limit allows. -/
def write (n : Int) : Except NumeralError (List Char) :=
  if (Nat.toDigits 10 n.natAbs).length ≤ digitLimit then .ok (numeral n)
  else .error .tooLongToWrite

/-- The digits are the ASCII digits. -/
theorem mem_digitCharacters_iff {c : Char} : c ∈ digitCharacters.toList ↔ c.isDigit = true := by
  have hl : digitCharacters.toList = (List.range' 48 10).map Char.ofNat := by decide
  rw [hl]
  constructor
  · intro h
    obtain ⟨n, hn, rfl⟩ := List.mem_map.mp h
    rw [List.mem_range'_1] at hn
    have : n = 48 ∨ n = 49 ∨ n = 50 ∨ n = 51 ∨ n = 52 ∨ n = 53 ∨ n = 54 ∨ n = 55 ∨ n = 56 ∨
        n = 57 := by omega
    rcases this with rfl | rfl | rfl | rfl | rfl | rfl | rfl | rfl | rfl | rfl <;> decide
  · intro h
    simp only [Char.isDigit, Bool.and_eq_true, decide_eq_true_eq, ge_iff_le,
      UInt32.le_iff_toNat_le] at h
    refine List.mem_map.mpr ⟨c.toNat, List.mem_range'_1.mpr ?_, Char.ofNat_toNat c⟩
    have h0 : '0'.val.toNat = 48 := rfl
    have h9 : '9'.val.toNat = 57 := rfl
    have hc : c.val.toNat = c.toNat := rfl
    omega

/-- Natural numbers are written without a sign. -/
theorem numeral_natCast (n : Nat) : numeral n = Nat.toDigits 10 n := by
  have h : ¬(n : Int) < 0 := by omega
  simp [numeral, h]

/-- Writing is unchanged by the sign apart from the minus in front. -/
theorem write_eq_ok_iff {n : Int} {digits : List Char} :
    write n = .ok digits ↔
      (Nat.toDigits 10 n.natAbs).length ≤ digitLimit ∧ digits = numeral n := by
  unfold write
  split
  · next h => simp [h, eq_comm]
  · next h => simp [h]

/-- What is written for a natural number reads back as that number. -/
theorem read_of_write_natCast {n : Nat} {digits : List Char} (h : write n = .ok digits) :
    read digits = .ok n := by
  obtain ⟨hl, rfl⟩ := write_eq_ok_iff.mp h
  rw [Int.natAbs_natCast] at hl
  rw [numeral_natCast, read, if_pos hl, Nat.ofDigitChars_toDigits (by decide) (by decide)]

end WhileSyntax.Text.Decimal
