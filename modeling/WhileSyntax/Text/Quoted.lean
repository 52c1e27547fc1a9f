import WhileSyntax.Text.Printable

/-!
# Quoted text

Text inside messages is written between quotation marks, on one line and with printable characters
only. The mark is an apostrophe unless the text has an apostrophe and no double quote. The mark and
the backslash are written after a backslash, line feed, carriage return and tab as letters after
one, and every other unprintable character as its code point in two, four or eight hexadecimal
digits.

Main statement: quoted text is printable throughout (`isPrintable_of_mem_quoteChars`).
-/

namespace WhileSyntax.Text.Quoted

/-- The last `width` hexadecimal digits of a number. -/
def hexDigits : (width : Nat) → Nat → List Char
  | 0, _ => []
  | width + 1, n => hexDigits width (n / 16) ++ [Nat.digitChar (n % 16)]

/-- Code point of an unprintable character, in the narrowest form that holds it. -/
def escapeCodePoint (n : Nat) : List Char :=
  if n < 0x100 then '\\' :: 'x' :: hexDigits 2 n
  else if n < 0x10000 then '\\' :: 'u' :: hexDigits 4 n
  else '\\' :: 'U' :: hexDigits 8 n

/-- Written form of one character between marks. -/
def escapeChar (mark c : Char) : List Char :=
  if c = mark ∨ c = '\\' then ['\\', c]
  else if c = '\n' then ['\\', 'n']
  else if c = '\r' then ['\\', 'r']
  else if c = '\t' then ['\\', 't']
  else if isPrintable c then [c]
  else escapeCodePoint c.toNat

/-- The mark that needs no escape, where there is one, and the apostrophe otherwise. -/
def markFor (s : List Char) : Char :=
  if s.contains '\'' && !s.contains '"' then '"' else '\''

/-- Text between its marks. -/
def quoteChars (s : List Char) : List Char :=
  markFor s :: s.flatMap (escapeChar (markFor s)) ++ [markFor s]

/-- Text between its marks, as a string. -/
def quote (s : String) : String := String.ofList (quoteChars s.toList)

private theorem markFor_eq (s : List Char) : markFor s = '\'' ∨ markFor s = '"' := by
  unfold markFor
  split
  · exact .inr rfl
  · exact .inl rfl

private theorem isPrintable_of_mem_hexDigits {width n : Nat} {c : Char}
    (h : c ∈ hexDigits width n) : isPrintable c = true := by
  have key : ∀ m < 16, isPrintable (Nat.digitChar m) = true := by decide
  induction width generalizing n with
  | zero => simp [hexDigits] at h
  | succ width ih =>
    rcases List.mem_append.mp h with h | h
    · exact ih h
    · rw [List.mem_singleton.mp h]
      exact key _ (Nat.mod_lt _ (by decide))

private theorem isPrintable_of_mem_escapeCodePoint {n : Nat} {c : Char}
    (h : c ∈ escapeCodePoint n) : isPrintable c = true := by
  have start : ∀ {mark : Char} {width : Nat}, isPrintable mark = true →
      c ∈ '\\' :: mark :: hexDigits width n → isPrintable c = true := by
    intro mark width hm h
    rcases List.mem_cons.mp h with rfl | h
    · decide
    · rcases List.mem_cons.mp h with rfl | h
      · exact hm
      · exact isPrintable_of_mem_hexDigits h
  unfold escapeCodePoint at h
  split at h
  · exact start (by decide) h
  · split at h
    · exact start (by decide) h
    · exact start (by decide) h

private theorem isPrintable_of_mem_escapeChar {mark c d : Char} (hm : isPrintable mark = true)
    (h : d ∈ escapeChar mark c) : isPrintable d = true := by
  have pair : ∀ {e : Char}, isPrintable e = true → d ∈ ['\\', e] → isPrintable d = true := by
    intro e he hd
    rcases List.mem_cons.mp hd with rfl | hd
    · decide
    · rw [List.mem_singleton.mp hd]
      exact he
  unfold escapeChar at h
  split at h
  · next hc =>
    rcases hc with rfl | rfl
    · exact pair hm h
    · exact pair (by decide) h
  · split at h
    · exact pair (by decide) h
    · split at h
      · exact pair (by decide) h
      · split at h
        · exact pair (by decide) h
        · split at h
          · next hp =>
            rw [List.mem_singleton.mp h]
            exact hp
          · exact isPrintable_of_mem_escapeCodePoint h

/-- Quoted text is printable throughout, so it stays on one line. -/
theorem isPrintable_of_mem_quoteChars {s : List Char} {c : Char} (h : c ∈ quoteChars s) :
    isPrintable c = true := by
  have hm : isPrintable (markFor s) = true := by
    rcases markFor_eq s with hm | hm <;> rw [hm] <;> decide
  simp only [quoteChars, List.cons_append, List.mem_cons, List.mem_append, List.mem_flatMap,
    List.not_mem_nil, or_false] at h
  rcases h with rfl | ⟨d, _, hd⟩ | rfl
  · exact hm
  · exact isPrintable_of_mem_escapeChar hm hd
  · exact hm

end WhileSyntax.Text.Quoted
