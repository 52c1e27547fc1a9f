import Mathlib.Data.List.TakeWhile
import WhileSyntax.Text.Decimal
import WhileSyntax.Text.Word

/-!
# Tokens of a text

The tokens of the language as they stand in a text: `Token t s r` says that `s` is white space, then
`t`, then `r`. Names and keywords are whole words, numerals are whole runs of digits, so both depend
on the character behind them; punctuation does not.
-/

namespace WhileSyntax.Grammar

/-- White space and nothing else. -/
def Blank (u : List Char) : Prop := ∀ c ∈ u, Text.isBlank c = true

/-- A text that does not begin with a character of a class. -/
def Stops (test : Char → Bool) (r : List Char) : Prop := ∀ c ∈ r.head?, test c = false

/-- Behind any white space `s` begins with `t`, and `r` follows. -/
def Token (t s r : List Char) : Prop := ∃ u, Blank u ∧ s = u ++ t ++ r

/-- A word that can be a name. -/
def IsName (x : String) : Prop := Text.isWord x.toList = true ∧ Text.isReserved x = false

/-- A name at the front of `s`, with `r` behind it. -/
def Name (x : String) (s r : List Char) : Prop :=
  IsName x ∧ Token x.toList s r ∧ Stops Text.isWordPart r

/-- A particular word at the front of `s`, with `r` behind it. -/
def Keyword (k : String) (s r : List Char) : Prop :=
  Token k.toList s r ∧ Stops Text.isWordPart r

/-- Numeral of `n` at the front of `s`, with `r` behind it. -/
def Numeral (n : Nat) (s r : List Char) : Prop :=
  ∃ digits, digits ≠ [] ∧ (∀ c ∈ digits, c.isDigit = true) ∧
    digits.length ≤ Text.Decimal.digitLimit ∧ Nat.ofDigitChars 10 digits 0 = n ∧
    Token digits s r ∧ Stops Char.isDigit r

/-- Text behind the white space in front. -/
def skipBlank (s : List Char) : List Char := s.dropWhile Text.isBlank

/-- First character behind the white space in front. -/
def front (s : List Char) : Option Char := (skipBlank s).head?

/-- Whether a text begins with something else than white space. -/
def isSolid : List Char → Bool
  | [] => false
  | c :: _ => !Text.isBlank c

/-! ## Runs of one class -/

/-- Nothing is white space. -/
theorem blank_nil : Blank [] := fun _ hc ↦ absurd hc List.not_mem_nil

/-- One character of white space. -/
theorem blank_singleton {c : Char} (hc : Text.isBlank c = true) : Blank [c] :=
  List.forall_mem_singleton.mpr hc

/-- White space may stand behind white space. -/
theorem blank_append {u v : List Char} (hu : Blank u) (hv : Blank v) : Blank (u ++ v) := by
  intro c hc
  rcases List.mem_append.mp hc with hc | hc
  · exact hu c hc
  · exact hv c hc

/-- The end of a text begins with nothing. -/
theorem stops_nil (test : Char → Bool) : Stops test [] := nofun

/-- One character decides how a text begins. -/
theorem stops_cons {test : Char → Bool} {c : Char} {r : List Char} :
    Stops test (c :: r) ↔ test c = false := by
  simp [Stops]

/-- What is left behind the longest run of a class. -/
theorem drop_length_takeWhile (test : Char → Bool) (s : List Char) :
    s.drop (s.takeWhile test).length = s.dropWhile test := by
  have h := List.takeWhile_append_dropWhile (p := test) (l := s)
  calc s.drop (s.takeWhile test).length
      = (s.takeWhile test ++ s.dropWhile test).drop (s.takeWhile test).length := by rw [h]
    _ = s.dropWhile test := List.drop_left

/-- Where a run of a class ends, the class ends. -/
theorem stops_dropWhile (test : Char → Bool) (s : List Char) : Stops test (s.dropWhile test) := by
  intro c hc
  have := List.head?_dropWhile_not test s
  rw [Option.mem_def.mp hc] at this
  exact this

/-! ## White space in front -/

/-- White space in front of a text can be left out. -/
theorem skipBlank_append {u : List Char} (hu : Blank u) (s : List Char) :
    skipBlank (u ++ s) = skipBlank s :=
  List.dropWhile_append_of_pos hu

/-- White space alone is skipped to the end. -/
theorem skipBlank_eq_nil_iff {s : List Char} : skipBlank s = [] ↔ Blank s :=
  List.dropWhile_eq_nil_iff

/-- A text is white space and the text behind it. -/
theorem exists_blank_append (s : List Char) : ∃ u, Blank u ∧ s = u ++ skipBlank s :=
  ⟨s.takeWhile Text.isBlank, fun _ hc ↦ List.mem_takeWhile_imp hc,
    List.takeWhile_append_dropWhile.symm⟩

private theorem skipBlank_of_isSolid {t : List Char} (ht : isSolid t = true) (r : List Char) :
    skipBlank (t ++ r) = t ++ r := by
  cases t with
  | nil => cases ht
  | cons c t =>
    have hc : Text.isBlank c = false := by simpa [isSolid] using ht
    exact List.dropWhile_cons_of_neg (by simp [hc])

namespace Token

/-- A solid token is what stands behind the white space. -/
theorem iff_skipBlank {t s r : List Char} (ht : isSolid t = true) :
    Token t s r ↔ skipBlank s = t ++ r := by
  constructor
  · rintro ⟨u, hu, rfl⟩
    rw [List.append_assoc, skipBlank_append hu, skipBlank_of_isSolid ht]
  · intro h
    obtain ⟨u, hu, hs⟩ := exists_blank_append s
    exact ⟨u, hu, by rw [List.append_assoc, ← h]; exact hs⟩

/-- A solid token leaves one rest. -/
theorem unique {t s r r' : List Char} (h : Token t s r) (h' : Token t s r')
    (ht : isSolid t = true) : r = r' :=
  List.append_cancel_left (((iff_skipBlank ht).mp h).symm.trans ((iff_skipBlank ht).mp h'))

/-- A token brings its first character to the front. -/
theorem front {c : Char} {t s r : List Char} (h : Token (c :: t) s r)
    (hc : Text.isBlank c = false) : front s = some c := by
  have ht : isSolid (c :: t) = true := by simp [isSolid, hc]
  rw [Grammar.front, (iff_skipBlank ht).mp h]
  rfl

/-- White space and a token stand in front of the rest. -/
theorem of_append {u t r : List Char} (hu : Blank u) : Token t (u ++ (t ++ r)) r :=
  ⟨u, hu, (List.append_assoc _ _ _).symm⟩

/-- What a token leaves is the end of the text. -/
theorem suffix {t s r : List Char} (h : Token t s r) : r <:+ s := by
  obtain ⟨u, -, rfl⟩ := h
  exact List.suffix_append _ _

/-- A token with a character shortens the text. -/
theorem length_lt {t s r : List Char} (h : Token t s r) (ht : t ≠ []) : r.length < s.length := by
  obtain ⟨u, -, rfl⟩ := h
  have := List.length_pos_iff.mpr ht
  simp only [List.length_append]
  omega

end Token

/-! ## Words and digits -/

/-- What may stand in a word is no white space. -/
theorem isBlank_eq_false_of_isWordPart {c : Char} (h : Text.isWordPart c = true) :
    Text.isBlank c = false := by
  by_cases hb : Text.isBlank c = true
  · rw [Text.isWordPart_eq_false_of_isBlank hb] at h
    cases h
  · exact Bool.not_eq_true _ ▸ hb

/-- Words begin with a letter. -/
theorem isSolid_of_isWord {w : List Char} (h : Text.isWord w = true) : isSolid w = true := by
  cases w with
  | nil => cases h
  | cons c w =>
    have hc := Text.isWordPart_of_mem_of_isWord h List.mem_cons_self
    simp [isSolid, isBlank_eq_false_of_isWordPart hc]

/-- Numerals begin with a digit. -/
theorem isSolid_of_digits {digits : List Char} (hne : digits ≠ [])
    (hd : ∀ c ∈ digits, c.isDigit = true) : isSolid digits = true := by
  cases digits with
  | nil => exact absurd rfl hne
  | cons c digits =>
    have hc := Text.isWordPart_of_isDigit (hd c List.mem_cons_self)
    simp [isSolid, isBlank_eq_false_of_isWordPart hc]

/-- Where no word goes on, no number does. -/
theorem Stops.digit {f : List Char} (h : Stops Text.isWordPart f) : Stops Char.isDigit f := by
  intro c hc
  by_contra hd
  rw [Bool.not_eq_false] at hd
  have := h c hc
  rw [Text.isWordPart_of_isDigit hd] at this
  cases this

/-- What may begin a word is no white space. -/
theorem isBlank_eq_false_of_isWordStart {c : Char} (h : Text.isWordStart c = true) :
    Text.isBlank c = false :=
  isBlank_eq_false_of_isWordPart (Text.isWordPart_of_isWordStart h)

/-- No word begins with a digit. -/
theorem isWordStart_eq_false_of_isDigit {c : Char} (h : c.isDigit = true) :
    Text.isWordStart c = false := by
  have hr : Text.inRanges [(0x30, 0x39)] c.toNat = true := by
    simp only [Char.isDigit, Bool.and_eq_true, decide_eq_true_eq, ge_iff_le,
      UInt32.le_iff_toNat_le] at h
    exact Text.inRanges_of_mem (show Text.ascendFrom 0 _ = true by decide) List.mem_cons_self h
  exact Text.inRanges_eq_false_of_apart (by decide +kernel) hr

/-- A word brings a letter to the front. -/
theorem Token.front_of_isWord {t s r : List Char} (hw : Text.isWord t = true) (h : Token t s r) :
    ∃ c, Grammar.front s = some c ∧ Text.isWordStart c = true := by
  cases t with
  | nil => cases hw
  | cons c cs =>
    have hc : Text.isWordStart c = true := (Bool.and_eq_true_iff.mp hw).1
    exact ⟨c, h.front (isBlank_eq_false_of_isWordStart hc), hc⟩

/-- A name has a letter at the front. -/
theorem Name.front {x : String} {s r : List Char} (h : Name x s r) :
    ∃ c, front s = some c ∧ Text.isWordStart c = true :=
  h.2.1.front_of_isWord h.1.1

/-- A numeral has a digit at the front. -/
theorem Numeral.front {n : Nat} {s r : List Char} (h : Numeral n s r) :
    ∃ c, front s = some c ∧ c.isDigit = true := by
  obtain ⟨digits, hne, hall, -, -, ht, -⟩ := h
  cases digits with
  | nil => exact absurd rfl hne
  | cons c cs =>
    have hc := hall c List.mem_cons_self
    have hb := isBlank_eq_false_of_isWordPart (Text.isWordPart_of_isDigit hc)
    exact ⟨c, ht.front hb, hc⟩

end WhileSyntax.Grammar
