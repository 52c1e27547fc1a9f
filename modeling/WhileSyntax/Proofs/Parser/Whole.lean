import WhileSyntax.Parser.Whole
import WhileSyntax.Proofs.Parser.Bounded
import WhileSyntax.Proofs.Parser.Deepening
import WhileSyntax.Proofs.Parser.Lexeme

/-!
# Reading whole texts

A whole text is accepted when a parser reads it and leaves nothing but white space.
-/

namespace WhileSyntax.Parser

open WhileSyntax.Grammar (Blank skipBlank skipBlank_eq_nil_iff)

variable {α : Type} {p : Parser α} {text r : List Char} {v : α} {used : Nat}

/-! ## Prefixes -/

/-- A run on a prefix is the run of the parser, with the white space behind its match. -/
theorem readPrefix_eq (p : Parser α) (text : List Char) :
    p.readPrefix text =
      match p.run text with
      | .ok v n => .ok v (n + ((text.drop n).takeWhile Text.isBlank).length)
      | .fail => .fail
      | .tooDeep => .tooDeep
      | .fault why => .fault why := by
  unfold readPrefix
  rw [run_skip]
  cases p.run text <;> rfl

/-- A prefix is the match of the parser and the white space behind it. -/
theorem readPrefix_eq_ok_iff : p.readPrefix text = .ok v used ↔
    ∃ n, p.run text = .ok v n ∧ used = n + ((text.drop n).takeWhile Text.isBlank).length := by
  rw [readPrefix_eq]
  cases p.run text with
  | ok w n =>
    simp only [Reply.ok.injEq]
    constructor
    · rintro ⟨rfl, rfl⟩
      exact ⟨n, ⟨rfl, rfl⟩, rfl⟩
    · rintro ⟨_, ⟨rfl, rfl⟩, rfl⟩
      exact ⟨rfl, rfl⟩
  | _ => simp

/-- A prefix has no parse where the parser fails. -/
theorem readPrefix_eq_fail_iff : p.readPrefix text = .fail ↔ p.run text = .fail := by
  rw [readPrefix_eq]
  cases p.run text <;> simp

/-- A prefix nests too deeply where the run of the parser does. -/
theorem readPrefix_eq_tooDeep_iff : p.readPrefix text = .tooDeep ↔ p.run text = .tooDeep := by
  rw [readPrefix_eq]
  cases p.run text <;> simp

/-- A prefix has the faults of the parser. -/
theorem readPrefix_eq_fault_iff {why : Fault} :
    p.readPrefix text = .fault why ↔ p.run text = .fault why := by
  rw [readPrefix_eq]
  cases p.run text <;> simp

/-- A prefix is read up to the end of the white space behind it. -/
theorem readPrefix_of_reads (h : p.Reads text v r) :
    p.readPrefix text = .ok v (text.length - (skipBlank r).length) := by
  obtain ⟨t, rfl, hr⟩ := h
  have hl := congrArg List.length (List.takeWhile_append_dropWhile (p := Text.isBlank) (l := r))
  refine readPrefix_eq_ok_iff.mpr ⟨t.length, hr, ?_⟩
  rw [List.length_append] at hl
  rw [List.drop_left, List.length_append, skipBlank]
  omega

/-! ## Whole texts -/

/-- A whole text is accepted when nothing but white space is left. -/
theorem readAll_of_reads (h : p.Reads text v r) (hr : Blank r) :
    p.readAll text = .note (.parsed p.name text.length) (.ok (some v)) := by
  rw [readAll, readPrefix_of_reads h, skipBlank_eq_nil_iff.mpr hr]
  simp only [List.length_nil, Nat.sub_zero, Nat.lt_irrefl, if_false]

/-- A text that nests too deeply has no value, and a note says so. -/
theorem readAll_of_tooDeep (h : p.run text = .tooDeep) :
    p.readAll text = .note (.tooDeep p.name) (.ok none) := by
  simp only [readAll, readPrefix_eq_tooDeep_iff.mpr h]

/-- Parsers that stay within the text accept exactly what they read up to white space. -/
theorem readAll_eq_some_iff (hp : p.Bounded) :
    (p.readAll text).answer = .ok (some v) ↔ ∃ r, p.Reads text v r ∧ Blank r := by
  constructor
  · intro h
    simp only [readAll] at h
    split at h
    · next w used hw =>
      split at h
      · cases h
      · next hused =>
        obtain rfl : w = v := by
          cases h
          rfl
        obtain ⟨n, hn, rfl⟩ := readPrefix_eq_ok_iff.mp hw
        refine ⟨text.drop n, hp.reads hn, ?_⟩
        -- the white space behind the value reaches to the end of the text
        have hall : (text.drop n).takeWhile Text.isBlank = text.drop n := by
          apply (List.takeWhile_prefix _).eq_of_length_le
          rw [List.length_drop]
          omega
        exact List.takeWhile_eq_self_iff.mp hall
    · cases h
    · cases h
    · cases h
  · rintro ⟨r, h, hr⟩
    rw [readAll_of_reads h hr]
    rfl

/-- What is read with more levels is accepted, unless the text nests too deeply. -/
theorem readAll_eq_some_or_tooDeep {q : Parser α} (hb : Below p q) (h : q.Reads text v r)
    (hr : Blank r) : (p.readAll text).answer = .ok (some v) ∨
      p.readAll text = .note (.tooDeep p.name) (.ok none) := by
  rcases hb.reads_or_tooDeep h with hp | hd
  · rw [readAll_of_reads hp hr]
    exact .inl rfl
  · exact .inr (readAll_of_tooDeep hd)

end WhileSyntax.Parser
