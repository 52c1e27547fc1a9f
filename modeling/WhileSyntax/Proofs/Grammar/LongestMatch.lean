import WhileSyntax.Proofs.Grammar.CommandExtension
import WhileSyntax.Proofs.Parser.Drivers

/-!
# The longest match

A run on a prefix of a text stops behind the longest beginning that is accepted as a whole: among
the beginnings that end where a word ends, none that goes further is accepted
(`longestMatch_grammar`). A text on which the run fails has no such beginning at all. Diagnostics
about text left over and about texts without a parse say just that.
-/

namespace WhileSyntax.Grammar

open WhileSyntax.Parser

variable {α : Type} {p : Parser α} {text r u f : List Char} {v : α} {k used : Nat}

/-- A position of a text at which no word goes on. -/
def Boundary (text : List Char) (k : Nat) : Prop :=
  k ≤ text.length ∧ ∀ c ∈ text[k]?, Text.isWordPart c = false

/-- No beginning of the text that ends at a boundary behind `o` is accepted. -/
def NoneBeyond (p : Parser α) (text : List Char) (o : Nat) : Prop :=
  ∀ k, Boundary text k → o < k → (p.readAll (text.take k)).answer = .ok none

/-- No beginning of the text that ends at a boundary is accepted. -/
def NoneAtAll (p : Parser α) (text : List Char) : Prop :=
  ∀ k, Boundary text k → (p.readAll (text.take k)).answer = .ok none

/-- A parser stops exactly behind the longest match, and so says every diagnostic. -/
structure LongestMatch (p : Parser α) (text : List Char) : Prop where
  read : ∀ v used, p.readPrefix text = .ok v used →
    (p.readAll (text.take used)).answer = .ok (some v) ∧ NoneBeyond p text used
  failed : p.readPrefix text = .fail → NoneAtAll p text
  unconsumed : ∀ what filename d,
    (p.readStrict text what filename).answer = .error (.rejected d) → d.code = some "P002" →
      ∃ o : Nat, d.location.offset = o ∧
        (∃ v, (p.readAll (text.take o)).answer = .ok (some v)) ∧ NoneBeyond p text o
  noParse : ∀ what filename d,
    (p.readStrict text what filename).answer = .error (.rejected d) → d.code = some "P001" →
      NoneAtAll p text

/-! ## Texts that are cut off -/

private theorem Boundary.stops (hk : Boundary text k) : Stops Text.isWordPart (text.drop k) := by
  intro c hc
  apply hk.2 c
  rwa [List.head?_drop] at hc

private theorem Replaces.of_takeWhile (r : List Char) : Replaces (r.takeWhile Text.isBlank) r := by
  cases r with
  | nil => exact .inl rfl
  | cons c r =>
    by_cases hc : Text.isBlank c = true
    · rw [List.takeWhile_cons_of_pos hc]
      exact .inl rfl
    · rw [List.takeWhile_cons_of_neg hc]
      exact .inr (stops_nil _)

private theorem length_skipBlank_le (hu : Blank u) (h : r <:+ u ++ f) :
    (skipBlank r).length ≤ f.length := by
  induction u with
  | nil => exact (List.dropWhile_suffix _).length_le.trans h.length_le
  | cons c u ih =>
    rcases List.suffix_cons_iff.mp h with hr | h
    · have hskip : skipBlank r = skipBlank f := hr ▸ skipBlank_append hu f
      rw [hskip]
      exact (List.dropWhile_suffix _).length_le
    · exact ih (fun c hc ↦ hu c (List.mem_cons_of_mem _ hc)) h

private theorem readAll_take_of_readPrefix (hp : Built p) (hl : Local p)
    (h : p.readPrefix text = .ok v used) :
    (p.readAll (text.take used)).answer = .ok (some v) := by
  obtain ⟨m, hm, rfl⟩ := readPrefix_eq_ok_iff.mp h
  obtain ⟨t, ht, hlocal⟩ := hl _ _ _ (hp.bounded.reads hm)
  have hblank : Blank ((text.drop m).takeWhile Text.isBlank) :=
    fun c hc ↦ List.mem_takeWhile_imp hc
  have htake : text.take m = t :=
    List.append_cancel_right ((List.take_append_drop m text).trans ht)
  rw [List.take_add, ← List.prefix_iff_eq_take.mp (List.takeWhile_prefix _), htake]
  exact (readAll_eq_some_iff hp.bounded).mpr
    ⟨_, hlocal _ (.of_takeWhile _) (.of_blank hblank), hblank⟩

private theorem readAll_take_eq_none (hp : Built p) (hx : Extends p) (hk : Boundary text k)
    (hh : ¬p.Halts text)
    (hr : ∀ v r, p.Reads text v r → (text.drop k).length < (skipBlank r).length) :
    (p.readAll (text.take k)).answer = .ok none := by
  have hext := hx (text.take k) (text.drop k) hk.stops
  rw [List.take_append_drop] at hext
  cases h : (p.readAll (text.take k)).answer with
  | error why => exact absurd (hext.1 ⟨why, readAll_eq_error_iff.mp h⟩) hh
  | ok value =>
    cases value with
    | none => rfl
    | some v =>
      obtain ⟨u, hread, hu⟩ := (readAll_eq_some_iff hp.bounded).mp h
      rcases hext.2 v u hread with hhalts | ⟨v', r, hread', hle⟩
      · exact absurd hhalts hh
      · -- what the whole run leaves is no longer than the white space and the text cut off
        have hrest : r <:+ u ++ text.drop k := by
          obtain ⟨t, ht, -⟩ := hread
          obtain ⟨t', ht', -⟩ := hread'
          have hsuffix : u ++ text.drop k <:+ text := by
            refine ⟨t, ?_⟩
            rw [← List.append_assoc, ← ht, List.take_append_drop]
          exact List.suffix_of_suffix_length_le ⟨t', ht'.symm⟩ hsuffix hle
        exact absurd (hr v' r hread') (Nat.not_lt.mpr (length_skipBlank_le hu hrest))

/-! ## Stopping places -/

private theorem noneBeyond_of_readPrefix (hp : Built p) (hx : Extends p)
    (h : p.readPrefix text = .ok v used) : NoneBeyond p text used := by
  intro k hk hlt
  apply readAll_take_eq_none hp hx hk
  · rintro ⟨halt, hh⟩
    obtain ⟨n, hn, -⟩ := readPrefix_eq_ok_iff.mp h
    exact halt.reply_ne_ok v n (hh.symm.trans hn)
  · intro v' r hread
    have hskip : (skipBlank r).length ≤ r.length := (List.dropWhile_suffix _).length_le
    have hrest := hread.length_le
    have hle := hk.1
    rw [readPrefix_of_reads hread] at h
    obtain ⟨-, rfl⟩ := Reply.ok.inj h
    rw [List.length_drop]
    omega

private theorem noneAtAll_of_readPrefix (hp : Built p) (hx : Extends p)
    (h : p.readPrefix text = .fail) : NoneAtAll p text := by
  intro k hk
  have hfail := readPrefix_eq_fail_iff.mp h
  apply readAll_take_eq_none hp hx hk
  · rintro ⟨halt, hh⟩
    exact hh.ne_fail hfail
  · intro v r hread
    exact absurd hfail hread.ne_fail

private theorem LongestMatch.of_extends (hp : Built p) (hl : Local p) (hx : Extends p)
    (text : List Char) : LongestMatch p text where
  read _ _ h := ⟨readAll_take_of_readPrefix hp hl h, noneBeyond_of_readPrefix hp hx h⟩
  failed h := noneAtAll_of_readPrefix hp hx h
  unconsumed what filename d h hcode := by
    obtain ⟨v, o, hrun, hpoints, -⟩ := (describes_of_rejected hp h).left hcode
    exact ⟨o, hpoints.offset, ⟨v, readAll_take_of_readPrefix hp hl hrun⟩,
      noneBeyond_of_readPrefix hp hx hrun⟩
  noParse what filename d h hcode :=
    noneAtAll_of_readPrefix hp hx ((describes_of_rejected hp h).noParse.mp hcode)

/-- On every text the parsers of expressions and of commands stop behind the longest match, whatever
the number of levels. With `nestingLimit` of them these are the parsers that read whole texts. -/
theorem longestMatch_grammar (levels : Nat) (text : List Char) :
    LongestMatch (expression levels) text ∧ LongestMatch (command levels) text :=
  ⟨.of_extends (built_expression levels) (local_expression levels) (extends_expression levels) text,
    .of_extends (built_command levels) (local_command levels) (extends_command levels) text⟩

/-- An operator without an operand, a parenthesis that does not close, a branch behind an assignment
and a conditional without its second branch are no part of the longest match. -/
theorem longestMatch_grammar_dangling :
    (parseExpression "a + b ".toList).answer =
      .ok (some (.binary .plus (.var "a") (.var "b"))) ∧
    NoneBeyond (expression nestingLimit) "a + b * (c".toList 6 ∧
    (parseCommand "x = 1 ".toList).answer = .ok (some (.assign "x" (.const 1))) ∧
    NoneBeyond (command nestingLimit) "x = 1 else y = 2".toList 6 ∧
    NoneAtAll (command nestingLimit) "if a then x = 1".toList := by
  obtain ⟨ha, hbeyond⟩ := (longestMatch_grammar nestingLimit "a + b * (c".toList).1.read
    (.binary .plus (.var "a") (.var "b")) 6 rfl
  obtain ⟨hx, hbeyond'⟩ := (longestMatch_grammar nestingLimit "x = 1 else y = 2".toList).2.read
    (.assign "x" (.const 1)) 6 rfl
  have hnone := (longestMatch_grammar nestingLimit "if a then x = 1".toList).2.failed rfl
  exact ⟨ha, hbeyond, hx, hbeyond', hnone⟩

end WhileSyntax.Grammar
