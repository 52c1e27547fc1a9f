import Mathlib.Data.List.Forall2
import WhileSyntax.Parser.Lexeme
import WhileSyntax.Proofs.Parser.Reading

/-!
# More levels of nesting

A grammar that is given more levels behaves as before wherever it did not run out of them.
`RunsBelow` relates a parser to one with more levels: each of its runs is too deep or is the run of
the other. Every way of composing parsers keeps the relation, so only the bottom of a grammar has to
be compared. Messages show names and promises of parsers, and `Below` says that these agree, too.
-/

namespace WhileSyntax.Parser

variable {α β : Type}

/-- `p` runs as `q` does unless it runs out of levels. -/
def RunsBelow (p q : Parser α) : Prop := ∀ s, p.run s = .tooDeep ∨ p.run s = q.run s

/-- `p` does what `q` does unless it runs out of levels. -/
structure Below (p q : Parser α) : Prop where
  name : p.name = q.name
  consumes : p.consumes = q.consumes
  run : ∀ s, p.run s = .tooDeep ∨ p.run s = q.run s

variable {p p' : Parser α} {q q' : Parser β}

/-! ## Forms of a choice -/

/-- Two forms of a choice do not get in each other's way on a text: one of them fails, or they run
alike, or the later one is too deep. -/
def Compatible (s : List Char) (p q : Parser α) : Prop :=
  p.run s ≠ .fail → q.run s ≠ .fail → q.run s = .tooDeep ∨ q.run s = p.run s

/-- Among compatible forms each fails, is too deep or runs as the choice does. -/
theorem settled_of_compatible {ps : List (Parser α)} {s : List Char}
    (h : ps.Pairwise (Compatible s)) :
    ∀ p ∈ ps, p.run s = .fail ∨ p.run s = .tooDeep ∨ p.run s = (choice ps).run s := by
  induction ps with
  | nil => exact fun p hp ↦ absurd hp List.not_mem_nil
  | cons p ps ih =>
    obtain ⟨hp, hps⟩ := List.pairwise_cons.mp h
    by_cases hf : p.run s = .fail
    · rw [run_choice_cons, hf]
      exact List.forall_mem_cons.mpr ⟨.inl hf, ih hps⟩
    · have hfirst : (choice (p :: ps)).run s = p.run s := by
        rw [run_choice_cons]
        cases hrun : p.run s with
        | fail => exact absurd hrun hf
        | _ => rfl
      rw [hfirst]
      refine List.forall_mem_cons.mpr ⟨.inr (.inr rfl), fun q hq ↦ ?_⟩
      by_cases hfq : q.run s = .fail
      · exact .inl hfq
      · exact .inr (hp q hq hf hfq)

/-! ## Runs of composed parsers -/

namespace RunsBelow

/-- Every parser runs as it runs. -/
theorem refl (p : Parser α) : RunsBelow p p := fun _ ↦ .inr rfl

/-- Sequences keep the relation. -/
theorem bindAs (h : RunsBelow p p') {f f' : α → Parser β} (hf : ∀ v, RunsBelow (f v) (f' v))
    (c c' : Bool) : RunsBelow (Parser.bindAs c p f) (Parser.bindAs c' p' f') := by
  intro s
  simp only [Parser.bindAs]
  rcases h s with hd | he
  · rw [hd]
    exact .inl rfl
  · rw [he]
    cases hr : p'.run s with
    | ok v n =>
      simp only [Reply.andThen]
      rcases hf v (s.drop n) with hd | he
      · rw [hd]
        exact .inl rfl
      · rw [he]
        exact .inr rfl
    | _ => exact .inr rfl

/-- Sequences chosen by a value keep the relation. -/
theorem bind (h : RunsBelow p p') {f f' : α → Parser β} (hf : ∀ v, RunsBelow (f v) (f' v)) :
    RunsBelow (p.bind f) (p'.bind f') :=
  h.bindAs hf p.consumes p'.consumes

/-- Names do not matter to runs. -/
theorem named (h : RunsBelow p p') (name name' : String) :
    RunsBelow (p.named name) (p'.named name') := h

/-- Changes of values keep the relation. -/
theorem map (h : RunsBelow p p') (f : α → β) : RunsBelow (p.map f) (p'.map f) := by
  intro s
  simp only [run_map]
  rcases h s with hd | he
  · rw [hd]
    exact .inl rfl
  · rw [he]
    exact .inr rfl

/-- Alternatives keep the relation. -/
theorem orElse {q q' : Parser α} (h : RunsBelow p p') (hq : RunsBelow q q') :
    RunsBelow (p.orElse q) (p'.orElse q') := by
  intro s
  simp only [run_orElse]
  rcases h s with hd | he
  · rw [hd]
    exact .inl rfl
  · rw [he]
    cases p'.run s with
    | fail => exact hq s
    | _ => exact .inr rfl

/-- Repetitions keep the relation, also under another name if nothing is read at the end of a text
or without using it, where the message would show the name. -/
theorem star (h : RunsBelow p p')
    (hd : ∀ s v n, p'.run s = .ok v n → n = 0 ∨ s = [] → p.describe = p'.describe) :
    RunsBelow (Parser.star p) (Parser.star p') := by
  suffices hr : ∀ room s, s.length ≤ room.length →
      rounds p room s = .tooDeep ∨ rounds p room s = rounds p' room s from
    fun s ↦ hr s s (Nat.le_refl _)
  intro room
  induction room with
  | nil =>
    intro s hs
    obtain rfl : s = [] := List.length_eq_zero_iff.mp (Nat.le_zero.mp hs)
    simp only [rounds]
    rcases h [] with hdeep | he
    · rw [hdeep]
      exact .inl rfl
    · rw [he]
      cases hrun : p'.run [] with
      | ok v n => exact .inr (by rw [hd [] v n hrun (.inr rfl)])
      | _ => exact .inr rfl
  | cons c room ih =>
    intro s hs
    simp only [rounds]
    rcases h s with hdeep | he
    · rw [hdeep]
      exact .inl rfl
    · rw [he]
      cases hrun : p'.run s with
      | ok v n =>
        cases n with
        | zero => exact .inr (by rw [hd s v 0 hrun (.inl rfl)])
        | succ n =>
          rw [List.length_cons] at hs
          dsimp only
          rcases ih (s.drop (n + 1)) (by rw [List.length_drop]; omega) with hdeep | he
          · rw [hdeep]
            exact .inl rfl
          · rw [he]
            exact .inr rfl
      | _ => exact .inr rfl

/-- The order of compatible forms does not matter to a choice, and a form can be left out that fails
where the others do. -/
theorem choice_map {ι : Type} (f f' : ι → Parser α) (l all : List ι)
    (h : ∀ i, RunsBelow (f i) (f' i)) (hl : l ⊆ all)
    (hcompatible : ∀ s, all.Pairwise fun i j ↦ Compatible s (f' i) (f' j))
    (hcomplete : ∀ s, (∀ i ∈ l, (f' i).run s = .fail) → ∀ i ∈ all, (f' i).run s = .fail) :
    RunsBelow (Parser.choice (l.map f)) (Parser.choice (all.map f')) := by
  intro s
  have hsettled := settled_of_compatible (List.pairwise_map.mpr (hcompatible s))
  suffices htried : ∀ tried ⊆ all,
      (Parser.choice (tried.map f)).run s = .tooDeep ∨
        (Parser.choice (tried.map f)).run s = (Parser.choice (all.map f')).run s ∨
          (Parser.choice (tried.map f)).run s = .fail ∧ ∀ i ∈ tried, (f' i).run s = .fail by
    rcases htried l hl with hd | he | ⟨hf, hfail⟩
    · exact .inl hd
    · exact .inr he
    · refine .inr (hf.trans (run_choice_eq_fail fun q hq ↦ ?_).symm)
      obtain ⟨i, hi, rfl⟩ := List.mem_map.mp hq
      exact hcomplete s hfail i hi
  intro tried
  induction tried with
  | nil => exact fun _ ↦ .inr (.inr ⟨rfl, fun i hi ↦ absurd hi List.not_mem_nil⟩)
  | cons i tried ih =>
    intro ht
    obtain ⟨hi, ht⟩ := List.cons_subset.mp ht
    rw [List.map_cons, run_choice_cons]
    rcases h i s with hd | he
    · rw [hd]
      exact .inl rfl
    · by_cases hf : (f' i).run s = .fail
      · rw [he, hf]
        exact (ih ht).imp_right fun hrest ↦ hrest.imp_right fun ⟨hf', hfail⟩ ↦
          ⟨hf', List.forall_mem_cons.mpr ⟨hf, hfail⟩⟩
      · rw [he]
        rcases (hsettled _ (List.mem_map_of_mem hi)).resolve_left hf with hd | hr
        · rw [hd]
          exact .inl rfl
        · cases hrun : (f' i).run s with
          | fail => exact absurd hrun hf
          | _ =>
            rw [← hr, hrun]
            exact .inr (.inl rfl)

end RunsBelow

namespace Below

/-- Every parser does what it does. -/
theorem refl (p : Parser α) : Below p p := ⟨rfl, rfl, fun _ ↦ .inr rfl⟩

/-- Messages name both parsers alike. -/
theorem describe (h : Below p p') : p.describe = p'.describe := by
  simp only [Parser.describe, h.name, h.consumes]

/-- A parser without a level left is below any parser of its name and promise. -/
theorem bottom (h : ∀ s, p.run s = .tooDeep) (hn : p.name = p'.name)
    (hc : p.consumes = p'.consumes) : Below p p' :=
  ⟨hn, hc, fun s ↦ .inl (h s)⟩

/-- A reading was there before levels were added, unless there were too few. -/
theorem reads_or_tooDeep (h : Below p p') {s r : List Char} {v : α} (hr : p'.Reads s v r) :
    p.Reads s v r ∨ p.run s = .tooDeep := by
  rcases h.run s with hd | he
  · exact .inr hd
  · exact .inl (hr.of_run_eq he)

/-! ## Composed parsers -/

/-- Sequences keep the relation. -/
theorem bindAs (h : Below p p') {f f' : α → Parser β} (hf : ∀ v, Below (f v) (f' v)) {c c' : Bool}
    (hc : c = c') : Below (Parser.bindAs c p f) (Parser.bindAs c' p' f') where
  name := by simp only [Parser.bindAs, h.name]
  consumes := hc
  run := RunsBelow.bindAs h.run (fun v ↦ (hf v).run) c c'

/-- Sequences chosen by a value keep the relation. -/
theorem bind (h : Below p p') {f f' : α → Parser β} (hf : ∀ v, Below (f v) (f' v)) :
    Below (p.bind f) (p'.bind f') :=
  h.bindAs hf h.consumes

/-- Changes of values keep the relation. -/
theorem map (h : Below p p') (f : α → β) : Below (p.map f) (p'.map f) :=
  ⟨h.name, h.consumes, RunsBelow.map h.run f⟩

/-- A sequence whose first value is dropped keeps the relation. -/
theorem andThen (h : Below p p') (hq : Below q q') : Below (p.andThen q) (p'.andThen q') :=
  h.bindAs (fun _ ↦ hq) (by rw [h.consumes, hq.consumes])

/-- A sequence whose second value is dropped keeps the relation. -/
theorem skip (h : Below p p') (hq : Below q q') : Below (p.skip q) (p'.skip q') :=
  h.bindAs (fun _ ↦ hq.map _) (by rw [h.consumes, hq.consumes])

/-- New names keep the relation. -/
theorem named (h : Below p p') (name : String) : Below (p.named name) (p'.named name) :=
  ⟨rfl, h.consumes, h.run⟩

/-- Alternatives keep the relation. -/
theorem orElse {q q' : Parser α} (h : Below p p') (hq : Below q q') :
    Below (p.orElse q) (p'.orElse q') where
  name := by simp only [Parser.orElse, h.name, hq.name]
  consumes := by simp only [Parser.orElse, h.consumes, hq.consumes]
  run := RunsBelow.orElse h.run hq.run

/-- Choices keep the relation. -/
theorem choice {ps ps' : List (Parser α)} (h : List.Forall₂ Below ps ps') :
    Below (Parser.choice ps) (Parser.choice ps') := by
  cases h with
  | nil => exact refl _
  | @cons first first' _ _ hp hps =>
    simp only [Parser.choice]
    induction hps generalizing first first' with
    | nil => exact hp
    | cons hq _ ih => exact ih (hp.orElse hq)

/-- Repetitions keep the relation. -/
theorem star (h : Below p p') : Below (Parser.star p) (Parser.star p') where
  name := by simp only [Parser.star, h.name]
  consumes := rfl
  run := RunsBelow.star h.run fun _ _ _ _ _ ↦ h.describe

/-- Repetitions are refused alike. -/
theorem many (h : Below p p') : Below (Parser.many p) (Parser.many p') := by
  simp only [Parser.many, many?, h.consumes, h.describe]
  split
  · exact h.star
  · exact refl _

/-- Lists keep the relation. -/
theorem sepBy (h : Below p p') (hq : Below q q') :
    Below (Parser.sepBy p q) (Parser.sepBy p' q') := by
  simp only [Parser.sepBy, h.name]
  apply named
  apply orElse
  · exact h.bind fun _ ↦ (hq.andThen h).many.map _
  · exact refl _

end Below
end WhileSyntax.Parser
