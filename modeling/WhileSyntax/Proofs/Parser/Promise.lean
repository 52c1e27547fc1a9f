import WhileSyntax.Proofs.Parser.Halting
import WhileSyntax.Proofs.Parser.Plan

/-!
# Promises

The flag of a parser promises that each of its successes uses at least one character. Most flags are
computed from those of the parts; references and sequences declare theirs. A plan is honest when its
declarations are (`Plan.Honest`), where a reference has to be believed only as far as the plan that
it leads to makes the same promise.

A family of honest plans may lead back to itself, so a promise cannot be traced to its ground
through the plans. It is kept because a run is finite: the induction is on the number of references
that a run may follow (`Definitions.Honest.keeps_build`). No repetition of such a family is ever
stuck in a round that uses nothing.
-/

namespace WhileSyntax.Parser

variable {α β : Type}

/-- A parser of the library that uses something if it promises to, and that no repetition inside it
can stop for using nothing. -/
structure Keeps (p : Parser α) : Prop where
  built : Built p
  advances : p.consumes = true → p.Advances
  unstuck : ∀ s parser, ¬p.HaltsWith (.fault (.didNotAdvance parser)) s

namespace Keeps

variable {p : Parser α} {q : Parser β}

/-- A promise that is kept is about each success. -/
theorem pos_of_run (hp : Keeps p) (hc : p.consumes = true) {s : List Char} {v : α} {n : Nat}
    (hr : p.run s = .ok v n) : 0 < n := by
  have hlt := hp.advances hc _ _ _ (hp.built.bounded.reads hr)
  rw [List.length_drop] at hlt
  omega

/-! ## Primitive parsers -/

/-- A parser that promises nothing keeps its promise. -/
theorem pure (shown : String) (v : α) : Keeps (Parser.pure shown v) where
  built := .pure shown v
  advances := nofun
  unstuck _ _ := nofun

/-- A parser without successes keeps every promise. -/
theorem of_never {p : Parser α} (hb : Built p) (h : ∀ s v n, p.run s ≠ .ok v n)
    (hu : ∀ s parser, ¬p.HaltsWith (.fault (.didNotAdvance parser)) s) : Keeps p where
  built := hb
  advances := by
    rintro - s v r ⟨t, -, hr⟩
    exact absurd hr (h s v _)
  unstuck := hu

/-- A refused part is stopped by its refusal. -/
theorem refused (why : Refusal) : Keeps (faulty why.fault : Parser α) := by
  refine of_never (.faulty _) (fun _ _ _ ↦ nofun) ?_
  intro s parser hh
  cases why <;> cases hh

/-- One character is used. -/
theorem satisfy (test : Char → Bool) (name : String) : Keeps (Parser.satisfy test name) where
  built := .satisfy test name
  advances := by
    rintro - s c r hr
    obtain ⟨rfl, -⟩ := reads_satisfy_iff.mp hr
    simp only [List.length_cons, Nat.lt_add_one]
  unstuck s parser := (definite_satisfy test name).not_haltsWith

/-- Any character is used. -/
theorem item : Keeps Parser.item where
  built := .item
  advances := by
    rintro - s c r ⟨t, rfl, hr⟩
    cases ht : t ++ r with
    | nil => simp [ht, Parser.item] at hr
    | cons d s =>
      simp only [ht, Parser.item, Reply.ok.injEq] at hr
      rw [← ht, List.length_append]
      omega
  unstuck s parser hh := by cases s <;> cases hh

/-- A literal that is not empty is used. -/
theorem literal (t : String) : Keeps (Parser.literal t) where
  built := .literal t
  advances := by
    rintro hc s w r ⟨u, rfl, hr⟩
    have ht : 0 < t.toList.length := by
      simpa [Parser.literal, List.length_pos_iff] using hc
    simp only [Parser.literal] at hr
    split at hr
    · rw [Reply.ok.injEq] at hr
      rw [List.length_append]
      omega
    · cases hr
  unstuck s parser := (definite_literal t).not_haltsWith

/-- White space promises nothing. -/
theorem whitespace : Keeps Parser.whitespace where
  built := .whitespace
  advances := nofun
  unstuck _ _ := nofun

/-! ## Composed parsers -/

/-- A sequence keeps a promise that one of its parts makes, whatever the first part reads. -/
theorem bindAs (hp : Keeps p) {c : Bool} {f : α → Parser β} (hb : ∀ v, Built (f v))
    (hf : ∀ s v r, p.Reads s v r → Keeps (f v))
    (hc : c = true → p.consumes = true ∨ ∀ s v r, p.Reads s v r → (f v).consumes = true) :
    Keeps (Parser.bindAs c p f) where
  built := hp.built.bindAs hb
  advances := by
    intro hct s w r hr
    obtain ⟨v, m, hv, hw⟩ := reads_bindAs_iff.mp hr
    have hm := hv.length_le
    have hrm := hw.length_le
    rcases hc hct with hpc | hfc
    · have hlt := hp.advances hpc s v m hv
      omega
    · have hlt := (hf s v m hv).advances (hfc s v m hv) m w r hw
      omega
  unstuck s parser hh := by
    rcases (haltsWith_bindAs_iff hp.built).mp hh with hh | ⟨v, m, hv, hh⟩
    · exact hp.unstuck s parser hh
    · exact (hf s v m hv).unstuck m parser hh

/-- Changed values are used as they were. -/
theorem map (hp : Keeps p) (f : α → β) : Keeps (p.map f) where
  built := hp.built.map f
  advances hc s w r hr := by
    obtain ⟨v, hv, -⟩ := reads_map_iff.mp hr
    exact hp.advances hc s v r hv
  unstuck s parser hh := hp.unstuck s parser (haltsWith_map_iff.mp hh)

/-- Values that may be refused are used as they were. -/
theorem convert (hp : Keeps p) (f : α → Except Text.Decimal.NumeralError β) :
    Keeps (p.tryMap fun v ↦ (f v).mapError .numeral) where
  built := hp.built.tryMap _
  advances hc s w r hr := by
    obtain ⟨v, hv, -⟩ := reads_tryMap_iff.mp hr
    exact hp.advances hc s v r hv
  unstuck s parser hh := by
    rcases (haltsWith_tryMap_iff hp.built).mp hh with hh | ⟨v, r, -, why, hw, he⟩
    · exact hp.unstuck s parser hh
    · cases he
      cases hfv : f v <;> simp [hfv, Except.mapError] at hw

/-- Values that pass are used as they were. -/
theorem filter (hp : Keeps p) (test : α → Bool) : Keeps (p.filter test) where
  built := hp.built.filter test
  advances hc s v r hr := hp.advances hc s v r (reads_filter_iff.mp hr).1
  unstuck s parser hh := hp.unstuck s parser (haltsWith_filter_iff.mp hh)

/-- Names promise nothing. -/
theorem named (hp : Keeps p) (name : String) : Keeps (p.named name) where
  built := hp.built.named name
  advances := hp.advances
  unstuck := hp.unstuck

/-- A choice promises what both of its parts keep. -/
theorem orElse {p q : Parser α} (hp : Keeps p) (hq : Keeps q) : Keeps (p.orElse q) where
  built := hp.built.orElse hq.built
  advances hc s v r hr := by
    have hboth : p.consumes = true ∧ q.consumes = true := Bool.and_eq_true_iff.mp hc
    rcases reads_orElse_iff.mp hr with hr | ⟨-, hr⟩
    · exact hp.advances hboth.1 s v r hr
    · exact hq.advances hboth.2 s v r hr
  unstuck s parser hh := by
    rcases haltsWith_orElse_iff.mp hh with hh | ⟨-, hh⟩
    · exact hp.unstuck s parser hh
    · exact hq.unstuck s parser hh

/-- A repetition of a parser that uses something is never stuck. -/
theorem star (hp : Keeps p) (hc : p.consumes = true) : Keeps (Parser.star p) where
  built := hp.built.star
  advances := nofun
  unstuck s parser hh := by
    obtain ⟨-, m, -, hm⟩ := (haltsWith_star_iff hp.built (hp.advances hc)).mp hh
    exact hp.unstuck m parser hm

/-- A repetition of a parser that does not promise to use something is refused. -/
theorem many (hp : Keeps p) : Keeps (Parser.many p) := by
  by_cases hc : p.consumes = true
  · rw [many_of_consumes hc]
    exact hp.star hc
  · refine of_never hp.built.many ?_ ?_ <;>
      · intros
        simp [HaltsWith, Halt.reply, Parser.many, many?, hc, ofExcept, faulty]

/-- A reference keeps the promise of its target. -/
theorem lazy {target : Unit → Parser α} (hp : Keeps (target ())) {c : Bool}
    (hc : c = true → (target ()).consumes = true) (name : String) :
    Keeps (Parser.lazy c name target) where
  built := hp.built.lazy c name
  advances h := hp.advances (hc h)
  unstuck := hp.unstuck

end Keeps

/-! ## Honest plans -/

variable {Ref : Type → Type} {defs : Definitions Ref}

/-- A planned parser reads a value off some text, with some number of references to follow. -/
def Definitions.Yields (defs : Definitions Ref) (t : Plan Ref α) (v : α) : Prop :=
  ∃ levels s n, (defs.build levels t).run s = .ok v n

/-- Promises that a plan declares are made by what they are declared of: a reference promises what
its target does, and a sequence promises what its first part does or whatever comes second. -/
def Plan.Honest (defs : Definitions Ref) : {α : Type} → Plan Ref α → Prop
  | _, .bindAs consumes p f =>
    p.Honest defs ∧ (∀ v, defs.Yields p v → (f v).Honest defs) ∧
      (consumes = true → p.consumes = true ∨ ∀ v, defs.Yields p v → (f v).consumes = true)
  | _, .map _ p => p.Honest defs
  | _, .convert _ p => p.Honest defs
  | _, .filter _ p => p.Honest defs
  | _, .named _ p => p.Honest defs
  | _, .orElse p q => p.Honest defs ∧ q.Honest defs
  | _, .many p => p.Honest defs
  | _, .lazy consumes _ target => consumes = true → (defs _ target).consumes = true
  | _, .pure _ _ | _, .fail | _, .refused _ | _, .item | _, .satisfy _ _ | _, .literal _
  | _, .whitespace => True

/-- All plans of a family are honest. -/
def Definitions.Honest (defs : Definitions Ref) : Prop := ∀ α i, (defs α i).Honest defs

private theorem Definitions.parser_consumes {i : Ref α} (h : (defs α i).consumes = true)
    (levels : Nat) : (defs.parser levels α i).consumes = true := by
  cases levels with
  | zero => rfl
  | succ levels => rw [parser, Plan.parser_consumes, h]

/-- An honest plan is kept where its references are. -/
theorem Plan.Honest.keeps {t : Plan Ref α} (ht : t.Honest defs) {levels : Nat}
    (hrefs : ∀ α i, Keeps (defs.parser levels α i)) : Keeps (defs.build levels t) := by
  induction t with
  | pure shown v => exact .pure shown v
  | fail => exact .of_never .fail (fun _ _ _ ↦ nofun) fun _ _ ↦ nofun
  | refused why => exact .refused why
  | item => exact .item
  | satisfy test name => exact .satisfy test name
  | literal s => exact .literal s
  | whitespace => exact .whitespace
  | bindAs c p f ihp ihf =>
    obtain ⟨hp, hf, hc⟩ := ht
    -- what is read at these levels is yielded, so the rest of the plan is honest behind it
    have hyields : ∀ s v r, (defs.build levels p).Reads s v r → defs.Yields p v :=
      fun s v r ⟨t, _, hr⟩ ↦ ⟨levels, s, t.length, hr⟩
    refine (ihp hp).bindAs (fun v ↦ defs.built levels (f v))
      (fun s v r hr ↦ ihf v (hf v (hyields s v r hr))) fun hct ↦ ?_
    rcases hc hct with hpc | hfc
    · exact .inl ((parser_consumes _ p).trans hpc)
    · exact .inr fun s v r hr ↦ (parser_consumes _ (f v)).trans (hfc v (hyields s v r hr))
  | map f p ih => exact (ih ht).map f
  | convert f p ih => exact (ih ht).convert f
  | filter test p ih => exact (ih ht).filter test
  | named name p ih => exact (ih ht).named name
  | orElse p q ihp ihq => exact (ihp ht.1).orElse (ihq ht.2)
  | many p ih => exact (ih ht).many
  | lazy c name i =>
    change Keeps (Parser.lazy c name fun _ ↦ defs.parser levels _ i)
    exact .lazy (hrefs _ i) (fun hc ↦ Definitions.parser_consumes (ht hc) levels) name

/-- The parsers of an honest family keep their promises: each is only as deep as the references
that it may follow. -/
theorem Definitions.Honest.keeps_target (hd : defs.Honest) (levels : Nat) :
    ∀ α (i : Ref α), Keeps (defs.parser levels α i) := by
  induction levels with
  | zero => exact fun α i ↦ .of_never .bottomless (fun _ _ _ ↦ nofun) fun _ _ ↦ nofun
  | succ levels ih => exact fun α i ↦ (hd α i).keeps ih

/-- What is planned over an honest family keeps its promise. -/
theorem Definitions.Honest.keeps_build (hd : defs.Honest) {t : Plan Ref α} (ht : t.Honest defs)
    (levels : Nat) : Keeps (defs.build levels t) :=
  ht.keeps (hd.keeps_target levels)

/-- A reference that promises more than its target does is caught when it is repeated. -/
example :
    let defs : Definitions fun α ↦ α := fun _ v ↦ .pure "()" v
    (defs.build 1 (.many (.lazy true "liar" ()))).run [] =
      .fault (.didNotAdvance "Parser('liar', consumes=True)") := by
  rfl

/-! ## Honest plans of the other parts of the library -/

namespace Plan.Honest

variable {p : Plan Ref α} {q : Plan Ref β}

/-- A sequence makes the promise of its first part. -/
theorem bind (hp : p.Honest defs) {f : α → Plan Ref β} (hf : ∀ v, (f v).Honest defs) :
    (p.bind f).Honest defs :=
  ⟨hp, fun v _ ↦ hf v, .inl⟩

/-- A sequence whose first value is dropped makes the promise of either part. -/
theorem andThen (hp : p.Honest defs) (hq : q.Honest defs) : (p.andThen q).Honest defs :=
  ⟨hp, fun _ _ ↦ hq, fun hc ↦ (Bool.or_eq_true_iff.mp hc).imp id fun h _ _ ↦ h⟩

/-- A sequence whose second value is dropped makes the promise of either part. -/
theorem skip (hp : p.Honest defs) (hq : q.Honest defs) : (p.skip q).Honest defs :=
  ⟨hp, fun _ _ ↦ hq, fun hc ↦ (Bool.or_eq_true_iff.mp hc).imp id fun h _ _ ↦ h⟩

/-- A choice of honest plans is honest. -/
theorem choice {ps : List (Plan Ref α)} (h : ∀ p ∈ ps, p.Honest defs) :
    (Plan.choice ps).Honest defs := by
  cases ps with
  | nil => trivial
  | cons p ps =>
    obtain ⟨hp, hps⟩ := List.forall_mem_cons.mp h
    clear h
    induction ps generalizing p with
    | nil => exact hp
    | cons q ps ih =>
      obtain ⟨hq, hps⟩ := List.forall_mem_cons.mp hps
      exact ih (p := p.orElse q) ⟨hp, hq⟩ hps

/-- A repetition behind a first value is honest. -/
theorem many1 (hp : p.Honest defs) : p.many1.Honest defs := hp.bind fun _ ↦ hp

/-- A token is as honest as its plan. -/
theorem token (hp : p.Honest defs) : (Plan.token p).Honest defs :=
  andThen (p := whitespace) trivial hp

/-- Characters are honest. -/
theorem satisfy (test : Char → Bool) (name : String) :
    (Plan.satisfy test name : Plan Ref Char).Honest defs :=
  trivial

/-- Words are honest. -/
theorem word : (Plan.word : Plan Ref String).Honest defs :=
  bind (satisfy _ _) fun _ ↦ satisfy _ _

/-- One given character is honest, and so is its refusal. -/
theorem char (s : String) : (Plan.char s : Plan Ref Char).Honest defs := by
  unfold Plan.char
  split <;> trivial

/-- Punctuation is honest. -/
theorem symbol (s : String) : (Plan.symbol s : Plan Ref String).Honest defs :=
  token (p := literal s) trivial

/-- Names are honest. -/
theorem ident : (Plan.ident : Plan Ref String).Honest defs := token (p := filter _ _) word

/-- Numbers are honest. -/
theorem number : (Plan.number : Plan Ref Nat).Honest defs :=
  token (p := convert _ _) (many1 (satisfy _ _))

/-- Keywords are honest. -/
theorem keyword (k : String) : (Plan.keyword k : Plan Ref String).Honest defs := by
  unfold Plan.keyword
  split
  · exact token (p := filter _ _) word
  · trivial

/-- Lists are as honest as their values and separators. -/
theorem sepBy1 (hp : p.Honest defs) (hq : q.Honest defs) : (p.sepBy1 q).Honest defs :=
  hp.bind fun _ ↦ hq.andThen hp

/-- Lists that may be empty are as honest as their values and separators. -/
theorem sepBy (hp : p.Honest defs) (hq : q.Honest defs) : (p.sepBy q).Honest defs :=
  ⟨hp.sepBy1 hq, trivial⟩

end Plan.Honest
end WhileSyntax.Parser
