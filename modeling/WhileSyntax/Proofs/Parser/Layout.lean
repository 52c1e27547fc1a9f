import WhileSyntax.Proofs.Grammar.Pieces
import WhileSyntax.Proofs.Parser.Drivers
import WhileSyntax.Proofs.Parser.Halting

/-!
# Parsers that do not see layout

Two runs of a parser on texts that differ in white space only: an indifferent parser reads the same
value from both and leaves texts that differ in white space only, or fails on both, or is halted in
the same way on both. Tokens are indifferent because each stands inside of one piece of the text,
and every way of composing parsers keeps it so. Both ways of reading whole texts give the same
answers to such texts (`answersAlike_of_pieces`).
-/

namespace WhileSyntax.Parser

open WhileSyntax.Grammar (Blank Corresponds Keyword Stops Token Unbroken pieces skipBlank
  corresponds_of_pieces pieces_eq_nil_iff skipBlank_eq_nil_iff)

variable {α β : Type} {p : Parser α} {q : Parser β} {s s' r : List Char} {v : α} {h : Halt}

/-- Texts of the same pieces are read alike. -/
structure Indifferent (p : Parser α) : Prop where
  built : Built p
  reads : ∀ {s s' r : List Char} {v : α}, pieces s = pieces s' → p.Reads s v r →
    ∃ r', p.Reads s' v r' ∧ pieces r = pieces r'
  halts : ∀ {s s' : List Char} {h : Halt}, pieces s = pieces s' → p.HaltsWith h s →
    p.HaltsWith h s'

namespace Indifferent

private theorem fails (hp : Indifferent p) (hs : pieces s = pieces s') (hf : p.run s = .fail) :
    p.run s' = .fail := by
  rcases halts_or_reads_or_fail hp.built s' with ⟨h, hh⟩ | ⟨v, r, hr⟩ | hf'
  · exact absurd hf (hp.halts hs.symm hh).ne_fail
  · obtain ⟨r', hr', -⟩ := hp.reads hs.symm hr
    exact absurd hf hr'.ne_fail
  · exact hf'

/-- A parser that runs as an indifferent one is indifferent. -/
theorem of_run_eq {p' : Parser α} (hp' : Indifferent p') (hp : Built p)
    (he : ∀ s, p.run s = p'.run s) : Indifferent p where
  built := hp
  reads hs hr := by
    obtain ⟨r', hr', hrest⟩ := hp'.reads hs (hr.of_run_eq (he _).symm)
    exact ⟨r', hr'.of_run_eq (he _), hrest⟩
  halts hs hh := (hp'.halts hs (hh.of_run_eq (he _).symm)).of_run_eq (he _)

/-- A parser that never halts has only its readings to be compared. -/
theorem of_definite (hb : Built p) (hp : p.Definite)
    (hreads : ∀ {s s' r : List Char} {v : α}, pieces s = pieces s' → p.Reads s v r →
      ∃ r', p.Reads s' v r' ∧ pieces r = pieces r') : Indifferent p :=
  ⟨hb, hreads, fun _ hh ↦ absurd hh hp.not_haltsWith⟩

/-! ## Tokens -/

/-- Punctuation without white space in it. -/
theorem symbol {t : String} (hne : t.toList ≠ [])
    (ht : t.toList.all (!Text.isBlank ·) = true) : Indifferent (Parser.symbol t) := by
  have hall : Unbroken t.toList := fun c hc ↦ by simpa using List.all_eq_true.mp ht c hc
  have hsolid : Grammar.isSolid t.toList = true := by
    cases hl : t.toList with
    | nil => exact absurd hl hne
    | cons c cs =>
      have hc := hall c (by rw [hl]; exact List.mem_cons_self)
      rw [Grammar.isSolid, hc]
      rfl
  refine of_definite (.symbol t) (definite_symbol t) fun hs hr ↦ ?_
  obtain ⟨rfl, htoken⟩ := (reads_symbol_iff hsolid).mp hr
  obtain ⟨r', htoken', hrest, -⟩ := htoken.respaced hall hne hs
  exact ⟨r', (reads_symbol_iff hsolid).mpr ⟨rfl, htoken'⟩, hrest⟩

private theorem exists_keyword {w : String} (hw : Text.isWord w.toList = true) (hk : Keyword w s r)
    (hs : pieces s = pieces s') : ∃ r', Keyword w s' r' ∧ pieces r = pieces r' := by
  have hall : Unbroken w.toList := fun c hc ↦
    Grammar.isBlank_eq_false_of_isWordPart (Text.isWordPart_of_mem_of_isWord hw hc)
  have hne : w.toList ≠ [] := by
    intro hnil
    rw [hnil] at hw
    cases hw
  obtain ⟨r', ht, hrest, hstops⟩ := hk.1.respaced hall hne hs
  exact ⟨r', ⟨ht, hstops _ (fun _ ↦ Text.isWordPart_eq_false_of_isBlank) hk.2⟩, hrest⟩

/-- Keywords. -/
theorem keyword {k : String} (hk : Text.isWord k.toList = true) :
    Indifferent (Parser.keyword k) := by
  refine of_definite (.keyword k) (definite_word.filter _).token fun hs hr ↦ ?_
  obtain ⟨rfl, hkeyword⟩ := (reads_keyword_iff hk).mp hr
  obtain ⟨r', hkeyword', hrest⟩ := exists_keyword hk hkeyword hs
  exact ⟨r', (reads_keyword_iff hk).mpr ⟨rfl, hkeyword'⟩, hrest⟩

/-- Names. -/
theorem ident : Indifferent Parser.ident := by
  refine of_definite .ident (definite_word.filter _).token fun hs hr ↦ ?_
  obtain ⟨hname, hword⟩ := reads_ident_iff.mp hr
  obtain ⟨r', hword', hrest⟩ := exists_keyword hname.1 hword hs
  exact ⟨r', reads_ident_iff.mpr ⟨hname, hword'⟩, hrest⟩

private theorem exists_digits {digits : List Char} (hne : digits ≠ [])
    (hd : ∀ c ∈ digits, c.isDigit = true) (ht : Token digits s r) (hr : Stops Char.isDigit r)
    (hs : pieces s = pieces s') :
    ∃ r', Token digits s' r' ∧ Stops Char.isDigit r' ∧ pieces r = pieces r' := by
  have hall : Unbroken digits := fun c hc ↦
    Grammar.isBlank_eq_false_of_isWordPart (Text.isWordPart_of_isDigit (hd c hc))
  obtain ⟨r', ht', hrest, hstops⟩ := ht.respaced hall hne hs
  refine ⟨r', ht', hstops _ (fun c hc ↦ ?_) hr, hrest⟩
  by_contra hdigit
  rw [Bool.not_eq_false] at hdigit
  rw [Grammar.isBlank_eq_false_of_isWordPart (Text.isWordPart_of_isDigit hdigit)] at hc
  cases hc

/-- Numbers, also beyond the limit. -/
theorem number : Indifferent Parser.number where
  built := .number
  reads hs hr := by
    obtain ⟨digits, hne, hd, hl, hv, ht, hstop⟩ := reads_number_iff.mp hr
    obtain ⟨r', ht', hstop', hrest⟩ := exists_digits hne hd ht hstop hs
    exact ⟨r', reads_number_iff.mpr ⟨digits, hne, hd, hl, hv, ht', hstop'⟩, hrest⟩
  halts hs hh := by
    obtain ⟨digits, r, ⟨hne, hd, hl, ht, hstop⟩, rfl⟩ := haltsWith_number_iff.mp hh
    obtain ⟨r', ht', hstop', -⟩ := exists_digits hne hd ht hstop hs
    exact haltsWith_number_iff.mpr ⟨digits, r', ⟨hne, hd, hl, ht', hstop'⟩, rfl⟩

/-- A parser that uses nothing. -/
theorem pure (shown : String) (value : α) : Indifferent (Parser.pure shown value) where
  built := .pure shown value
  reads := by
    rintro s s' r v hs ⟨t, rfl, hr⟩
    obtain ⟨rfl, ht⟩ := Reply.ok.inj hr
    obtain rfl := List.length_eq_zero_iff.mp ht.symm
    exact ⟨s', ⟨[], rfl, rfl⟩, hs⟩
  halts _ hh := absurd hh.symm (Halt.reply_ne_ok _ _ _)

/-- A parser that never gets anywhere. -/
theorem bottomless : Indifferent (Parser.bottomless : Parser α) where
  built := .bottomless
  reads := by
    rintro s s' r v - ⟨t, -, hr⟩
    cases hr
  halts _ hh := hh

/-! ## Composed parsers -/

/-- Sequences. -/
theorem bindAs (hp : Indifferent p) {f : α → Parser β} (hf : ∀ v, Indifferent (f v)) (c : Bool) :
    Indifferent (Parser.bindAs c p f) where
  built := .bindAs hp.built fun v ↦ (hf v).built
  reads hs hr := by
    obtain ⟨v, m, hv, hw⟩ := reads_bindAs_iff.mp hr
    obtain ⟨m', hv', hm⟩ := hp.reads hs hv
    obtain ⟨r', hw', hrest⟩ := (hf v).reads hm hw
    exact ⟨r', reads_bindAs_iff.mpr ⟨v, m', hv', hw'⟩, hrest⟩
  halts hs hh := by
    apply (haltsWith_bindAs_iff hp.built).mpr
    rcases (haltsWith_bindAs_iff hp.built).mp hh with hh | ⟨v, m, hv, hh⟩
    · exact .inl (hp.halts hs hh)
    · obtain ⟨m', hv', hm⟩ := hp.reads hs hv
      exact .inr ⟨v, m', hv', (hf v).halts hm hh⟩

/-- Sequences chosen by a value. -/
theorem bind (hp : Indifferent p) {f : α → Parser β} (hf : ∀ v, Indifferent (f v)) :
    Indifferent (p.bind f) :=
  hp.bindAs hf p.consumes

/-- Changes of values. -/
theorem map (hp : Indifferent p) (f : α → β) : Indifferent (p.map f) where
  built := .map hp.built f
  reads hs hr := by
    obtain ⟨v, hv, hw⟩ := reads_map_iff.mp hr
    obtain ⟨r', hv', hrest⟩ := hp.reads hs hv
    exact ⟨r', reads_map_iff.mpr ⟨v, hv', hw⟩, hrest⟩
  halts hs hh := haltsWith_map_iff.mpr (hp.halts hs (haltsWith_map_iff.mp hh))

/-- Sequences whose first value is dropped. -/
theorem andThen (hp : Indifferent p) (hq : Indifferent q) : Indifferent (p.andThen q) :=
  hp.bindAs (fun _ ↦ hq) _

/-- Sequences whose second value is dropped. -/
theorem skip (hp : Indifferent p) (hq : Indifferent q) : Indifferent (p.skip q) :=
  hp.bindAs (fun _ ↦ hq.map _) _

/-- New names. -/
theorem named (hp : Indifferent p) (name : String) : Indifferent (p.named name) :=
  hp.of_run_eq (.named hp.built name) fun _ ↦ rfl

/-- References. -/
theorem lazy {target : Unit → Parser α} (hp : Indifferent (target ())) (consumes : Bool)
    (name : String) : Indifferent (Parser.lazy consumes name target) :=
  hp.of_run_eq (.lazy hp.built consumes name) fun _ ↦ rfl

/-- Alternatives. -/
theorem orElse {p q : Parser α} (hp : Indifferent p) (hq : Indifferent q) :
    Indifferent (p.orElse q) where
  built := .orElse hp.built hq.built
  reads hs hr := by
    rcases reads_orElse_iff.mp hr with hr | ⟨hf, hr⟩
    · obtain ⟨r', hr', hrest⟩ := hp.reads hs hr
      exact ⟨r', reads_orElse_iff.mpr (.inl hr'), hrest⟩
    · obtain ⟨r', hr', hrest⟩ := hq.reads hs hr
      exact ⟨r', reads_orElse_iff.mpr (.inr ⟨hp.fails hs hf, hr'⟩), hrest⟩
  halts hs hh := by
    apply haltsWith_orElse_iff.mpr
    rcases haltsWith_orElse_iff.mp hh with hh | ⟨hf, hh⟩
    · exact .inl (hp.halts hs hh)
    · exact .inr ⟨hp.fails hs hf, hq.halts hs hh⟩

/-- Choices. -/
theorem choice {ps : List (Parser α)} (h : ∀ p ∈ ps, Indifferent p) :
    Indifferent (Parser.choice ps) := by
  induction ps with
  | nil =>
    refine ⟨.fail, ?_, ?_⟩
    · rintro s s' r v - ⟨t, -, hr⟩
      cases hr
    · exact fun _ hh ↦ absurd rfl hh.ne_fail
  | cons p ps ih =>
    obtain ⟨hp, hps⟩ := List.forall_mem_cons.mp h
    exact (hp.orElse (ih hps)).of_run_eq (.choice fun q hq ↦ (h q hq).built) (run_choice_cons p ps)

private theorem exists_chain (hp : Indifferent p) (ha : p.Advances) {vs : List α}
    (hc : Chain p s vs r) (hs : pieces s = pieces s') :
    ∃ r', Chain p s' vs r' ∧ pieces r = pieces r' := by
  induction hc generalizing s' with
  | nil s => exact ⟨s', .nil s', hs⟩
  | cons hr _ _ ih =>
    obtain ⟨m', hr', hm⟩ := hp.reads hs hr
    obtain ⟨r', hc', hrest⟩ := ih hm
    exact ⟨r', .cons hr' (ha _ _ _ hr') hc', hrest⟩

/-- Repetitions of what uses something. -/
theorem many (hp : Indifferent p) (ha : p.Advances) (hc : p.consumes = true) :
    Indifferent (Parser.many p) where
  built := hp.built.many
  reads hs hr := by
    obtain ⟨hchain, hf⟩ := (reads_many_iff hc).mp hr
    obtain ⟨r', hchain', hrest⟩ := hp.exists_chain ha hchain hs
    exact ⟨r', (reads_many_iff hc).mpr ⟨hchain', hp.fails hrest hf⟩, hrest⟩
  halts hs hh := by
    rw [many_of_consumes hc] at hh ⊢
    obtain ⟨vs, m, hchain, hh⟩ := (haltsWith_star_iff hp.built ha).mp hh
    obtain ⟨m', hchain', hm⟩ := hp.exists_chain ha hchain hs
    exact (haltsWith_star_iff hp.built ha).mpr ⟨vs, m', hchain', hp.halts hm hh⟩

/-- Lists whose separators use something. -/
theorem sepBy {sep : Parser β} (hp : Indifferent p) (hsep : Indifferent sep)
    (ha : (sep.andThen p).Advances) (hc : (sep.andThen p).consumes = true) :
    Indifferent (Parser.sepBy p sep) := by
  apply named
  apply orElse
  · exact hp.bind fun _ ↦ ((hsep.andThen hp).many ha hc).map _
  · exact .pure _ _

end Indifferent

/-! ## Whole texts -/

/-- The offsets of two diagnostics are those of corresponding characters. -/
def SamePlace (text text' : List Char) (d d' : Diagnostic) : Prop :=
  ∃ o o' : Nat, d.location.offset = o ∧ d'.location.offset = o' ∧ Corresponds text o text' o'

/-- The strict answers to two texts agree: they are the same value or the same fault, or diagnostics
of one code, about corresponding characters where the code says that text is left over. -/
inductive SameVerdict (text text' : List Char) :
    Except ReadError α → Except ReadError α → Prop
  | value (v : α) : SameVerdict text text' (.ok v) (.ok v)
  | fault (why : Fault) : SameVerdict text text' (.error (.fault why)) (.error (.fault why))
  | rejected {d d' : Diagnostic} (hcode : d.code = d'.code)
      (hplace : d.code = some "P002" → SamePlace text text' d d') :
      SameVerdict text text' (.error (.rejected d)) (.error (.rejected d'))

/-- Both ways of reading answer two texts alike. -/
structure AnswersAlike (p : Parser α) (text text' : List Char) (what : String) : Prop where
  lax : (p.readAll text).answer = (p.readAll text').answer
  strict : ∀ filename, SameVerdict text text' (p.readStrict text what filename).answer
    (p.readStrict text' what filename).answer

variable {text text' : List Char} {what : String}

private theorem answersAlike_of_rejects (h : ∀ filename, ∃ d d', Rejects p text what filename d ∧
    Rejects p text' what filename d' ∧ d.code = d'.code ∧
      (d.code = some "P002" → SamePlace text text' d d')) :
    AnswersAlike p text text' what := by
  constructor
  · obtain ⟨d, d', ⟨⟨e, he⟩, -⟩, ⟨⟨e', he'⟩, -⟩, -⟩ := h ""
    rw [he, he']
    rfl
  · intro filename
    obtain ⟨d, d', ⟨-, e, he⟩, ⟨-, e', he'⟩, hcode, hplace⟩ := h filename
    rw [he, he']
    exact .rejected hcode hplace

private theorem answersAlike_of_code {code : String} (hcode : code ≠ "P002")
    (h : ∀ filename, ∃ d, Rejects p text what filename d ∧ d.code = some code)
    (h' : ∀ filename, ∃ d, Rejects p text' what filename d ∧ d.code = some code) :
    AnswersAlike p text text' what := by
  apply answersAlike_of_rejects
  intro filename
  obtain ⟨d, hd, hc⟩ := h filename
  obtain ⟨d', hd', hc'⟩ := h' filename
  refine ⟨d, d', hd, hd', hc.trans hc'.symm, fun hleft ↦ ?_⟩
  rw [hc] at hleft
  exact absurd (Option.some.inj hleft) hcode

private theorem rejects_tooDeep (h : p.run text = .tooDeep) (what filename : String) :
    ∃ d, Rejects p text what filename d ∧ d.code = some "P003" := by
  obtain ⟨d, hd, hdescribes⟩ :
      ∃ d, Rejects p text what filename d ∧ Describes p text what filename d :=
    rejects_of_tooDeep (readPrefix_eq_tooDeep_iff.mpr h)
  exact ⟨d, hd, hdescribes.tooDeep.mpr h⟩

private theorem rejects_noParse (h : p.run text = .fail) (what filename : String) :
    ∃ d, Rejects p text what filename d ∧ d.code = some "P001" := by
  have hrun := readPrefix_eq_fail_iff.mpr h
  obtain ⟨d, hd, hdescribes⟩ :
      ∃ d, Rejects p text what filename d ∧ Describes p text what filename d :=
    rejects_of_fail hrun
  exact ⟨d, hd, hdescribes.noParse.mpr hrun⟩

private theorem rejects_leftOver (hr : p.Reads text v r) (hleft : ¬Blank r)
    (what filename : String) : ∃ d, ∃ o : Nat, Rejects p text what filename d ∧
      d.code = some "P002" ∧ d.location.offset = o ∧ text.drop o = skipBlank r := by
  have hsuffix : skipBlank r <:+ text := (List.dropWhile_suffix _).trans hr.suffix
  have hne := List.length_pos_iff.mpr (mt skipBlank_eq_nil_iff.mp hleft)
  have hlt : text.length - (skipBlank r).length < text.length := by
    have hle := hsuffix.length_le
    omega
  have hrun := readPrefix_of_reads hr
  obtain ⟨d, hd, hdescribes⟩ :
      ∃ d, Rejects p text what filename d ∧ Describes p text what filename d :=
    rejects_of_lt hrun hlt
  have hcode := hdescribes.unconsumed.mpr ⟨_, _, hrun, hlt⟩
  obtain ⟨_, o, ho, hpoints, -⟩ := hdescribes.left hcode
  obtain ⟨-, rfl⟩ := Reply.ok.inj (hrun.symm.trans ho)
  exact ⟨d, _, hd, hcode, hpoints.offset, (List.suffix_iff_eq_drop.mp hsuffix).symm⟩

private theorem readStrict_of_reads (hb : Built p) (hr : p.Reads text v r) (hblank : Blank r)
    (what filename : String) : (p.readStrict text what filename).answer = .ok v := by
  apply (readStrict_eq_ok_iff hb).mpr
  rw [readPrefix_of_reads hr, skipBlank_eq_nil_iff.mpr hblank]
  rfl

/-- An indifferent parser answers texts of the same pieces alike. -/
theorem answersAlike_of_pieces (hp : Indifferent p) (what : String)
    (h : pieces text = pieces text') : AnswersAlike p text text' what := by
  rcases halts_or_reads_or_fail hp.built text with ⟨halt, hh⟩ | ⟨v, r, hr⟩ | hf
  · have hh' := hp.halts h hh
    cases halt with
    | tooDeep =>
      exact answersAlike_of_code (by decide) (rejects_tooDeep hh what) (rejects_tooDeep hh' what)
    | fault why =>
      constructor
      · rw [readAll_of_fault hh, readAll_of_fault hh']
      · intro filename
        rw [readStrict_of_fault hh, readStrict_of_fault hh']
        exact .fault why
  · obtain ⟨r', hr', hrest⟩ := hp.reads h hr
    have hblank : Blank r' ↔ Blank r := by
      rw [← pieces_eq_nil_iff, ← hrest, pieces_eq_nil_iff]
    by_cases hb : Blank r
    · have hb' := hblank.mpr hb
      constructor
      · rw [readAll_of_reads hr hb, readAll_of_reads hr' hb']
        rfl
      · intro filename
        rw [readStrict_of_reads hp.built hr hb, readStrict_of_reads hp.built hr' hb']
        exact .value v
    · apply answersAlike_of_rejects
      intro filename
      obtain ⟨d, o, hd, hcode, ho, hdrop⟩ := rejects_leftOver hr hb what filename
      obtain ⟨d', o', hd', hcode', ho', hdrop'⟩ :=
        rejects_leftOver hr' (mt hblank.mp hb) what filename
      exact ⟨d, d', hd, hd', hcode.trans hcode'.symm,
        fun _ ↦ ⟨o, o', ho, ho', corresponds_of_pieces h hdrop hdrop' hrest hb⟩⟩
  · exact answersAlike_of_code (by decide) (rejects_noParse hf what)
      (rejects_noParse (hp.fails h hf) what)

end WhileSyntax.Parser
