import WhileSyntax.Proofs.Grammar.Tier
import WhileSyntax.Proofs.Parser.Repetition

/-!
# Repetition in the grammar

A binary tier reads an operand and then, as far as they go, pairs of an operator and an operand,
and joins them from the left (`continues_binaryTier`). A pair is the first operator of its list that
an operand stands behind. Since operators are never empty, a tier never stalls.

Main statement: repetitions, lists with separators and tiers all read maximal chains of single runs
(`reads_maximal_chain`).
-/

namespace WhileSyntax.Grammar

open WhileSyntax.Parser
open Source (Cursor)

variable {α β γ : Type} {operand : Parser α} {ops : List Binop} {c r : Cursor} {v : α}

private theorem runAt_pairForm_eq_ok_iff {op : Binop} {p : Binop × α} :
    (pairForm operand op).runAt c = .ok p r ↔
      ∃ t k, (symbol op.symbol).runAt c = .ok t k ∧ operand.runAt k = .ok p.2 r ∧ p.1 = op := by
  rw [pairForm, runAt_map, Outcome.map_eq_ok_iff]
  simp only [runAt_andThen_eq_ok_iff]
  constructor
  · rintro ⟨v, ⟨t, k, ht, hv⟩, rfl⟩
    exact ⟨t, k, ht, hv, rfl⟩
  · rintro ⟨t, k, ht, hv, rfl⟩
    exact ⟨p.2, ⟨t, k, ht, hv⟩, rfl⟩

private theorem runAt_pairForm_eq_fail_iff {op : Binop} : (pairForm operand op).runAt c = .fail ↔
    ∀ t k, (symbol op.symbol).runAt c = .ok t k → operand.runAt k = .fail := by
  rw [runAt_eq_fail_iff, run_pairForm_eq_fail_iff]
  constructor
  · intro h t k ht
    obtain ⟨-, -, hread⟩ := runAt_eq_ok_iff.mp ht
    have htoken := ((reads_symbol_iff (isSolid_symbol op)).mp hread).2
    exact runAt_eq_fail_iff.mpr (h _ htoken)
  · intro h m hm
    have hread : (symbol op.symbol).Reads c.remaining op.symbol m :=
      (reads_symbol_iff (isSolid_symbol op)).mpr ⟨rfl, hm⟩
    obtain ⟨k, hk, rfl⟩ := hread.exists_runAt
    exact runAt_eq_fail_iff.mp (h _ k hk)

/-- A pair is missing where no operator of its list has an operand behind it. -/
theorem runAt_pair_eq_fail_iff : (pair operand ops).runAt c = .fail ↔
    ∀ op ∈ ops, ∀ t k, (symbol op.symbol).runAt c = .ok t k → operand.runAt k = .fail := by
  have hpair : pair operand ops = choice (ops.map (pairForm operand)) := rfl
  rw [hpair, runAt_choice_eq_fail_iff, List.forall_mem_map]
  simp only [runAt_pairForm_eq_fail_iff]

/-- A pair is the first operator of its list that an operand stands behind, with the operand. -/
theorem runAt_pair_eq_ok_iff {op : Binop} :
    (pair operand ops).runAt c = .ok (op, v) r ↔
      ∃ before after, ops = before ++ op :: after ∧
        (∀ op' ∈ before, ∀ t k, (symbol op'.symbol).runAt c = .ok t k → operand.runAt k = .fail) ∧
        ∃ t k, (symbol op.symbol).runAt c = .ok t k ∧ operand.runAt k = .ok v r := by
  have hpair : pair operand ops = choice (ops.map (pairForm operand)) := rfl
  rw [hpair, runAt_choice_eq_ok_iff]
  constructor
  · rintro ⟨before, p, after, hops, hbefore, hp⟩
    obtain ⟨before, rest, rfl, rfl, hrest⟩ := List.map_eq_append_iff.mp hops
    obtain ⟨op', after, rfl, rfl, rfl⟩ := List.map_eq_cons_iff.mp hrest
    obtain ⟨t, k, ht, hv, rfl⟩ := runAt_pairForm_eq_ok_iff.mp hp
    refine ⟨before, after, rfl, fun op' hop' ↦ ?_, t, k, ht, hv⟩
    exact runAt_pairForm_eq_fail_iff.mp (hbefore _ (List.mem_map_of_mem hop'))
  · rintro ⟨before, after, rfl, hbefore, t, k, ht, hv⟩
    refine ⟨before.map (pairForm operand), pairForm operand op, after.map (pairForm operand),
      List.map_append, ?_, runAt_pairForm_eq_ok_iff.mpr ⟨t, k, ht, hv, rfl⟩⟩
    exact List.forall_mem_map.mpr fun op' hop' ↦
      runAt_pairForm_eq_fail_iff.mpr (hbefore op' hop')

/-- Every pair moves the cursor on. -/
theorem not_stalls_pair (operand : Parser α) (ops : List Binop) (c : Cursor) :
    ¬(pair operand ops).Stalls c := by
  rintro ⟨-, m, p, r, -, hp, hle⟩
  obtain ⟨htext, -, hread⟩ := runAt_eq_ok_iff.mp hp
  obtain ⟨-, k, htoken, hoperand⟩ := token_of_reads_pair hread
  obtain ⟨ch, cs, hsymbol, -⟩ := exists_symbol_eq p.1
  have hlt := htoken.length_lt (by rw [hsymbol]; exact List.cons_ne_nil ch cs)
  have hback := hoperand.length_le
  rw [m.length_remaining] at hlt
  rw [r.length_remaining, htext] at hback
  omega

/-- A tier reads an operand and joins to it, from the left, as many pairs as there are. -/
theorem continues_binaryTier (join : Binop → α → α → α) (operand : Parser α) (ops : List Binop)
    (name : String) :
    Continues (binaryTier join operand ops name) operand (pair operand ops)
      fun first pairs ↦ pairs.foldl (fun left p ↦ join p.1 left p.2) first :=
  (continues_bind_many consumes_pair _).named name

/-- Repetition is the maximal chain of single runs. A repetition returns exactly the values of a
chain of runs, each of which moves the cursor on, up to a cursor where its parser fails. Where no
run raises an error itself, the only other thing that it can come to is the fault of a chain that
reaches a success which does not move the cursor on. It never fails, and it returns no more values
than there are characters. One or more values, or none, are zero or more values.

Lists with separators read a value and the maximal chain of separators with values, so they fail
exactly where their first value does, end where their last value does, and leave a separator that no
value follows. Tiers fold an operand and the maximal chain of pairs from the left. They never stall,
and they leave an operator that no operand follows. -/
theorem reads_maximal_chain (p : Parser α) (sep : Parser β) (operand : Parser γ)
    (join : Binop → γ → γ → γ) (ops : List Binop) (name : String) :
    (p.consumes = true →
      (∀ c vs r, (many p).runAt c = .ok vs r ↔ p.Exhausts c vs r) ∧
      (∀ c, p.Quiet c →
        ((many p).runAt c = .fault (.didNotAdvance p.describe) ↔ p.Stalls c) ∧
        ((∃ vs r, (many p).runAt c = .ok vs r) ∨
          (many p).runAt c = .fault (.didNotAdvance p.describe))) ∧
      (∀ c, (many p).runAt c ≠ .fail) ∧
      (∀ c vs r, (many p).runAt c = .ok vs r → vs.length + c.pos ≤ r.pos) ∧
      (∀ c, p.Quiet c ∨ p.Bounded →
        (many p).runAt c = ((many1 p).orElse (pure "[]" [])).runAt c)) ∧
    ((sep.andThen p).consumes = true →
      Continues (sepBy1 p sep) p (sep.andThen p) List.cons ∧
      ∀ c vs r, (sepBy1 p sep).runAt c = .ok vs r →
        (∃ v k, vs.getLast? = some v ∧ p.runAt k = .ok v r) ∧
        ∀ x k, sep.runAt r = .ok x k → p.runAt k = .fail) ∧
    (Continues (binaryTier join operand ops name) operand (pair operand ops)
        (fun first pairs ↦ pairs.foldl (fun left p ↦ join p.1 left p.2) first) ∧
      (∀ c, ¬(pair operand ops).Stalls c) ∧
      (∀ c, (pair operand ops).runAt c = .fail ↔
        ∀ op ∈ ops, ∀ t k, (symbol op.symbol).runAt c = .ok t k → operand.runAt k = .fail) ∧
      ∀ c op v r, (pair operand ops).runAt c = .ok (op, v) r ↔
        ∃ before after, ops = before ++ op :: after ∧
          (∀ op' ∈ before, ∀ t k, (symbol op'.symbol).runAt c = .ok t k →
            operand.runAt k = .fail) ∧
          ∃ t k, (symbol op.symbol).runAt c = .ok t k ∧ operand.runAt k = .ok v r) := by
  refine ⟨fun hc ↦ ⟨fun c vs r ↦ runAt_many_eq_ok_iff hc, fun c hq ↦ ?_, runAt_many_ne_fail hc,
    fun c vs r h ↦ ?_, fun c hp ↦ ?_⟩, fun hc ↦ ⟨continues_sepBy1 hc, fun c vs r h ↦ ?_⟩,
    continues_binaryTier join operand ops name, not_stalls_pair operand ops,
    fun c ↦ runAt_pair_eq_fail_iff, fun c op v r ↦ runAt_pair_eq_ok_iff⟩
  · refine ⟨hq.runAt_many_eq_fault_iff hc, ?_⟩
    rcases hq.many_settles hc with ⟨vs, r, -, h⟩ | ⟨-, h⟩
    · exact .inl ⟨vs, r, h⟩
    · exact .inr h
  · exact ((runAt_many_eq_ok_iff hc).mp h).1.length_add_pos_le
  · rcases hp with hq | hp
    · exact (hq.runAt_many1_orElse hc "[]").symm
    · exact (runAt_congr (run_many1_orElse hp hc "[]" c.remaining)).symm
  · exact ⟨exists_runAt_getLast_of_sepBy1 hc h, fun x k ↦ runAt_eq_fail_of_sepBy1 hc h⟩

/-- Names without and with commas, and differences: the last comma and the parenthesis are left. -/
theorem reads_maximal_chain_names :
    let text := "x a,b,9-3-2)".toList
    let c : Cursor := ⟨text, 1, by decide⟩
    ident.Exhausts c ["a"] ⟨text, 3, by decide⟩ ∧ ¬ident.Stalls c ∧
      (many ident).runAt c = ((many1 ident).orElse (pure "[]" [])).runAt c ∧
      (sepBy1 ident (symbol ",")).runAt c = .ok ["a", "b"] ⟨text, 5, by decide⟩ ∧
      ident.runAt ⟨text, 6, by decide⟩ = .fail ∧
      ∃ first m pairs, number.runAt ⟨text, 6, by decide⟩ = .ok first m ∧
        (pair number [.plus, .minus]).Exhausts m pairs ⟨text, 11, by decide⟩ ∧
        pairs.foldl (fun left p ↦ left - p.2) first = 4 := by
  intro text c
  obtain ⟨hmany, hsep, hterm, -⟩ := reads_maximal_chain ident (symbol ",") number
    (fun _ left right ↦ left - right) [.plus, .minus] "difference"
  obtain ⟨hok, hquiet, -, -, hmany1⟩ := hmany rfl
  obtain ⟨-, hend⟩ := hsep rfl
  have hdefinite : ident.Definite := (definite_word.filter _).token
  have hname := hdefinite.quiet c
  have hread : (many ident).runAt c = .ok ["a"] ⟨text, 3, by decide⟩ := by decide +kernel
  have hlist : (sepBy1 ident (symbol ",")).runAt c = .ok ["a", "b"] ⟨text, 5, by decide⟩ := by
    decide +kernel
  have hcomma : (symbol ",").runAt ⟨text, 5, by decide⟩ = .ok "," ⟨text, 6, by decide⟩ := by
    decide +kernel
  refine ⟨(hok _ _ _).mp hread, fun hs ↦ ?_, hmany1 c (.inl hname), hlist,
    (hend _ _ _ hlist).2 _ _ hcomma, (hterm.ok_iff _ _ _).mp (by decide +kernel)⟩
  cases hread.symm.trans ((hquiet c hname).1.mpr hs)

end WhileSyntax.Grammar
