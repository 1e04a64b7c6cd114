import CompatRegistry.RuleEval

/-! The outcome of a rule on a pair of profiles, said without the loops. A clause
counts only by whether it is known, holds, fails or throws. -/

namespace CompatRegistry

open Foundation Canon

section Outcome

variable (l r : Subject)

def Known (c : Constraint) : Prop := constraintKnown l r c = true

instance (c : Constraint) : Decidable (Known l r c) := inferInstanceAs (Decidable (_ = true))

/-- A known constraint is evaluated without an exception. -/
def Settled (c : Constraint) : Prop := Known l r c → ∃ v, c.on l r = .ok v

/-- The constraint is known and holds. -/
def Met (c : Constraint) : Prop := Known l r c ∧ Holds l r c

/-- A known constraint fails. -/
def Unmet (c : Constraint) : Prop := Known l r c → Fails l r c

/-- What the kind of the rule makes of constraints that have passed. -/
inductive KindYields (rule : CompatibilityRule) : Enum8 Outcome → Prop
  | conditionsMet (kind : rule.kind = .declared .conditional) (met : ∀ c ∈ rule.conditions, Met l r c) :
      KindYields rule rule.outcome
  | conditional (kind : rule.kind = .declared .conditional)
      (settled : ∀ c ∈ rule.conditions, Settled l r c) (unmet : ∃ c ∈ rule.conditions, ¬ Met l r c) :
      KindYields rule (.declared .conditional)
  | adaptation (kind : rule.kind = .declared .adaptation) :
      KindYields rule (.declared .compatibleWithAdaptation)
  | explicitIncompat (kind : rule.kind = .declared .explicitIncompat) :
      KindYields rule (.declared .incompatible)
  | stated (conditional : rule.kind ≠ .declared .conditional) (adaptation : rule.kind ≠ .declared .adaptation)
      (explicitIncompat : rule.kind ≠ .declared .explicitIncompat) : KindYields rule rule.outcome

/-- What the alternatives and the kind make of clauses and requirements that have passed. -/
inductive Concludes (rule : CompatibilityRule) : Enum8 Outcome → Prop
  | noneHolds (some : rule.anyOf ≠ []) (fail : ∀ c ∈ rule.anyOf, Known l r c ∧ Fails l r c) :
      Concludes rule (.declared .unknown)
  | noneKnownHolds (fail : ∀ c ∈ rule.anyOf, Unmet l r c) (missing : ∃ c ∈ rule.anyOf, ¬ Known l r c) :
      Concludes rule (.declared .insufficientEvidence)
  | byKind {o : Enum8 Outcome} (any : rule.anyOf = [] ∨ FirstHolds l r rule.anyOf)
      (kind : KindYields l r rule o) : Concludes rule o

/-- The outcome of the rule on the pair. -/
inductive Evaluates (rule : CompatibilityRule) : Enum8 Outcome → Prop
  | vetoed (veto : FirstHolds l r rule.incompatibleWith) : Evaluates rule (.declared .incompatible)
  | short (clear : ∀ c ∈ rule.incompatibleWith, Unmet l r c) (settled : ∀ c ∈ rule.required, Settled l r c)
      (unmet : ∃ c ∈ rule.required, ¬ Met l r c)
      (missing : ∃ c ∈ rule.incompatibleWith ++ rule.required, ¬ Known l r c) :
      Evaluates rule (.declared .insufficientEvidence)
  | unmet (clear : ∀ c ∈ rule.incompatibleWith, Unmet l r c) (settled : ∀ c ∈ rule.required, Settled l r c)
      (unmet : ∃ c ∈ rule.required, ¬ Met l r c)
      (known : ∀ c ∈ rule.incompatibleWith ++ rule.required, Known l r c) :
      Evaluates rule (.declared .unknown)
  | concluded {o : Enum8 Outcome} (clear : ∀ c ∈ rule.incompatibleWith, Unmet l r c)
      (met : ∀ c ∈ rule.required, Met l r c) (conclusion : Concludes l r rule o) : Evaluates rule o

variable {l r}

theorem Met.settled {c : Constraint} (h : Met l r c) : Settled l r c := by
  obtain ⟨-, v, hv, -⟩ := h
  exact fun _ => ⟨v, hv⟩

/-! ### The loops -/

theorem vetoLoop_ends {cs : List Constraint} (e : RuleEval) :
    (∃ e', vetoLoop l r cs e = .ok (e', true)) ↔ FirstHolds l r cs := vetoLoop_stops.ends_iff e

/-- The clauses without evidence set `missing`. -/
theorem vetoLoop_missing {cs : List Constraint} {e e' : RuleEval} (h : vetoLoop l r cs e = .ok (e', false)) :
    e'.missing = true ↔ e.missing = true ∨ ∃ c ∈ cs, ¬ Known l r c := by
  refine vetoLoop_stops.leaves (R := fun cs e out => out.2 = false →
    (out.1.missing = true ↔ e.missing = true ∨ ∃ c ∈ cs, ¬ Known l r c)) (by simp) ?_ ?_ ?_ h rfl
  · intro c cs v e _ hflag
    cases hflag
  · intro c cs v e out hk hrest hflag
    rw [hrest hflag, List.exists_mem_cons_iff]
    simp [Known, hk]
  · intro c cs e out hk hrest hflag
    rw [hrest hflag, List.exists_mem_cons_iff]
    simp [Known, hk]

theorem requiredLoop_missing {cs : List Constraint} {e : RuleEval} {result : RuleEval × Bool}
    (h : requiredLoop l r cs e = .ok result) :
    result.1.missing = true ↔ e.missing = true ∨ ∃ c ∈ cs, ¬ Known l r c := by
  refine requiredLoop_gathers.leaves
    (R := fun cs e e' => e'.missing = true ↔ e.missing = true ∨ ∃ c ∈ cs, ¬ Known l r c) (by simp) ?_ ?_ h
  · intro c cs v e e' hk hrest
    rw [hrest.elim id id, List.exists_mem_cons_iff]
    simp [Known, hk]
  · intro c cs e e' hk hrest
    rw [hrest, List.exists_mem_cons_iff]
    simp [Known, hk]

theorem not_forall_met {cs : List Constraint} :
    ¬ (∀ c ∈ cs, constraintKnown l r c = true ∧ Holds l r c) ↔ ∃ c ∈ cs, ¬ Met l r c := by
  simp only [not_forall, exists_prop]
  rfl

/-- The loop comes out with `false` when it returns and a constraint is not met. -/
theorem Gathers.fails_iff {pass fail : Constraint → Verdict → RuleEval → RuleEval}
    {unknown : Constraint → RuleEval → RuleEval} {loop : List Constraint → RuleEval → Result (RuleEval × Bool)}
    (hloop : Gathers l r pass fail unknown loop) {cs : List Constraint} (e : RuleEval) :
    (∃ e', loop cs e = .ok (e', false)) ↔ (∀ c ∈ cs, Settled l r c) ∧ ∃ c ∈ cs, ¬ Met l r c := by
  rw [← not_forall_met]
  exact Result.flag_false_iff (hloop.isOk_iff e) (hloop.passes_iff e)

/-- The second flag, of a disjunction that comes to its end. -/
theorem anyLoop_anyMissing {cs : List Constraint} {m m' : Bool} {e e' : RuleEval}
    (h : anyLoop l r cs m e = .ok (e', false, m')) : m' = true ↔ m = true ∨ ∃ c ∈ cs, ¬ Known l r c := by
  refine anyLoop_stops.leaves (R := fun cs s out => out.2 = false →
    (out.1.2 = true ↔ s.2 = true ∨ ∃ c ∈ cs, ¬ Known l r c)) (by simp) ?_ ?_ ?_ (anyLoop_eq_ok.mp h) rfl
  · intro c cs v s _ hflag
    cases hflag
  · intro c cs v s out hk hrest hflag
    rw [hrest hflag, List.exists_mem_cons_iff]
    simp [Known, hk]
  · intro c cs s out hk hrest hflag
    rw [hrest hflag, List.exists_mem_cons_iff]
    simp [Known, hk]

/-- No alternative holds; the second flag says that one of them was unknown. -/
theorem anyLoop_fails {cs : List Constraint} {m m' : Bool} (e : RuleEval) :
    (∃ e', anyLoop l r cs m e = .ok (e', false, m')) ↔
      (∀ c ∈ cs, Unmet l r c) ∧ (m' = true ↔ m = true ∨ ∃ c ∈ cs, ¬ Known l r c) := by
  constructor
  · rintro ⟨e', h⟩
    exact ⟨(anyLoop_stops.passes_iff (e, m)).mp ⟨_, anyLoop_eq_ok.mp h⟩, anyLoop_anyMissing h⟩
  · rintro ⟨hunmet, hm⟩
    obtain ⟨⟨e', m''⟩, h⟩ := (anyLoop_stops.passes_iff (e, m)).mpr hunmet
    have hloop : anyLoop l r cs m e = .ok (e', false, m'') := anyLoop_eq_ok.mpr h
    obtain rfl : m'' = m' := Bool.eq_iff_iff.mpr ((anyLoop_anyMissing hloop).trans hm.symm)
    exact ⟨e', hloop⟩

theorem kindResult_outcome_iff (rule : CompatibilityRule) (e : RuleEval) (o : Enum8 Outcome) :
    (∃ e', kindResult l r rule e = .ok e' ∧ e'.outcome = o) ↔ KindYields l r rule o := by
  unfold kindResult
  constructor
  · rintro ⟨e', h, rfl⟩
    split at h
    next hkind =>
      obtain ⟨⟨e₁, cond⟩, hloop, h⟩ := Result.bind_eq_ok.mp h
      cases h
      cases cond with
      | true => exact .conditionsMet hkind ((conditionLoop_passes e).mp ⟨e₁, hloop⟩)
      | false =>
        obtain ⟨hsettled, hunmet⟩ := (conditionLoop_gathers.fails_iff e).mp ⟨e₁, hloop⟩
        exact .conditional hkind hsettled hunmet
    next hkind =>
      cases h
      exact .adaptation hkind
    next hkind =>
      cases h
      exact .explicitIncompat hkind
    next hc ha hx =>
      cases h
      exact .stated hc ha hx
  · intro h
    cases h with
    | conditionsMet kind met =>
      obtain ⟨e', he'⟩ := (conditionLoop_passes e).mpr met
      rw [kind]
      exact ⟨_, Result.bind_eq_ok.mpr ⟨_, he', rfl⟩, rfl⟩
    | conditional kind settled unmet =>
      obtain ⟨e', he'⟩ := (conditionLoop_gathers.fails_iff e).mpr ⟨settled, unmet⟩
      rw [kind]
      exact ⟨_, Result.bind_eq_ok.mpr ⟨_, he', rfl⟩, rfl⟩
    | adaptation kind =>
      rw [kind]
      exact ⟨_, rfl, rfl⟩
    | explicitIncompat kind =>
      rw [kind]
      exact ⟨_, rfl, rfl⟩
    | stated hc ha hx =>
      split
      next hkind => exact absurd hkind hc
      next hkind => exact absurd hkind ha
      next hkind => exact absurd hkind hx
      · exact ⟨_, rfl, rfl⟩

/-- What follows the required conjunction, once it has passed. -/
def restOf (l r : Subject) (rule : CompatibilityRule) (e : RuleEval) : Result RuleEval :=
  if rule.anyOf = [] then kindResult l r rule e
  else do
    let (e, any, anyMissing) ← anyLoop l r rule.anyOf false e
    if any then kindResult l r rule e
    else
      .ok (if anyMissing
        then { e with missing := true, definite := true, outcome := .declared .insufficientEvidence }
        else { e with definite := false, outcome := .declared .unknown })

theorem restOf_outcome_iff (rule : CompatibilityRule) (e : RuleEval) (o : Enum8 Outcome) :
    (∃ e', restOf l r rule e = .ok e' ∧ e'.outcome = o) ↔ Concludes l r rule o := by
  unfold restOf
  by_cases hnil : rule.anyOf = []
  · rw [if_pos hnil, kindResult_outcome_iff]
    constructor
    · exact fun h => .byKind (.inl hnil) h
    · intro h
      cases h with
      | noneHolds hsome => exact absurd hnil hsome
      | noneKnownHolds _ hmissing => simp [hnil] at hmissing
      | byKind _ hkind => exact hkind
  · rw [if_neg hnil]
    constructor
    · rintro ⟨e', h, rfl⟩
      obtain ⟨⟨e₃, any, m⟩, hloop, h⟩ := Result.bind_eq_ok.mp h
      cases any with
      | true =>
        have hany := (anyLoop_passes false e).mp ⟨e₃, m, hloop⟩
        exact .byKind (.inr hany) ((kindResult_outcome_iff rule e₃ _).mp ⟨e', h, rfl⟩)
      | false =>
        obtain ⟨hfail, hm⟩ := (anyLoop_fails e).mp ⟨e₃, hloop⟩
        cases h
        cases m with
        | true => exact .noneKnownHolds hfail ((hm.mp rfl).resolve_left Bool.false_ne_true)
        | false =>
          refine .noneHolds hnil fun c hc => ?_
          have hknown : Known l r c := by
            by_contra hunknown
            exact Bool.false_ne_true (hm.mpr (.inr ⟨c, hc, hunknown⟩))
          exact ⟨hknown, hfail c hc hknown⟩
    · intro h
      cases h with
      | noneHolds _ hfail =>
        obtain ⟨e₃, hloop⟩ : ∃ e₃, anyLoop l r rule.anyOf false e = .ok (e₃, false, false) :=
          (anyLoop_fails e).mpr ⟨fun c hc _ => (hfail c hc).2, by simpa using fun c hc => (hfail c hc).1⟩
        rw [hloop]
        exact ⟨_, rfl, rfl⟩
      | noneKnownHolds hfail hmissing =>
        obtain ⟨e₃, hloop⟩ : ∃ e₃, anyLoop l r rule.anyOf false e = .ok (e₃, false, true) :=
          (anyLoop_fails e).mpr ⟨hfail, iff_of_true rfl (.inr hmissing)⟩
        rw [hloop]
        exact ⟨_, rfl, rfl⟩
      | byKind hany hkind =>
        obtain ⟨e₃, m, hloop⟩ := (anyLoop_passes false e).mpr (hany.resolve_left hnil)
        rw [hloop]
        exact (kindResult_outcome_iff rule e₃ o).mpr hkind

theorem evaluates_of_unmet {rule : CompatibilityRule} (clear : ∀ c ∈ rule.incompatibleWith, Unmet l r c)
    (settled : ∀ c ∈ rule.required, Settled l r c) (unmet : ∃ c ∈ rule.required, ¬ Met l r c) :
    Evaluates l r rule (if ∃ c ∈ rule.incompatibleWith ++ rule.required, ¬ Known l r c
      then .declared .insufficientEvidence else .declared .unknown) := by
  split_ifs with hmissing
  · exact .short clear settled unmet hmissing
  · exact .unmet clear settled unmet (by simpa using hmissing)

/-- A requirement that is not met ends the evaluation, with or without evidence. -/
theorem evalRule_of_unmet {rule : CompatibilityRule} (clear : ∀ c ∈ rule.incompatibleWith, Unmet l r c)
    (settled : ∀ c ∈ rule.required, Settled l r c) (unmet : ∃ c ∈ rule.required, ¬ Met l r c) :
    ∃ e, evalRule l r rule = .ok e ∧ e.outcome =
      if ∃ c ∈ rule.incompatibleWith ++ rule.required, ¬ Known l r c then .declared .insufficientEvidence
      else .declared .unknown := by
  obtain ⟨e₁, hveto⟩ := (vetoLoop_passes { rule }).mpr clear
  obtain ⟨e₂, hrequired⟩ := (requiredLoop_gathers.fails_iff e₁).mpr ⟨settled, unmet⟩
  have hmissing : e₂.missing = true ↔ ∃ c ∈ rule.incompatibleWith ++ rule.required, ¬ Known l r c := by
    rw [requiredLoop_missing hrequired, vetoLoop_missing hveto]
    simp [or_and_right, exists_or]
  rw [evalRule, hveto, Result.ok_bind]
  simp only [Bool.false_eq_true, if_false]
  rw [hrequired, Result.ok_bind]
  refine ⟨_, if_pos rfl, ?_⟩
  by_cases hm : e₂.missing = true
  · rw [if_pos hm, if_pos (hmissing.mp hm)]
  · rw [if_neg hm, if_neg fun h => hm (hmissing.mpr h)]

/-- The evaluation returns an outcome exactly when the rule has it on the pair. -/
theorem evalRule_outcome_iff (rule : CompatibilityRule) (o : Enum8 Outcome) :
    (∃ e, evalRule l r rule = .ok e ∧ e.outcome = o) ↔ Evaluates l r rule o := by
  constructor
  · rintro ⟨e, heval, rfl⟩
    have h := heval
    rw [evalRule] at h
    obtain ⟨⟨e₁, vetoed⟩, hveto, h⟩ := Result.bind_eq_ok.mp h
    cases vetoed with
    | true =>
      cases h
      rw [vetoLoop_vetoed hveto]
      exact .vetoed ((vetoLoop_ends _).mp ⟨_, hveto⟩)
    | false =>
      have hclear := (vetoLoop_passes _).mp ⟨e₁, hveto⟩
      obtain ⟨⟨e₂, all⟩, hrequired, h⟩ := Result.bind_eq_ok.mp h
      cases all with
      | true =>
        have hmet := (requiredLoop_passes e₁).mp ⟨e₂, hrequired⟩
        exact .concluded hclear hmet ((restOf_outcome_iff rule e₂ _).mp ⟨e, h, rfl⟩)
      | false =>
        obtain ⟨hsettled, hunmet⟩ := (requiredLoop_gathers.fails_iff e₁).mp ⟨e₂, hrequired⟩
        obtain ⟨e', heval', hout⟩ := evalRule_of_unmet hclear hsettled hunmet
        obtain rfl : e = e' := Except.ok.inj (heval.symm.trans heval')
        rw [hout]
        exact evaluates_of_unmet hclear hsettled hunmet
  · intro h
    cases h with
    | vetoed veto =>
      obtain ⟨e₁, hveto⟩ := (vetoLoop_ends { rule }).mpr veto
      rw [evalRule, hveto, Result.ok_bind]
      exact ⟨e₁, rfl, vetoLoop_vetoed hveto⟩
    | short clear settled unmet missing =>
      obtain ⟨e, heval, hout⟩ := evalRule_of_unmet clear settled unmet
      exact ⟨e, heval, hout.trans (if_pos missing)⟩
    | unmet clear settled unmet known =>
      obtain ⟨e, heval, hout⟩ := evalRule_of_unmet clear settled unmet
      exact ⟨e, heval, hout.trans (if_neg (by simpa using known))⟩
    | concluded clear met conclusion =>
      obtain ⟨e₁, hveto⟩ := (vetoLoop_passes { rule }).mpr clear
      obtain ⟨e₂, hrequired⟩ := (requiredLoop_passes e₁).mpr met
      rw [evalRule, hveto, Result.ok_bind]
      simp only [Bool.false_eq_true, if_false]
      rw [hrequired, Result.ok_bind]
      exact (restOf_outcome_iff rule e₂ o).mpr conclusion

theorem Evaluates.unique {rule : CompatibilityRule} {o o' : Enum8 Outcome} (h : Evaluates l r rule o)
    (h' : Evaluates l r rule o') : o = o' := by
  obtain ⟨e, he, rfl⟩ := (evalRule_outcome_iff rule o).mpr h
  obtain ⟨e', he', rfl⟩ := (evalRule_outcome_iff rule o').mpr h'
  rw [Except.ok.inj (he.symm.trans he')]

theorem FirstHolds.not_clear {cs : List Constraint} (h : FirstHolds l r cs) :
    ¬ ∀ c ∈ cs, Unmet l r c := by
  obtain ⟨p, c, s, rfl, -, hknown, hholds⟩ := h
  intro hclear
  exact (hclear c (by simp) hknown).not_holds hholds

/-- Once the clauses and the requirements have passed, the rest decides. -/
theorem Evaluates.conclusion {rule : CompatibilityRule} {o : Enum8 Outcome} (h : Evaluates l r rule o)
    (clear : ∀ c ∈ rule.incompatibleWith, Unmet l r c) (met : ∀ c ∈ rule.required, Met l r c) :
    Concludes l r rule o := by
  cases h with
  | vetoed veto => exact absurd clear veto.not_clear
  | short _ _ unmet =>
    obtain ⟨c, hc, hne⟩ := unmet
    exact absurd (met c hc) hne
  | unmet _ _ unmet =>
    obtain ⟨c, hc, hne⟩ := unmet
    exact absurd (met c hc) hne
  | concluded _ _ conclusion => exact conclusion

end Outcome

end CompatRegistry
