import CompatRegistry.RuleOutcome

/-! When the evaluation of a rule returns. Only a known constraint is evaluated,
the veto clauses and the alternatives only up to the first that holds, and each
later stage only if the earlier ones let it through. -/

namespace CompatRegistry

open Foundation Canon

section Returns

variable (l r : Subject)

/-- The operands of the constraint can be read. -/
def Readable (c : Constraint) : Prop := c.evaluable l.payload r.payload l.kind r.kind = true

/-- The known constraints up to the first that holds can be read. -/
def ReadableToFirst : List Constraint → Prop
  | [] => True
  | c :: cs => (constraintKnown l r c = true → Readable l r c) ∧
      ((constraintKnown l r c = true ∧ Holds l r c) ∨ ReadableToFirst cs)

/-- Every known constraint can be read. -/
def ReadableAll (cs : List Constraint) : Prop :=
  ∀ c ∈ cs, constraintKnown l r c = true → Readable l r c

/-- What the stages of a rule come to read. -/
structure RuleReadable (rule : CompatibilityRule) : Prop where
  veto : ReadableToFirst l r rule.incompatibleWith
  required : (∀ c ∈ rule.incompatibleWith, constraintKnown l r c = true → Fails l r c) →
    ReadableAll l r rule.required
  anyOf : (∀ c ∈ rule.incompatibleWith, constraintKnown l r c = true → Fails l r c) →
    (∀ c ∈ rule.required, constraintKnown l r c = true ∧ Holds l r c) → ReadableToFirst l r rule.anyOf
  conditions : Passes l r rule → rule.kind = .declared .conditional → ReadableAll l r rule.conditions

variable {l r}

section Loops
variable (hl : l.payload.WF) (hr : r.payload.WF)
include hl hr

theorem on_isOk {c : Constraint} (hc : c.WF) : (∃ v, c.on l r = .ok v) ↔ Readable l r c :=
  Constraint.evaluate_isOk hc hl hr l.kind r.kind

theorem readableAll_iff {cs : List Constraint} (hcs : ∀ c ∈ cs, c.WF) :
    ReadableAll l r cs ↔ ∀ c ∈ cs, Settled l r c :=
  forall₂_congr fun c hc => imp_congr_right fun _ => (on_isOk hl hr (hcs c hc)).symm

/-- A group read up to the first constraint that holds either has one or fails to its end. -/
theorem readableToFirst_iff {cs : List Constraint} (hcs : ∀ c ∈ cs, c.WF) :
    ReadableToFirst l r cs ↔ FirstHolds l r cs ∨ ∀ c ∈ cs, Unmet l r c := by
  induction cs with
  | nil => simp [ReadableToFirst]
  | cons c cs ih =>
    obtain ⟨hc, hcs⟩ := List.forall_mem_cons.mp hcs
    rw [ReadableToFirst, ← on_isOk hl hr hc, ih hcs, firstHolds_cons, List.forall_mem_cons]
    by_cases hk : constraintKnown l r c = true
    · simp only [Unmet, Known, hk, true_imp_iff, true_and]
      constructor
      · rintro ⟨⟨v, hv⟩, hrest⟩
        by_cases hh : v.holds = true
        · exact .inl (.inl ⟨v, hv, hh⟩)
        · have hfails : Fails l r c := ⟨v, hv, by simpa using hh⟩
          have hends := hrest.resolve_left hfails.not_holds
          exact hends.imp (fun h => .inr ⟨hfails, h⟩) fun h => ⟨hfails, h⟩
      · rintro ((⟨v, hv, hh⟩ | ⟨⟨v, hv, -⟩, h⟩) | ⟨⟨v, hv, -⟩, h⟩)
        · exact ⟨⟨v, hv⟩, .inl ⟨v, hv, hh⟩⟩
        · exact ⟨⟨v, hv⟩, .inr (.inl h)⟩
        · exact ⟨⟨v, hv⟩, .inr (.inr h)⟩
    · simp [Unmet, Known, hk]

theorem vetoLoop_isOk {cs : List Constraint} (hcs : ∀ c ∈ cs, c.WF) (e : RuleEval) :
    (∃ result, vetoLoop l r cs e = .ok result) ↔ ReadableToFirst l r cs :=
  (vetoLoop_stops.isOk_iff e).trans (readableToFirst_iff hl hr hcs).symm

theorem anyLoop_isOk {cs : List Constraint} (hcs : ∀ c ∈ cs, c.WF) (m : Bool) (e : RuleEval) :
    (∃ result, anyLoop l r cs m e = .ok result) ↔ ReadableToFirst l r cs := by
  rw [readableToFirst_iff hl hr hcs]
  refine Iff.trans ?_ (anyLoop_stops.isOk_iff (e, m))
  simp only [Prod.exists, anyLoop_eq_ok]
  exact ⟨fun ⟨e', any, m', h⟩ => ⟨e', m', any, h⟩, fun ⟨e', m', any, h⟩ => ⟨e', any, m', h⟩⟩

theorem requiredLoop_isOk {cs : List Constraint} (hcs : ∀ c ∈ cs, c.WF) (e : RuleEval) :
    (∃ result, requiredLoop l r cs e = .ok result) ↔ ReadableAll l r cs :=
  (requiredLoop_gathers.isOk_iff e).trans (readableAll_iff hl hr hcs).symm

theorem conditionLoop_isOk {cs : List Constraint} (hcs : ∀ c ∈ cs, c.WF) (e : RuleEval) :
    (∃ result, conditionLoop l r cs e = .ok result) ↔ ReadableAll l r cs :=
  (conditionLoop_gathers.isOk_iff e).trans (readableAll_iff hl hr hcs).symm

theorem kindResult_isOk {rule : CompatibilityRule} (hrule : rule.WF) (e : RuleEval) :
    (∃ e', kindResult l r rule e = .ok e') ↔
      (rule.kind = .declared .conditional → ReadableAll l r rule.conditions) := by
  unfold kindResult
  split
  next hkind =>
    rw [← conditionLoop_isOk hl hr hrule.conditions e]
    simp only [hkind, true_imp_iff, Result.bind_eq_ok]
    constructor
    · rintro ⟨e', result, h, -⟩
      exact ⟨result, h⟩
    · rintro ⟨result, h⟩
      exact ⟨_, result, h, rfl⟩
  next hkind => simp [hkind]
  next hkind => simp [hkind]
  next hne _ _ => exact ⟨fun _ hkind => absurd hkind hne, fun _ => ⟨_, rfl⟩⟩

/-- The evaluation of a rule returns exactly when its stages can read what they come to. -/
theorem evalRule_isOk {rule : CompatibilityRule} (hrule : rule.WF) :
    (∃ e, evalRule l r rule = .ok e) ↔ RuleReadable l r rule := by
  constructor
  · rintro ⟨e, heval⟩
    have h := heval
    rw [evalRule] at h
    obtain ⟨⟨e₁, vetoed⟩, hveto, h⟩ := Result.bind_eq_ok.mp h
    have hunvetoed : (∀ c ∈ rule.incompatibleWith, constraintKnown l r c = true → Fails l r c) →
        vetoed = false := by
      intro hv
      obtain ⟨e', h'⟩ := (vetoLoop_passes { rule }).mpr hv
      rw [hveto] at h'
      cases h'
      rfl
    refine ⟨(vetoLoop_isOk hl hr hrule.incompatibleWith _).mp ⟨_, hveto⟩, fun hv => ?_, fun hv hreq => ?_,
      fun hpasses hkind => ?_⟩
    · obtain rfl := hunvetoed hv
      obtain ⟨result, h₂, -⟩ := Result.bind_eq_ok.mp h
      exact (requiredLoop_isOk hl hr hrule.required _).mp ⟨result, h₂⟩
    · obtain rfl := hunvetoed hv
      obtain ⟨⟨e₂, all⟩, h₂, h⟩ := Result.bind_eq_ok.mp h
      obtain ⟨e', h'⟩ := (requiredLoop_passes e₁).mpr hreq
      rw [h₂] at h'
      cases h'
      simp only [Bool.true_eq_false, if_false] at h
      by_cases hnil : rule.anyOf = []
      · rw [hnil]
        trivial
      · rw [if_neg hnil] at h
        obtain ⟨result, h₃, -⟩ := Result.bind_eq_ok.mp h
        exact (anyLoop_isOk hl hr hrule.anyOf _ _).mp ⟨result, h₃⟩
    · obtain ⟨e₀, heq⟩ := evalRule_of_passes hpasses
      rw [heq] at heval
      exact (kindResult_isOk hl hr hrule e₀).mp ⟨e, heval⟩ hkind
  · intro hread
    obtain ⟨⟨e₁, vetoed⟩, hveto⟩ := (vetoLoop_isOk hl hr hrule.incompatibleWith { rule }).mpr hread.veto
    rw [evalRule, hveto, Result.ok_bind]
    cases vetoed with
    | true => exact ⟨e₁, rfl⟩
    | false =>
      have hv := (vetoLoop_passes _).mp ⟨e₁, hveto⟩
      obtain ⟨⟨e₂, all⟩, h₂⟩ := (requiredLoop_isOk hl hr hrule.required e₁).mpr (hread.required hv)
      simp only [Bool.false_eq_true, if_false]
      rw [h₂, Result.ok_bind]
      cases all with
      | false => exact ⟨_, rfl⟩
      | true =>
        have hreq := (requiredLoop_passes _).mp ⟨e₂, h₂⟩
        simp only [Bool.true_eq_false, if_false]
        by_cases hnil : rule.anyOf = []
        · rw [if_pos hnil]
          exact (kindResult_isOk hl hr hrule e₂).mpr (hread.conditions ⟨hv, hreq, .inl hnil⟩)
        · obtain ⟨⟨e₃, any, m⟩, h₃⟩ :=
            (anyLoop_isOk hl hr hrule.anyOf false e₂).mpr (hread.anyOf hv hreq)
          rw [if_neg hnil, h₃, Result.ok_bind]
          cases any with
          | false => exact ⟨_, rfl⟩
          | true =>
            have hany := (anyLoop_passes _ _).mp ⟨e₃, m, h₃⟩
            exact (kindResult_isOk hl hr hrule e₃).mpr (hread.conditions ⟨hv, hreq, .inr hany⟩)

end Loops

/-! ### Outcomes that are no enumerators -/

variable (l r)

/-- The kind of the rule hands its outcome field on. -/
def StatesOutcome (rule : CompatibilityRule) : Prop :=
  match rule.kind with
  | .declared .conditional => ∀ c ∈ rule.conditions, constraintKnown l r c = true ∧ Holds l r c
  | .declared .adaptation => False
  | .declared .explicitIncompat => False
  | _ => True

variable {l r}

theorem statesOutcome_conditional {rule : CompatibilityRule} (h : rule.kind = .declared .conditional) :
    StatesOutcome l r rule ↔ ∀ c ∈ rule.conditions, constraintKnown l r c = true ∧ Holds l r c := by
  unfold StatesOutcome
  rw [h]

theorem statesOutcome_of_other {rule : CompatibilityRule} (hc : rule.kind ≠ .declared .conditional)
    (ha : rule.kind ≠ .declared .adaptation) (hx : rule.kind ≠ .declared .explicitIncompat) :
    StatesOutcome l r rule := by
  unfold StatesOutcome
  cases hkind : rule.kind with
  | undeclared raw hraw => trivial
  | declared k => cases k <;> trivial

theorem kindResult_of_states {rule : CompatibilityRule} (h : StatesOutcome l r rule) (e : RuleEval) :
    ∃ e', kindResult l r rule e = .ok e' ∧ e'.definite = true ∧ e'.outcome = rule.outcome := by
  unfold kindResult
  split
  next hkind =>
    obtain ⟨e₁, hloop⟩ := (conditionLoop_passes e).mpr ((statesOutcome_conditional hkind).mp h)
    exact ⟨_, by rw [hloop, Result.ok_bind], rfl, rfl⟩
  next hkind => simp [StatesOutcome, hkind] at h
  next hkind => simp [StatesOutcome, hkind] at h
  next => exact ⟨_, rfl, rfl, rfl⟩

/-- Only the outcome field of a rule brings in an outcome that is no enumerator. -/
theorem kindResult_undeclared {rule : CompatibilityRule} {e e' : RuleEval}
    (h : kindResult l r rule e = .ok e') (hout : e'.outcome.isDeclared = false) :
    StatesOutcome l r rule ∧ e'.outcome = rule.outcome := by
  unfold kindResult at h
  split at h
  next hkind =>
    obtain ⟨⟨e₁, cond⟩, hloop, h⟩ := Result.bind_eq_ok.mp h
    cases h
    cases cond with
    | false => simp [Enum8.isDeclared] at hout
    | true => exact ⟨(statesOutcome_conditional hkind).mpr ((conditionLoop_passes e).mp ⟨e₁, hloop⟩), rfl⟩
  next =>
    cases h
    simp [Enum8.isDeclared] at hout
  next =>
    cases h
    simp [Enum8.isDeclared] at hout
  next hc ha hx =>
    cases h
    exact ⟨statesOutcome_of_other hc ha hx, rfl⟩

/-- A rule that evaluates is conclusive with a declared outcome unless it passes,
hands its outcome field on, and that is no enumerator. -/
theorem conclusive_declared_iff (rule : CompatibilityRule) :
    (∀ e, evalRule l r rule = .ok e → e.conclusive = true → e.outcome.isDeclared = true) ↔
      (Passes l r rule → StatesOutcome l r rule → rule.outcome.isDeclared = true) := by
  constructor
  · intro h hpasses hstates
    by_contra hout
    obtain ⟨e₀, heq⟩ := evalRule_of_passes hpasses
    obtain ⟨e, hkind, hdef, heout⟩ := kindResult_of_states hstates e₀
    have hcon : e.conclusive = true := by
      unfold RuleEval.conclusive
      rw [hdef, heout]
      cases ho : rule.outcome with
      | declared o => simp [ho, Enum8.isDeclared] at hout
      | undeclared raw hraw => simp
    exact hout (heout ▸ h e (heq.trans hkind) hcon)
  · intro h e he _
    by_contra hout
    have hne : ∀ o : Outcome, e.outcome ≠ .declared o := fun o ho => hout (by rw [ho]; rfl)
    obtain ⟨hpasses, e₀, hkind⟩ := evalRule_passes he (hne _) (hne _) (hne _)
    obtain ⟨hstates, heout⟩ := kindResult_undeclared hkind (by simpa using hout)
    exact hout (heout ▸ h hpasses hstates)

end Returns

end CompatRegistry
