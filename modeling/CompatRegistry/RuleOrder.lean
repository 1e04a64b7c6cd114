import CompatRegistry.RuleOutcome

/-! The evaluation of a rule as a function of what is true of its constraints. Where no
constraint throws, each group is read through its members alone, so that the order of
the members does not matter: a loop that ends early ends at some constraint that holds,
whichever of them comes first. -/

namespace CompatRegistry

open Foundation Canon

section Order

variable (l r : Subject)

/-- No known constraint of the rule throws. -/
structure RuleSettled (rule : CompatibilityRule) : Prop where
  veto : ∀ c ∈ rule.incompatibleWith, Settled l r c
  required : ∀ c ∈ rule.required, Settled l r c
  anyOf : ∀ c ∈ rule.anyOf, Settled l r c
  conditions : ∀ c ∈ rule.conditions, Settled l r c

open Classical in
/-- The outcome that the kind of the rule makes of constraints that have passed. -/
noncomputable def kindOutcome (rule : CompatibilityRule) : Enum8 Outcome :=
  match rule.kind with
  | .declared .conditional =>
    if ∀ c ∈ rule.conditions, Met l r c then rule.outcome else .declared .conditional
  | .declared .adaptation => .declared .compatibleWithAdaptation
  | .declared .explicitIncompat => .declared .incompatible
  | _ => rule.outcome

open Classical in
/-- A stage that is not passed is definite only where evidence is missing. -/
noncomputable def shortfall (missing : Prop) : Conclusion :=
  if missing then ⟨.declared .insufficientEvidence, true, false⟩ else ⟨.declared .unknown, false, false⟩

open Classical in
/-- The conclusion of a rule whose clauses and requirements have passed. -/
noncomputable def concludedRest (rule : CompatibilityRule) : Conclusion :=
  if rule.anyOf ≠ [] ∧ ∀ c ∈ rule.anyOf, ¬ Met l r c then shortfall (∃ c ∈ rule.anyOf, ¬ Known l r c)
  else ⟨kindOutcome l r rule, true, false⟩

open Classical in
/-- The conclusion of a rule whose constraints do not throw. -/
noncomputable def concluded (rule : CompatibilityRule) : Conclusion :=
  if ∃ c ∈ rule.incompatibleWith, Met l r c then ⟨.declared .incompatible, true, true⟩
  else if ∃ c ∈ rule.required, ¬ Met l r c then
    shortfall (∃ c ∈ rule.incompatibleWith ++ rule.required, ¬ Known l r c)
  else concludedRest l r rule

variable {l r}

/-! ### Settled groups -/

theorem Settled.unmet {c : Constraint} (h : Settled l r c) (hne : ¬ Met l r c) : Unmet l r c := by
  intro hknown
  obtain ⟨v, hv⟩ := h hknown
  cases hh : v.holds with
  | true => exact absurd ⟨hknown, v, hv, hh⟩ hne
  | false => exact ⟨v, hv, hh⟩

/-- In a settled group the first constraint that holds is there as soon as there is one. -/
theorem firstHolds_of_settled {cs : List Constraint} (hcs : ∀ c ∈ cs, Settled l r c)
    (h : ∃ c ∈ cs, Met l r c) : FirstHolds l r cs := by
  induction cs with
  | nil => simp at h
  | cons c cs ih =>
    obtain ⟨hc, hcs⟩ := List.forall_mem_cons.mp hcs
    rw [firstHolds_cons]
    by_cases hmet : Met l r c
    · exact .inl hmet
    · refine .inr ⟨hc.unmet hmet, ih hcs ?_⟩
      exact (List.exists_mem_cons_iff .. |>.mp h).resolve_left hmet

theorem unmet_of_settled {cs : List Constraint} (hcs : ∀ c ∈ cs, Settled l r c)
    (h : ¬ ∃ c ∈ cs, Met l r c) : ∀ c ∈ cs, Unmet l r c :=
  fun c hc => (hcs c hc).unmet fun hmet => h ⟨c, hc, hmet⟩

/-! ### The flag `incompat` -/

theorem vetoLoop_incompat {cs : List Constraint} {e e' : RuleEval}
    (h : vetoLoop l r cs e = .ok (e', false)) : e'.incompat = e.incompat := by
  refine vetoLoop_stops.leaves (R := fun _ e out => out.2 = false → out.1.incompat = e.incompat)
    (fun _ _ => rfl) ?_ ?_ ?_ h rfl
  · intro c cs v e _ hflag
    cases hflag
  · intro c cs v e out _ hrest
    exact hrest
  · intro c cs e out _ hrest
    exact hrest

/-- A loop that gathers touches the flag only where it notes something. -/
theorem Gathers.incompat {pass fail : Constraint → Verdict → RuleEval → RuleEval}
    {unknown : Constraint → RuleEval → RuleEval} {loop : List Constraint → RuleEval → Result (RuleEval × Bool)}
    (hloop : Gathers l r pass fail unknown loop)
    (hpass : ∀ c v e, (pass c v e).incompat = e.incompat) (hfail : ∀ c v e, (fail c v e).incompat = e.incompat)
    (hunknown : ∀ c e, (unknown c e).incompat = e.incompat) {cs : List Constraint} {e : RuleEval}
    {result : RuleEval × Bool} (h : loop cs e = .ok result) : result.1.incompat = e.incompat := by
  refine hloop.leaves (R := fun _ e e' => e'.incompat = e.incompat) (fun _ => rfl) ?_ ?_ h
  · intro c cs v e e' _ hrest
    exact hrest.elim (·.trans (hpass c v e)) (·.trans (hfail c v e))
  · intro c cs e e' _ hrest
    exact hrest.trans (hunknown c e)

theorem requiredLoop_incompat {cs : List Constraint} {e : RuleEval} {result : RuleEval × Bool}
    (h : requiredLoop l r cs e = .ok result) : result.1.incompat = e.incompat :=
  requiredLoop_gathers.incompat (fun _ _ _ => rfl) (fun _ _ _ => rfl) (fun _ _ => rfl) h

theorem conditionLoop_incompat {cs : List Constraint} {e : RuleEval} {result : RuleEval × Bool}
    (h : conditionLoop l r cs e = .ok result) : result.1.incompat = e.incompat :=
  conditionLoop_gathers.incompat (fun _ _ _ => rfl) (fun _ _ _ => rfl) (fun _ _ => rfl) h

theorem anyLoop_incompat {cs : List Constraint} {m : Bool} {e : RuleEval}
    {result : RuleEval × Bool × Bool} (h : anyLoop l r cs m e = .ok result) :
    result.1.incompat = e.incompat := by
  refine anyLoop_stops.leaves (R := fun _ s out => out.1.1.incompat = s.1.incompat) (fun _ => rfl) ?_ ?_ ?_
    (anyLoop_eq_ok.mp h)
  · intro c cs v s _
    rfl
  · intro c cs v s out _ hrest
    exact hrest
  · intro c cs s out _ hrest
    exact hrest

/-! ### The conclusion -/

theorem kindResult_concluded {rule : CompatibilityRule} (hconditions : ∀ c ∈ rule.conditions, Settled l r c)
    {e : RuleEval} (he : e.incompat = false) :
    ∃ e', kindResult l r rule e = .ok e' ∧ e'.conclusion = ⟨kindOutcome l r rule, true, false⟩ := by
  unfold kindResult
  split
  next hkind =>
    by_cases hmet : ∀ c ∈ rule.conditions, Met l r c
    · obtain ⟨e', hloop⟩ := (conditionLoop_passes e).mpr hmet
      have he' : e'.incompat = false := (conditionLoop_incompat hloop :).trans he
      refine ⟨_, by rw [hloop, Result.ok_bind], ?_⟩
      simp [RuleEval.conclusion, kindOutcome, hkind, he', if_pos hmet]
    · have hunmet : ∃ c ∈ rule.conditions, ¬ Met l r c := by simpa using hmet
      obtain ⟨e', hloop⟩ := (conditionLoop_gathers.fails_iff e).mpr ⟨hconditions, hunmet⟩
      have he' : e'.incompat = false := (conditionLoop_incompat hloop :).trans he
      refine ⟨_, by rw [hloop, Result.ok_bind], ?_⟩
      simp [RuleEval.conclusion, kindOutcome, hkind, he', if_neg hmet]
  next hkind => exact ⟨_, rfl, by simp [RuleEval.conclusion, kindOutcome, hkind, he]⟩
  next hkind => exact ⟨_, rfl, by simp [RuleEval.conclusion, kindOutcome, hkind, he]⟩
  next hc ha hx => exact ⟨_, rfl, by simp [RuleEval.conclusion, kindOutcome, he]⟩

/-- The alternatives and the kind, once the requirements have passed. -/
theorem restOf_concluded {rule : CompatibilityRule} (hany : ∀ c ∈ rule.anyOf, Settled l r c)
    (hconditions : ∀ c ∈ rule.conditions, Settled l r c) {e : RuleEval} (he : e.incompat = false) :
    ∃ e', restOf l r rule e = .ok e' ∧ e'.conclusion = concludedRest l r rule := by
  unfold restOf concludedRest
  by_cases hnil : rule.anyOf = []
  · rw [if_pos hnil, if_neg fun h => h.1 hnil]
    exact kindResult_concluded hconditions he
  rw [if_neg hnil]
  split_ifs with hnone
  · have hunmet := unmet_of_settled hany (by simpa using hnone.2)
    let missing : Bool := decide (∃ c ∈ rule.anyOf, ¬ Known l r c)
    obtain ⟨e', hloop⟩ : ∃ e', anyLoop l r rule.anyOf false e = .ok (e', false, missing) :=
      (anyLoop_fails e).mpr ⟨hunmet, by simp [missing]⟩
    have he' : e'.incompat = false := (anyLoop_incompat hloop :).trans he
    rw [hloop, Result.ok_bind]
    refine ⟨_, if_neg Bool.false_ne_true, ?_⟩
    unfold shortfall
    by_cases hmissing : ∃ c ∈ rule.anyOf, ¬ Known l r c
    · simp only [missing, decide_eq_true hmissing, if_pos hmissing, if_true, RuleEval.conclusion, he']
    · simp only [missing, decide_eq_false hmissing, if_neg hmissing, Bool.false_eq_true, if_false,
        RuleEval.conclusion, he']
  · have hmet : ∃ c ∈ rule.anyOf, Met l r c := by simpa [hnil] using hnone
    obtain ⟨e', m, hloop⟩ := (anyLoop_passes false e).mpr (firstHolds_of_settled hany hmet)
    rw [hloop, Result.ok_bind]
    exact kindResult_concluded hconditions ((anyLoop_incompat hloop :).trans he)

/-- A rule whose constraints do not throw comes to the conclusion that follows from them. -/
theorem evalRule_concluded {rule : CompatibilityRule} (h : RuleSettled l r rule) :
    ∃ e, evalRule l r rule = .ok e ∧ e.conclusion = concluded l r rule := by
  unfold concluded
  by_cases hveto : ∃ c ∈ rule.incompatibleWith, Met l r c
  · obtain ⟨e, hloop⟩ := (vetoLoop_ends { rule }).mpr (firstHolds_of_settled h.veto hveto)
    rw [if_pos hveto]
    exact ⟨e, by rw [evalRule, hloop]; rfl, vetoLoop_conclusion hloop⟩
  have hclear := unmet_of_settled h.veto hveto
  obtain ⟨e₁, hloop₁⟩ := (vetoLoop_passes { rule }).mpr hclear
  have hincompat₁ : e₁.incompat = false := vetoLoop_incompat hloop₁
  rw [evalRule, hloop₁, Result.ok_bind, if_neg hveto]
  simp only [Bool.false_eq_true, if_false]
  by_cases hrequired : ∃ c ∈ rule.required, ¬ Met l r c
  · obtain ⟨e₂, hloop₂⟩ := (requiredLoop_gathers.fails_iff e₁).mpr ⟨h.required, hrequired⟩
    have hincompat₂ : e₂.incompat = false := (requiredLoop_incompat hloop₂ :).trans hincompat₁
    have hmissing : e₂.missing = true ↔ ∃ c ∈ rule.incompatibleWith ++ rule.required, ¬ Known l r c := by
      rw [requiredLoop_missing hloop₂, vetoLoop_missing hloop₁]
      simp [or_and_right, exists_or]
    rw [hloop₂, Result.ok_bind, if_pos hrequired]
    refine ⟨_, if_pos rfl, ?_⟩
    unfold shortfall
    rw [← hmissing]
    split_ifs <;> simp [RuleEval.conclusion, hincompat₂]
  · have hmet : ∀ c ∈ rule.required, Met l r c := by simpa using hrequired
    obtain ⟨e₂, hloop₂⟩ := (requiredLoop_passes e₁).mpr hmet
    rw [hloop₂, Result.ok_bind, if_neg hrequired]
    exact restOf_concluded h.anyOf h.conditions ((requiredLoop_incompat hloop₂ :).trans hincompat₁)

/-! ### Reordered groups -/

/-- Two rules that differ in the order of the constraints of their groups. -/
structure Reordered (rule rule' : CompatibilityRule) : Prop where
  required : rule'.required.Perm rule.required
  anyOf : rule'.anyOf.Perm rule.anyOf
  incompatibleWith : rule'.incompatibleWith.Perm rule.incompatibleWith
  conditions : rule'.conditions.Perm rule.conditions
  other : rule' = { rule with
    required := rule'.required, anyOf := rule'.anyOf
    incompatibleWith := rule'.incompatibleWith, conditions := rule'.conditions }

theorem Reordered.settled {rule rule' : CompatibilityRule} (h : Reordered rule rule')
    (hsettled : RuleSettled l r rule) : RuleSettled l r rule' where
  veto c hc := hsettled.veto c (h.incompatibleWith.mem_iff.mp hc)
  required c hc := hsettled.required c (h.required.mem_iff.mp hc)
  anyOf c hc := hsettled.anyOf c (h.anyOf.mem_iff.mp hc)
  conditions c hc := hsettled.conditions c (h.conditions.mem_iff.mp hc)

theorem Reordered.kindOutcome_eq {rule rule' : CompatibilityRule} (h : Reordered rule rule') :
    kindOutcome l r rule' = kindOutcome l r rule := by
  have hkind : rule'.kind = rule.kind := (congrArg CompatibilityRule.kind h.other :)
  have houtcome : rule'.outcome = rule.outcome := (congrArg CompatibilityRule.outcome h.other :)
  classical
  unfold kindOutcome
  rw [hkind, houtcome]
  split
  · exact if_congr (by simp only [h.conditions.mem_iff]) rfl rfl
  all_goals rfl

theorem Reordered.concluded_eq {rule rule' : CompatibilityRule} (h : Reordered rule rule') :
    concluded l r rule' = concluded l r rule := by
  have hnil : rule'.anyOf = [] ↔ rule.anyOf = [] := by
    rw [← List.length_eq_zero_iff, h.anyOf.length_eq, List.length_eq_zero_iff]
  classical
  unfold concluded concludedRest
  refine if_congr (by simp only [h.incompatibleWith.mem_iff]) rfl (if_congr ?_ ?_ (if_congr ?_ ?_ ?_))
  · simp only [h.required.mem_iff]
  · simp only [List.mem_append, h.incompatibleWith.mem_iff, h.required.mem_iff]
  · simp only [ne_eq, hnil, h.anyOf.mem_iff]
  · simp only [h.anyOf.mem_iff]
  · rw [h.kindOutcome_eq]

/-- The order of the constraints in the groups of a rule changes neither its outcome nor
whether this is definite or a veto. -/
theorem evalRule_reordered {rule rule' : CompatibilityRule} (hsettled : RuleSettled l r rule)
    (h : Reordered rule rule') :
    ∃ e e', evalRule l r rule = .ok e ∧ evalRule l r rule' = .ok e' ∧
      e'.outcome = e.outcome ∧ e'.definite = e.definite ∧ e'.incompat = e.incompat := by
  obtain ⟨e, heval, heq⟩ := evalRule_concluded hsettled
  obtain ⟨e', heval', heq'⟩ := evalRule_concluded (h.settled hsettled)
  have hconclusion : e'.conclusion = e.conclusion := by rw [heq, heq', h.concluded_eq]
  obtain ⟨houtcome, hdefinite, hincompat⟩ := Conclusion.mk.inj hconclusion
  exact ⟨e, e', heval, heval', houtcome, hdefinite, hincompat⟩

end Order

/-- A requirement on a field that the profile has, and one on a field that it does not. -/
def bothRequired (first second : Bytes) : CompatibilityRule :=
  { required := [first, second].map fun field => { field, expected := .str (ascii "bf16") } }

/-- A model of a data type, and nothing else. -/
def typedModel : Subject := ⟨.declared .model, .record [(10, .str (ascii "bf16"))]⟩

theorem evalRule_reordered_pair :
    ∃ e e', evalRule typedModel typedModel (bothRequired (ascii "dtype") (ascii "family")) = .ok e ∧
      evalRule typedModel typedModel (bothRequired (ascii "family") (ascii "dtype")) = .ok e' ∧
      e'.outcome = e.outcome ∧ e'.definite = e.definite ∧ e'.incompat = e.incompat := by
  apply evalRule_reordered
  · refine ⟨by simp [bothRequired], ?_, by simp [bothRequired], by simp [bothRequired]⟩
    simp only [bothRequired, List.map_cons, List.map_nil, List.forall_mem_cons, List.not_mem_nil,
      false_imp_iff, implies_true, and_true]
    exact ⟨fun _ => ⟨_, rfl⟩, fun _ => ⟨_, rfl⟩⟩
  · exact ⟨List.Perm.swap _ _ _, .refl _, .refl _, .refl _, rfl⟩

end CompatRegistry
