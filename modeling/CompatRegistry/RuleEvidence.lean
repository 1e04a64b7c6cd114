import CompatRegistry.RuleOrder

/-! The missing evidence that the evaluation of a rule reports. Only the left fields of
veto clauses and requirements are noted; an alternative without evidence sets a flag, and
a right-hand field is noted under the name of the left one. -/

namespace CompatRegistry

open Foundation Canon

section Evidence

variable (l r : Subject)

/-- A field of the constraint that its side does not have. -/
inductive Absent (c : Constraint) : Bytes → Prop
  | left (unresolved : resolveProfileField l.kind l.payload c.field = none) : Absent c c.field
  | right (named : c.rightField ≠ []) (unresolved : resolveProfileField r.kind r.payload c.rightField = none) :
      Absent c c.rightField

/-- The veto clauses and the requirements, which come first. -/
def CompatibilityRule.gates (rule : CompatibilityRule) : List Constraint :=
  rule.incompatibleWith ++ rule.required

def CompatibilityRule.constraints (rule : CompatibilityRule) : List Constraint :=
  rule.gates ++ rule.anyOf ++ rule.conditions

/-- The constraints whose missing evidence is what an outcome `InsufficientEvidence` says:
the gates, where a requirement is not met, and else the alternatives, where none holds. -/
def Led (rule : CompatibilityRule) (c : Constraint) : Prop :=
  ((∃ x ∈ rule.required, ¬ Met l r x) ∧ c ∈ rule.gates) ∨
    (∀ x ∈ rule.required, Met l r x) ∧ (∀ x ∈ rule.anyOf, Unmet l r x) ∧ c ∈ rule.anyOf

/-- Names of absent fields, and all of those that led to the outcome. -/
structure EvidenceListed (rule : CompatibilityRule) (names : List Bytes) : Prop where
  nonempty : names ≠ []
  absent : ∀ name ∈ names, ∃ c ∈ rule.constraints, Absent l r c name
  complete : ∀ c, Led l r rule c → ∀ name, Absent l r c name → name ∈ names

/-- The left fields of the constraints without evidence. -/
def unknownFields (cs : List Constraint) : List Bytes :=
  (cs.filter fun c => !constraintKnown l r c).map Constraint.field

/-- The name of the left field of a gate without evidence. -/
def Noted (rule : CompatibilityRule) (name : Bytes) : Prop :=
  ∃ c ∈ rule.gates, ¬ Known l r c ∧ c.field = name

/-- What is noted is absent and enough: a gate lacks evidence; each such gate lacks its
left field, unless the name is also that of an absent right field of the rule; and the
absent right fields of the gates, or else the absent fields of the alternatives, are noted
under another constraint. -/
structure NotedSuffices (rule : CompatibilityRule) : Prop where
  noted : ∃ c ∈ rule.gates, ¬ Known l r c
  left : ∀ c ∈ rule.gates, ¬ Known l r c → resolveProfileField l.kind l.payload c.field = none ∨
    ∃ x ∈ rule.constraints, x.rightField = c.field ∧ c.field ≠ [] ∧
      resolveProfileField r.kind r.payload c.field = none
  right : (∃ x ∈ rule.required, ¬ Met l r x) → ∀ c ∈ rule.gates, c.rightField ≠ [] →
    resolveProfileField r.kind r.payload c.rightField = none → Noted l r rule c.rightField
  alternatives : (∀ x ∈ rule.required, Met l r x) → (∀ x ∈ rule.anyOf, Unmet l r x) →
    ∀ c ∈ rule.anyOf, ∀ name, Absent l r c name → Noted l r rule name

variable {l r}

theorem known_iff {c : Constraint} : Known l r c ↔
    resolveProfileField l.kind l.payload c.field ≠ none ∧
      (c.rightField ≠ [] → resolveProfileField r.kind r.payload c.rightField ≠ none) := by
  unfold Known constraintKnown
  rw [Bool.and_eq_true, Bool.or_eq_true, Option.isSome_iff_ne_none, beq_iff_eq, Option.isSome_iff_ne_none,
    imp_iff_not_or, not_not]

/-- A constraint lacks evidence because of one of its two fields. -/
theorem not_known_iff {c : Constraint} : ¬ Known l r c ↔ ∃ name, Absent l r c name := by
  rw [known_iff]
  constructor
  · intro h
    by_cases hleft : resolveProfileField l.kind l.payload c.field = none
    · exact ⟨_, .left hleft⟩
    · simp only [hleft, ne_eq, not_false_eq_true, true_and, Classical.not_imp, not_not] at h
      exact ⟨_, .right h.1 h.2⟩
  · rintro ⟨_, h⟩ ⟨hleft, hright⟩
    cases h with
    | left unresolved => exact hleft unresolved
    | right named unresolved => exact hright named unresolved

theorem mem_unknownFields {cs : List Constraint} {name : Bytes} :
    name ∈ unknownFields l r cs ↔ ∃ c ∈ cs, ¬ Known l r c ∧ c.field = name := by
  simp [unknownFields, Known, and_assoc]

theorem unknownFields_append (cs ds : List Constraint) :
    unknownFields l r (cs ++ ds) = unknownFields l r cs ++ unknownFields l r ds := by
  simp [unknownFields]

/-- The left fields of the gates without evidence are what should be listed exactly when
they suffice. -/
theorem evidenceListed_iff {rule : CompatibilityRule} :
    EvidenceListed l r rule (unknownFields l r rule.gates) ↔ NotedSuffices l r rule := by
  constructor
  · intro h
    refine ⟨?_, fun c hc hunknown => ?_, fun hunmet c hc hnamed hright => ?_, fun hmet hnone c hc name habsent => ?_⟩
    · obtain ⟨name, hname⟩ := List.exists_mem_of_ne_nil _ h.nonempty
      obtain ⟨c, hc, hunknown, -⟩ := mem_unknownFields.mp hname
      exact ⟨c, hc, hunknown⟩
    · obtain ⟨x, hx, habsent⟩ := h.absent _ (mem_unknownFields.mpr ⟨c, hc, hunknown, rfl⟩)
      generalize hname : c.field = name at habsent ⊢
      cases habsent with
      | left unresolved => exact .inl unresolved
      | right named unresolved => exact .inr ⟨x, hx, rfl, named, unresolved⟩
    · exact mem_unknownFields.mp (h.complete c (.inl ⟨hunmet, hc⟩) _ (.right hnamed hright))
    · exact mem_unknownFields.mp (h.complete c (.inr ⟨hmet, hnone, hc⟩) name habsent)
  · intro h
    refine ⟨?_, fun name hname => ?_, fun c hled name habsent => mem_unknownFields.mpr ?_⟩
    · obtain ⟨c, hc, hunknown⟩ := h.noted
      exact List.ne_nil_of_mem (mem_unknownFields.mpr ⟨c, hc, hunknown, rfl⟩)
    · obtain ⟨c, hc, hunknown, rfl⟩ := mem_unknownFields.mp hname
      rcases h.left c hc hunknown with hleft | ⟨x, hx, heq, hne, hright⟩
      · exact ⟨c, by simp [CompatibilityRule.constraints, hc], .left hleft⟩
      · rw [← heq] at hne hright ⊢
        exact ⟨x, hx, .right hne hright⟩
    · rcases hled with ⟨hunmet, hc⟩ | ⟨hmet, hnone, hc⟩
      · cases habsent with
        | left unresolved => exact ⟨c, hc, not_known_iff.mpr ⟨_, .left unresolved⟩, rfl⟩
        | right named unresolved => exact h.right hunmet c hc named unresolved
      · exact h.alternatives hmet hnone c hc name habsent

/-! ### What the loops note -/

theorem unknownFields_cons (c : Constraint) (cs : List Constraint) : unknownFields l r (c :: cs) =
    if constraintKnown l r c = true then unknownFields l r cs else c.field :: unknownFields l r cs := by
  unfold unknownFields
  rw [List.filter_cons]
  split_ifs <;> simp_all

theorem vetoLoop_missingEvidence {cs : List Constraint} {e e' : RuleEval}
    (h : vetoLoop l r cs e = .ok (e', false)) :
    e'.missingEvidence = e.missingEvidence ++ unknownFields l r cs := by
  refine vetoLoop_stops.leaves (R := fun cs e out => out.2 = false →
    out.1.missingEvidence = e.missingEvidence ++ unknownFields l r cs) (by simp [unknownFields]) ?_ ?_ ?_ h rfl
  · intro c cs v e _ hflag
    cases hflag
  · intro c cs v e out hk hrest hflag
    rw [hrest hflag, unknownFields_cons, if_pos hk]
  · intro c cs e out hk hrest hflag
    rw [hrest hflag, unknownFields_cons, if_neg hk]
    simp

theorem requiredLoop_missingEvidence {cs : List Constraint} {e : RuleEval} {result : RuleEval × Bool}
    (h : requiredLoop l r cs e = .ok result) :
    result.1.missingEvidence = e.missingEvidence ++ unknownFields l r cs := by
  refine requiredLoop_gathers.leaves
    (R := fun cs e e' => e'.missingEvidence = e.missingEvidence ++ unknownFields l r cs) (by simp [unknownFields])
    ?_ ?_ h
  · intro c cs v e e' hk hrest
    rw [hrest.elim id id, unknownFields_cons, if_pos hk]
  · intro c cs e e' hk hrest
    rw [hrest, unknownFields_cons, if_neg hk]
    simp

/-- An alternative without evidence is not noted. -/
theorem anyLoop_missingEvidence {cs : List Constraint} {m : Bool} {e : RuleEval}
    {result : RuleEval × Bool × Bool} (h : anyLoop l r cs m e = .ok result) :
    result.1.missingEvidence = e.missingEvidence ∧ result.1.missing = e.missing := by
  refine anyLoop_stops.leaves (R := fun _ s out =>
    out.1.1.missingEvidence = s.1.missingEvidence ∧ out.1.1.missing = s.1.missing)
    (fun _ => ⟨rfl, rfl⟩) ?_ ?_ ?_ (anyLoop_eq_ok.mp h)
  · intro c cs v s _
    exact ⟨rfl, rfl⟩
  · intro c cs v s out _ hrest
    exact hrest
  · intro c cs s out _ hrest
    exact hrest

/-- Conditions that are all met leave nothing behind. -/
theorem conditionLoop_true {cs : List Constraint} {e e' : RuleEval}
    (h : conditionLoop l r cs e = .ok (e', true)) : e' = e := by
  induction cs generalizing e with
  | nil =>
    cases h
    rfl
  | cons c cs ih =>
    rw [conditionLoop] at h
    split_ifs at h
    · obtain ⟨v, -, h⟩ := Result.bind_eq_ok.mp h
      split_ifs at h
      · exact (ih h :)
      · obtain ⟨result', -, h⟩ := Result.bind_eq_ok.mp h
        cases h
    · obtain ⟨result', -, h⟩ := Result.bind_eq_ok.mp h
      cases h

/-- The kind of the rule is always definite, and notes evidence only for an outcome
`Conditional`. -/
theorem kindResult_noted {rule : CompatibilityRule} {e e' : RuleEval} (h : kindResult l r rule e = .ok e') :
    e'.definite = true ∧ (e'.outcome ≠ .declared .conditional →
      e'.missingEvidence = e.missingEvidence ∧ e'.missing = e.missing) := by
  unfold kindResult at h
  split at h
  · obtain ⟨⟨e₁, cond⟩, hloop, h⟩ := Result.bind_eq_ok.mp h
    cases h
    cases cond with
    | true =>
      obtain rfl := conditionLoop_true hloop
      exact ⟨rfl, fun _ => ⟨rfl, rfl⟩⟩
    | false => exact ⟨rfl, fun hne => absurd rfl hne⟩
  all_goals
    cases h
    exact ⟨rfl, fun _ => ⟨rfl, rfl⟩⟩

/-! ### What an evaluation notes -/

/-- Only the outcome `Unknown` is ever not definite. -/
theorem conclusive_iff {rule : CompatibilityRule} {e : RuleEval} (h : evalRule l r rule = .ok e) :
    e.conclusive = true ↔ e.outcome ≠ .declared .unknown := by
  have hdefinite : e.outcome ≠ .declared .unknown → e.definite = true := by
    intro hne
    cases evalRule_ended l r h with
    | vetoed veto => exact congrArg Conclusion.definite (vetoLoop_conclusion veto)
    | short e₁ e₂ veto required result =>
      subst result
      split_ifs at hne ⊢
      · rfl
      · exact absurd rfl hne
    | noAlternative e₁ e₂ e₃ anyMissing veto required some any result =>
      subst result
      split_ifs at hne ⊢
      · rfl
      · exact absurd rfl hne
    | byKind e₁ e₂ e₃ veto required any kind => exact (kindResult_noted kind).1
  unfold RuleEval.conclusive
  rw [Bool.and_eq_true, bne_iff_ne]
  exact ⟨fun hc => hc.2, fun hne => ⟨hdefinite hne, hne⟩⟩

/-- With an outcome `InsufficientEvidence` or `Unknown` the left fields of the gates without
evidence are noted, and `Unknown` comes with `missing` set when there are any. -/
theorem evalRule_noted {rule : CompatibilityRule} {e : RuleEval} (h : evalRule l r rule = .ok e)
    (hout : e.outcome = .declared .insufficientEvidence ∨ e.outcome = .declared .unknown) :
    e.missingEvidence = unknownFields l r rule.gates ∧
      (e.outcome = .declared .unknown → (e.missing = true ↔ ∃ c ∈ rule.gates, ¬ Known l r c)) := by
  have hgates : ∀ {e₁ e₂ : RuleEval} {all : Bool}, vetoLoop l r rule.incompatibleWith { rule } = .ok (e₁, false) →
      requiredLoop l r rule.required e₁ = .ok (e₂, all) →
      e₂.missingEvidence = unknownFields l r rule.gates ∧
        (e₂.missing = true ↔ ∃ c ∈ rule.gates, ¬ Known l r c) := by
    intro e₁ e₂ all hveto hrequired
    constructor
    · rw [requiredLoop_missingEvidence hrequired, vetoLoop_missingEvidence hveto, CompatibilityRule.gates,
        unknownFields_append]
      rfl
    · rw [requiredLoop_missing hrequired, vetoLoop_missing hveto, CompatibilityRule.gates]
      simp [or_and_right, exists_or]
  cases evalRule_ended l r h with
  | vetoed veto =>
    rw [vetoLoop_vetoed veto] at hout
    rcases hout with hout | hout <;> cases hout
  | short e₁ e₂ veto required result =>
    obtain ⟨hlisted, hmissing⟩ := hgates veto required
    subst result
    split_ifs
    · exact ⟨hlisted, fun hunknown => by cases hunknown⟩
    · exact ⟨hlisted, fun _ => hmissing⟩
  | noAlternative e₁ e₂ e₃ anyMissing veto required some any result =>
    obtain ⟨hlisted, hmissing⟩ := hgates veto required
    obtain ⟨hany, hflag⟩ : e₃.missingEvidence = e₂.missingEvidence ∧ e₃.missing = e₂.missing :=
      anyLoop_missingEvidence any
    subst result
    split_ifs
    · exact ⟨hany.trans hlisted, fun hunknown => by cases hunknown⟩
    · exact ⟨hany.trans hlisted, fun _ => by rw [← hmissing, ← hflag]⟩
  | byKind e₁ e₂ e₃ veto required any kind =>
    obtain ⟨hlisted, hmissing⟩ := hgates veto required
    have hsame : e₃.missingEvidence = e₂.missingEvidence ∧ e₃.missing = e₂.missing := by
      rcases any with ⟨-, rfl⟩ | ⟨anyMissing, hany⟩
      · exact ⟨rfl, rfl⟩
      · exact anyLoop_missingEvidence hany
    have hne : e.outcome ≠ .declared .conditional := by
      rcases hout with hout | hout <;> simp [hout]
    obtain ⟨hkind, hflag⟩ := (kindResult_noted kind).2 hne
    exact ⟨(hkind.trans hsame.1).trans hlisted, fun _ => by rw [← hmissing, ← hsame.2, ← hflag]⟩

end Evidence

end CompatRegistry
