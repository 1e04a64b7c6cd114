import CompatRegistry.Registry.State

/-! The evaluation of a pair: the two newest active records, the short cut for
equal fingerprints, the applicable rules in order of priority, and the decision
that the first conclusive rule gives. -/

namespace CompatRegistry

open Foundation Canon

/-- The order of the candidates: higher priority first, then the smaller rule id. -/
def RuleBefore (a b : CompatibilityRule) : Prop :=
  b.priority < a.priority ∨ a.priority = b.priority ∧ a.ruleId < b.ruleId

instance : DecidableRel RuleBefore := fun a b =>
  inferInstanceAs (Decidable (b.priority < a.priority ∨ a.priority = b.priority ∧ a.ruleId < b.ruleId))

namespace Registry

def scopeOf (requirement : Bool) : Bytes := if requirement then "requirement" else "pair"

/-- The active rules of the scope whose kinds, where given, are those of the pair. -/
def applicable (scope : Bytes) (l r : ProfileRecord) (rr : RuleRecord) : Bool :=
  rr.active && rr.rule.scope == scope && rr.rule.leftKind.all (· == l.kind) &&
    rr.rule.rightKind.all (· == r.kind)

def candidates (s : Registry) (scope : Bytes) (l r : ProfileRecord) : List CompatibilityRule :=
  ((s.rules.values.filter (applicable scope l r)).map RuleRecord.rule).insertionSort
    fun a b => ¬ RuleBefore b a

def ruleLine (rule : CompatibilityRule) : Bytes :=
  ascii "rule " ++ rule.ruleId.toString ++ ascii " (priority " ++ decimalInt rule.priority.toInt ++
    ascii ")"

def conflictLine (rule : CompatibilityRule) (outcome : Bytes) : Bytes :=
  ascii "conflict: rule " ++ rule.ruleId.toString ++ ascii " yielded " ++ outcome ++
    ascii "; deterministic policy chose highest priority"

def authoritativeLine (rule : CompatibilityRule) : Bytes :=
  ascii "authoritative rule " ++ rule.ruleId.toString ++ ascii " (generation " ++
    decimal rule.generation.toNat ++ ascii ")"

/-- A line for each later conclusive rule with another outcome. -/
def conflictLines (best : Enum8 Outcome) (others : List RuleEval) : Result (List Bytes) :=
  (others.filter (·.outcome != best)).mapM fun other => do
    let name ← outcomeName other.outcome
    .ok (conflictLine other.rule name)

/-- The decision that the evaluated candidates give. -/
def resolveRules (d : CompatibilityDecision) (cand : List CompatibilityRule) (evals : List RuleEval) :
    Result CompatibilityDecision :=
  match evals.filter (·.conclusive) with
  | best :: others => do
    let conflicts ← conflictLines best.outcome others
    .ok { d with
      outcome := best.outcome
      ruleId := best.rule.ruleId
      ruleGeneration := best.rule.generation
      satisfied := best.satisfied
      failed := best.failed
      adaptations := best.adaptations
      missingEvidence := best.missingEvidence
      provenance := d.provenance ++ [ruleLine best.rule] ++ conflicts }
  | [] =>
    -- the first candidate is named although it concluded nothing
    let d := match cand with
      | [] => d
      | authoritative :: _ =>
        { d with
          ruleId := authoritative.ruleId
          ruleGeneration := authoritative.generation
          provenance := d.provenance ++ [authoritativeLine authoritative] }
    .ok (if evals.any (·.missing) then
      { d with
        outcome := .declared .insufficientEvidence
        provenance := d.provenance ++ [ascii "one or more rules needed evidence that is not present"] }
      else
      { d with
        outcome := .declared .unknown
        provenance := d.provenance ++ [ascii "no rule establishes compatibility; profiles differ"] })

/-- The first sixteen bytes. -/
def digestToUuid (d : Digest) : Uuid := ⟨d.bytes.take 16, by simp [d.size]⟩

def identityRecord (s : Registry) (d : CompatibilityDecision) (requirement : Bool) : Canon :=
  ofEntries [(1, .uuid d.left), (2, .uuid d.right), (3, .uint s.registryGen),
    (4, .str (scopeOf requirement)), (5, .bool requirement), (6, .uuid s.policyId)]

/-- A decision before its outcome is known. -/
def openDecision (s : Registry) (left right : Uuid) : CompatibilityDecision :=
  { left, right, policyId := s.policyId, registryGeneration := s.registryGen
    provenance := [ascii "deterministic rule resolution"] }

def absentDecision (s : Registry) (left right : Uuid) : Result CompatibilityDecision := do
  let d := { openDecision s left right with
    outcome := .declared .unknown
    explanation := ascii "pair cannot be evaluated: one or both profiles are absent or invalidated" }
  let digest ← d.computeDigest
  .ok { d with digest := digest }

def exactDecision (s : Registry) (l r : ProfileRecord) : Result CompatibilityDecision := do
  let d := openDecision s l.id r.id
  let d := { d with
    outcome := .declared .exact
    provenance := d.provenance ++ [ascii "identical canonical identity (exact)"]
    satisfied := [⟨ascii "canonical_fingerprint", l.fingerprint, r.fingerprint, true,
      ascii "identical"⟩] }
  let digest ← d.computeDigest
  .ok { d with digest := digest }

/-- The identity, the digest and the text of a resolved decision. -/
def sealDecision (s : Registry) (requirement : Bool) (d : CompatibilityDecision) :
    Result CompatibilityDecision := do
  let identity ← canonicalFingerprint (identityRecord s d requirement)
  let d := { d with decisionId := digestToUuid identity }
  let digest ← d.computeDigest
  let d := { d with digest := digest }
  let text ← d.explainText
  .ok { d with explanation := text }

def ruleDecision (s : Registry) (l r : ProfileRecord) (requirement : Bool) :
    Result CompatibilityDecision := do
  let cand := candidates s (scopeOf requirement) l r
  let evals ← cand.mapM (evalRule l.toSubject r.toSubject)
  let d ← resolveRules (openDecision s l.id r.id) cand evals
  sealDecision s requirement d

def evaluateLocked (s : Registry) (left right : Uuid) (requirement : Bool) :
    Result CompatibilityDecision :=
  match s.newestActive left, s.newestActive right with
  | some l, some r =>
    if l.fingerprint = r.fingerprint then exactDecision s l r else ruleDecision s l r requirement
  | _, _ => absentDecision s left right

/-- An evaluation that returns stores its decision under the digest. -/
def evaluateWith (requirement : Bool) (left right : Uuid) : Step CompatibilityDecision := fun s =>
  match evaluateLocked s left right requirement with
  | .error e => (.error e, s)
  | .ok d => (.ok d, { s with decisions := s.decisions.insert d.digest d })

def evaluatePair (left right : Uuid) : Step CompatibilityDecision := evaluateWith false left right

def evaluateRequirement (candidate requirement : Uuid) : Step CompatibilityDecision :=
  evaluateWith true candidate requirement

section Branches
variable {s : Registry} {left right : Uuid} {requirement : Bool}

theorem evaluateLocked_of_absent
    (missing : s.newestActive left = none ∨ s.newestActive right = none) :
    evaluateLocked s left right requirement = absentDecision s left right := by
  unfold evaluateLocked
  rcases missing with hl | hr
  · rw [hl]
  · rw [hr]
    cases s.newestActive left <;> rfl

theorem evaluateLocked_of_active {l r : ProfileRecord} (hl : s.newestActive left = some l)
    (hr : s.newestActive right = some r) :
    evaluateLocked s left right requirement =
      if l.fingerprint = r.fingerprint then exactDecision s l r else ruleDecision s l r requirement := by
  unfold evaluateLocked
  rw [hl, hr]

end Branches

/-! ### When an evaluation returns -/

theorem conflictLines_isOk {best : Enum8 Outcome} {others : List RuleEval} :
    (∃ lines, conflictLines best others = .ok lines) ↔
      ∀ e ∈ others, e.outcome ≠ best → e.outcome.isDeclared = true := by
  unfold conflictLines
  rw [Result.mapM_isOk]
  simp only [List.mem_filter, bne_iff_ne, ne_eq, and_imp, ← outcomeName_isOk, Result.bind_eq_ok,
    Except.ok.injEq]
  constructor
  · intro h e he hne
    obtain ⟨_, name, hname, -⟩ := h e he hne
    exact ⟨name, hname⟩
  · intro h e he hne
    obtain ⟨name, hname⟩ := h e he hne
    exact ⟨_, name, hname, rfl⟩

/-- A resolved decision can be sealed, outcome name included, exactly when every
conclusive evaluation has a declared outcome. -/
theorem resolveRules_isOk {d : CompatibilityDecision} {cand : List CompatibilityRule}
    {evals : List RuleEval} :
    (∃ d', resolveRules d cand evals = .ok d' ∧ d'.outcome.isDeclared = true) ↔
      ∀ e ∈ evals, e.conclusive = true → e.outcome.isDeclared = true := by
  have hfilter : (∀ e ∈ evals, e.conclusive = true → e.outcome.isDeclared = true) ↔
      ∀ e ∈ evals.filter (·.conclusive), e.outcome.isDeclared = true := by
    simp [List.mem_filter]
  rw [hfilter]
  unfold resolveRules
  cases evals.filter (·.conclusive) with
  | nil =>
    simp only [List.not_mem_nil, false_imp_iff, implies_true, iff_true]
    split <;> exact ⟨_, rfl, rfl⟩
  | cons best others =>
    simp only [Result.bind_eq_ok, Except.ok.injEq, List.forall_mem_cons]
    constructor
    · rintro ⟨_, ⟨lines, hlines, rfl⟩, hbest⟩
      refine ⟨hbest, fun e he => ?_⟩
      by_cases hne : e.outcome = best.outcome
      · rw [hne]
        exact hbest
      · exact conflictLines_isOk.mp ⟨lines, hlines⟩ e he hne
    · rintro ⟨hbest, hothers⟩
      obtain ⟨lines, hlines⟩ := conflictLines_isOk.mpr fun e he _ => hothers e he
      exact ⟨_, ⟨lines, hlines, rfl⟩, hbest⟩

theorem identityRecord_wf (s : Registry) (d : CompatibilityDecision) (requirement : Bool) :
    (identityRecord s d requirement).WF := ofEntries_wf _ (by simp [WFRecord, WF])

/-- A decision with its identity and its digest. -/
def identified (s : Registry) (requirement : Bool) (d : CompatibilityDecision) : CompatibilityDecision :=
  let d := { d with
    decisionId := digestToUuid (Sha256.compute (identityRecord s d requirement).encoding) }
  { d with digest := Sha256.compute d.digestRecord.encoding }

theorem sealDecision_eq (s : Registry) (requirement : Bool) (d : CompatibilityDecision) :
    sealDecision s requirement d = (do
      let text ← (identified s requirement d).explainText
      .ok { identified s requirement d with explanation := text }) := by
  unfold sealDecision
  rw [canonicalFingerprint_of_wf (identityRecord_wf s d requirement), Result.ok_bind]
  simp only [CompatibilityDecision.computeDigest_eq, Result.ok_bind]
  rfl

theorem sealDecision_isOk {s : Registry} {requirement : Bool} {d : CompatibilityDecision} :
    (∃ d', sealDecision s requirement d = .ok d') ↔ d.outcome.isDeclared = true := by
  have hout : (identified s requirement d).outcome = d.outcome := rfl
  rw [sealDecision_eq, ← hout, ← CompatibilityDecision.explainText_isOk]
  simp only [Result.bind_eq_ok, Except.ok.injEq]
  constructor
  · rintro ⟨_, text, htext, -⟩
    exact ⟨text, htext⟩
  · rintro ⟨text, htext⟩
    exact ⟨_, text, htext, rfl⟩

/-- Every rule among the candidates evaluates, to an outcome with a name if it is conclusive. -/
def RulesEvaluate (s : Registry) (requirement : Bool) (l r : ProfileRecord) : Prop :=
  ∀ rule ∈ candidates s (scopeOf requirement) l r,
    ∃ e, evalRule l.toSubject r.toSubject rule = .ok e ∧
      (e.conclusive = true → e.outcome.isDeclared = true)

theorem ruleDecision_isOk {s : Registry} {l r : ProfileRecord} {requirement : Bool} :
    (∃ d, ruleDecision s l r requirement = .ok d) ↔ RulesEvaluate s requirement l r := by
  unfold ruleDecision RulesEvaluate
  simp only [Result.bind_eq_ok]
  constructor
  · rintro ⟨d', evals, hevals, d, hd, hseal⟩
    have hdeclared := resolveRules_isOk.mp ⟨d, hd, sealDecision_isOk.mp ⟨d', hseal⟩⟩
    intro rule hrule
    obtain ⟨e, hmem, he⟩ := Result.mapM_mem_left hevals hrule
    exact ⟨e, he, hdeclared e hmem⟩
  · intro h
    obtain ⟨evals, hevals⟩ := Result.mapM_isOk.mpr fun rule hrule => (h rule hrule).imp fun e he => he.1
    have hdeclared : ∀ e ∈ evals, e.conclusive = true → e.outcome.isDeclared = true := by
      intro e he
      obtain ⟨rule, hrule, heq⟩ := Result.mapM_mem_right hevals he
      obtain ⟨e', he', hdecl⟩ := h rule hrule
      rw [heq] at he'
      cases he'
      exact hdecl
    obtain ⟨d, hd, hout⟩ := resolveRules_isOk.mpr hdeclared
    obtain ⟨d', hd'⟩ := sealDecision_isOk.mpr hout
    exact ⟨d', evals, hevals, d, hd, hd'⟩

theorem absentDecision_eq (s : Registry) (left right : Uuid) :
    ∃ digest, absentDecision s left right = .ok { openDecision s left right with
      outcome := .declared .unknown
      explanation := ascii "pair cannot be evaluated: one or both profiles are absent or invalidated"
      digest := digest } := by
  unfold absentDecision
  simp only [CompatibilityDecision.computeDigest_eq, Result.ok_bind]
  exact ⟨_, rfl⟩

theorem exactDecision_eq (s : Registry) (l r : ProfileRecord) :
    ∃ digest, exactDecision s l r = .ok { openDecision s l.id r.id with
      outcome := .declared .exact
      provenance := (openDecision s l.id r.id).provenance ++
        [ascii "identical canonical identity (exact)"]
      satisfied := [⟨ascii "canonical_fingerprint", l.fingerprint, r.fingerprint, true,
        ascii "identical"⟩]
      digest := digest } := by
  unfold exactDecision
  simp only [CompatibilityDecision.computeDigest_eq, Result.ok_bind]
  exact ⟨_, rfl⟩

/-- An evaluation returns unless it comes to rules that do not. -/
theorem evaluateLocked_isOk {s : Registry} {left right : Uuid} {requirement : Bool} :
    (∃ d, evaluateLocked s left right requirement = .ok d) ↔
      ∀ l r, s.newestActive left = some l → s.newestActive right = some r →
        l.fingerprint ≠ r.fingerprint → RulesEvaluate s requirement l r := by
  unfold evaluateLocked
  split
  next l r hl hr =>
    have hpair : (∀ l' r', s.newestActive left = some l' → s.newestActive right = some r' →
        l'.fingerprint ≠ r'.fingerprint → RulesEvaluate s requirement l' r') ↔
        (l.fingerprint ≠ r.fingerprint → RulesEvaluate s requirement l r) := by
      refine ⟨fun h => h l r hl hr, fun h l' r' hl' hr' => ?_⟩
      rw [hl] at hl'
      rw [hr] at hr'
      cases hl'
      cases hr'
      exact h
    rw [hpair]
    split_ifs with hf
    · obtain ⟨digest, h⟩ := exactDecision_eq s l r
      exact ⟨fun _ hne => absurd hf hne, fun _ => ⟨_, h⟩⟩
    · rw [ruleDecision_isOk]
      exact ⟨fun h _ => h, fun h => h hf⟩
  next hnone =>
    obtain ⟨digest, h⟩ := absentDecision_eq s left right
    refine ⟨fun _ l r hl hr => absurd hr (hnone l r hl), fun _ => ⟨_, h⟩⟩

/-- Resolving the rules settles the outcome and what goes with it, and no other member. -/
theorem resolveRules_frame {d d' : CompatibilityDecision} {cand : List CompatibilityRule}
    {evals : List RuleEval} (h : resolveRules d cand evals = .ok d') :
    d' = { d with
      outcome := d'.outcome, ruleId := d'.ruleId, ruleGeneration := d'.ruleGeneration
      satisfied := d'.satisfied, failed := d'.failed, adaptations := d'.adaptations
      missingEvidence := d'.missingEvidence, provenance := d'.provenance } := by
  unfold resolveRules at h
  split at h
  · obtain ⟨lines, -, h⟩ := Result.bind_eq_ok.mp h
    cases h
    rfl
  · simp only [Except.ok.injEq] at h
    subst h
    cases cand <;> split <;> rfl

/-- The ways in which an evaluation returns. -/
inductive Returned (s : Registry) (left right : Uuid) (requirement : Bool)
    (d : CompatibilityDecision) : Prop
  | absent (missing : s.newestActive left = none ∨ s.newestActive right = none)
      (decided : absentDecision s left right = .ok d)
  | identical (l r : ProfileRecord) (left_active : s.newestActive left = some l)
      (right_active : s.newestActive right = some r) (same : l.fingerprint = r.fingerprint)
      (decided : exactDecision s l r = .ok d)
  | ruled (l r : ProfileRecord) (left_active : s.newestActive left = some l)
      (right_active : s.newestActive right = some r) (differ : l.fingerprint ≠ r.fingerprint)
      (decided : ruleDecision s l r requirement = .ok d)

theorem evaluateLocked_returned {s : Registry} {left right : Uuid} {requirement : Bool}
    {d : CompatibilityDecision} (h : evaluateLocked s left right requirement = .ok d) :
    Returned s left right requirement d := by
  cases hl : s.newestActive left with
  | none =>
    rw [evaluateLocked_of_absent (.inl hl)] at h
    exact .absent (.inl hl) h
  | some l =>
    cases hr : s.newestActive right with
    | none =>
      rw [evaluateLocked_of_absent (.inr hr)] at h
      exact .absent (.inr hr) h
    | some r =>
      rw [evaluateLocked_of_active hl hr] at h
      split_ifs at h with hf
      · exact .identical l r hl hr hf h
      · exact .ruled l r hl hr hf h

/-- A decision by rules, with what was resolved before it was sealed. -/
theorem ruleDecision_eq_ok {s : Registry} {l r : ProfileRecord} {requirement : Bool}
    {d : CompatibilityDecision} (h : ruleDecision s l r requirement = .ok d) :
    ∃ evals d₁ text,
      (candidates s (scopeOf requirement) l r).mapM (evalRule l.toSubject r.toSubject) = .ok evals ∧
      resolveRules (openDecision s l.id r.id) (candidates s (scopeOf requirement) l r) evals = .ok d₁ ∧
      d = { identified s requirement d₁ with explanation := text } := by
  obtain ⟨evals, hevals, h⟩ := Result.bind_eq_ok.mp h
  obtain ⟨d₁, hd₁, h⟩ := Result.bind_eq_ok.mp h
  rw [sealDecision_eq] at h
  obtain ⟨text, -, h⟩ := Result.bind_eq_ok.mp h
  cases h
  exact ⟨evals, d₁, text, hevals, hd₁, rfl⟩

/-- A decision carries no evidence ids. -/
theorem evaluateLocked_evidence {s : Registry} {left right : Uuid} {requirement : Bool}
    {d : CompatibilityDecision} (h : evaluateLocked s left right requirement = .ok d) :
    d.evidence = [] := by
  cases evaluateLocked_returned h with
  | absent missing decided =>
    obtain ⟨digest, heq⟩ := absentDecision_eq s left right
    rw [heq] at decided
    cases decided
    rfl
  | identical l r left_active right_active same decided =>
    obtain ⟨digest, heq⟩ := exactDecision_eq s l r
    rw [heq] at decided
    cases decided
    rfl
  | ruled l r left_active right_active differ decided =>
    obtain ⟨evals, d₁, text, -, hd₁, rfl⟩ := ruleDecision_eq_ok decided
    exact congrArg CompatibilityDecision.evidence (resolveRules_frame hd₁)

/-- The digest is that of the decision as it is returned. -/
theorem evaluateLocked_digest {s : Registry} {left right : Uuid} {requirement : Bool}
    {d : CompatibilityDecision} (h : evaluateLocked s left right requirement = .ok d) :
    d.computeDigest = .ok d.digest := by
  cases evaluateLocked_returned h with
  | absent missing decided =>
    obtain ⟨digest, hdigest, decided⟩ := Result.bind_eq_ok.mp decided
    cases decided
    exact hdigest
  | identical l r left_active right_active same decided =>
    obtain ⟨digest, hdigest, decided⟩ := Result.bind_eq_ok.mp decided
    cases decided
    exact hdigest
  | ruled l r left_active right_active differ decided =>
    obtain ⟨evals, d₁, text, -, -, rfl⟩ := ruleDecision_eq_ok decided
    exact CompatibilityDecision.computeDigest_eq _

theorem evaluateWith_fst (requirement : Bool) (left right : Uuid) (s : Registry) :
    (evaluateWith requirement left right s).1 = evaluateLocked s left right requirement := by
  unfold evaluateWith
  cases evaluateLocked s left right requirement <;> rfl

end Registry

end CompatRegistry
