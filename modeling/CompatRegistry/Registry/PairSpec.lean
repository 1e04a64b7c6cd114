import CompatRegistry.Registry.Reachable

/-! What the evaluation of a pair decides, stated without the iteration order of
the rule map: the applicable rules in strict order, the first conclusive one of
them, and a conflict line for each later one that disagrees. -/

namespace CompatRegistry

open Foundation Canon

/-! ### The order of rules -/

/-- Rules are ordered by falling priority, then by identity. -/
def ruleKey (rule : CompatibilityRule) : ℤ ×ₗ Uuid := toLex (-rule.priority.toInt, rule.ruleId)

theorem ruleBefore_iff {a b : CompatibilityRule} : RuleBefore a b ↔ ruleKey a < ruleKey b := by
  unfold RuleBefore ruleKey
  rw [Prod.Lex.toLex_lt_toLex, Int32.lt_iff_toInt_lt, ← Int32.toInt_inj]
  simp only [neg_lt_neg_iff, neg_inj]

theorem RuleBefore.irrefl (a : CompatibilityRule) : ¬ RuleBefore a a := by
  rw [ruleBefore_iff]
  exact lt_irrefl _

theorem RuleBefore.asymm {a b : CompatibilityRule} (h : RuleBefore a b) : ¬ RuleBefore b a := by
  rw [ruleBefore_iff] at h ⊢
  exact lt_asymm h

/-- Two rules of which neither comes first have one identity. -/
theorem ruleId_eq_of_not_before {a b : CompatibilityRule} (hab : ¬ RuleBefore a b)
    (hba : ¬ RuleBefore b a) : a.ruleId = b.ruleId := by
  rw [ruleBefore_iff, not_lt] at hab hba
  have hkey := congrArg (fun k => (ofLex k).2) (le_antisymm hba hab)
  exact hkey

theorem pairwise_sorted_rules (l : List CompatibilityRule) :
    (l.insertionSort fun a b => ¬ RuleBefore b a).Pairwise fun a b => ¬ RuleBefore b a := by
  have htotal : Std.Total fun a b : CompatibilityRule => ¬ RuleBefore b a := by
    refine ⟨fun a b => ?_⟩
    simp only [ruleBefore_iff, not_lt]
    exact le_total _ _
  have htrans : IsTrans CompatibilityRule fun a b => ¬ RuleBefore b a := by
    refine ⟨fun a b c => ?_⟩
    simp only [ruleBefore_iff, not_lt]
    exact le_trans
  exact List.pairwise_insertionSort _ l

namespace Registry

/-! ### Candidates -/

/-- The applicable rules, each once, in the order in which they are tried. -/
structure SortedCandidates (s : Registry) (scope : Bytes) (l r : ProfileRecord)
    (cand : List CompatibilityRule) : Prop where
  sorted : cand.Pairwise RuleBefore
  mem : ∀ rule, rule ∈ cand ↔
    ∃ id rr, s.rules.lookup id = some rr ∧ applicable scope l r rr = true ∧ rr.rule = rule

/-- There is one such list, whatever the order of the entries of the map. -/
theorem SortedCandidates.unique {s t : Registry} {scope : Bytes} {l r : ProfileRecord}
    {cand cand' : List CompatibilityRule} (hst : ∀ id, t.rules.lookup id = s.rules.lookup id)
    (h : SortedCandidates s scope l r cand) (h' : SortedCandidates t scope l r cand') : cand = cand' := by
  have hirrefl : Std.Irrefl RuleBefore := ⟨RuleBefore.irrefl⟩
  have hantisymm : Std.Antisymm RuleBefore := ⟨fun a b hab hba => absurd hba hab.asymm⟩
  apply h.sorted.eq_of_mem_iff h'.sorted
  intro rule
  rw [h.mem, h'.mem]
  simp only [hst]

theorem mem_candidates {s : Registry} {scope : Bytes} {l r : ProfileRecord} {rule : CompatibilityRule} :
    rule ∈ candidates s scope l r ↔
      ∃ id rr, s.rules.lookup id = some rr ∧ applicable scope l r rr = true ∧ rr.rule = rule := by
  unfold candidates
  simp only [List.mem_insertionSort, List.mem_map, List.mem_filter, UMap.mem_values_iff]
  constructor
  · rintro ⟨rr, ⟨⟨id, hl⟩, happ⟩, hrule⟩
    exact ⟨id, rr, hl, happ, hrule⟩
  · rintro ⟨id, rr, hl, happ, hrule⟩
    exact ⟨rr, ⟨⟨id, hl⟩, happ⟩, hrule⟩

/-- Every rule is stored under its own id, so no two candidates share one. -/
theorem candidates_ruleId_nodup {s : Registry} (h : Inv s) (scope : Bytes) (l r : ProfileRecord) :
    ((candidates s scope l r).map CompatibilityRule.ruleId).Nodup := by
  have hvalues : (s.rules.values.map fun rr => rr.rule.ruleId).Nodup := by
    have hkeys : s.rules.values.map (fun rr => rr.rule.ruleId) = s.rules.keys := by
      unfold UMap.values
      rw [List.map_map]
      exact List.map_congr_left fun e he => (h.rules e.1 e.2 (UMap.mem_entries_iff.mp he)).1
    rw [hkeys]
    exact s.rules.keys_nodup
  have hperm := (List.perm_insertionSort (fun a b => ¬ RuleBefore b a)
    ((s.rules.values.filter (applicable scope l r)).map RuleRecord.rule)).map CompatibilityRule.ruleId
  apply hperm.nodup_iff.mpr
  rw [List.map_map]
  exact hvalues.sublist (List.filter_sublist.map _)

theorem candidates_sorted {s : Registry} (h : Inv s) (scope : Bytes) (l r : ProfileRecord) :
    SortedCandidates s scope l r (candidates s scope l r) where
  sorted := by
    have hne := List.pairwise_map.mp (candidates_ruleId_nodup h scope l r)
    have hle := pairwise_sorted_rules ((s.rules.values.filter (applicable scope l r)).map RuleRecord.rule)
    refine (hle.and hne).imp fun {a b} hab => ?_
    by_contra hbefore
    exact hab.2 (ruleId_eq_of_not_before hbefore hab.1)
  mem rule := mem_candidates

/-! ### The decision that the evaluations give -/

/-- The line of a later rule that disagrees. -/
def IsConflictLine (e : RuleEval) (text : Bytes) : Prop :=
  ∃ name, outcomeName e.outcome = .ok name ∧ text = conflictLine e.rule name

/-- What the evaluated candidates decide. -/
inductive Resolution (cand : List CompatibilityRule) (evals : List RuleEval)
    (d : CompatibilityDecision) : Prop
  | concluded (before : List RuleEval) (best : RuleEval) (after : List RuleEval)
      (conflicts : List Bytes)
      (split : evals = before ++ best :: after)
      (inconclusive : ∀ e ∈ before, e.conclusive = false)
      (conclusive : best.conclusive = true)
      (outcome : d.outcome = best.outcome)
      (ruleId : d.ruleId = best.rule.ruleId)
      (ruleGeneration : d.ruleGeneration = best.rule.generation)
      (satisfied : d.satisfied = best.satisfied)
      (failed : d.failed = best.failed)
      (adaptations : d.adaptations = best.adaptations)
      (missingEvidence : d.missingEvidence = best.missingEvidence)
      (provenance : d.provenance =
        [ascii "deterministic rule resolution", ruleLine best.rule] ++ conflicts)
      (lines : List.Forall₂ IsConflictLine
        (after.filter fun e => e.conclusive && e.outcome != best.outcome) conflicts)
  | undecided
      (inconclusive : ∀ e ∈ evals, e.conclusive = false)
      (named : ∀ first rest, cand = first :: rest →
        d.ruleId = first.ruleId ∧ d.ruleGeneration = first.generation)
      (outcome : d.outcome = .declared
        (if evals.any (·.missing) then .insufficientEvidence else .unknown))

theorem filter_eq_cons {α : Type} {p : α → Bool} {l : List α} {a : α} {bs : List α}
    (h : l.filter p = a :: bs) :
    ∃ l₁ l₂, l = l₁ ++ a :: l₂ ∧ (∀ x ∈ l₁, p x = false) ∧ p a = true ∧ l₂.filter p = bs := by
  obtain ⟨l₁, l₂, hl, h₁, ha, h₂⟩ := List.filter_eq_cons_iff.mp h
  exact ⟨l₁, l₂, hl, by simpa using h₁, ha, h₂⟩

theorem conflictLines_forall₂ {best : Enum8 Outcome} {others : List RuleEval} {lines : List Bytes}
    (h : conflictLines best others = .ok lines) :
    List.Forall₂ IsConflictLine (others.filter (·.outcome != best)) lines := by
  apply (Result.mapM_eq_ok.mp h).imp
  intro e text he
  obtain ⟨name, hname, heq⟩ := Result.bind_eq_ok.mp he
  exact ⟨name, hname, by simpa using heq.symm⟩

theorem resolveRules_resolution {s : Registry} {left right : Uuid} {cand : List CompatibilityRule}
    {evals : List RuleEval} {d : CompatibilityDecision}
    (h : resolveRules (openDecision s left right) cand evals = .ok d) : Resolution cand evals d := by
  unfold resolveRules at h
  cases hf : evals.filter (·.conclusive) with
  | cons best others =>
    rw [hf] at h
    obtain ⟨conflicts, hlines, h⟩ := Result.bind_eq_ok.mp h
    obtain ⟨before, after, hsplit, hbefore, hbest, hafter⟩ := filter_eq_cons hf
    cases h
    refine .concluded before best after conflicts hsplit hbefore hbest rfl rfl rfl rfl rfl rfl rfl rfl ?_
    have hforall := conflictLines_forall₂ hlines
    rw [← hafter, List.filter_filter] at hforall
    simpa only [Bool.and_comm] using hforall
  | nil =>
    rw [hf] at h
    simp only [Except.ok.injEq] at h
    subst h
    refine .undecided (by simpa [List.filter_eq_nil_iff] using hf) ?_ ?_
    · rintro first rest rfl
      split <;> exact ⟨rfl, rfl⟩
    · split <;> rfl

/-- Naming and sealing a decision touch nothing that it decides. -/
theorem Resolution.congr {cand : List CompatibilityRule} {evals : List RuleEval}
    {d : CompatibilityDecision} (h : Resolution cand evals d) (id : Uuid) (digest : Digest)
    (text : Bytes) :
    Resolution cand evals { d with decisionId := id, digest := digest, explanation := text } := by
  cases h with
  | concluded before best after conflicts split inconclusive conclusive outcome ruleId ruleGeneration
      satisfied failed adaptations missingEvidence provenance lines =>
    exact .concluded before best after conflicts split inconclusive conclusive outcome ruleId
      ruleGeneration satisfied failed adaptations missingEvidence provenance lines
  | undecided inconclusive named outcome => exact .undecided inconclusive named outcome

/-! ### The specification of a pair -/

/-- The decision on a pair, as a relation. -/
inductive PairSpec (s : Registry) (left right : Uuid) (d : CompatibilityDecision) : Prop
  | absent
      (missing : s.newestActive left = none ∨ s.newestActive right = none)
      (outcome : d.outcome = .declared .unknown)
  | identical (l r : ProfileRecord)
      (left_active : s.newestActive left = some l)
      (right_active : s.newestActive right = some r)
      (same : l.fingerprint = r.fingerprint)
      (outcome : d.outcome = .declared .exact)
  | byRules (l r : ProfileRecord) (cand : List CompatibilityRule) (evals : List RuleEval)
      (left_active : s.newestActive left = some l)
      (right_active : s.newestActive right = some r)
      (differ : l.fingerprint ≠ r.fingerprint)
      (candidates : SortedCandidates s (ascii "pair") l r cand)
      (evaluated : List.Forall₂
        (fun rule e => evalRule l.toSubject r.toSubject rule = .ok e ∧ e.rule = rule) cand evals)
      (resolution : Resolution cand evals d)

theorem evaluateLocked_spec {s : Registry} (h : Inv s) {left right : Uuid} {d : CompatibilityDecision}
    (hd : evaluateLocked s left right false = .ok d) : PairSpec s left right d := by
  cases evaluateLocked_returned hd with
  | absent missing decided =>
    obtain ⟨digest, heq⟩ := absentDecision_eq s left right
    rw [heq] at decided
    cases decided
    exact .absent missing rfl
  | identical l r left_active right_active same decided =>
    obtain ⟨digest, heq⟩ := exactDecision_eq s l r
    rw [heq] at decided
    cases decided
    exact .identical l r left_active right_active same rfl
  | ruled l r left_active right_active differ decided =>
    obtain ⟨evals, d₁, text, hevals, hd₁, rfl⟩ := ruleDecision_eq_ok decided
    refine .byRules l r _ evals left_active right_active differ (candidates_sorted h _ l r) ?_
      ((resolveRules_resolution hd₁).congr _ _ _)
    exact (Result.mapM_eq_ok.mp hevals).imp fun rule e he => ⟨he, evalRule_rule he⟩

/-! ### Order and exceptions -/

/-- What an evaluation of the pair depends on. -/
structure SameInputs (left right : Uuid) (s t : Registry) : Prop where
  left : t.newestActive left = s.newestActive left
  right : t.newestActive right = s.newestActive right
  rules : ∀ id, t.rules.lookup id = s.rules.lookup id
  registryGen : t.registryGen = s.registryGen
  policyId : t.policyId = s.policyId

/-- The iteration order of the rule map does not matter. -/
theorem evaluateLocked_congr {s t : Registry} (h : Inv s) {left right : Uuid}
    (hst : SameInputs left right s t) (ht : Inv t) (requirement : Bool) :
    evaluateLocked t left right requirement = evaluateLocked s left right requirement := by
  have hcand : ∀ scope l r, candidates t scope l r = candidates s scope l r := fun scope l r =>
    ((candidates_sorted h scope l r).unique hst.rules (candidates_sorted ht scope l r)).symm
  unfold evaluateLocked
  rw [hst.left, hst.right]
  simp only [absentDecision, exactDecision, ruleDecision, sealDecision, openDecision, identityRecord,
    hcand, hst.registryGen, hst.policyId]

/-- Every applicable rule evaluates, to a declared outcome if it is conclusive. -/
def ApplicableEvaluate (s : Registry) (left right : Uuid) : Prop :=
  ∀ l r, s.newestActive left = some l → s.newestActive right = some r → l.fingerprint ≠ r.fingerprint →
    ∀ id rr, s.rules.lookup id = some rr → applicable (ascii "pair") l r rr = true →
      ∃ e, evalRule l.toSubject r.toSubject rr.rule = .ok e ∧
        (e.conclusive = true → e.outcome.isDeclared = true)

theorem evaluatePair_fst (left right : Uuid) (s : Registry) :
    (evaluatePair left right s).1 = evaluateLocked s left right false :=
  evaluateWith_fst false left right s

theorem evaluatePair_isOk {s : Registry} {left right : Uuid} :
    (∃ d, (evaluatePair left right s).1 = .ok d) ↔ ApplicableEvaluate s left right := by
  simp only [evaluatePair_fst, evaluateLocked_isOk, RulesEvaluate, ApplicableEvaluate, mem_candidates]
  constructor
  · intro h l r hl hr hf id rr hlook happ
    exact h l r hl hr hf rr.rule ⟨id, rr, hlook, happ, rfl⟩
  · rintro h l r hl hr hf rule ⟨id, rr, hlook, happ, rfl⟩
    exact h l r hl hr hf id rr hlook happ

/-- In every reachable state an evaluation of a pair returns exactly when its
applicable rules evaluate to declared outcomes. What it returns is what the
specification says, in every order in which the rules may be iterated. -/
theorem evaluatePair_meets_spec {s : Registry} (h : Reachable s) (left right : Uuid) :
    ((∃ d, (evaluatePair left right s).1 = .ok d) ↔ ApplicableEvaluate s left right) ∧
    ∀ d, (evaluatePair left right s).1 = .ok d → PairSpec s left right d ∧
      ∀ t, Reachable t → SameInputs left right s t → (evaluatePair left right t).1 = .ok d := by
  refine ⟨evaluatePair_isOk, fun d hd => ?_⟩
  rw [evaluatePair_fst] at hd
  refine ⟨evaluateLocked_spec h.inv hd, fun t ht hst => ?_⟩
  rw [evaluatePair_fst, evaluateLocked_congr h.inv hst ht.inv]
  exact hd

/-- Two different profiles and two rules without constraints, which disagree. -/
def conflictOps : List Op := [
  .registerProfile (uuidOf 1) (.declared .model) (.record []) [] [],
  .registerProfile (uuidOf 2) (.declared .model) (.record [(1, .uint 1)]) [] [],
  .registerRule { ruleId := uuidOf 3, scope := ascii "pair", outcome := .declared .incompatible },
  .registerRule { ruleId := uuidOf 4, scope := ascii "pair", priority := 1 }]

theorem conflictOps_reachable : Reachable (runOps conflictOps {}) := by
  refine runOps_reachable ?_ Reachable.empty
  simp only [conflictOps, List.forall_mem_cons, List.not_mem_nil, false_imp_iff, implies_true, and_true]
  refine ⟨?_, ?_, ⟨?_, ?_, ?_, ?_⟩, ⟨?_, ?_, ?_, ?_⟩⟩ <;> simp [Op.WF, WF, WFRecord, SortedMap.Sorted]

theorem evaluatePair_meets_spec_conflict :
    ∃ d, (evaluatePair (uuidOf 1) (uuidOf 2) (runOps conflictOps {})).1 = .ok d ∧
      PairSpec (runOps conflictOps {}) (uuidOf 1) (uuidOf 2) d := by
  have hok : (evaluatePair (uuidOf 1) (uuidOf 2) (runOps conflictOps {})).1.isOk = true := by
    decide +kernel
  cases hd : (evaluatePair (uuidOf 1) (uuidOf 2) (runOps conflictOps {})).1 with
  | error e =>
    rw [hd] at hok
    cases hok
  | ok d =>
    exact ⟨d, rfl, ((evaluatePair_meets_spec conflictOps_reachable (uuidOf 1) (uuidOf 2)).2 d hd).1⟩

/-- Two different profiles and a rule without constraints, whose outcome is no enumerator. -/
def undeclaredOps : List Op := [
  .registerProfile (uuidOf 1) (.declared .model) (.record []) [] [],
  .registerProfile (uuidOf 2) (.declared .model) (.record [(1, .uint 1)]) [] [],
  .registerRule { ruleId := uuidOf 3, scope := ascii "pair", outcome := Enum8.cast 200 }]

/-- No constraint is evaluated, and still the evaluation throws. -/
theorem evaluatePair_undeclared :
    Reachable (runOps undeclaredOps {}) ∧
    (∀ id rr, (runOps undeclaredOps {}).rules.lookup id = some rr → rr.rule.required = [] ∧
      rr.rule.anyOf = [] ∧ rr.rule.incompatibleWith = [] ∧ rr.rule.conditions = []) ∧
    (evaluatePair (uuidOf 1) (uuidOf 2) (runOps undeclaredOps {})).1 =
      .error (.runtimeError (ascii "outcome_name: unknown outcome")) := by
  have hwf : ∀ op ∈ undeclaredOps, op.WF := by
    simp only [undeclaredOps, List.forall_mem_cons, List.not_mem_nil, false_imp_iff, implies_true, and_true]
    refine ⟨?_, ?_, ⟨?_, ?_, ?_, ?_⟩⟩ <;> simp [Op.WF, WF, WFRecord, SortedMap.Sorted]
  have hrules : (runOps undeclaredOps {}).rules.values.all (fun rr => rr.rule.required.isEmpty &&
      rr.rule.anyOf.isEmpty && rr.rule.incompatibleWith.isEmpty && rr.rule.conditions.isEmpty) = true := by
    decide +kernel
  refine ⟨runOps_reachable hwf Reachable.empty, fun id rr hl => ?_, by decide +kernel⟩
  have hrr := List.all_eq_true.mp hrules rr (UMap.mem_values_iff.mpr ⟨id, hl⟩)
  simpa [and_assoc] using hrr

end Registry

end CompatRegistry
