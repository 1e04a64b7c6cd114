import CompatRegistry.Registry.Evaluate

/-! What is derived from the registry without changing it: cached decisions found
again, the matrix of a set of pairs, and the counterfactual decision on two edited
profiles, which is never stored. -/

namespace CompatRegistry

open Foundation Canon

structure MatrixCell where
  left : Uuid
  right : Uuid
  outcome : Enum8 Outcome
  reason : Bytes

structure MatrixResult where
  cells : List MatrixCell := []
  exact : ℕ := 0
  compatible : ℕ := 0
  compatibleWithAdaptation : ℕ := 0
  conditional : ℕ := 0
  incompatible : ℕ := 0
  unknown : ℕ := 0
  insufficientEvidence : ℕ := 0
  reasonCounts : List (Bytes × ℕ) := []

def MatrixResult.count (mr : MatrixResult) : Enum8 Outcome → MatrixResult
  | .declared .exact => { mr with exact := mr.exact + 1 }
  | .declared .compatible => { mr with compatible := mr.compatible + 1 }
  | .declared .compatibleWithAdaptation =>
    { mr with compatibleWithAdaptation := mr.compatibleWithAdaptation + 1 }
  | .declared .conditional => { mr with conditional := mr.conditional + 1 }
  | .declared .incompatible => { mr with incompatible := mr.incompatible + 1 }
  | .declared .unknown => { mr with unknown := mr.unknown + 1 }
  | .declared .insufficientEvidence =>
    { mr with insufficientEvidence := mr.insufficientEvidence + 1 }
  | .undeclared _ _ => mr

/-- Increment the counter of a name in a map that is sorted by name. -/
def countReason (reason : Bytes) : List (Bytes × ℕ) → List (Bytes × ℕ)
  | [] => [(reason, 1)]
  | (name, n) :: counts =>
    if reason < name then (reason, 1) :: (name, n) :: counts
    else if reason = name then (name, n + 1) :: counts
    else (name, n) :: countReason reason counts

structure CounterfactualEdit where
  field : Bytes
  value : Canon

namespace Registry

/-! ### Cached decisions -/

/-- The first cached decision with the id, in iteration order. -/
def findDecision (s : Registry) (id : Uuid) : Option CompatibilityDecision :=
  s.decisions.values.find? (·.decisionId = id)

def replayDecision (s : Registry) (id : Uuid) : Option CompatibilityDecision :=
  s.decisions.values.find? (·.decisionId = id)

/-! ### The matrix -/

def matrixStep (s : Registry) (mr : MatrixResult) (pair : Uuid × Uuid) : Result MatrixResult := do
  let d ← evaluateLocked s pair.1 pair.2 false
  let reason ← outcomeName d.outcome
  let cell : MatrixCell := { left := pair.1, right := pair.2, outcome := d.outcome, reason := reason }
  let mr := { mr with cells := mr.cells ++ [cell] }
  let mr := mr.count d.outcome
  .ok { mr with reasonCounts := countReason reason mr.reasonCounts }

def matrix (lefts rights : List Uuid) : Step MatrixResult := fun s =>
  ((lefts.product rights).foldlM (matrixStep s) {}, s)

/-! ### Counterfactuals -/

/-- One edit, of the right side if the field resolves on the right record as it is
stored, of the left side otherwise; a field that the side does not have is left alone. -/
def applyEdit (r : ProfileRecord) (sides : ProfileRecord × ProfileRecord) (ed : CounterfactualEdit) :
    Result (ProfileRecord × ProfileRecord) :=
  let onRight := (resolveProfileField r.kind r.payload ed.field).isSome
  let target := if onRight then sides.2 else sides.1
  if (resolveProfileField target.kind target.payload ed.field).isSome then do
    let payload ← applyProfileFieldEdit target.kind target.payload ed.field ed.value
    let fingerprint ← canonicalFingerprintHex payload
    let edited := { target with payload := payload, fingerprint := fingerprint }
    .ok (if onRight then (sides.1, edited) else (edited, sides.2))
  else .ok sides

/-- The active rules for pairs and for counterfactuals whose kinds, where given, are
those of the two sides. -/
def counterfactualCandidates (s : Registry) (l r : ProfileRecord) : List CompatibilityRule :=
  ((s.rules.values.filter fun rr =>
    rr.active && (rr.rule.scope == ascii "pair" || rr.rule.scope == ascii "counterfactual") &&
      rr.rule.leftKind.all (· == l.kind) && rr.rule.rightKind.all (· == r.kind)).map
    RuleRecord.rule).insertionSort fun a b => ¬ RuleBefore b a

/-- The outcome of the evaluated candidates, without conflict lines and without
naming a rule that concluded nothing. -/
def resolveCounterfactual (d : CompatibilityDecision) (evals : List RuleEval) : CompatibilityDecision :=
  match evals.filter (·.conclusive) with
  | best :: _ =>
    { d with
      outcome := best.outcome
      satisfied := best.satisfied
      failed := best.failed
      adaptations := best.adaptations
      missingEvidence := best.missingEvidence
      ruleId := best.rule.ruleId
      ruleGeneration := best.rule.generation }
  | [] =>
    { d with
      outcome := if evals.any (·.missing) then .declared .insufficientEvidence else .declared .unknown }

def counterfactualPair (left right : Uuid) (edits : List CounterfactualEdit) :
    Step CompatibilityDecision := fun s =>
  let d : CompatibilityDecision :=
    { left, right, registryGeneration := s.registryGen, policyId := s.policyId
      outcome := .declared .unknown, counterfactual := true }
  let result : Result CompatibilityDecision :=
    match s.newestActive left, s.newestActive right with
    | some l, some r => do
      let sides ← edits.foldlM (applyEdit r) (l, r)
      let evals ← (counterfactualCandidates s sides.1 sides.2).mapM
        (evalRule sides.1.toSubject sides.2.toSubject)
      let d := { resolveCounterfactual d evals with
        provenance := [ascii "counterfactual (derived) -- never authoritative"] }
      let digest ← d.computeDigest
      let d := { d with digest := digest }
      let text ← d.explainText
      .ok { d with explanation := text }
    | _, _ => do
      let d := { d with provenance := [ascii "counterfactual: profile absent"] }
      let digest ← d.computeDigest
      .ok { d with digest := digest }
  (result, s)

end Registry

end CompatRegistry
