import CompatRegistry.Registry.PairSpec

/-! The identity of a decision. A decision by rules is named after what was asked,
the policy and the generation of the registry; a decision that is made before the
rules are looked at, on an absent profile or on equal fingerprints, keeps the zero
identity. -/

namespace CompatRegistry

open Foundation Canon

namespace Registry

/-- The identity record of a request, encoded. -/
def identityText (s : Registry) (left right : Uuid) (requirement : Bool) : Bytes :=
  (identityRecord s { left, right } requirement).encoding

/-- The identity that a decision by rules gets. -/
def requestId (s : Registry) (left right : Uuid) (requirement : Bool) : Uuid :=
  digestToUuid (Sha256.compute (identityText s left right requirement))

/-- What an evaluation was asked, with the policy and the generation that it met. -/
structure EvaluationKey where
  left : Uuid
  right : Uuid
  scope : Bytes
  policyId : Uuid
  registryGeneration : Generation
  deriving DecidableEq

/-- An evaluation that returned. -/
structure Evaluation where
  state : Registry
  left : Uuid
  right : Uuid
  requirement : Bool
  decision : CompatibilityDecision
  returned : evaluateLocked state left right requirement = .ok decision

namespace Evaluation

def key (e : Evaluation) : EvaluationKey where
  left := e.left
  right := e.right
  scope := scopeOf e.requirement
  policyId := e.state.policyId
  registryGeneration := e.state.registryGen

/-- The evaluation returns before it comes to the rules. -/
def Early (e : Evaluation) : Prop :=
  ∀ l r, e.state.newestActive e.left = some l → e.state.newestActive e.right = some r →
    l.fingerprint = r.fingerprint

def identityText (e : Evaluation) : Bytes :=
  Registry.identityText e.state e.left e.right e.requirement

def requestId (e : Evaluation) : Uuid := Registry.requestId e.state e.left e.right e.requirement

/-! ### The identity record -/

theorem scopeOf_injective : Function.Injective scopeOf := by
  intro b b' h
  cases b <;> cases b' <;> first | rfl | exact absurd h (by decide)

theorem scopeOf_length_le (requirement : Bool) : (scopeOf requirement).length ≤ 11 := by
  cases requirement <;> decide

theorem identityRecord_fits (s : Registry) (d : CompatibilityDecision) (requirement : Bool) :
    (identityRecord s d requirement).Fits := by
  have hscope := scopeOf_length_le requirement
  apply fits_of_length _
  simp only [identityRecord, ofEntries, element, recordBody, frame_length, List.length_append,
    toBE_length, d.left.size, d.right.size, s.policyId.size, List.length_cons, List.length_nil]
  omega

theorem identityText_eq_iff {e e' : Evaluation} : e.identityText = e'.identityText ↔ e.key = e'.key := by
  constructor
  · intro h
    have hrecord := encoding_injective (identityRecord_wf _ _ _) (identityRecord_wf _ _ _)
      (identityRecord_fits _ _ _) (identityRecord_fits _ _ _) h
    simp only [identityRecord, ofEntries, Canon.record.injEq, List.cons.injEq, Prod.mk.injEq, true_and,
      Canon.uuid.injEq, Canon.uint.injEq, Canon.str.injEq, Canon.bool.injEq, and_true] at hrecord
    obtain ⟨hleft, hright, hgeneration, hscope, -, hpolicy⟩ := hrecord
    unfold key
    rw [hleft, hright, hgeneration, hscope, hpolicy]
  · intro h
    simp only [key, EvaluationKey.mk.injEq] at h
    obtain ⟨hleft, hright, hscope, hpolicy, hgeneration⟩ := h
    unfold identityText Registry.identityText identityRecord
    rw [hleft, hright, scopeOf_injective hscope, hpolicy, hgeneration]

/-! ### The identity of the decision -/

theorem decisionId_of_early {e : Evaluation} (he : e.Early) : e.decision.decisionId = Uuid.zero := by
  cases evaluateLocked_returned e.returned with
  | absent missing decided =>
    obtain ⟨digest, heq⟩ := absentDecision_eq e.state e.left e.right
    rw [heq] at decided
    exact congrArg CompatibilityDecision.decisionId (Except.ok.inj decided).symm
  | identical l r left_active right_active same decided =>
    obtain ⟨digest, heq⟩ := exactDecision_eq e.state l r
    rw [heq] at decided
    exact congrArg CompatibilityDecision.decisionId (Except.ok.inj decided).symm
  | ruled l r left_active right_active differ decided =>
    exact absurd (he l r left_active right_active) differ

theorem decisionId_of_not_early {e : Evaluation} (h : Inv e.state) (he : ¬ e.Early) :
    e.decision.decisionId = e.requestId := by
  cases evaluateLocked_returned e.returned with
  | absent missing decided =>
    refine absurd (fun l r hl hr => ?_) he
    simp [hl, hr] at missing
  | identical l r left_active right_active same decided =>
    refine absurd (fun l' r' hl hr => ?_) he
    rw [left_active, Option.some.injEq] at hl
    rw [right_active, Option.some.injEq] at hr
    rw [← hl, ← hr]
    exact same
  | ruled l r left_active right_active differ decided =>
    obtain ⟨evals, d₁, text, -, hd₁, heq⟩ := ruleDecision_eq_ok decided
    have hframe := resolveRules_frame hd₁
    have hleft : d₁.left = e.left :=
      (congrArg CompatibilityDecision.left hframe).trans (h.newestActive left_active).id
    have hright : d₁.right = e.right :=
      (congrArg CompatibilityDecision.right hframe).trans (h.newestActive right_active).id
    rw [heq]
    simp only [identified, requestId, Registry.requestId, Registry.identityText, identityRecord, hleft,
      hright]

/-- Equal identities come from equal identity records, and no identity record has the
zero identity. -/
structure IdsCollisionFree (e e' : Evaluation) : Prop where
  distinct : e.requestId = e'.requestId → e.identityText = e'.identityText
  left : e.requestId ≠ Uuid.zero
  right : e'.requestId ≠ Uuid.zero

/-- Early decisions share one identity, and the others have that of their key. -/
theorem decisionId_eq_iff {e e' : Evaluation} (h : Inv e.state) (h' : Inv e'.state)
    (hcoll : IdsCollisionFree e e') :
    e.decision.decisionId = e'.decision.decisionId ↔
      e.Early ∧ e'.Early ∨ ¬ e.Early ∧ ¬ e'.Early ∧ e.key = e'.key := by
  have hid : e.requestId = e'.requestId ↔ e.key = e'.key :=
    ⟨fun heq => identityText_eq_iff.mp (hcoll.distinct heq), fun hkey => by
      exact congrArg (fun text => digestToUuid (Sha256.compute text)) (identityText_eq_iff.mpr hkey)⟩
  by_cases he : e.Early <;> by_cases he' : e'.Early
  · simp [decisionId_of_early he, decisionId_of_early he', he, he']
  · simp [decisionId_of_early he, decisionId_of_not_early h' he', he, he', hcoll.right.symm]
  · simp [decisionId_of_not_early h he, decisionId_of_early he', he, he', hcoll.left]
  · simp [decisionId_of_not_early h he, decisionId_of_not_early h' he', he, he', hid]

/-- The two decisions have one identity exactly when they answer the same request. -/
def IdsIdentify (e e' : Evaluation) : Prop :=
  e.decision.decisionId = e'.decision.decisionId ↔ e.key = e'.key

/-- Of two evaluations in reachable states the identities tell the requests apart exactly
when both come to the rules, or both return early on the same request, or one of
them does and the requests differ. -/
theorem idsIdentify_iff {e e' : Evaluation} (h : Reachable e.state) (h' : Reachable e'.state)
    (hcoll : IdsCollisionFree e e') :
    IdsIdentify e e' ↔
      ¬ e.Early ∧ ¬ e'.Early ∨ e.Early ∧ e'.Early ∧ e.key = e'.key ∨
        ¬ (e.Early ↔ e'.Early) ∧ e.key ≠ e'.key := by
  unfold IdsIdentify
  rw [decisionId_eq_iff h.inv h'.inv hcoll]
  tauto

/-- Two different profiles and no rule. -/
def differOps : List Op := [
  .registerProfile (uuidOf 1) (.declared .model) (.record []) [] [],
  .registerProfile (uuidOf 2) (.declared .model) (.record [(1, .uint 1)]) [] []]

theorem differOps_reachable : Reachable (runOps differOps {}) := by
  refine runOps_reachable ?_ Reachable.empty
  simp [differOps, Op.WF, WF, WFRecord, SortedMap.Sorted]

/-- The evaluation of the two profiles in a scope returns, after it has come to the rules. -/
theorem exists_ruled_differ (requirement : Bool) : ∃ e : Evaluation, e.state = runOps differOps {} ∧
    e.left = uuidOf 1 ∧ e.right = uuidOf 2 ∧ e.requirement = requirement ∧ ¬ e.Early := by
  have hrules : (runOps differOps {}).rules.values.isEmpty = true := by decide +kernel
  have hdiffer : ∃ l r, (runOps differOps {}).newestActive (uuidOf 1) = some l ∧
      (runOps differOps {}).newestActive (uuidOf 2) = some r ∧ l.fingerprint ≠ r.fingerprint := by
    have hboth : (((runOps differOps {}).newestActive (uuidOf 1)).any fun l =>
        ((runOps differOps {}).newestActive (uuidOf 2)).any fun r =>
          l.fingerprint != r.fingerprint) = true := by
      decide +kernel
    simpa [Option.any_eq_true] using hboth
  obtain ⟨l, r, hl, hr, hne⟩ := hdiffer
  have hreturns : ∃ d, evaluateLocked (runOps differOps {}) (uuidOf 1) (uuidOf 2) requirement = .ok d := by
    apply evaluateLocked_isOk.mpr
    intro l r _ _ _ rule hrule
    obtain ⟨id, rr, hlook, -⟩ := mem_candidates.mp hrule
    have hmem := UMap.mem_values_iff.mpr ⟨id, hlook⟩
    rw [List.isEmpty_iff.mp hrules] at hmem
    cases hmem
  obtain ⟨d, hd⟩ := hreturns
  exact ⟨⟨_, _, _, requirement, d, hd⟩, rfl, rfl, rfl, rfl, fun hearly => hne (hearly l r hl hr)⟩

/-- The two scopes of one pair. -/
theorem idsIdentify_differ : ∃ e e' : Evaluation, e.requirement = false ∧ e'.requirement = true ∧
    IdsIdentify e e' := by
  obtain ⟨e, hstate, hleft, hright, hpair, hruled⟩ := exists_ruled_differ false
  obtain ⟨e', hstate', hleft', hright', hrequirement, hruled'⟩ := exists_ruled_differ true
  have hids : Registry.requestId (runOps differOps {}) (uuidOf 1) (uuidOf 2) false ≠
        Registry.requestId (runOps differOps {}) (uuidOf 1) (uuidOf 2) true ∧
      Registry.requestId (runOps differOps {}) (uuidOf 1) (uuidOf 2) false ≠ Uuid.zero ∧
      Registry.requestId (runOps differOps {}) (uuidOf 1) (uuidOf 2) true ≠ Uuid.zero := by
    decide +kernel
  have hid : e.requestId = Registry.requestId (runOps differOps {}) (uuidOf 1) (uuidOf 2) false := by
    rw [requestId, hstate, hleft, hright, hpair]
  have hid' : e'.requestId = Registry.requestId (runOps differOps {}) (uuidOf 1) (uuidOf 2) true := by
    rw [requestId, hstate', hleft', hright', hrequirement]
  rw [← hid, ← hid'] at hids
  refine ⟨e, e', hpair, hrequirement, (idsIdentify_iff ?_ ?_ ⟨?_, hids.2.1, hids.2.2⟩).mpr
    (.inl ⟨hruled, hruled'⟩)⟩
  · rw [hstate]
    exact differOps_reachable
  · rw [hstate']
    exact differOps_reachable
  · exact fun heq => absurd heq hids.1

/-- The same pair before and after the registry advanced, with no profile registered. -/
theorem not_idsIdentify_absent : ∃ e e' : Evaluation, e.state = {} ∧
    e'.state = (Op.registerEvidence {}).run {} ∧ e.left = uuidOf 1 ∧ e'.left = uuidOf 1 ∧
    e.right = uuidOf 2 ∧ e'.right = uuidOf 2 ∧ e.requirement = false ∧ e'.requirement = false ∧
    IdsCollisionFree e e' ∧ ¬ IdsIdentify e e' := by
  let advanced : Registry := (registerEvidence {} {}).2
  obtain ⟨digest, hd⟩ := absentDecision_eq {} (uuidOf 1) (uuidOf 2)
  obtain ⟨digest', hd'⟩ := absentDecision_eq advanced (uuidOf 1) (uuidOf 2)
  let e : Evaluation := ⟨{}, uuidOf 1, uuidOf 2, false, _, hd⟩
  let e' : Evaluation := ⟨advanced, uuidOf 1, uuidOf 2, false, _, hd'⟩
  have hids : Registry.requestId {} (uuidOf 1) (uuidOf 2) false ≠
        Registry.requestId advanced (uuidOf 1) (uuidOf 2) false ∧
      Registry.requestId {} (uuidOf 1) (uuidOf 2) false ≠ Uuid.zero ∧
      Registry.requestId advanced (uuidOf 1) (uuidOf 2) false ≠ Uuid.zero := by
    decide +kernel
  refine ⟨e, e', rfl, rfl, rfl, rfl, rfl, rfl, rfl, rfl, ⟨?_, hids.2.1, hids.2.2⟩, ?_⟩
  · exact fun heq => absurd heq hids.1
  · intro h
    have hgeneration : ({} : Registry).registryGen = advanced.registryGen :=
      congrArg EvaluationKey.registryGeneration (h.mp rfl)
    revert hgeneration
    decide

end Evaluation

end Registry

end CompatRegistry
