import CompatRegistry.Registry.Invariant

/-! What a call can do to a registry, said once. A profile call deactivates the
older generations, and a superseding one drops the edges of the profile, before it
comes to the cycle test; then it throws or appends a record. Every other call changes
one part of the registry. Each of the effects keeps the invariant. -/

namespace CompatRegistry

open Foundation Canon

namespace Registry

/-- The states in which a profile call comes to the cycle test. -/
inductive Prepared (id : Uuid) (s : Registry) : Registry → Prop
  | deactivated : Prepared id s (deactivateAll id s)
  | dropped : Prepared id s (removeDependency id (deactivateAll id s))

inductive Effect (s : Registry) : Registry → Prop
  | unchanged : Effect s s
  | rejected {id : Uuid} {targets : List Uuid} {t : Registry} (prepared : Prepared id s t)
      (cyclic : createCycle id targets t = true) : Effect s t
  | appended {record : ProfileRecord} {t : Registry} (prepared : Prepared record.id s t)
      (sound : record.Sound record.id)
      (generation : record.generation = nextGeneration (s.profiles.lookup record.id))
      (acyclic : createCycle record.id record.deps t = false) : Effect s (appendRecord record t)
  | retired (id : Uuid) (reason : Bytes) (known : (s.profiles.lookup id).isSome = true) :
      Effect s { invalidateWith id reason s with
        registryGen := (invalidateWith id reason s).registryGen + 1 }
  | propagated (id : Uuid) : Effect s (propagateInvalidation id s).2
  | ruleStored {rr : RuleRecord} (ruleGen : UInt64) (wf : rr.rule.WF) :
      Effect s { s with
        rules := s.rules.insert rr.rule.ruleId rr, ruleGen, registryGen := s.registryGen + 1 }
  | evidenceStored {ev : EvidenceRecord} (wf : ev.value.WF) : Effect s (registerEvidence ev s).2
  | policySet (policy : Uuid) : Effect s (setPolicy policy s).2
  | decided {left right : Uuid} {requirement : Bool} {d : CompatibilityDecision}
      (evaluated : evaluateLocked s left right requirement = .ok d) :
      Effect s { s with decisions := s.decisions.insert d.digest d }

theorem registerRecord_effect (s : Registry) {p : ProfileRecord} (hp : p.payload.WF) :
    Effect s (registerRecord p s).2 := by
  unfold registerRecord
  rw [canonicalFingerprintHex_of_wf hp]
  simp only
  split_ifs with hsame hcycle
  · exact .unchanged
  · exact .rejected .deactivated hcycle
  · exact .appended .deactivated ⟨rfl, hp, rfl⟩ rfl (by simpa using hcycle)

theorem supersedeProfile_effect (s : Registry) (kind : Enum8 ProfileKind) (id : Uuid) {payload : Canon}
    (hp : payload.WF) (deps : List Uuid) (provenance : Bytes) :
    Effect s (supersedeProfile kind id payload deps provenance s).2 := by
  unfold supersedeProfile
  cases hl : s.profiles.lookup id with
  | none => exact .unchanged
  | some hist =>
    simp only [canonicalFingerprintHex_of_wf hp]
    split_ifs with hsame hcycle
    · exact .unchanged
    · exact .rejected .dropped hcycle
    · exact .appended .dropped ⟨rfl, hp, rfl⟩ (congrArg nextGeneration hl.symm) (by simpa using hcycle)

theorem evaluateWith_effect (s : Registry) (requirement : Bool) (left right : Uuid) :
    Effect s (evaluateWith requirement left right s).2 := by
  unfold evaluateWith
  cases he : evaluateLocked s left right requirement with
  | error e => exact .unchanged
  | ok d => exact .decided he

theorem registerProfile_effect (s : Registry) (genseed : Uuid) (kind : Enum8 ProfileKind)
    {payload : Canon} (hp : payload.WF) (deps : List Uuid) (provenance : Bytes) :
    Effect s (registerProfile genseed kind payload deps provenance s).2 := by
  unfold registerProfile
  rw [canonicalFingerprintHex_of_wf hp]
  exact registerRecord_effect s hp

theorem invalidateProfile_effect (s : Registry) (id : Uuid) (reason : Bytes) :
    Effect s (invalidateProfile id reason s).2 := by
  unfold invalidateProfile
  cases hl : s.profiles.lookup id with
  | none => exact .unchanged
  | some hist => exact .retired id reason (by rw [hl]; rfl)

theorem registerRule_effect (s : Registry) {rule : CompatibilityRule} (hwf : rule.WF) :
    Effect s (registerRule rule s).2 :=
  @Effect.ruleStored s { rule := { rule with generation := assignedGeneration rule s } } _
    ⟨hwf.required, hwf.anyOf, hwf.incompatibleWith, hwf.conditions⟩

theorem supersedeRule_effect (s : Registry) (id : Uuid) {rule : CompatibilityRule} (hwf : rule.WF) :
    Effect s (supersedeRule id rule s).2 := by
  unfold supersedeRule
  cases s.rules.lookup id with
  | none => exact .unchanged
  | some rr =>
    exact @Effect.ruleStored s { rule := { rule with ruleId := id, generation := rr.rule.generation + 1 } }
      s.ruleGen ⟨hwf.required, hwf.anyOf, hwf.incompatibleWith, hwf.conditions⟩

theorem disableRule_effect {s : Registry} (h : Inv s) (id : Uuid) : Effect s (disableRule id s).2 := by
  unfold disableRule
  cases hl : s.rules.lookup id with
  | none => exact .unchanged
  | some rr =>
    obtain ⟨rfl, hwf⟩ := h.rules id rr hl
    exact @Effect.ruleStored s { rr with active := false, superseded := true } s.ruleGen hwf

theorem Prepared.inv {id : Uuid} {s t : Registry} (h : Prepared id s t) (hs : Inv s) : Inv t := by
  cases h with
  | deactivated => exact deactivateAll_inv hs id
  | dropped => exact removeDependency_inv (deactivateAll_inv hs id) id

/-- Every effect keeps the invariant. -/
theorem Effect.inv {s t : Registry} (he : Effect s t) (h : Inv s) : Inv t := by
  cases he with
  | unchanged => exact h
  | rejected prepared cyclic => exact prepared.inv h
  | appended prepared sound generation acyclic => exact appendRecord_inv (prepared.inv h) sound
  | retired id reason known =>
    have hretired := invalidateWith_inv h id reason
    exact hretired.congr hretired.profiles rfl rfl rfl
  | propagated id => exact propagateInvalidation_inv h id
  | ruleStored ruleGen wf =>
    have hstored := insertRule_inv h rfl wf
    exact hstored.congr hstored.profiles rfl rfl rfl
  | evidenceStored wf => exact registerEvidence_inv h wf
  | policySet policy => exact h.congr h.profiles rfl rfl rfl
  | decided evaluated => exact insertDecision_inv h (evaluateLocked_evidence evaluated)

/-! ### Frames -/

theorem Prepared.eq {id : Uuid} {s t : Registry} (h : Prepared id s t) :
    ∃ d r, t = { deactivateAll id s with deps := d, reverse := r } := by
  cases h with
  | deactivated => exact ⟨s.deps, s.reverse, rfl⟩
  | dropped => exact removeDependency_eq id _

theorem invalidateWith_eq (id : Uuid) (reason : Bytes) (s : Registry) :
    ∃ p i, invalidateWith id reason s = { s with profiles := p, invalidations := i } := by
  unfold invalidateWith
  cases s.profiles.lookup id with
  | none => exact ⟨s.profiles, s.invalidations, rfl⟩
  | some h => exact ⟨_, _, rfl⟩

theorem propagateLoop_eq (reverse : UMap Uuid (List Uuid)) (stack seen : List Uuid) (s : Registry) :
    ∃ p i, propagateLoop reverse stack seen s = { s with profiles := p, invalidations := i } := by
  refine propagateLoop_related (R := fun s t => ∃ p i, t = { s with profiles := p, invalidations := i })
    (fun s => ⟨s.profiles, s.invalidations, rfl⟩) ?_ (fun id s => invalidateWith_eq id propagateReason s) reverse
    stack seen s
  rintro s _ _ ⟨p, i, rfl⟩ ⟨p', i', rfl⟩
  exact ⟨p', i', rfl⟩

/-- Every call but an evaluation leaves the cache alone. -/
theorem Effect.decisions {s t : Registry} (he : Effect s t) :
    t.decisions = s.decisions ∨ ∃ left right requirement d,
      Registry.evaluateLocked s left right requirement = .ok d ∧
        t.decisions = s.decisions.insert d.digest d := by
  have hprepared : ∀ {id u}, Prepared id s u → u.decisions = s.decisions := by
    intro id u hu
    obtain ⟨deps, reverse, rfl⟩ := hu.eq
    rfl
  cases he with
  | unchanged => exact .inl rfl
  | rejected prepared cyclic => exact .inl (hprepared prepared)
  | @appended record u prepared sound generation acyclic =>
    obtain ⟨deps, reverse, heq⟩ := appendRecord_eq record u
    rw [heq]
    exact .inl (hprepared prepared :)
  | retired id reason known =>
    obtain ⟨profiles, invalidations, heq⟩ := invalidateWith_eq id reason s
    rw [heq]
    exact .inl rfl
  | propagated id =>
    obtain ⟨profiles, invalidations, heq⟩ := propagateLoop_eq s.reverse [id] [] s
    unfold propagateInvalidation
    rw [heq]
    exact .inl rfl
  | ruleStored => exact .inl rfl
  | evidenceStored => exact .inl rfl
  | policySet => exact .inl rfl
  | decided evaluated => exact .inr ⟨_, _, _, _, evaluated, rfl⟩

end Registry

end CompatRegistry
