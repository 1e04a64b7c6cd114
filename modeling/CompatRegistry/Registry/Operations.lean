import CompatRegistry.Registry.Dependencies

/-! The operations that change a registry. Registering and superseding a profile
deactivate the older generations, and superseding drops the edges of the profile,
before the cycle test; when the test throws, these changes stay. -/

namespace CompatRegistry

open Foundation Canon

namespace Registry

/-! ### Profiles -/

def cycleRejected (op : String) (id : Uuid) : Fault :=
  .runtimeError (ascii op ++ ascii ": dependency cycle rejected for " ++ id.toString)

/-- A repeat of the newest record, which is still active. -/
def sameContent (latest record : ProfileRecord) : Bool :=
  latest.active && latest.fingerprint == record.fingerprint && latest.deps == record.deps

/-- Every active generation of the profile becomes a superseded one. -/
def deactivateAll (id : Uuid) (s : Registry) : Registry :=
  { s with profiles := s.profiles.modify id (History.map ProfileRecord.deactivate) }

/-- Append a generation, replace the edges of the profile, advance the registry. -/
def appendRecord (record : ProfileRecord) (s : Registry) : Registry :=
  let s := { s with
    profiles := s.profiles.insert record.id (History.pushOrSingle (s.profiles.lookup record.id) record) }
  let s := addDependency record.id record.deps s
  { s with registryGen := s.registryGen + 1 }

/-- The generation after the newest one, or the first. -/
def nextGeneration : Option History → Generation
  | none => 1
  | some h => h.back.generation + 1

/-- `register_profile(ProfileRecord)`. -/
def registerRecord (record : ProfileRecord) : Step Uuid := fun s =>
  match canonicalFingerprintHex record.payload with
  | .error e => (.error e, s)
  | .ok fingerprint =>
    let record := { record with fingerprint := fingerprint }
    let found := s.profiles.lookup record.id
    if found.any fun h => sameContent h.back record && h.back.kind == record.kind then (.ok record.id, s)
    else
      let s := deactivateAll record.id s
      let record := { record with generation := nextGeneration found }
      if createCycle record.id record.deps s then (.error (cycleRejected "register_profile" record.id), s)
      else (.ok record.id, appendRecord record s)

/-- `register_profile` under a fresh identity. -/
def registerProfile (genseed : Uuid) (kind : Enum8 ProfileKind) (payload : Canon) (deps : List Uuid)
    (provenance : Bytes) : Step Uuid := fun s =>
  match canonicalFingerprintHex payload with
  | .error e => (.error e, s)
  | .ok fingerprint =>
    registerRecord { kind, payload, id := genseed, deps, provenance, fingerprint } s

def supersedeProfile (kind : Enum8 ProfileKind) (id : Uuid) (payload : Canon) (deps : List Uuid)
    (provenance : Bytes) : Step Uuid := fun s =>
  match s.profiles.lookup id with
  | none => (.error (.runtimeError (ascii "supersede_profile: unknown profile " ++ id.toString)), s)
  | some h =>
    match canonicalFingerprintHex payload with
    | .error e => (.error e, s)
    | .ok fingerprint =>
      let record : ProfileRecord := { kind, payload, id, deps, provenance, fingerprint }
      if sameContent h.back record then (.ok id, s)
      else
        let s := removeDependency id (deactivateAll id s)
        let record := { record with generation := nextGeneration (some h) }
        if createCycle id deps s then (.error (cycleRejected "supersede_profile" id), s)
        else (.ok id, appendRecord record s)

/-- The newest generation of a history, as an invalidation names it. -/
def invalidationOf (target : Uuid) (h : History) (reason : Bytes) : Invalidation :=
  { target, generation := h.back.generation, reason, fingerprintBefore := h.back.fingerprint }

/-- Every generation of the profile is retired and the invalidation is noted. -/
def invalidateWith (id : Uuid) (reason : Bytes) (s : Registry) : Registry :=
  match s.profiles.lookup id with
  | none => s
  | some h =>
    { s with
      invalidations := s.invalidations ++ [invalidationOf id h reason]
      profiles := s.profiles.insert id (h.map ProfileRecord.retire) }

def invalidateProfile (id : Uuid) (reason : Bytes) : Step Bool := fun s =>
  match s.profiles.lookup id with
  | none => (.ok false, s)
  | some _ =>
    let s := invalidateWith id reason s
    (.ok true, { s with registryGen := s.registryGen + 1 })

/-! ### Rules, evidence, policy -/

/-- The stored rule that a rule without a generation follows on. -/
def predecessor (rule : CompatibilityRule) (s : Registry) : Option RuleRecord :=
  (s.rules.lookup rule.ruleId).filter (·.active)

/-- The generation under which a rule is stored; zero asks for an automatic one. -/
def assignedGeneration (rule : CompatibilityRule) (s : Registry) : Generation :=
  if rule.generation ≠ 0 then rule.generation
  else match predecessor rule s with
    | some rr => rr.rule.generation + 1
    | none => s.ruleGen + 1

def registerRule (rule : CompatibilityRule) : Step Uuid := fun s =>
  (.ok rule.ruleId, { s with
    rules := s.rules.insert rule.ruleId
      { rule := { rule with generation := assignedGeneration rule s } }
    ruleGen := if rule.generation = 0 ∧ (predecessor rule s).isNone then s.ruleGen + 1 else s.ruleGen
    registryGen := s.registryGen + 1 })

def supersedeRule (id : Uuid) (rule : CompatibilityRule) : Step Bool := fun s =>
  match s.rules.lookup id with
  | none => (.ok false, s)
  | some rr =>
    let rule := { rule with ruleId := id, generation := rr.rule.generation + 1 }
    (.ok true, { s with rules := s.rules.insert id { rule }, registryGen := s.registryGen + 1 })

def disableRule (id : Uuid) : Step Bool := fun s =>
  match s.rules.lookup id with
  | none => (.ok false, s)
  | some rr =>
    (.ok true, { s with
      rules := s.rules.insert id { rr with active := false, superseded := true }
      registryGen := s.registryGen + 1 })

def registerEvidence (ev : EvidenceRecord) : Step Unit := fun s =>
  (.ok (), { s with
    evidence := s.evidence.insert ev.id ev
    evidenceGen := s.evidenceGen + 1
    registryGen := s.registryGen + 1 })

def setPolicy (policy : Uuid) : Step Unit := fun s =>
  (.ok (), { s with policyId := policy, registryGen := s.registryGen + 1 })

/-! ### Propagation of an invalidation -/

/-- Push the dependents that were not seen before; the head of `stack` is its top. -/
def pushUnseen : List Uuid → List Uuid → List Uuid → List Uuid × List Uuid
  | [], stack, seen => (stack, seen)
  | n :: ns, stack, seen =>
    if n ∈ seen then pushUnseen ns stack seen else pushUnseen ns (n :: stack) (seen ++ [n])

/-- The nodes that may still be pushed. -/
def unseen (reverse : UMap Uuid (List Uuid)) (seen : List Uuid) : Finset Uuid :=
  reverse.values.flatten.toFinset \ seen.toFinset

/-- Pushing a node takes it out of the unseen ones. -/
theorem pushUnseen_measure {reverse : UMap Uuid (List Uuid)} {ns : List Uuid}
    (hns : ∀ n ∈ ns, n ∈ reverse.values.flatten) (stack seen : List Uuid) :
    (unseen reverse (pushUnseen ns stack seen).2).card + (pushUnseen ns stack seen).1.length =
      (unseen reverse seen).card + stack.length := by
  induction ns generalizing stack seen with
  | nil => rfl
  | cons n ns ih =>
    obtain ⟨hn, hns⟩ := List.forall_mem_cons.mp hns
    rw [pushUnseen]
    split_ifs with hseen
    · exact ih hns stack seen
    · have hmem : n ∈ unseen reverse seen := by
        unfold unseen
        simp only [Finset.mem_sdiff, List.mem_toFinset]
        exact ⟨hn, hseen⟩
      have herase : unseen reverse (seen ++ [n]) = (unseen reverse seen).erase n := by
        unfold unseen
        ext x
        simp only [Finset.mem_sdiff, Finset.mem_erase, List.mem_toFinset, List.mem_append,
          List.mem_singleton]
        tauto
      rw [ih hns, herase, Finset.card_erase_of_mem hmem, List.length_cons]
      have := Finset.card_pos.mpr ⟨n, hmem⟩
      omega

def propagateReason : Bytes := ascii "propagated invalidation from dependency"

/-- The worklist loop over `reverse`, which it does not change. -/
def propagateLoop (reverse : UMap Uuid (List Uuid)) (stack seen : List Uuid) (s : Registry) : Registry :=
  match stack with
  | [] => s
  | cur :: stack =>
    let s := invalidateWith cur propagateReason s
    let next := pushUnseen (adjacent reverse cur) stack seen
    propagateLoop reverse next.1 next.2 s
termination_by (unseen reverse seen).card + stack.length
decreasing_by
  have hns : ∀ n ∈ adjacent reverse cur, n ∈ reverse.values.flatten := by
    intro n hn
    unfold adjacent at hn
    cases hl : reverse.lookup cur with
    | none => simp [hl] at hn
    | some l =>
      rw [hl, Option.getD_some] at hn
      exact List.mem_flatten.mpr ⟨l, UMap.mem_values_iff.mpr ⟨cur, hl⟩, hn⟩
  have := pushUnseen_measure hns stack seen
  simp only [List.length_cons]
  omega

def propagateInvalidation (id : Uuid) : Step Unit := fun s =>
  let s' := propagateLoop s.reverse [id] [] s
  (.ok (), { s' with registryGen := s'.registryGen + 1 })

end Registry

end CompatRegistry
