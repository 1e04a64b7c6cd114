import CompatRegistry.Registry.Effect
import CompatRegistry.Registry.Recovery

/-! The states that the public operations reach from the empty registry. A call
counts whether it returns or throws, the hash maps may be iterated in another order
at any time, and a registry may be replaced by what its own snapshot recovers to.
The invariant holds in all of them. -/

namespace CompatRegistry

open Foundation Canon

namespace Registry

/-- The public operations that change a registry. -/
inductive Op where
  | registerProfile (genseed : Uuid) (kind : Enum8 ProfileKind) (payload : Canon) (deps : List Uuid)
      (provenance : Bytes)
  | registerRecord (p : ProfileRecord)
  | supersedeProfile (kind : Enum8 ProfileKind) (id : Uuid) (payload : Canon) (deps : List Uuid)
      (provenance : Bytes)
  | invalidateProfile (id : Uuid) (reason : Bytes)
  | propagateInvalidation (id : Uuid)
  | registerRule (rule : CompatibilityRule)
  | supersedeRule (id : Uuid) (rule : CompatibilityRule)
  | disableRule (id : Uuid)
  | registerEvidence (ev : EvidenceRecord)
  | setPolicy (policy : Uuid)
  | evaluatePair (left right : Uuid)
  | evaluateRequirement (candidate requirement : Uuid)

namespace Op

/-- The canonical values among the arguments are ones that the constructors build. -/
def WF : Op → Prop
  | .registerProfile _ _ payload _ _ => payload.WF
  | .registerRecord p => p.payload.WF
  | .supersedeProfile _ _ payload _ _ => payload.WF
  | .registerRule rule => rule.WF
  | .supersedeRule _ rule => rule.WF
  | .registerEvidence ev => ev.value.WF
  | _ => True

/-- The state that a call leaves, whether it returns or throws. -/
def run : Op → Registry → Registry
  | .registerProfile genseed kind payload deps provenance, s =>
    (Registry.registerProfile genseed kind payload deps provenance s).2
  | .registerRecord p, s => (Registry.registerRecord p s).2
  | .supersedeProfile kind id payload deps provenance, s =>
    (Registry.supersedeProfile kind id payload deps provenance s).2
  | .invalidateProfile id reason, s => (Registry.invalidateProfile id reason s).2
  | .propagateInvalidation id, s => (Registry.propagateInvalidation id s).2
  | .registerRule rule, s => (Registry.registerRule rule s).2
  | .supersedeRule id rule, s => (Registry.supersedeRule id rule s).2
  | .disableRule id, s => (Registry.disableRule id s).2
  | .registerEvidence ev, s => (Registry.registerEvidence ev s).2
  | .setPolicy policy, s => (Registry.setPolicy policy s).2
  | .evaluatePair left right, s => (Registry.evaluatePair left right s).2
  | .evaluateRequirement candidate requirement, s =>
    (Registry.evaluateRequirement candidate requirement s).2

/-- Every call has one of the effects, whether it returns or throws. -/
theorem run_effect {op : Op} {s : Registry} (hop : op.WF) (h : Inv s) : Effect s (op.run s) := by
  cases op with
  | registerProfile genseed kind payload deps provenance =>
    exact registerProfile_effect s genseed kind hop deps provenance
  | registerRecord p => exact registerRecord_effect s hop
  | supersedeProfile kind id payload deps provenance =>
    exact supersedeProfile_effect s kind id hop deps provenance
  | invalidateProfile id reason => exact invalidateProfile_effect s id reason
  | propagateInvalidation id => exact .propagated id
  | registerRule rule => exact registerRule_effect s hop
  | supersedeRule id rule => exact supersedeRule_effect s id hop
  | disableRule id => exact disableRule_effect h id
  | registerEvidence ev => exact .evidenceStored hop
  | setPolicy policy => exact .policySet policy
  | evaluatePair left right => exact evaluateWith_effect s false left right
  | evaluateRequirement candidate requirement => exact evaluateWith_effect s true candidate requirement

theorem run_inv {op : Op} {s : Registry} (hop : op.WF) (h : Inv s) : Inv (op.run s) :=
  (run_effect hop h).inv h

end Op

/-- The same registry, with the hash maps possibly iterated in another order. -/
structure Reordered (s t : Registry) : Prop where
  profiles : s.profiles.Same t.profiles
  rules : s.rules.Same t.rules
  evidence : s.evidence.Same t.evidence
  decisions : s.decisions.Same t.decisions
  deps : s.deps.Same t.deps
  reverse : s.reverse.Same t.reverse
  invalidations : t.invalidations = s.invalidations
  registryGen : t.registryGen = s.registryGen
  policyId : t.policyId = s.policyId
  ruleGen : t.ruleGen = s.ruleGen
  evidenceGen : t.evidenceGen = s.evidenceGen

inductive Reachable : Registry → Prop
  | empty : Reachable {}
  | step {s : Registry} (op : Op) (hop : op.WF) (h : Reachable s) : Reachable (op.run s)
  | reorder {s t : Registry} (h : Reachable s) (hst : Reordered s t) : Reachable t
  | recover {s t : Registry} {bytes : Bytes} (h : Reachable s) (hs : s.snapshot = .ok bytes)
      (ht : recover bytes = .ok t) : Reachable t

theorem Reordered.historyOf {s t : Registry} (h : Reordered s t) (id : Uuid) :
    t.historyOf id = s.historyOf id := by
  unfold Registry.historyOf
  rw [h.profiles.lookup id]

theorem Reordered.inv {s t : Registry} (h : Reordered s t) (hs : Inv s) : Inv t where
  profiles id p hp := hs.profiles id p (by rwa [h.historyOf] at hp)
  rules id rr hl := hs.rules id rr (by rwa [h.rules.lookup])
  evidence id ev hl := hs.evidence id ev (by rwa [h.evidence.lookup])
  decisions k d hl := hs.decisions k d (by rwa [h.decisions.lookup])

/-- What comes back from a snapshot satisfies the invariant: its records have
passed the fingerprint check and the other maps are filled by key. -/
theorem restored_inv {s : Registry} (h : Inv s) (hsound : ∀ p ∈ s.allRecords, p.forced.Sound p.id) :
    Inv s.restored where
  profiles id p hp := by
    rw [historyOf_restored h] at hp
    obtain ⟨q, hq, rfl⟩ := List.mem_map.mp hp
    have hid := (h.profiles id q hq).id
    have := hsound q (mem_allRecords.mpr ⟨id, hq⟩)
    rwa [hid] at this
  rules id rr hl := by
    rw [rules_restored h] at hl
    obtain ⟨rr', hl', rfl⟩ := Option.map_eq_some_iff.mp hl
    obtain ⟨hid, hwf⟩ := h.rules id rr' hl'
    exact ⟨hid, hwf.required, hwf.anyOf, hwf.incompatibleWith, hwf.conditions⟩
  evidence id ev hl := by
    rw [evidence_restored h] at hl
    obtain ⟨ev', hl', rfl⟩ := Option.map_eq_some_iff.mp hl
    obtain ⟨hid, hwf⟩ := h.evidence id ev' hl'
    exact ⟨hid, forced_wf hwf⟩
  decisions k d hl := by
    rw [decisions_restored h] at hl
    obtain ⟨d', hl', rfl⟩ := Option.map_eq_some_iff.mp hl
    exact ⟨(h.decisions k d' hl').1, rfl⟩

/-- The invariant holds in every reachable state. -/
theorem Reachable.inv {s : Registry} (h : Reachable s) : Inv s := by
  induction h with
  | empty => exact Inv.empty
  | step op hop _ ih => exact Op.run_inv hop ih
  | reorder _ hst ih => exact hst.inv ih
  | recover _ hs ht ih =>
    obtain ⟨rfl, -, hsound, -⟩ := (recover_snapshot ih).mp ⟨_, hs, ht⟩
    exact restored_inv ih hsound

/-- A list of calls, one after the other. -/
def runOps : List Op → Registry → Registry
  | [], s => s
  | op :: ops, s => runOps ops (op.run s)

theorem runOps_reachable {ops : List Op} (hops : ∀ op ∈ ops, op.WF) {s : Registry} (h : Reachable s) :
    Reachable (runOps ops s) := by
  induction ops generalizing s with
  | nil => exact h
  | cons op ops ih =>
    obtain ⟨hop, hops⟩ := List.forall_mem_cons.mp hops
    exact ih hops (h.step op hop)

end Registry

end CompatRegistry
