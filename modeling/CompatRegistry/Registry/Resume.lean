import CompatRegistry.Foundation.Along
import CompatRegistry.Registry.AnyOrder
import CompatRegistry.Registry.Footprint
import CompatRegistry.Registry.Histories
import CompatRegistry.Registry.Propagation
import CompatRegistry.Registry.RecoveredEvaluation

/-! Runs with crashes. A registry may be replaced at any time, and any number of times, by
what its snapshot recovers to; every later call answers as it would have without that.
What the recovery does not bring back has to stay out of such a run: values that are no
records, the counter of the rules, and the edges that a rejected call has dropped. -/

namespace CompatRegistry

open Foundation Canon

namespace Registry

/-! ### What a call answers -/

/-- What a call returns or throws. -/
inductive Reply where
  | profile (result : Result Uuid)
  | changed (result : Result Bool)
  | done (result : Result Unit)
  | decision (result : Result CompatibilityDecision)

def Op.reply : Op → Registry → Reply
  | .registerProfile genseed kind payload deps provenance, s =>
    .profile (Registry.registerProfile genseed kind payload deps provenance s).1
  | .registerRecord p, s => .profile (Registry.registerRecord p s).1
  | .supersedeProfile kind id payload deps provenance, s =>
    .profile (Registry.supersedeProfile kind id payload deps provenance s).1
  | .invalidateProfile id reason, s => .changed (Registry.invalidateProfile id reason s).1
  | .propagateInvalidation id, s => .done (Registry.propagateInvalidation id s).1
  | .registerRule rule, s => .profile (Registry.registerRule rule s).1
  | .supersedeRule id rule, s => .changed (Registry.supersedeRule id rule s).1
  | .disableRule id, s => .changed (Registry.disableRule id s).1
  | .registerEvidence ev, s => .done (Registry.registerEvidence ev s).1
  | .setPolicy policy, s => .done (Registry.setPolicy policy s).1
  | .evaluatePair left right, s => .decision (Registry.evaluatePair left right s).1
  | .evaluateRequirement candidate requirement, s =>
    .decision (Registry.evaluateRequirement candidate requirement s).1

/-- The generation under which the rule is stored does not come from the counter. -/
def Follows (rule : CompatibilityRule) (s : Registry) : Prop :=
  rule.generation ≠ 0 ∨ (predecessor rule s).isSome = true

/-- Every call of the run has well-formed arguments and meets the condition in the state in which
it is made. -/
abbrev EachCall (P : Op → Registry → Prop) (ops : List Op) (s : Registry) : Prop :=
  Along (fun s op => op.run s) (fun op s => op.WF ∧ P op s) ops s

theorem runOps_eq_foldl (ops : List Op) (s : Registry) : runOps ops s = ops.foldl (fun s op => op.run s) s := by
  induction ops generalizing s with
  | nil => rfl
  | cons op ops ih => exact ih (op.run s)

theorem EachCall.of_concat {P : Op → Registry → Prop} {ops : List Op} {op : Op} {s : Registry}
    (h : EachCall P (ops ++ [op]) s) : EachCall P ops s ∧ op.WF ∧ P op (runOps ops s) := by
  rw [runOps_eq_foldl]
  exact Along.of_concat h

/-- A preorder that contains every call that meets the condition contains the run. -/
theorem EachCall.related {P : Op → Registry → Prop} {R : Registry → Registry → Prop} (refl : ∀ s, R s s)
    (trans : ∀ s t u, R s t → R t u → R s u) (hcall : ∀ op s, Reachable s → P op s → R s (op.run s)) {ops : List Op}
    {s : Registry} (hs : Reachable s) (h : EachCall P ops s) : Reachable (runOps ops s) ∧ R s (runOps ops s) := by
  rw [runOps_eq_foldl]
  exact Along.related refl trans (fun op s hs hop => ⟨hs.step op hop.1, hcall op s hs hop.2⟩) hs h

/-! ### Registries that answer alike -/

/-- Equal up to the order of the hash maps, the flags of rules that nothing reads, the counters
and what has only been logged. -/
structure Alike (s t : Registry) : Prop where
  profiles : ∀ id, t.profiles.lookup id = s.profiles.lookup id
  edges : ∀ id, t.dependenciesOf id = s.dependenciesOf id
  rules : ∀ id, (t.rules.lookup id).map RuleRecord.reset = (s.rules.lookup id).map RuleRecord.reset
  evidence : ∀ id, t.evidence.lookup id = s.evidence.lookup id
  registryGen : t.registryGen = s.registryGen
  policyId : t.policyId = s.policyId

namespace Alike

variable {s t u : Registry}

theorem refl (s : Registry) : Alike s s := ⟨fun _ => rfl, fun _ => rfl, fun _ => rfl, fun _ => rfl, rfl, rfl⟩

theorem trans (h : Alike s t) (h' : Alike t u) : Alike s u where
  profiles id := (h'.profiles id).trans (h.profiles id)
  edges id := (h'.edges id).trans (h.edges id)
  rules id := (h'.rules id).trans (h.rules id)
  evidence id := (h'.evidence id).trans (h.evidence id)
  registryGen := h'.registryGen.trans h.registryGen
  policyId := h'.policyId.trans h.policyId

/-! ### Evaluations -/

theorem newestActive (h : Alike s t) (id : Uuid) : t.newestActive id = s.newestActive id :=
  congrArg (Option.bind · History.newestActive) (h.profiles id)

/-- The registry with the flags of its rules set. -/
def withFlags (s : Registry) : Registry :=
  { s with rules := UMap.fill (fun rr => rr.rule.ruleId) (s.rules.values.map RuleRecord.reset) ∅ }

theorem lookup_withFlags (hs : Inv s) (id : Uuid) :
    (withFlags s).rules.lookup id = (s.rules.lookup id).map RuleRecord.reset :=
  UMap.lookup_fill_values (f := RuleRecord.reset) (fun rr : RuleRecord => rr.rule.ruleId)
    (fun k rr hl => (hs.rules k rr hl).1) id

theorem withFlags_inv (hs : Inv s) : Inv (withFlags s) where
  profiles := hs.profiles
  evidence := hs.evidence
  decisions := hs.decisions
  rules id rr hl := by
    rw [lookup_withFlags hs] at hl
    obtain ⟨rr', hl', rfl⟩ := Option.map_eq_some_iff.mp hl
    obtain ⟨hid, hwf⟩ := hs.rules id rr' hl'
    exact ⟨hid, hwf.required, hwf.anyOf, hwf.incompatibleWith, hwf.conditions⟩

theorem evaluateLocked (h : Alike s t) (hs : Inv s) (ht : Inv t) (left right : Uuid) (requirement : Bool) :
    evaluateLocked t left right requirement = evaluateLocked s left right requirement := by
  have hown : SameReadings s (withFlags s) := ⟨fun _ => rfl, lookup_withFlags hs, rfl, rfl⟩
  have hother : SameReadings t (withFlags s) :=
    ⟨fun id => (h.newestActive id).symm, fun id => (lookup_withFlags hs id).trans (h.rules id).symm,
      h.registryGen.symm, h.policyId.symm⟩
  rw [← hown.evaluateLocked hs (withFlags_inv hs), hother.evaluateLocked ht (withFlags_inv hs)]

theorem evaluateWith (h : Alike s t) (hs : Inv s) (ht : Inv t) (requirement : Bool) (left right : Uuid) :
    (evaluateWith requirement left right t).1 = (evaluateWith requirement left right s).1 ∧
      Alike (evaluateWith requirement left right s).2 (evaluateWith requirement left right t).2 := by
  unfold Registry.evaluateWith
  rw [h.evaluateLocked hs ht]
  cases Registry.evaluateLocked s left right requirement with
  | error e => exact ⟨rfl, h⟩
  | ok d => exact ⟨rfl, h.profiles, h.edges, h.rules, h.evidence, h.registryGen, h.policyId⟩

/-! ### Profile calls -/

theorem deactivateAll (h : Alike s t) (id : Uuid) : Alike (deactivateAll id s) (deactivateAll id t) where
  profiles id' := by
    unfold Registry.deactivateAll
    simp only [UMap.lookup_modify, h.profiles]
  edges := h.edges
  rules := h.rules
  evidence := h.evidence
  registryGen := h.registryGen
  policyId := h.policyId

theorem removeDependency (h : Alike s t) (id : Uuid) : Alike (removeDependency id s) (removeDependency id t) := by
  have hedges : ∀ id', (Registry.removeDependency id t).dependenciesOf id' =
      (Registry.removeDependency id s).dependenciesOf id' := by
    intro id'
    have hs := adjacent_removeDependency id id' s
    have ht := adjacent_removeDependency id id' t
    have hst : adjacent t.deps id' = adjacent s.deps id' := h.edges id'
    rw [hst] at ht
    exact ht.trans hs.symm
  obtain ⟨d, r, hs⟩ := removeDependency_eq id s
  obtain ⟨d', r', ht⟩ := removeDependency_eq id t
  rw [hs, ht] at hedges ⊢
  exact ⟨h.profiles, hedges, h.rules, h.evidence, h.registryGen, h.policyId⟩

theorem appendRecord (h : Alike s t) (record : ProfileRecord) :
    Alike (appendRecord record s) (appendRecord record t) := by
  have hedges : ∀ id, (Registry.appendRecord record t).dependenciesOf id =
      (Registry.appendRecord record s).dependenciesOf id := by
    intro id
    rw [dependenciesOf_appendRecord, dependenciesOf_appendRecord, h.edges]
  obtain ⟨d, r, hs⟩ := appendRecord_eq record s
  obtain ⟨d', r', ht⟩ := appendRecord_eq record t
  rw [hs, ht] at hedges ⊢
  refine ⟨fun id => ?_, hedges, h.rules, h.evidence, congrArg (· + 1) h.registryGen, h.policyId⟩
  simp only [UMap.lookup_insert_ite, h.profiles]

theorem createCycle (h : Alike s t) (hs : GraphInv s) (ht : GraphInv t) (id : Uuid) (ds : List Uuid) :
    createCycle id ds t = createCycle id ds s := by
  have hdepends : t.DependsOn = s.DependsOn := by
    funext x y
    exact congrArg (y ∈ ·) (h.edges x)
  rw [Bool.eq_iff_iff, createCycle_iff hs.acyclic, createCycle_iff ht.acyclic, hdepends]

theorem registerRecord (h : Alike s t) (hs : GraphInv s) (ht : GraphInv t) (record : ProfileRecord) :
    (registerRecord record t).1 = (registerRecord record s).1 ∧
      Alike (registerRecord record s).2 (registerRecord record t).2 := by
  unfold Registry.registerRecord
  cases canonicalFingerprintHex record.payload with
  | error e => exact ⟨rfl, h⟩
  | ok fingerprint =>
    simp only [h.profiles]
    have hcycle := (h.deactivateAll record.id).createCycle (Prepared.deactivated.graphInv hs)
      (Prepared.deactivated.graphInv ht) record.id record.deps
    rw [hcycle]
    split_ifs
    · exact ⟨rfl, h⟩
    · exact ⟨rfl, h.deactivateAll record.id⟩
    · exact ⟨rfl, (h.deactivateAll record.id).appendRecord _⟩

theorem supersedeProfile (h : Alike s t) (hs : GraphInv s) (ht : GraphInv t) (kind : Enum8 ProfileKind) (id : Uuid)
    (payload : Canon) (deps : List Uuid) (provenance : Bytes) :
    (supersedeProfile kind id payload deps provenance t).1 = (supersedeProfile kind id payload deps provenance s).1 ∧
      Alike (supersedeProfile kind id payload deps provenance s).2
        (supersedeProfile kind id payload deps provenance t).2 := by
  unfold Registry.supersedeProfile
  rw [h.profiles]
  cases s.profiles.lookup id with
  | none => exact ⟨rfl, h⟩
  | some hist =>
    cases canonicalFingerprintHex payload with
    | error e => exact ⟨rfl, h⟩
    | ok fingerprint =>
      have hdropped := (h.deactivateAll id).removeDependency id
      have hcycle := hdropped.createCycle (Prepared.dropped.graphInv hs) (Prepared.dropped.graphInv ht) id deps
      simp only [hcycle]
      split_ifs
      · exact ⟨rfl, h⟩
      · exact ⟨rfl, hdropped⟩
      · exact ⟨rfl, hdropped.appendRecord _⟩

theorem invalidateProfile (h : Alike s t) (id : Uuid) (reason : Bytes) :
    (invalidateProfile id reason t).1 = (invalidateProfile id reason s).1 ∧
      Alike (invalidateProfile id reason s).2 (invalidateProfile id reason t).2 := by
  unfold Registry.invalidateProfile invalidateWith
  rw [h.profiles]
  cases s.profiles.lookup id with
  | none => exact ⟨rfl, h⟩
  | some hist =>
    refine ⟨rfl, fun id' => ?_, h.edges, h.rules, h.evidence, congrArg (· + 1) h.registryGen, h.policyId⟩
    simp only [UMap.lookup_insert_ite, h.profiles]

theorem propagateInvalidation (h : Alike s t) (hs : Reachable s) (ht : Reachable t) (id : Uuid) :
    Alike (propagateInvalidation id s).2 (propagateInvalidation id t).2 := by
  obtain ⟨-, hps⟩ := propagateInvalidation_propagated hs id
  obtain ⟨-, hpt⟩ := propagateInvalidation_propagated ht id
  have haffected : ∀ p, t.Affected id p ↔ s.Affected id p := by
    intro p
    unfold Affected
    simp only [dependentsOf_congr hs.graphInv.transposed ht.graphInv.transposed h.edges]
  generalize (Registry.propagateInvalidation id s).2 = s' at hps
  generalize (Registry.propagateInvalidation id t).2 = t' at hpt
  have hprofiles : ∀ p, t'.profiles.lookup p = s'.profiles.lookup p := by
    intro p
    by_cases hp : s.Affected id p
    · rw [hpt.retired p ((haffected p).mpr hp), hps.retired p hp, h.profiles]
    · rw [hpt.others p fun hp' => hp ((haffected p).mp hp'), hps.others p hp, h.profiles]
  have hgen : t'.registryGen = s'.registryGen := by
    rw [hpt.registryGen, hps.registryGen, h.registryGen]
  rw [hps.rest, hpt.rest]
  exact ⟨hprofiles, h.edges, h.rules, h.evidence, hgen, h.policyId⟩

/-! ### Rules -/

/-- The same rule is found, up to its flags. -/
theorem rule (h : Alike s t) (id : Uuid) : Option.Rel (fun rr rr' => rr'.reset = rr.reset) (s.rules.lookup id)
    (t.rules.lookup id) := by
  have hrules := h.rules id
  cases hs : s.rules.lookup id with
  | none =>
    rw [hs] at hrules
    cases ht : t.rules.lookup id with
    | none => exact .none
    | some rr =>
      rw [ht] at hrules
      cases hrules
  | some rr =>
    rw [hs] at hrules
    cases ht : t.rules.lookup id with
    | none =>
      rw [ht] at hrules
      cases hrules
    | some rr' =>
      rw [ht] at hrules
      exact .some (Option.some.inj hrules)

/-- Storing records that differ in the flags only. -/
theorem insertRule (h : Alike s t) (id : Uuid) {rr rr' : RuleRecord} (hrr : rr'.reset = rr.reset) (m n : UInt64) :
    Alike { s with rules := s.rules.insert id rr, ruleGen := m, registryGen := s.registryGen + 1 }
      { t with rules := t.rules.insert id rr', ruleGen := n, registryGen := t.registryGen + 1 } where
  profiles := h.profiles
  edges := h.edges
  evidence := h.evidence
  registryGen := congrArg (· + 1) h.registryGen
  policyId := h.policyId
  rules id' := by
    simp only [UMap.lookup_insert_ite]
    split_ifs
    · exact congrArg some hrr
    · exact h.rules id'

theorem generation_eq {rr rr' : RuleRecord} (h : rr'.reset = rr.reset) :
    rr'.rule.generation = rr.rule.generation ∧ rr'.active = rr.active := by
  have hrule := congrArg (fun r : RuleRecord => r.rule.generation) h
  have hactive := congrArg (fun r : RuleRecord => r.active) h
  exact ⟨hrule, hactive⟩

theorem assignedGeneration (h : Alike s t) {rule : CompatibilityRule} (hrule : Follows rule s) :
    assignedGeneration rule t = assignedGeneration rule s := by
  unfold Registry.assignedGeneration
  split_ifs with hgeneration
  · rfl
  have hpredecessor := hrule.resolve_left hgeneration
  have hrel := h.rule rule.ruleId
  unfold predecessor at hpredecessor ⊢
  generalize s.rules.lookup rule.ruleId = found at hrel hpredecessor
  generalize t.rules.lookup rule.ruleId = found' at hrel
  cases hrel with
  | none => cases hpredecessor
  | @some rr rr' hrr =>
    obtain ⟨hrule, hactive⟩ := generation_eq hrr
    cases ha : rr.active with
    | false =>
      rw [Option.filter_some_neg (by rw [ha])] at hpredecessor
      cases hpredecessor
    | true =>
      rw [Option.filter_some_pos ha, Option.filter_some_pos (hactive.trans ha)]
      exact congrArg (· + 1) hrule

theorem registerRule (h : Alike s t) {rule : CompatibilityRule} (hrule : Follows rule s) :
    Alike (registerRule rule s).2 (registerRule rule t).2 := by
  unfold Registry.registerRule
  rw [h.assignedGeneration hrule]
  exact h.insertRule rule.ruleId rfl _ _

theorem supersedeRule (h : Alike s t) (id : Uuid) (rule : CompatibilityRule) :
    (supersedeRule id rule t).1 = (supersedeRule id rule s).1 ∧
      Alike (supersedeRule id rule s).2 (supersedeRule id rule t).2 := by
  have hrel := h.rule id
  unfold Registry.supersedeRule
  generalize s.rules.lookup id = found at hrel
  generalize t.rules.lookup id = found' at hrel
  cases hrel with
  | none => exact ⟨rfl, h⟩
  | some hrr =>
    simp only [(generation_eq hrr).1]
    exact ⟨trivial, h.insertRule id rfl s.ruleGen t.ruleGen⟩

theorem disableRule (h : Alike s t) (id : Uuid) :
    (disableRule id t).1 = (disableRule id s).1 ∧ Alike (disableRule id s).2 (disableRule id t).2 := by
  have hrel := h.rule id
  unfold Registry.disableRule
  generalize s.rules.lookup id = found at hrel
  generalize t.rules.lookup id = found' at hrel
  cases hrel with
  | none => exact ⟨rfl, h⟩
  | @some rr rr' hrr =>
    have hreset : RuleRecord.reset { rr' with active := false, superseded := true } =
        RuleRecord.reset { rr with active := false, superseded := true } :=
      congrArg (fun r : RuleRecord => ({ r with active := false } : RuleRecord)) hrr
    exact ⟨rfl, h.insertRule id hreset s.ruleGen t.ruleGen⟩

/-! ### Every call -/

/-- A call answers the same, and the registries stay alike. -/
theorem run (h : Alike s t) (hs : Reachable s) (ht : Reachable t) {op : Op}
    (hrule : ∀ rule, op = .registerRule rule → Follows rule s) :
    op.reply t = op.reply s ∧ Alike (op.run s) (op.run t) := by
  cases op with
  | registerProfile genseed kind payload deps provenance =>
    obtain ⟨hreply, hrun⟩ := h.registerRecord hs.graphInv ht.graphInv
      { kind, payload, id := genseed, deps, provenance }
    simp only [Op.reply, Op.run, registerProfile_eq_run]
    exact ⟨congrArg Reply.profile hreply, hrun⟩
  | registerRecord p =>
    obtain ⟨hreply, hrun⟩ := h.registerRecord hs.graphInv ht.graphInv p
    exact ⟨congrArg Reply.profile hreply, hrun⟩
  | supersedeProfile kind id payload deps provenance =>
    obtain ⟨hreply, hrun⟩ := h.supersedeProfile hs.graphInv ht.graphInv kind id payload deps provenance
    exact ⟨congrArg Reply.profile hreply, hrun⟩
  | invalidateProfile id reason =>
    obtain ⟨hreply, hrun⟩ := h.invalidateProfile id reason
    exact ⟨congrArg Reply.changed hreply, hrun⟩
  | propagateInvalidation id => exact ⟨rfl, h.propagateInvalidation hs ht id⟩
  | registerRule rule => exact ⟨rfl, h.registerRule (hrule rule rfl)⟩
  | supersedeRule id rule =>
    obtain ⟨hreply, hrun⟩ := h.supersedeRule id rule
    exact ⟨congrArg Reply.changed hreply, hrun⟩
  | disableRule id =>
    obtain ⟨hreply, hrun⟩ := h.disableRule id
    exact ⟨congrArg Reply.changed hreply, hrun⟩
  | registerEvidence ev =>
    refine ⟨rfl, h.profiles, h.edges, h.rules, fun id => ?_, congrArg (· + 1) h.registryGen, h.policyId⟩
    simp only [Op.run, Registry.registerEvidence, UMap.lookup_insert_ite, h.evidence]
  | setPolicy policy => exact ⟨rfl, h.profiles, h.edges, h.rules, h.evidence, congrArg (· + 1) h.registryGen, rfl⟩
  | evaluatePair left right =>
    obtain ⟨hreply, hrun⟩ := h.evaluateWith hs.inv ht.inv false left right
    exact ⟨congrArg Reply.decision hreply, hrun⟩
  | evaluateRequirement candidate requirement =>
    obtain ⟨hreply, hrun⟩ := h.evaluateWith hs.inv ht.inv true candidate requirement
    exact ⟨congrArg Reply.decision hreply, hrun⟩

end Alike

/-! ### What a snapshot brings back -/

/-- All of this comes back from a snapshot: the values are records, and the edges of a profile
are those of its newest generation. -/
structure Settled (s : Registry) : Prop where
  payloads : ∀ id, ∀ p ∈ s.historyOf id, p.payload.kind = .record
  values : ∀ id ev, s.evidence.lookup id = some ev → ev.value.kind = .record
  edges : ∀ id, s.dependenciesOf id = s.newestDeps id

theorem Settled.empty : Settled {} where
  payloads id p hp := by cases hp
  values id ev hl := by cases hl
  edges _ := rfl

theorem historyOf_eq_iff {s t : Registry} {id : Uuid} :
    t.historyOf id = s.historyOf id ↔ t.profiles.lookup id = s.profiles.lookup id := by
  unfold historyOf
  constructor
  · intro h
    cases hs : s.profiles.lookup id with
    | none =>
      cases ht : t.profiles.lookup id with
      | none => rfl
      | some hist =>
        rw [hs, ht] at h
        exact absurd h hist.nonempty
    | some hist =>
      cases ht : t.profiles.lookup id with
      | none =>
        rw [hs, ht] at h
        exact absurd h.symm hist.nonempty
      | some hist' =>
        rw [hs, ht] at h
        rw [History.ext_iff'.mpr h]
  · intro h
    rw [h]

theorem Settled.congr {s t : Registry} (h : Settled s) (hst : Alike s t) : Settled t := by
  have hhistory : ∀ id, t.historyOf id = s.historyOf id := fun id => historyOf_eq_iff.mpr (hst.profiles id)
  constructor
  case payloads =>
    intro id p hp
    rw [hhistory] at hp
    exact h.payloads id p hp
  case values =>
    intro id ev hl
    rw [hst.evidence] at hl
    exact h.values id ev hl
  case edges =>
    intro id
    rw [hst.edges, h.edges, newestDeps, newestDeps, hhistory]

/-- What the snapshot of a settled registry recovers to is like it. -/
theorem Settled.recover {s t : Registry} (h : Settled s) (hs : Inv s) {bytes : Bytes}
    (hsnapshot : s.snapshot = .ok bytes) (hrecover : Registry.recover bytes = .ok t) : Alike s t := by
  obtain ⟨rfl, -⟩ := (recover_snapshot hs).mp ⟨bytes, hsnapshot, hrecover⟩
  constructor
  case profiles =>
    intro id
    rw [← historyOf_eq_iff, historyOf_restored hs, map_eq_self_iff]
    exact fun p hp => ProfileRecord.forced_eq_self_iff.mpr (h.payloads id p hp)
  case edges =>
    intro id
    rw [dependenciesOf_restored hs, h.edges]
  case rules =>
    intro id
    rw [rules_restored hs, Option.map_map]
    rfl
  case evidence =>
    intro id
    rw [evidence_restored hs, option_map_eq_self_iff]
    exact fun ev hl => EvidenceRecord.forced_eq_self_iff.mpr (h.values id ev hl)
  case registryGen => exact restored_registryGen s
  case policyId => exact restored_policyId s

/-- The call stores records only, takes no generation from the counter and is not rejected
where it would have superseded. -/
def Op.Settles : Op → Registry → Prop
  | .registerProfile _ _ payload _ _, _ => payload.kind = .record
  | .registerRecord p, _ => p.payload.kind = .record
  | .supersedeProfile kind id payload deps provenance, s => payload.kind = .record ∧
    (Registry.supersedeProfile kind id payload deps provenance s).1 ≠ .error (cycleRejected "supersede_profile" id)
  | .registerRule rule, s => Follows rule s
  | .registerEvidence ev, _ => ev.value.kind = .record
  | _, _ => True

/-- Updates of records in place that leave payloads and dependencies alone. -/
theorem Settled.update {s t : Registry} (h : Settled s) {f : ProfileRecord → ProfileRecord}
    (hf : ∀ p, (f p).payload = p.payload ∧ (f p).deps = p.deps)
    (hhistory : ∀ id, t.historyOf id = (s.historyOf id).map f ∨ t.historyOf id = s.historyOf id)
    (hevidence : t.evidence = s.evidence) (hedges : t.deps = s.deps) : Settled t := by
  constructor
  case payloads =>
    intro id p hp
    rcases hhistory id with heq | heq
    · rw [heq] at hp
      obtain ⟨q, hq, rfl⟩ := List.mem_map.mp hp
      rw [(hf q).1]
      exact h.payloads id q hq
    · rw [heq] at hp
      exact h.payloads id p hp
  case values =>
    intro id ev hl
    rw [hevidence] at hl
    exact h.values id ev hl
  case edges =>
    intro id
    have hdeps : t.dependenciesOf id = s.dependenciesOf id := by rw [dependenciesOf, hedges, dependenciesOf]
    rw [hdeps, h.edges]
    unfold newestDeps
    rcases hhistory id with heq | heq
    · rw [heq, List.getLast?_map]
      cases (s.historyOf id).getLast? with
      | none => rfl
      | some p => exact congrArg (List.filter (· ≠ id)) (hf p).2.symm
    · rw [heq]

theorem deactivate_keeps (p : ProfileRecord) : p.deactivate.payload = p.payload ∧ p.deactivate.deps = p.deps := by
  unfold ProfileRecord.deactivate
  split_ifs <;> exact ⟨rfl, rfl⟩

theorem Settled.deactivateAll {s : Registry} (h : Settled s) (id : Uuid) : Settled (deactivateAll id s) := by
  refine h.update deactivate_keeps (fun id' => ?_) rfl rfl
  rw [historyOf_deactivateAll]
  split_ifs with hid
  · exact .inl (by rw [hid])
  · exact .inr rfl

/-- A new generation brings its own edges. -/
theorem Settled.appendRecord {s t : Registry} (h : Settled s) {record : ProfileRecord}
    (ht : Prepared record.id s t) (hpayload : record.payload.kind = .record) : Settled (appendRecord record t) := by
  have hdeactivated := h.deactivateAll record.id
  have hhistory : ∀ id, t.historyOf id = (Registry.deactivateAll record.id s).historyOf id := by
    intro id
    rw [ht.historyOf, historyOf_deactivateAll]
  have hevidence : (Registry.appendRecord record t).evidence = s.evidence := by
    obtain ⟨d, r, heq⟩ := appendRecord_eq record t
    obtain ⟨d', r', rfl⟩ := ht.eq
    rw [heq]
    rfl
  have hedges : ∀ id, id ≠ record.id → t.dependenciesOf id = s.dependenciesOf id := by
    intro id hid
    cases ht with
    | deactivated => rfl
    | dropped => exact (adjacent_removeDependency record.id id _).trans (if_neg hid)
  constructor
  case payloads =>
    intro id p hp
    rw [historyOf_appendRecord, hhistory, hhistory] at hp
    split_ifs at hp with hid
    · rcases List.mem_append.mp hp with hp | hp
      · exact hdeactivated.payloads _ p hp
      · rw [List.mem_singleton.mp hp]
        exact hpayload
    · exact hdeactivated.payloads _ p hp
  case values =>
    intro id ev hl
    rw [hevidence] at hl
    exact h.values id ev hl
  case edges =>
    intro id
    rw [dependenciesOf_appendRecord, newestDeps, historyOf_appendRecord]
    split_ifs with hid
    · rw [List.getLast?_concat, hid]
      rfl
    · rw [hedges id hid, hhistory, ← newestDeps, ← hdeactivated.edges]
      rfl

theorem ProfileCall.newRecord_id (c : ProfileCall) (fingerprint : Bytes) (s : Registry) :
    (c.newRecord fingerprint s).id = c.id := by
  cases c <;> rfl

theorem ProfileCall.newRecord_payload (c : ProfileCall) (fingerprint : Bytes) (s : Registry) :
    (c.newRecord fingerprint s).payload = c.payload := by
  cases c <;> rfl

theorem Settled.profileCall {s : Registry} (h : Settled s) (c : ProfileCall) (hpayload : c.payload.kind = .record)
    (hrejected : (c.run s).1 = .error (cycleRejected c.name c.id) → ∃ record, c = .register record) :
    Settled (c.run s).2 := by
  have hends := c.ends s
  generalize c.run s = result at hends hrejected
  cases hends with
  | refused => exact h
  | repeated => exact h
  | rejected =>
    obtain ⟨record, rfl⟩ := hrejected rfl
    exact h.deactivateAll record.id
  | appended =>
    refine h.appendRecord ?_ ?_
    · rw [c.newRecord_id]
      exact c.prepared s
    · rw [c.newRecord_payload]
      exact hpayload

theorem Settled.run {s : Registry} (h : Settled s) (hs : Reachable s) {op : Op} (hop : op.Settles s) :
    Settled (op.run s) := by
  cases op with
  | registerProfile genseed kind payload deps provenance =>
    simp only [Op.run, registerProfile_eq_run]
    exact h.profileCall _ hop fun _ => ⟨_, rfl⟩
  | registerRecord p => exact h.profileCall (.register p) hop fun _ => ⟨p, rfl⟩
  | supersedeProfile kind id payload deps provenance =>
    exact h.profileCall (.supersede kind id payload deps provenance) hop.1 fun hthrow => absurd hthrow hop.2
  | invalidateProfile id reason =>
    have hrun : (Registry.invalidateProfile id reason s).2 = s ∨ (Registry.invalidateProfile id reason s).2 =
        { invalidateWith id reason s with registryGen := (invalidateWith id reason s).registryGen + 1 } := by
      unfold Registry.invalidateProfile
      cases s.profiles.lookup id with
      | none => exact .inl rfl
      | some hist => exact .inr rfl
    simp only [Op.run]
    rcases hrun with heq | heq
    · rwa [heq]
    · rw [heq]
      obtain ⟨profiles, invalidations, hrest⟩ := invalidateWith_eq id reason s
      refine h.update (f := ProfileRecord.retire) (fun p => ⟨rfl, rfl⟩) (fun id' => ?_) (by rw [hrest]) (by rw [hrest])
      have hhistory := historyOf_invalidateWith id reason s id'
      split_ifs at hhistory with hid
      · exact .inl (hid ▸ hhistory)
      · exact .inr hhistory
  | propagateInvalidation id =>
    obtain ⟨-, hpropagated⟩ := propagateInvalidation_propagated hs id
    simp only [Op.run]
    generalize (Registry.propagateInvalidation id s).2 = t at hpropagated
    refine h.update (f := ProfileRecord.retire) (fun p => ⟨rfl, rfl⟩) (fun id' => ?_) ?_ ?_
    · by_cases hid : s.Affected id id'
      · left
        rw [historyOf, hpropagated.retired id' hid, historyOf]
        cases s.profiles.lookup id' <;> rfl
      · exact .inr (historyOf_eq_iff.mpr (hpropagated.others id' hid))
    · rw [hpropagated.rest]
    · rw [hpropagated.rest]
  | registerRule rule => exact ⟨h.payloads, h.values, h.edges⟩
  | supersedeRule id rule =>
    simp only [Op.run]
    unfold Registry.supersedeRule
    cases s.rules.lookup id <;> exact ⟨h.payloads, h.values, h.edges⟩
  | disableRule id =>
    simp only [Op.run]
    unfold Registry.disableRule
    cases s.rules.lookup id <;> exact ⟨h.payloads, h.values, h.edges⟩
  | registerEvidence ev =>
    refine ⟨h.payloads, fun id ev' hl => ?_, h.edges⟩
    simp only [Op.run, Registry.registerEvidence, UMap.lookup_insert_ite] at hl
    split_ifs at hl
    · cases hl
      exact hop
    · exact h.values id ev' hl
  | setPolicy policy => exact ⟨h.payloads, h.values, h.edges⟩
  | evaluatePair left right =>
    simp only [Op.run]
    unfold Registry.evaluatePair evaluateWith
    cases evaluateLocked s left right false <;> exact ⟨h.payloads, h.values, h.edges⟩
  | evaluateRequirement candidate requirement =>
    simp only [Op.run]
    unfold Registry.evaluateRequirement evaluateWith
    cases evaluateLocked s candidate requirement true <;> exact ⟨h.payloads, h.values, h.edges⟩

/-! ### Crashes -/

/-- The answers of some calls, one after the other. -/
def replies : List Op → Registry → List Reply
  | [], _ => []
  | op :: ops, s => op.reply s :: replies ops (op.run s)

theorem runOps_concat (ops : List Op) (op : Op) (s : Registry) : runOps (ops ++ [op]) s = op.run (runOps ops s) := by
  induction ops generalizing s with
  | nil => rfl
  | cons op' ops ih => exact ih (op'.run s)

theorem replies_concat (ops : List Op) (op : Op) (s : Registry) :
    replies (ops ++ [op]) s = replies ops s ++ [op.reply (runOps ops s)] := by
  induction ops generalizing s with
  | nil => rfl
  | cons op' ops ih => exact congrArg (op'.reply s :: ·) (ih (op'.run s))

/-- A run with its answers. Before and after every call the registry may be replaced by what
its snapshot recovers to, and the hash maps may be iterated in another order. -/
inductive CrashingRun (start : Registry) : List Op → List Reply → Registry → Prop
  | start : CrashingRun start [] [] start
  | call {ops : List Op} {answers : List Reply} {s : Registry} (op : Op) (h : CrashingRun start ops answers s) :
      CrashingRun start (ops ++ [op]) (answers ++ [op.reply s]) (op.run s)
  | crash {ops : List Op} {answers : List Reply} {s t : Registry} {bytes : Bytes}
      (h : CrashingRun start ops answers s) (saved : s.snapshot = .ok bytes)
      (recovered : Registry.recover bytes = .ok t) : CrashingRun start ops answers t
  | reorder {ops : List Op} {answers : List Reply} {s t : Registry} (h : CrashingRun start ops answers s)
      (reordered : Reordered s t) : CrashingRun start ops answers t

theorem Reordered.alike {s t : Registry} (h : Reordered s t) : Alike s t where
  profiles id := (h.profiles.lookup id).symm
  edges id := by rw [dependenciesOf, dependenciesOf, h.deps.lookup]
  rules id := by rw [h.rules.lookup]
  evidence id := (h.evidence.lookup id).symm
  registryGen := h.registryGen
  policyId := h.policyId

/-- What registries that are alike are asked gets the same answer. -/
theorem Alike.sameAnswers {s t : Registry} (h : Alike s t) (hs : Reachable s) (ht : Reachable t) :
    SameAnswers s t ∧ ∀ id, t.findEvidence id = s.findEvidence id := by
  refine ⟨⟨h.registryGen, fun id => historyOf_eq_iff.mpr (h.profiles id), fun id b => ?_,
    queryByKind_congr hs.inv h.profiles, h.edges,
    dependentsOf_congr hs.graphInv.transposed ht.graphInv.transposed h.edges,
    fun left right => (h.evaluateWith hs.inv ht.inv false left right).1⟩, h.evidence⟩
  unfold findProfile
  rw [h.profiles]

/-- Every call of the run settles, in the state in which the run without crashes makes it. -/
def Settling (ops : List Op) (start : Registry) : Prop := EachCall Op.Settles ops start

/-- The run without crashes, next to the run with them. -/
structure Beside (start : Registry) (ops : List Op) (answers : List Reply) (s : Registry) : Prop where
  answers : answers = replies ops start
  reachable : Reachable (runOps ops start)
  settled : Settled (runOps ops start)
  alike : Alike (runOps ops start) s
  crashed : Reachable s

theorem CrashingRun.beside {start s : Registry} {ops : List Op} {answers : List Reply}
    (h : CrashingRun start ops answers s) (hstart : Reachable start) (hsettled : Settled start)
    (hops : Settling ops start) : Beside start ops answers s := by
  induction h with
  | start => exact ⟨rfl, hstart, hsettled, .refl start, hstart⟩
  | @call ops answers s op h ih =>
    obtain ⟨hops, hwf, hsettles⟩ := EachCall.of_concat hops
    have hside := ih hops
    have hrule : ∀ rule, op = .registerRule rule → Follows rule (runOps ops start) := by
      intro rule hop
      rw [hop] at hsettles
      exact hsettles
    obtain ⟨hreply, hrun⟩ := hside.alike.run hside.reachable hside.crashed hrule
    constructor
    case answers => rw [hside.answers, hreply, replies_concat]
    case reachable =>
      rw [runOps_concat]
      exact hside.reachable.step op hwf
    case settled =>
      rw [runOps_concat]
      exact hside.settled.run hside.reachable hsettles
    case alike =>
      rw [runOps_concat]
      exact hrun
    case crashed => exact hside.crashed.step op hwf
  | crash h saved recovered ih =>
    have hside := ih hops
    have halike := (hside.settled.congr hside.alike).recover hside.crashed.inv saved recovered
    exact ⟨hside.answers, hside.reachable, hside.settled, hside.alike.trans halike,
      hside.crashed.recover saved recovered⟩
  | reorder h reordered ih =>
    have hside := ih hops
    exact ⟨hside.answers, hside.reachable, hside.settled, hside.alike.trans reordered.alike,
      hside.crashed.reorder reordered⟩

/-- Crashes do not show: whenever and however often the registry is replaced by what its snapshot
recovers to, every call answers as in the run without crashes, and so does every query at
the end. -/
theorem crashingRun_answers {start s : Registry} {ops : List Op} {answers : List Reply} (hstart : Reachable start)
    (hsettled : Settled start) (hops : Settling ops start) (h : CrashingRun start ops answers s) :
    answers = replies ops start ∧ SameAnswers (runOps ops start) s ∧
      ∀ id, s.findEvidence id = (runOps ops start).findEvidence id := by
  have hside := h.beside hstart hsettled hops
  exact ⟨hside.answers, hside.alike.sameAnswers hside.reachable hside.crashed⟩

theorem CrashingRun.calls {start s : Registry} {ops : List Op} {answers : List Reply}
    (h : CrashingRun start ops answers s) (more : List Op) :
    CrashingRun start (ops ++ more) (answers ++ replies more s) (runOps more s) := by
  induction more generalizing ops answers s with
  | nil =>
    rw [List.append_nil, replies, List.append_nil]
    exact h
  | cons op more ih =>
    have hrun := ih (h.call op)
    rwa [List.append_assoc, List.append_assoc] at hrun

/-- Two profiles and a rule that makes them compatible, for a crash before their evaluation. -/
def pairOps : List Op := [
  .registerProfile (uuidOf 1) (.declared .model) (.record []) [] [],
  .registerProfile (uuidOf 2) (.declared .model) (.record [(1, .uint 1)]) [] [],
  .registerRule { ruleId := uuidOf 3, generation := 1, scope := ascii "pair" }]

theorem settling_pairOps : Settling (pairOps ++ [.evaluatePair (uuidOf 1) (uuidOf 2)]) {} := by
  refine ⟨⟨?_, rfl⟩, ⟨?_, rfl⟩, ⟨⟨?_, ?_, ?_, ?_⟩, .inl (by decide)⟩, ⟨trivial, trivial⟩, trivial⟩
  all_goals simp [Op.WF, WF, WFRecord, SortedMap.Sorted]

theorem crashingRun_answers_pair :
    ∃ bytes t, (runOps pairOps {}).snapshot = .ok bytes ∧ Registry.recover bytes = .ok t ∧
      replies pairOps {} ++ [.decision (evaluatePair (uuidOf 1) (uuidOf 2) t).1] =
        replies (pairOps ++ [.evaluatePair (uuidOf 1) (uuidOf 2)]) {} := by
  obtain ⟨hcalls, -⟩ := EachCall.of_concat settling_pairOps
  have hreach := (EachCall.related (R := fun _ _ => True) (fun _ => trivial) (fun _ _ _ _ _ => trivial)
    (fun _ _ _ _ => trivial) .empty hcalls).1
  obtain ⟨bytes, t, hs, hr, -⟩ := hreach.inv.recovers_iff.mpr ((recoverable_iff hreach.inv).mp (by decide +kernel))
  have hrun := ((CrashingRun.start.calls pairOps).crash hs hr).call (.evaluatePair (uuidOf 1) (uuidOf 2))
  exact ⟨bytes, t, hs, hr, (crashingRun_answers .empty .empty settling_pairOps hrun).1⟩

end Registry

end CompatRegistry
