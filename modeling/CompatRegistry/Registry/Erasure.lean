import CompatRegistry.Registry.Interference

/-! Rules that have been switched off. Where some rules are off at the end of a run, every pair is
ruled on as if they had never been stored: all calls about them can be left out of the run,
whatever these rules have decided while they were on. -/

namespace CompatRegistry

open Foundation Canon

namespace Registry

/-- Everything but the rules, the decisions and the counters. -/
structure SameStore (s t : Registry) : Prop where
  profiles : t.profiles = s.profiles
  deps : t.deps = s.deps
  reverse : t.reverse = s.reverse
  invalidations : t.invalidations = s.invalidations
  evidence : t.evidence = s.evidence
  policyId : t.policyId = s.policyId

namespace SameStore

variable {s t : Registry}

theorem deactivateAll (h : SameStore s t) (id : Uuid) : SameStore (deactivateAll id s) (deactivateAll id t) where
  profiles := congrArg (·.modify id (History.map ProfileRecord.deactivate)) h.profiles
  deps := h.deps
  reverse := h.reverse
  invalidations := h.invalidations
  evidence := h.evidence
  policyId := h.policyId

theorem removeDependency (h : SameStore s t) (id : Uuid) :
    SameStore (removeDependency id s) (removeDependency id t) := by
  unfold Registry.removeDependency
  rw [h.deps, h.reverse]
  cases s.deps.lookup id with
  | none => exact h
  | some ds => exact ⟨h.profiles, rfl, rfl, h.invalidations, h.evidence, h.policyId⟩

theorem pushEdges (h : SameStore s t) (id : Uuid) (ds : List Uuid) :
    SameStore (pushEdges id ds s) (pushEdges id ds t) := by
  induction ds generalizing s t with
  | nil => exact h
  | cons d ds ih =>
    simp only [Registry.pushEdges]
    split_ifs
    · exact ih h
    · apply ih
      exact ⟨h.profiles, congrArg (pushEdge id d) h.deps, congrArg (pushEdge d id) h.reverse, h.invalidations,
        h.evidence, h.policyId⟩

theorem appendRecord (h : SameStore s t) (record : ProfileRecord) :
    SameStore (appendRecord record s) (appendRecord record t) := by
  have hadded : ∀ {s t : Registry}, SameStore s t → SameStore (addDependency record.id record.deps s)
      (addDependency record.id record.deps t) := by
    intro s t h
    unfold addDependency
    rw [h.deps, h.reverse]
    cases s.deps.lookup record.id with
    | none => exact h.pushEdges record.id record.deps
    | some ds =>
      apply SameStore.pushEdges
      exact ⟨h.profiles, rfl, rfl, h.invalidations, h.evidence, h.policyId⟩
  have hinserted : SameStore
      { s with profiles := s.profiles.insert record.id (History.pushOrSingle (s.profiles.lookup record.id) record) }
      { t with
        profiles := t.profiles.insert record.id (History.pushOrSingle (t.profiles.lookup record.id) record) } := by
    rw [h.profiles]
    exact ⟨rfl, h.deps, h.reverse, h.invalidations, h.evidence, h.policyId⟩
  have hend := hadded hinserted
  exact ⟨hend.profiles, hend.deps, hend.reverse, hend.invalidations, hend.evidence, hend.policyId⟩

theorem createCycle (h : SameStore s t) (id : Uuid) (ds : List Uuid) : createCycle id ds t = createCycle id ds s := by
  unfold Registry.createCycle prospective
  rw [h.deps]

theorem registerRecord (h : SameStore s t) (record : ProfileRecord) :
    SameStore (registerRecord record s).2 (registerRecord record t).2 := by
  have hdeactivated := h.deactivateAll record.id
  unfold Registry.registerRecord
  cases canonicalFingerprintHex record.payload with
  | error e => exact h
  | ok fingerprint =>
    simp only [h.profiles, hdeactivated.createCycle]
    split_ifs
    · exact h
    · exact hdeactivated
    · exact hdeactivated.appendRecord _

theorem supersedeProfile (h : SameStore s t) (kind : Enum8 ProfileKind) (id : Uuid) (payload : Canon)
    (deps : List Uuid) (provenance : Bytes) : SameStore (supersedeProfile kind id payload deps provenance s).2
      (supersedeProfile kind id payload deps provenance t).2 := by
  have hdropped := (h.deactivateAll id).removeDependency id
  unfold Registry.supersedeProfile
  rw [h.profiles]
  cases s.profiles.lookup id with
  | none => exact h
  | some hist =>
    cases canonicalFingerprintHex payload with
    | error e => exact h
    | ok fingerprint =>
      simp only [hdropped.createCycle]
      split_ifs
      · exact h
      · exact hdropped
      · exact hdropped.appendRecord _

theorem invalidateWith (h : SameStore s t) (id : Uuid) (reason : Bytes) :
    SameStore (invalidateWith id reason s) (invalidateWith id reason t) := by
  unfold Registry.invalidateWith
  rw [h.profiles, h.invalidations]
  cases s.profiles.lookup id with
  | none => exact h
  | some hist => exact ⟨rfl, h.deps, h.reverse, rfl, h.evidence, h.policyId⟩

theorem propagateLoop (h : SameStore s t) (reverse : UMap Uuid (List Uuid)) (stack seen : List Uuid) :
    SameStore (propagateLoop reverse stack seen s) (propagateLoop reverse stack seen t) := by
  induction stack, seen, s using propagateLoop.induct reverse generalizing t with
  | case1 seen s =>
    rw [Registry.propagateLoop, Registry.propagateLoop]
    exact h
  | case2 seen s cur stack =>
    rename_i ih
    rw [Registry.propagateLoop, Registry.propagateLoop]
    exact ih (h.invalidateWith cur propagateReason)

end SameStore

/-! ### Two runs -/

/-- The call stores, replaces or disables one of the rules. -/
def Op.concerns (R : Finset Uuid) : Op → Bool
  | .registerRule rule => decide (rule.ruleId ∈ R)
  | .supersedeRule id _ => decide (id ∈ R)
  | .disableRule id => decide (id ∈ R)
  | _ => false

/-- A run that uses the rules, next to one that does not know them. -/
structure Apart (R : Finset Uuid) (s t : Registry) : Prop extends SameStore s t where
  ruleGen : t.ruleGen = s.ruleGen
  rules : ∀ id ∉ R, t.rules.lookup id = s.rules.lookup id
  unknown : ∀ id ∈ R, t.rules.lookup id = none

namespace Apart

variable {R : Finset Uuid} {s t : Registry}

theorem of_rulebook {s' t' : Registry} (h : Apart R s t) (hstore : SameStore s' t')
    (hs : s'.rules = s.rules ∧ s'.ruleGen = s.ruleGen) (ht : t'.rules = t.rules ∧ t'.ruleGen = t.ruleGen) :
    Apart R s' t' := by
  refine ⟨hstore, ?_, ?_, ?_⟩
  · rw [hs.2, ht.2, h.ruleGen]
  · rw [hs.1, ht.1]
    exact h.rules
  · rw [ht.1]
    exact h.unknown

/-- A rule that both runs know. -/
theorem insert (h : Apart R s t) {id : Uuid} (hid : id ∉ R) (rr : RuleRecord) {m m' : UInt64} (hm : m' = m)
    (g g' : UInt64) : Apart R { s with rules := s.rules.insert id rr, ruleGen := m, registryGen := g }
      { t with rules := t.rules.insert id rr, ruleGen := m', registryGen := g' } where
  toSameStore := ⟨h.profiles, h.deps, h.reverse, h.invalidations, h.evidence, h.policyId⟩
  ruleGen := hm
  rules id' hid' := by
    simp only [UMap.lookup_insert_ite, h.rules id' hid']
  unknown id' hid' := by
    have hne : id' ≠ id := fun heq => hid (heq ▸ hid')
    simp only [UMap.lookup_insert_ite, if_neg hne]
    exact h.unknown id' hid'

/-- A rule that only the first run knows. -/
theorem insert_left (h : Apart R s t) {id : Uuid} (hid : id ∈ R) (rr : RuleRecord) (g : UInt64) :
    Apart R { s with rules := s.rules.insert id rr, registryGen := g } t where
  toSameStore := ⟨h.profiles, h.deps, h.reverse, h.invalidations, h.evidence, h.policyId⟩
  ruleGen := h.ruleGen
  rules id' hid' := by
    have hne : id' ≠ id := fun heq => hid' (heq ▸ hid)
    simp only [UMap.lookup_insert_ite, if_neg hne]
    exact h.rules id' hid'
  unknown := h.unknown

theorem registerRule (h : Apart R s t) {rule : CompatibilityRule} (hid : rule.ruleId ∉ R) :
    Apart R (registerRule rule s).2 (registerRule rule t).2 := by
  have hpredecessor : predecessor rule t = predecessor rule s := by
    unfold predecessor
    rw [h.rules rule.ruleId hid]
  unfold Registry.registerRule assignedGeneration
  rw [hpredecessor, h.ruleGen]
  exact h.insert hid _ rfl _ _

theorem supersedeRule (h : Apart R s t) {id : Uuid} (hid : id ∉ R) (rule : CompatibilityRule) :
    Apart R (supersedeRule id rule s).2 (supersedeRule id rule t).2 := by
  unfold Registry.supersedeRule
  rw [h.rules id hid]
  cases s.rules.lookup id with
  | none => exact h
  | some rr => exact h.insert hid _ h.ruleGen _ _

theorem disableRule (h : Apart R s t) {id : Uuid} (hid : id ∉ R) :
    Apart R (disableRule id s).2 (disableRule id t).2 := by
  unfold Registry.disableRule
  rw [h.rules id hid]
  cases s.rules.lookup id with
  | none => exact h
  | some rr => exact h.insert hid _ h.ruleGen _ _

/-- A call that both runs make. -/
theorem run (h : Apart R s t) {op : Op} (hop : op.concerns R = false) : Apart R (op.run s) (op.run t) := by
  have hprofile : ∀ call, op.profileCall = some call → SameStore (op.run s) (op.run t) →
      Apart R (op.run s) (op.run t) := fun call hcall hstore =>
    h.of_rulebook hstore (Op.rulebook_of_profileCall hcall s) (Op.rulebook_of_profileCall hcall t)
  have hevaluated : ∀ requirement left right, Apart R (evaluateWith requirement left right s).2
      (evaluateWith requirement left right t).2 := by
    intro requirement left right
    unfold evaluateWith
    cases evaluateLocked s left right requirement <;> cases evaluateLocked t left right requirement <;>
      exact ⟨⟨h.profiles, h.deps, h.reverse, h.invalidations, h.evidence, h.policyId⟩, h.ruleGen, h.rules, h.unknown⟩
  cases op with
  | registerProfile genseed kind payload deps provenance =>
    apply hprofile _ rfl
    simp only [Op.run, registerProfile_eq_run]
    exact h.toSameStore.registerRecord { kind, payload, id := genseed, deps, provenance }
  | registerRecord p => exact hprofile _ rfl (h.toSameStore.registerRecord p)
  | supersedeProfile kind id payload deps provenance =>
    exact hprofile _ rfl (h.toSameStore.supersedeProfile kind id payload deps provenance)
  | invalidateProfile id reason =>
    have hstore := h.toSameStore.invalidateWith id reason
    obtain ⟨p, i, hs⟩ := invalidateWith_eq id reason s
    obtain ⟨p', i', ht⟩ := invalidateWith_eq id reason t
    simp only [Op.run, invalidateProfile, h.profiles]
    cases s.profiles.lookup id with
    | none => exact h
    | some hist =>
      simp only
      rw [hs, ht] at hstore ⊢
      exact ⟨⟨hstore.profiles, h.deps, h.reverse, hstore.invalidations, h.evidence, h.policyId⟩, h.ruleGen, h.rules,
        h.unknown⟩
  | propagateInvalidation id =>
    have hstore := h.toSameStore.propagateLoop s.reverse [id] []
    obtain ⟨p, i, hs⟩ := propagateLoop_eq s.reverse [id] [] s
    obtain ⟨p', i', ht⟩ := propagateLoop_eq s.reverse [id] [] t
    simp only [Op.run, propagateInvalidation, h.reverse]
    rw [hs, ht] at hstore ⊢
    exact ⟨⟨hstore.profiles, h.deps, h.reverse, hstore.invalidations, h.evidence, h.policyId⟩, h.ruleGen, h.rules,
      h.unknown⟩
  | registerRule rule => exact h.registerRule (of_decide_eq_false hop)
  | supersedeRule id rule => exact h.supersedeRule (of_decide_eq_false hop) rule
  | disableRule id => exact h.disableRule (of_decide_eq_false hop)
  | registerEvidence ev =>
    have hevidence := congrArg (·.insert ev.id ev) h.evidence
    exact ⟨⟨h.profiles, h.deps, h.reverse, h.invalidations, hevidence, h.policyId⟩, h.ruleGen, h.rules, h.unknown⟩
  | setPolicy policy =>
    exact ⟨⟨h.profiles, h.deps, h.reverse, h.invalidations, h.evidence, rfl⟩, h.ruleGen, h.rules, h.unknown⟩
  | evaluatePair left right => exact hevaluated false left right
  | evaluateRequirement candidate requirement => exact hevaluated true candidate requirement

/-- A call about the rules, which only the first run makes. -/
theorem run_left (h : Apart R s t) {op : Op} (hop : op.concerns R = true)
    (hrule : ∀ rule, op = .registerRule rule → Follows rule s) : Apart R (op.run s) t := by
  cases op with
  | registerRule rule =>
    have hkept : ¬ (rule.generation = 0 ∧ (predecessor rule s).isNone = true) := by
      rintro ⟨hzero, hnone⟩
      obtain hgeneration | hsome := hrule rule rfl
      · exact hgeneration hzero
      · rw [Option.isNone_iff_eq_none.mp hnone] at hsome
        cases hsome
    simp only [Op.run, Registry.registerRule, if_neg hkept]
    exact h.insert_left (of_decide_eq_true hop) _ _
  | supersedeRule id rule =>
    simp only [Op.run, Registry.supersedeRule]
    cases s.rules.lookup id with
    | none => exact h
    | some rr => exact h.insert_left (of_decide_eq_true hop) _ _
  | disableRule id =>
    simp only [Op.run, Registry.disableRule]
    cases s.rules.lookup id with
    | none => exact h
    | some rr => exact h.insert_left (of_decide_eq_true hop) _ _
  | _ => exact absurd hop Bool.false_ne_true

/-- Where none of the rules applies to a pair, it is the same pair in both runs. -/
theorem samePair (h : Apart R s t) {scope : Bytes} {left right : Uuid}
    (hoff : ∀ id ∈ R, ∀ rr ∈ s.rules.lookup id, ¬ AppliesTo scope left right s rr) :
    SamePair scope left right s t where
  leftActive := newestActive_of_lookup (by rw [h.profiles])
  rightActive := newestActive_of_lookup (by rw [h.profiles])
  rules l r hl hr id rr happ := by
    by_cases hid : id ∈ R
    · rw [h.unknown id hid]
      constructor
      · intro hnone
        cases hnone
      · intro hlook
        exact absurd ⟨l, r, hl, hr, happ⟩ (hoff id hid rr hlook)
    · rw [h.rules id hid]

end Apart

/-- The call takes no number for one of the rules from the counter. -/
def Op.Numbered (R : Finset Uuid) (op : Op) (s : Registry) : Prop :=
  ∀ rule, op = .registerRule rule → rule.ruleId ∈ R → Follows rule s

/-- Leaving out the calls about some rules changes nothing but the rules, the decisions and the
counters. Where the rules do not apply to a pair at the end, an evaluation of the pair answers
the same without them: the same ruling, or the same exception. -/
theorem ruling_without {R : Finset Uuid} {start : Registry} (h : Reachable start)
    (hnone : ∀ id ∈ R, start.rules.lookup id = none) {ops : List Op} (hops : EachCall (Op.Numbered R) ops start) :
    SameStore (runOps ops start) (runOps (ops.filter fun op => !op.concerns R) start) ∧
      ∀ requirement left right,
        (∀ id ∈ R, ∀ rr ∈ (runOps ops start).rules.lookup id,
          ¬ AppliesTo (scopeOf requirement) left right (runOps ops start) rr) →
        (evaluateWith requirement left right (runOps (ops.filter fun op => !op.concerns R) start)).1.map
            CompatibilityDecision.ruling =
          (evaluateWith requirement left right (runOps ops start)).1.map CompatibilityDecision.ruling := by
  have hends : Reachable (ops.foldl (fun s op => op.run s) start) ∧
      Reachable ((ops.filter fun op => !op.concerns R).foldl (fun s op => op.run s) start) ∧
      Apart R (ops.foldl (fun s op => op.run s) start)
        ((ops.filter fun op => !op.concerns R).foldl (fun s op => op.run s) start) := by
    refine Along.unwind (R := fun s t => Reachable s ∧ Reachable t ∧ Apart R s t) ?_ ?_ ?_ hops
    · rintro op s t ⟨hs, ht, hapart⟩ ⟨hwf, -⟩ hkeep
      exact ⟨hs.step op hwf, ht.step op hwf, hapart.run (by simpa using hkeep)⟩
    · rintro op s t ⟨hs, ht, hapart⟩ ⟨hwf, hnumbered⟩ hkeep
      have hconcerns : op.concerns R = true := by simpa using hkeep
      refine ⟨hs.step op hwf, ht, hapart.run_left hconcerns fun rule hrule => hnumbered rule hrule ?_⟩
      rw [hrule] at hconcerns
      exact of_decide_eq_true hconcerns
    · exact ⟨h, h, ⟨rfl, rfl, rfl, rfl, rfl, rfl⟩, rfl, fun _ _ => rfl, hnone⟩
  rw [← runOps_eq_foldl, ← runOps_eq_foldl] at hends
  obtain ⟨hs, ht, hapart⟩ := hends
  refine ⟨hapart.toSameStore, fun requirement left right hoff => ?_⟩
  rw [evaluateWith_fst, evaluateWith_fst]
  exact (hapart.samePair hoff).ruling hs.inv ht.inv

/-- A rule for two profiles that is used once and disabled. -/
def switchedOffOps : List Op := [
  .registerRecord (modelRecord (uuidOf 1) []),
  .registerRecord { modelRecord (uuidOf 2) [uuidOf 1] with payload := .record [(1, .uint 1)] },
  .registerRule { ruleId := uuidOf 3, generation := 1, outcome := .declared .compatible },
  .evaluatePair (uuidOf 1) (uuidOf 2),
  .disableRule (uuidOf 3)]

theorem ruling_without_disabled :
    (evaluateWith false (uuidOf 1) (uuidOf 2)
      (runOps (switchedOffOps.filter fun op => !op.concerns {uuidOf 3}) {})).1.map
        CompatibilityDecision.ruling =
      (evaluateWith false (uuidOf 1) (uuidOf 2) (runOps switchedOffOps {})).1.map CompatibilityDecision.ruling := by
  have hops : EachCall (Op.Numbered {uuidOf 3}) switchedOffOps {} := by
    simp only [switchedOffOps, EachCall, Along, Op.WF, Op.Numbered, Op.registerRule.injEq, reduceCtorEq, false_implies,
      implies_true, and_true]
    refine ⟨?_, ?_, ⟨?_, ?_, ?_, ?_⟩, ?_⟩
    · simp [modelRecord, WF, WFRecord, SortedMap.Sorted]
    · simp [WF, WFRecord, SortedMap.Sorted]
    · simp
    · simp
    · simp
    · simp
    · rintro _ rfl -
      exact .inl (by decide)
  have hdisabled : ((runOps switchedOffOps {}).rules.lookup (uuidOf 3)).any (·.active) = false := by decide +kernel
  refine (ruling_without .empty ?_ hops).2 false (uuidOf 1) (uuidOf 2) ?_
  · intro id _
    rfl
  · rintro id hid rr hlook ⟨l, r, -, -, happ⟩
    rw [Finset.mem_singleton] at hid
    subst hid
    rw [Option.mem_def.mp hlook] at hdisabled
    simp only [Option.any_some] at hdisabled
    simp [applicable, hdisabled] at happ

end Registry

end CompatRegistry
