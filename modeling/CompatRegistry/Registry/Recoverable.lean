import CompatRegistry.Registry.Reachable

/-! Which registries come back from their own snapshots. Payloads and evidence
values are written as records whatever they are, a rule's own `active` flag and the
explanation of a decision are not written at all, and the edges are rebuilt from
the newest records, which need not be acyclic. -/

namespace CompatRegistry

open Foundation Canon

/-- A stored rule and whether it is still in force. -/
def RuleRecord.current (rr : RuleRecord) : CompatibilityRule × Bool := (rr.rule, rr.active)

namespace Registry

/-- The contents that a recovery has to bring back. -/
structure SameContents (s t : Registry) : Prop where
  registryGen : t.registryGen = s.registryGen
  policyId : t.policyId = s.policyId
  historyOf : ∀ id, t.historyOf id = s.historyOf id
  rules : ∀ id, (t.rules.lookup id).map RuleRecord.current = (s.rules.lookup id).map RuleRecord.current
  evidence : ∀ id, t.findEvidence id = s.findEvidence id
  invalidations : t.invalidations = s.invalidations
  decisions : ∀ k, t.decisions.lookup k = s.decisions.lookup k

/-- The snapshot of the registry recovers to the same contents. -/
def Recovers (s : Registry) : Prop :=
  ∃ bytes t, s.snapshot = .ok bytes ∧ recover bytes = .ok t ∧ SameContents s t

/-- Nothing is stored that a snapshot leaves out or writes as something else, the
newest records list no cycle, and everything fits a 32-bit length. -/
structure Recoverable (s : Registry) : Prop where
  payloads : ∀ id, ∀ p ∈ s.historyOf id, p.payload.kind = .record
  values : ∀ id ev, s.findEvidence id = some ev → ev.value.kind = .record
  rules : ∀ id rr, s.rules.lookup id = some rr → rr.rule.active = true
  decisions : ∀ k d, s.decisions.lookup k = some d → d.explanation = []
  acyclic : ¬ DepthFirst.Cyclic s.newestDeps
  size : s.encodedSize < 2 ^ 32

theorem map_eq_self_iff {α : Type} {f : α → α} {l : List α} : l.map f = l ↔ ∀ x ∈ l, f x = x := by
  conv_lhs => rhs; rw [← List.map_id l]
  exact List.map_inj_left

theorem option_map_eq_self_iff {α : Type} {f : α → α} {o : Option α} :
    o.map f = o ↔ ∀ x, o = some x → f x = x := by
  cases o <;> simp

theorem RuleRecord.current_reset_iff {rr : RuleRecord} :
    rr.reset.current = rr.current ↔ rr.rule.active = true := by
  unfold RuleRecord.reset RuleRecord.current
  simp only [Prod.mk.injEq, and_true]
  constructor
  · intro h
    rw [← h]
  · intro h
    rw [← h]

theorem bare_eq_self_iff {d : CompatibilityDecision} (h : d.evidence = []) :
    d.bare = d ↔ d.explanation = [] := by
  unfold CompatibilityDecision.bare
  constructor
  · intro hd
    rw [← hd]
  · intro hd
    rw [← hd, ← h]

/-- The contents of what comes back, part by part. -/
theorem sameContents_restored_iff {s : Registry} (h : Inv s) :
    SameContents s s.restored ↔
      (∀ id, ∀ p ∈ s.historyOf id, p.payload.kind = .record) ∧
      (∀ id ev, s.findEvidence id = some ev → ev.value.kind = .record) ∧
      (∀ id rr, s.rules.lookup id = some rr → rr.rule.active = true) ∧
      ∀ k d, s.decisions.lookup k = some d → d.explanation = [] := by
  have hhistory : ∀ id, s.restored.historyOf id = s.historyOf id ↔
      ∀ p ∈ s.historyOf id, p.payload.kind = .record := by
    intro id
    rw [historyOf_restored h, map_eq_self_iff]
    simp only [ProfileRecord.forced_eq_self_iff]
  have hevidence : ∀ id, s.restored.findEvidence id = s.findEvidence id ↔
      ∀ ev, s.findEvidence id = some ev → ev.value.kind = .record := by
    intro id
    unfold findEvidence
    rw [evidence_restored h, option_map_eq_self_iff]
    simp only [EvidenceRecord.forced_eq_self_iff]
  have hrules : ∀ id, (s.restored.rules.lookup id).map RuleRecord.current =
      (s.rules.lookup id).map RuleRecord.current ↔
        ∀ rr, s.rules.lookup id = some rr → rr.rule.active = true := by
    intro id
    rw [rules_restored h]
    cases s.rules.lookup id with
    | none => simp
    | some rr => simp [RuleRecord.current_reset_iff]
  have hdecisions : ∀ k, s.restored.decisions.lookup k = s.decisions.lookup k ↔
      ∀ d, s.decisions.lookup k = some d → d.explanation = [] := by
    intro k
    rw [decisions_restored h, option_map_eq_self_iff]
    apply forall₂_congr
    intro d hl
    exact bare_eq_self_iff (h.decisions k d hl).2
  constructor
  · intro hsame
    exact ⟨fun id => (hhistory id).mp (hsame.historyOf id),
      fun id => (hevidence id).mp (hsame.evidence id), fun id => (hrules id).mp (hsame.rules id),
      fun k => (hdecisions k).mp (hsame.decisions k)⟩
  · rintro ⟨hpayloads, hvalues, hactive, hexplained⟩
    exact {
      registryGen := restored_registryGen s
      policyId := restored_policyId s
      historyOf := fun id => (hhistory id).mpr (hpayloads id)
      rules := fun id => (hrules id).mpr (hactive id)
      evidence := fun id => (hevidence id).mpr (hvalues id)
      invalidations := rfl
      decisions := fun k => (hdecisions k).mpr (hexplained k) }

theorem Inv.recovers_iff {s : Registry} (h : Inv s) : Recovers s ↔ Recoverable s := by
  have hrecovers : Recovers s ↔ SameContents s s.restored ∧ s.encodedSize < 2 ^ 32 ∧
      (∀ p ∈ s.allRecords, p.forced.Sound p.id) ∧ ¬ DepthFirst.Cyclic s.newestDeps := by
    constructor
    · rintro ⟨bytes, t, hs, ht, hsame⟩
      obtain ⟨rfl, hrest⟩ := (recover_snapshot h).mp ⟨bytes, hs, ht⟩
      exact ⟨hsame, hrest⟩
    · rintro ⟨hsame, hrest⟩
      obtain ⟨bytes, hs, ht⟩ := (recover_snapshot h).mpr ⟨rfl, hrest⟩
      exact ⟨bytes, _, hs, ht, hsame⟩
  rw [hrecovers, sameContents_restored_iff h]
  constructor
  · rintro ⟨⟨hpayloads, hvalues, hactive, hexplained⟩, hsize, -, hacyclic⟩
    exact ⟨hpayloads, hvalues, hactive, hexplained, hacyclic, hsize⟩
  · intro hr
    refine ⟨⟨hr.payloads, hr.values, hr.rules, hr.decisions⟩, hr.size, fun p hp => ?_, hr.acyclic⟩
    -- a payload that is a record is written as it is
    obtain ⟨id, hmem⟩ := mem_allRecords.mp hp
    rw [ProfileRecord.forced_eq_self_iff.mpr (hr.payloads id p hmem)]
    exact h.allRecords hp

/-- The condition as a computation; the cycle test is that of the recovery. -/
def recoverable (s : Registry) : Bool :=
  s.allRecords.all (·.payload.kind == .record) && s.evidence.values.all (·.value.kind == .record) &&
    s.rules.values.all (·.rule.active) && s.decisions.values.all (·.explanation == []) &&
    !s.restored.hasCycle && decide (s.encodedSize < 2 ^ 32)

theorem recoverable_iff {s : Registry} (h : Inv s) : s.recoverable = true ↔ Recoverable s := by
  have hcycle := restored_hasCycle h
  unfold recoverable
  simp only [Bool.and_eq_true, List.all_eq_true, mem_allRecords, UMap.mem_values_iff, beq_iff_eq,
    Bool.not_eq_eq_eq_not, Bool.not_true, ← Bool.not_eq_true, hcycle, decide_eq_true_eq,
    forall_exists_index]
  constructor
  · rintro ⟨⟨⟨⟨⟨hpayloads, hvalues⟩, hactive⟩, hexplained⟩, hacyclic⟩, hsize⟩
    exact ⟨fun id p => hpayloads p id, fun id ev => hvalues ev id, fun id rr => hactive rr id,
      fun k d => hexplained d k, hacyclic, hsize⟩
  · intro hr
    exact ⟨⟨⟨⟨⟨fun p id => hr.payloads id p, fun ev id => hr.values id ev⟩, fun rr id => hr.rules id rr⟩,
      fun d k => hr.decisions k d⟩, hr.acyclic⟩, hr.size⟩

/-- A reachable registry comes back from its snapshot exactly when it is recoverable. -/
theorem recovers_iff_recoverable {s : Registry} (h : Reachable s) : Recovers s ↔ Recoverable s :=
  h.inv.recovers_iff

/-- Two profiles with record payloads, one of which depends on the other, a rule and
a piece of evidence. -/
def smallOps : List Op := [
  .registerProfile (uuidOf 1) (.declared .model) (.record [(1, .str (ascii "llama"))]) [] (ascii "test"),
  .registerProfile (uuidOf 2) (.declared .model) (.record []) [uuidOf 1] [],
  .registerRule { ruleId := uuidOf 3, scope := ascii "pair" },
  .registerEvidence { id := uuidOf 4, value := .record [] }]

theorem smallOps_wf : ∀ op ∈ smallOps, op.WF := by
  simp only [smallOps, List.forall_mem_cons, List.not_mem_nil, false_imp_iff, implies_true, and_true]
  refine ⟨?_, ?_, ⟨?_, ?_, ?_, ?_⟩, ?_⟩ <;> simp [Op.WF, WF, WFRecord, SortedMap.Sorted]

theorem smallOps_reachable : Reachable (runOps smallOps {}) := runOps_reachable smallOps_wf Reachable.empty

theorem smallOps_recoverable : Recoverable (runOps smallOps {}) := by
  refine (recoverable_iff smallOps_reachable.inv).mp ?_
  decide +kernel

theorem recovers_small : Recovers (runOps smallOps {}) :=
  (recovers_iff_recoverable smallOps_reachable).mpr smallOps_recoverable

/-- One profile, whose payload is a text. -/
def textOps : List Op := [.registerProfile (uuidOf 1) (.declared .model) (.str (ascii "llama")) [] []]

theorem not_recovers_text : Reachable (runOps textOps {}) ∧ ¬ Recovers (runOps textOps {}) := by
  have hreach : Reachable (runOps textOps {}) :=
    runOps_reachable (by simp [textOps, Op.WF, WF]) Reachable.empty
  refine ⟨hreach, fun h => ?_⟩
  have hcheck := (recoverable_iff hreach.inv).mpr (hreach.inv.recovers_iff.mp h)
  revert hcheck
  decide +kernel

end Registry

end CompatRegistry
