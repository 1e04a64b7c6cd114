import CompatRegistry.Registry.Operations
import CompatRegistry.Registry.Evaluate

/-! The invariant of a registry: every stored object is filed under its own key,
every payload is well formed and has the stored fingerprint. Each change that an
operation makes keeps it. -/

namespace CompatRegistry

open Foundation Canon

/-- A record is filed under its id and its fingerprint is that of its payload. -/
structure ProfileRecord.Sound (p : ProfileRecord) (id : Uuid) : Prop where
  id : p.id = id
  wf : p.payload.WF
  fingerprint : p.fingerprint = Sha256.hex (Sha256.compute p.payload.encoding)

theorem ProfileRecord.deactivate_active (p : ProfileRecord) : p.deactivate.active = false := by
  unfold ProfileRecord.deactivate
  split_ifs with h
  · rfl
  · simpa using h

theorem ProfileRecord.Sound.deactivate {p : ProfileRecord} {id : Uuid} (h : p.Sound id) :
    p.deactivate.Sound id := by
  unfold ProfileRecord.deactivate
  split_ifs
  · exact ⟨h.id, h.wf, h.fingerprint⟩
  · exact h

theorem ProfileRecord.Sound.retire {p : ProfileRecord} {id : Uuid} (h : p.Sound id) :
    p.retire.Sound id := ⟨h.id, h.wf, h.fingerprint⟩

namespace Registry

structure Inv (s : Registry) : Prop where
  profiles : ∀ id, ∀ p ∈ s.historyOf id, p.Sound id
  rules : ∀ id rr, s.rules.lookup id = some rr → rr.rule.ruleId = id ∧ rr.rule.WF
  evidence : ∀ id ev, s.evidence.lookup id = some ev → ev.id = id ∧ ev.value.WF
  decisions : ∀ k d, s.decisions.lookup k = some d → d.digest = k ∧ d.evidence = []

theorem Inv.empty : Inv {} where
  profiles id p hp := by simp [historyOf] at hp
  rules id rr h := by simp at h
  evidence id ev h := by simp at h
  decisions k d h := by simp at h

theorem Inv.newestActive {s : Registry} (h : Inv s) {id : Uuid} {p : ProfileRecord}
    (hp : s.newestActive id = some p) : p.Sound id := by
  obtain ⟨hist, hl, hn⟩ := Option.bind_eq_some_iff.mp hp
  apply h.profiles id p
  unfold historyOf
  rw [hl]
  exact (History.newestActive_eq_some hn).1

/-- The dependency maps, the counters and the invalidations do not matter. -/
theorem Inv.congr {s s' : Registry} (h : Inv s)
    (hp : ∀ id, ∀ p ∈ s'.historyOf id, p.Sound id) (hr : s'.rules = s.rules)
    (he : s'.evidence = s.evidence) (hd : s'.decisions = s.decisions) : Inv s' where
  profiles := hp
  rules := hr ▸ h.rules
  evidence := he ▸ h.evidence
  decisions := hd ▸ h.decisions

/-! ### Frames of the dependency operations -/

theorem pushEdges_eq (id : Uuid) (ds : List Uuid) (s : Registry) :
    ∃ d r, pushEdges id ds s = { s with deps := d, reverse := r } := by
  induction ds generalizing s with
  | nil => exact ⟨s.deps, s.reverse, rfl⟩
  | cons d ds ih =>
    rw [pushEdges]
    split_ifs
    · exact ih s
    · obtain ⟨d', r', h⟩ := ih { s with deps := pushEdge id d s.deps, reverse := pushEdge d id s.reverse }
      exact ⟨d', r', h⟩

theorem addDependency_eq (id : Uuid) (ds : List Uuid) (s : Registry) :
    ∃ d r, addDependency id ds s = { s with deps := d, reverse := r } := by
  unfold addDependency
  cases s.deps.lookup id with
  | none => exact pushEdges_eq id ds s
  | some old =>
    obtain ⟨d, r, h⟩ := pushEdges_eq id ds
      { s with deps := s.deps.insert id [], reverse := dropReverse id old s.reverse }
    exact ⟨d, r, h⟩

theorem removeDependency_eq (id : Uuid) (s : Registry) :
    ∃ d r, removeDependency id s = { s with deps := d, reverse := r } := by
  unfold removeDependency
  cases s.deps.lookup id with
  | none => exact ⟨s.deps, s.reverse, rfl⟩
  | some old => exact ⟨_, _, rfl⟩

theorem appendRecord_eq (p : ProfileRecord) (s : Registry) :
    ∃ d r, appendRecord p s = { s with
      profiles := s.profiles.insert p.id (History.pushOrSingle (s.profiles.lookup p.id) p)
      deps := d, reverse := r, registryGen := s.registryGen + 1 } := by
  unfold appendRecord
  obtain ⟨d, r, heq⟩ := addDependency_eq p.id p.deps
    { s with profiles := s.profiles.insert p.id (History.pushOrSingle (s.profiles.lookup p.id) p) }
  simp only [heq]
  exact ⟨d, r, rfl⟩

/-! ### Histories -/

theorem newestActive_eq_find? (s : Registry) (id : Uuid) :
    s.newestActive id = (s.historyOf id).reverse.find? (·.active) := by
  unfold newestActive historyOf
  cases s.profiles.lookup id <;> rfl

theorem historyOf_insert (id id' : Uuid) (h : History) (s : Registry) :
    { s with profiles := s.profiles.insert id h }.historyOf id' =
      if id' = id then h.records else s.historyOf id' := by
  unfold historyOf
  simp only [UMap.lookup_insert_ite]
  split_ifs <;> rfl

theorem pushOrSingle_records (o : Option History) (p : ProfileRecord) :
    (History.pushOrSingle o p).records = (match o with | none => [] | some h => h.records) ++ [p] := by
  cases o <;> rfl

theorem historyOf_deactivateAll (id id' : Uuid) (s : Registry) :
    (deactivateAll id s).historyOf id' =
      if id' = id then (s.historyOf id).map ProfileRecord.deactivate else s.historyOf id' := by
  unfold historyOf deactivateAll
  simp only [UMap.lookup_modify]
  split_ifs with h
  · cases s.profiles.lookup id <;> rfl
  · rfl

/-- Appending a record adds it at the end of its history and to no other. -/
theorem historyOf_appendRecord (p : ProfileRecord) (s : Registry) (id : Uuid) :
    (appendRecord p s).historyOf id = if id = p.id then s.historyOf p.id ++ [p] else s.historyOf id := by
  obtain ⟨d, r, heq⟩ := appendRecord_eq p s
  rw [heq]
  apply (historyOf_insert p.id id _ s).trans
  rw [pushOrSingle_records]
  rfl

theorem deactivateAll_inv {s : Registry} (h : Inv s) (id : Uuid) : Inv (deactivateAll id s) := by
  refine h.congr (fun id' p hp => ?_) rfl rfl rfl
  rw [historyOf_deactivateAll] at hp
  split_ifs at hp with hid
  · obtain ⟨q, hq, rfl⟩ := List.mem_map.mp hp
    rw [hid]
    exact (h.profiles id q hq).deactivate
  · exact h.profiles id' p hp

theorem removeDependency_inv {s : Registry} (h : Inv s) (id : Uuid) : Inv (removeDependency id s) := by
  obtain ⟨d, r, heq⟩ := removeDependency_eq id s
  rw [heq]
  exact h.congr h.profiles rfl rfl rfl

theorem appendRecord_inv {s : Registry} (h : Inv s) {p : ProfileRecord} (hp : p.Sound p.id) :
    Inv (appendRecord p s) := by
  have hhist := historyOf_appendRecord p s
  have hframe : (appendRecord p s).rules = s.rules ∧ (appendRecord p s).evidence = s.evidence ∧
      (appendRecord p s).decisions = s.decisions := by
    obtain ⟨d, r, heq⟩ := appendRecord_eq p s
    rw [heq]
    exact ⟨rfl, rfl, rfl⟩
  refine h.congr (fun id q hq => ?_) hframe.1 hframe.2.1 hframe.2.2
  rw [hhist] at hq
  split_ifs at hq with hid
  · subst hid
    rcases List.mem_append.mp hq with hq | hq
    · exact h.profiles _ q hq
    · rw [List.mem_singleton.mp hq]
      exact hp
  · exact h.profiles id q hq

/-! ### The operations -/

theorem invalidateWith_inv {s : Registry} (h : Inv s) (id : Uuid) (reason : Bytes) :
    Inv (invalidateWith id reason s) := by
  unfold invalidateWith
  cases hl : s.profiles.lookup id with
  | none => exact h
  | some hist =>
    refine h.congr (fun id' p hp => ?_) rfl rfl rfl
    have hp' : p ∈ if id' = id then (hist.map ProfileRecord.retire).records else s.historyOf id' := by
      rw [← historyOf_insert]
      exact hp
    split_ifs at hp' with hid
    · obtain ⟨q, hq, rfl⟩ := List.mem_map.mp hp'
      have hq' : q ∈ s.historyOf id := by
        unfold historyOf
        rwa [hl]
      rw [hid]
      exact (h.profiles id q hq').retire
    · exact h.profiles id' p hp'

/-- What a withdrawal does to a registry, any number of times, the loop does. -/
theorem propagateLoop_related {R : Registry → Registry → Prop} (hrefl : ∀ s, R s s)
    (htrans : ∀ {s t u}, R s t → R t u → R s u) (hstep : ∀ id s, R s (invalidateWith id propagateReason s))
    (reverse : UMap Uuid (List Uuid)) (stack seen : List Uuid) (s : Registry) :
    R s (propagateLoop reverse stack seen s) := by
  induction stack, seen, s using propagateLoop.induct reverse with
  | case1 seen s =>
    rw [propagateLoop]
    exact hrefl s
  | case2 seen s cur stack s' next ih =>
    rw [propagateLoop]
    exact htrans (hstep cur s) ih

theorem propagateLoop_inv (reverse : UMap Uuid (List Uuid)) (stack seen : List Uuid) {s : Registry}
    (h : Inv s) : Inv (propagateLoop reverse stack seen s) :=
  propagateLoop_related (R := fun s t => Inv s → Inv t) (fun _ => id) (fun hst htu hs => htu (hst hs))
    (fun id _ hs => invalidateWith_inv hs id propagateReason) reverse stack seen s h

theorem propagateInvalidation_inv {s : Registry} (h : Inv s) (id : Uuid) :
    Inv (propagateInvalidation id s).2 := by
  have hl := propagateLoop_inv s.reverse [id] [] h
  exact hl.congr hl.profiles rfl rfl rfl

/-- Storing a rule under its own id. -/
theorem insertRule_inv {s : Registry} (h : Inv s) {rr : RuleRecord} {id : Uuid}
    (hid : rr.rule.ruleId = id) (hwf : rr.rule.WF) :
    Inv { s with rules := s.rules.insert id rr } where
  profiles := h.profiles
  rules id' rr' hl := by
    simp only [UMap.lookup_insert_ite] at hl
    split_ifs at hl with heq
    · cases hl
      exact ⟨hid.trans heq.symm, hwf⟩
    · exact h.rules id' rr' hl
  evidence := h.evidence
  decisions := h.decisions

theorem registerEvidence_inv {s : Registry} (h : Inv s) {ev : EvidenceRecord} (hwf : ev.value.WF) :
    Inv (registerEvidence ev s).2 where
  profiles := h.profiles
  rules := h.rules
  evidence id ev' hl := by
    simp only [registerEvidence, UMap.lookup_insert_ite] at hl
    split_ifs at hl with heq
    · cases hl
      exact ⟨heq.symm, hwf⟩
    · exact h.evidence id ev' hl
  decisions := h.decisions

/-- Caching a decision under its digest. -/
theorem insertDecision_inv {s : Registry} (h : Inv s) {d : CompatibilityDecision} (hd : d.evidence = []) :
    Inv { s with decisions := s.decisions.insert d.digest d } := by
  refine ⟨h.profiles, h.rules, h.evidence, fun k d' hl => ?_⟩
  simp only [UMap.lookup_insert_ite] at hl
  split_ifs at hl with heq
  · cases hl
    exact ⟨heq.symm, hd⟩
  · exact h.decisions k d' hl

end Registry

end CompatRegistry
