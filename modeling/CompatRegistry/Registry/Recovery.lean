import CompatRegistry.Registry.Size

/-! What the recovery of a snapshot returns. The loops of the recovery rebuild the
histories, the maps and the edges from the sequences of the root record. The edges
of a profile are those of its newest record, whatever edges the registry itself
had, so the cycle test at the end looks at another graph. -/

namespace CompatRegistry

open Foundation Canon

namespace Registry

/-! ### Histories -/

theorem historyOf_fillProfiles (ps : List ProfileRecord) (m : UMap Uuid History) (id : Uuid) :
    historyOf { profiles := fillProfiles ps m } id =
      historyOf { profiles := m } id ++ ps.filter (·.id = id) := by
  induction ps generalizing m with
  | nil => simp [fillProfiles]
  | cons p ps ih =>
    rw [fillProfiles, ih, historyOf_insert p.id id _ { profiles := m }, pushOrSingle_records]
    by_cases hid : id = p.id
    · subst hid
      cases hm : m.lookup p.id with
      | none => simp [historyOf, hm]
      | some h => simp [historyOf, hm]
    · rw [if_neg hid, List.filter_cons_of_neg (by simpa using Ne.symm hid)]

theorem filter_allRecords {s : Registry} (h : Inv s) (id : Uuid) :
    s.allRecords.filter (·.id = id) = s.historyOf id := by
  have hkey : ∀ k hist, s.profiles.lookup k = some hist → ∀ p ∈ hist.records, p.id = k := by
    intro k hist hl p hp
    refine (h.profiles k p ?_).id
    unfold historyOf
    rwa [hl]
  unfold allRecords historyOf
  rw [UMap.filter_flatten_values hkey]
  cases s.profiles.lookup id <;> rfl

/-! ### Edges -/

theorem dependenciesOf_pushEdges (id : Uuid) (ds : List Uuid) (s : Registry) (k : Uuid) :
    (pushEdges id ds s).dependenciesOf k =
      if k = id then s.dependenciesOf id ++ ds.filter (· ≠ id) else s.dependenciesOf k := by
  induction ds generalizing s with
  | nil => by_cases hk : k = id <;> simp [pushEdges, hk]
  | cons d ds ih =>
    rw [pushEdges]
    by_cases hd : d = id
    · rw [if_pos hd, ih, List.filter_cons_of_neg (by simpa using hd)]
    · rw [if_neg hd, ih, List.filter_cons_of_pos (by simpa using hd)]
      simp only [dependenciesOf, pushEdge, UMap.lookup_insert_ite]
      split_ifs <;> simp

/-- Adding the edges of a profile replaces those it had. -/
theorem dependenciesOf_addDependency (id : Uuid) (ds : List Uuid) (s : Registry) (k : Uuid) :
    (addDependency id ds s).dependenciesOf k =
      if k = id then ds.filter (· ≠ id) else s.dependenciesOf k := by
  unfold addDependency
  rw [dependenciesOf_pushEdges]
  cases hl : s.deps.lookup id with
  | none => simp [dependenciesOf, hl]
  | some old =>
    simp only [dependenciesOf, UMap.lookup_insert_ite]
    split_ifs <;> simp

/-- One history leaves the edges of its newest record. -/
theorem dependenciesOf_foldl (id : Uuid) (ps : List ProfileRecord) (s : Registry) (k : Uuid) :
    (ps.foldl (fun s p => addDependency id p.deps s) s).dependenciesOf k =
      if k = id then (ps.getLast?.elim (s.dependenciesOf id) fun p => p.deps.filter (· ≠ id))
      else s.dependenciesOf k := by
  induction ps generalizing s with
  | nil => by_cases hk : k = id <;> simp [hk]
  | cons p ps ih =>
    rw [List.foldl_cons, ih, dependenciesOf_addDependency, dependenciesOf_addDependency]
    by_cases hk : k = id
    · cases ps <;> simp [hk, List.getLast?_cons]
    · simp [hk]

/-- The edges that the newest record of an id lists. -/
def newestDeps (s : Registry) (id : Uuid) : List Uuid :=
  (s.historyOf id).getLast?.elim [] fun p => p.deps.filter (· ≠ id)

theorem dependenciesOf_rebuildEdges {s : Registry} (hs : s.deps = ∅) (k : Uuid) :
    (rebuildEdges s).dependenciesOf k = s.newestDeps k := by
  have hfold : ∀ (l : List (Sigma fun _ : Uuid => History)) (s : Registry), l.NodupKeys →
      (l.foldl (fun s e => e.2.records.foldl (fun s p => addDependency e.1 p.deps s) s) s).dependenciesOf k =
        (l.dlookup k).elim (s.dependenciesOf k) fun h => h.back.deps.filter (· ≠ k) := by
    intro l
    induction l with
    | nil => intros; rfl
    | cons e l ih =>
      intro s hnodup
      rw [List.nodupKeys_cons] at hnodup
      obtain ⟨id, h⟩ := e
      rw [List.foldl_cons, ih _ hnodup.2, dependenciesOf_foldl]
      by_cases hk : k = id
      · subst hk
        rw [List.dlookup_eq_none.mpr hnodup.1, List.dlookup_cons_eq]
        simp [History.back, List.getLast?_eq_some_getLast h.nonempty]
      · rw [List.dlookup_cons_ne _ _ hk, if_neg hk]
  have hnone : s.dependenciesOf k = [] := by simp [dependenciesOf, hs]
  unfold rebuildEdges
  rw [hfold s.profiles.entries s s.profiles.nodupKeys, hnone]
  unfold newestDeps historyOf AList.lookup
  cases s.profiles.entries.dlookup k with
  | none => rfl
  | some h => simp [History.back, List.getLast?_eq_some_getLast h.nonempty]

/-! ### The recovered registry -/

/-- The registry that a snapshot is recovered to, given the records that were read. -/
def restoredFrom (s : Registry) (ps : List ProfileRecord) : Registry :=
  { rebuildEdges {
      registryGen := s.registryGen
      policyId := s.policyId
      profiles := fillProfiles ps ∅ } with
    rules := UMap.fill (fun rr => rr.rule.ruleId) (s.rules.values.map RuleRecord.reset) ∅
    evidence := UMap.fill EvidenceRecord.id (s.evidence.values.map EvidenceRecord.forced) ∅
    invalidations := s.invalidations
    decisions := UMap.fill CompatibilityDecision.digest
      (s.decisions.values.map CompatibilityDecision.bare) ∅ }

/-- The registry that its own snapshot is recovered to, when nothing throws. -/
def restored (s : Registry) : Registry := s.restoredFrom (s.allRecords.map ProfileRecord.forced)

theorem foldl_addDependency_eq (id : Uuid) (ps : List ProfileRecord) (s : Registry) :
    ∃ d r, ps.foldl (fun s p => addDependency id p.deps s) s = { s with deps := d, reverse := r } := by
  induction ps generalizing s with
  | nil => exact ⟨s.deps, s.reverse, rfl⟩
  | cons p ps ih =>
    obtain ⟨d, r, h⟩ := addDependency_eq id p.deps s
    obtain ⟨d', r', h'⟩ := ih { s with deps := d, reverse := r }
    exact ⟨d', r', by rw [List.foldl_cons, h, h']⟩

/-- Rebuilding the edges changes nothing else. -/
theorem rebuildEdges_eq (s : Registry) : ∃ d r, rebuildEdges s = { s with deps := d, reverse := r } := by
  unfold rebuildEdges
  generalize s.profiles.entries = l
  induction l generalizing s with
  | nil => exact ⟨s.deps, s.reverse, rfl⟩
  | cons e l ih =>
    obtain ⟨d, r, h⟩ := foldl_addDependency_eq e.1 e.2.records s
    obtain ⟨d', r', h'⟩ := ih { s with deps := d, reverse := r }
    exact ⟨d', r', by rw [List.foldl_cons, h, h']⟩

theorem restored_registryGen (s : Registry) : s.restored.registryGen = s.registryGen := by
  unfold restored restoredFrom
  obtain ⟨d, r, h⟩ := rebuildEdges_eq _
  rw [h]

theorem restored_policyId (s : Registry) : s.restored.policyId = s.policyId := by
  unfold restored restoredFrom
  obtain ⟨d, r, h⟩ := rebuildEdges_eq _
  rw [h]

theorem restored_profiles (s : Registry) :
    s.restored.profiles = fillProfiles (s.allRecords.map ProfileRecord.forced) ∅ := by
  unfold restored restoredFrom
  obtain ⟨d, r, h⟩ := rebuildEdges_eq _
  rw [h]

theorem historyOf_restored {s : Registry} (h : Inv s) (id : Uuid) :
    s.restored.historyOf id = (s.historyOf id).map ProfileRecord.forced := by
  have hfill := historyOf_fillProfiles (s.allRecords.map ProfileRecord.forced) ∅ id
  have hfilter : (s.allRecords.map ProfileRecord.forced).filter (·.id = id) =
      (s.historyOf id).map ProfileRecord.forced := by
    rw [List.filter_map, ← filter_allRecords h]
    rfl
  rw [hfilter, ← restored_profiles] at hfill
  exact hfill

theorem rules_restored {s : Registry} (h : Inv s) (id : Uuid) :
    s.restored.rules.lookup id = (s.rules.lookup id).map RuleRecord.reset :=
  UMap.lookup_fill_values (f := RuleRecord.reset) (fun rr : RuleRecord => rr.rule.ruleId)
    (fun k rr hl => (h.rules k rr hl).1) id

theorem evidence_restored {s : Registry} (h : Inv s) (id : Uuid) :
    s.restored.evidence.lookup id = (s.evidence.lookup id).map EvidenceRecord.forced :=
  UMap.lookup_fill_values (f := EvidenceRecord.forced) EvidenceRecord.id (fun k ev hl => (h.evidence k ev hl).1) id

theorem decisions_restored {s : Registry} (h : Inv s) (k : Digest) :
    s.restored.decisions.lookup k = (s.decisions.lookup k).map CompatibilityDecision.bare :=
  UMap.lookup_fill_values (f := CompatibilityDecision.bare) CompatibilityDecision.digest
    (fun k d hl => (h.decisions k d hl).1) k

theorem newestDeps_congr {s t : Registry} {id : Uuid}
    (h : t.historyOf id = (s.historyOf id).map ProfileRecord.forced) : t.newestDeps id = s.newestDeps id := by
  unfold newestDeps
  rw [h, List.getLast?_map]
  cases (s.historyOf id).getLast? <;> rfl

theorem dependenciesOf_restored {s : Registry} (h : Inv s) (id : Uuid) :
    s.restored.dependenciesOf id = s.newestDeps id := by
  let t : Registry := {
    registryGen := s.registryGen
    policyId := s.policyId
    profiles := fillProfiles (s.allRecords.map ProfileRecord.forced) ∅ }
  have ht : t.historyOf id = (s.historyOf id).map ProfileRecord.forced := by
    rw [← historyOf_restored h]
    unfold historyOf
    rw [restored_profiles]
  exact (dependenciesOf_rebuildEdges (s := t) rfl id).trans (newestDeps_congr ht)

/-- The recovered graph is that of the newest records. -/
theorem restored_hasCycle {s : Registry} (h : Inv s) :
    s.restored.hasCycle = true ↔ DepthFirst.Cyclic s.newestDeps := by
  have hdeps : adjacent s.restored.deps = s.newestDeps := funext (dependenciesOf_restored h)
  unfold hasCycle
  rw [hasCycleIn_iff, hdeps]

/-! ### When the recovery returns -/

/-- A record passes the fingerprint check when its payload, as written, still has
the fingerprint of the original. -/
theorem verifyFingerprint_eq_ok {p q : ProfileRecord} {id : Uuid} (hp : p.Sound id) :
    verifyFingerprint p.forced = .ok q ↔ q = p.forced ∧ p.forced.Sound id := by
  have hne : p.forced.fingerprint ≠ [] := by
    change p.fingerprint ≠ []
    rw [hp.fingerprint]
    exact Sha256.hex_ne_nil _
  have hwf : p.forced.payload.WF := forced_wf hp.wf
  rw [verifyFingerprint_iff hwf]
  apply and_congr_right
  rintro -
  constructor
  · intro hmatches
    have hfingerprint := hmatches.resolve_left hne
    rw [canonicalFingerprintHex_of_wf hwf, Except.ok.injEq] at hfingerprint
    exact ⟨hp.id, hwf, hfingerprint.symm⟩
  · intro hsound
    right
    rw [canonicalFingerprintHex_of_wf hwf, hsound.fingerprint]

theorem mapM_decProfile {s : Registry} (h : Inv s) {ps : List ProfileRecord} :
    ((s.allRecords.map storedProfile).mapM fun e => do
      let p ← decProfile e
      verifyFingerprint p) = .ok ps ↔
    ps = s.allRecords.map ProfileRecord.forced ∧ ∀ p ∈ s.allRecords, p.forced.Sound p.id := by
  apply Result.mapM_map_eq_ok
  intro p hp q
  rw [decProfile_storedProfile (h.allRecords hp).wf, Result.ok_bind]
  exact verifyFingerprint_eq_ok (h.allRecords hp)

/-- The recovery from the root record of a registry returns one registry, unless a
fingerprint no longer matches or the edges of the newest records form a cycle. -/
theorem recoverRoot_storedRoot {s : Registry} (h : Inv s) {t : Registry} :
    recoverRoot s.storedRoot = .ok t ↔
      t = s.restored ∧ (∀ p ∈ s.allRecords, p.forced.Sound p.id) ∧ ¬ DepthFirst.Cyclic s.newestDeps := by
  have hprofiles : fieldOr seq? s.storedRoot 3 [] = s.allRecords.map storedProfile := fieldOr_of rfl rfl
  have hrules : (fieldOr seq? s.storedRoot 4 []).map decRule = s.rules.values.map RuleRecord.reset := by
    rw [fieldOr_of (x := s.rules.values.map fun rr => encRule rr.rule rr.active) rfl rfl, List.map_map]
    exact List.map_congr_left fun rr _ => decRule_encRule rr.rule rr.active
  have hevidence : (fieldOr seq? s.storedRoot 5 []).mapM decEvidence =
      .ok (s.evidence.values.map EvidenceRecord.forced) := by
    rw [fieldOr_of (x := s.evidence.values.map storedEvidence) rfl rfl]
    refine (Result.mapM_map_eq_ok (P := fun _ => True) fun e he z => ?_).mpr ⟨rfl, fun _ _ => trivial⟩
    rw [decEvidence_storedEvidence (h.evidenceValues he)]
    simp [eq_comm]
  have hinvalidations : (fieldOr seq? s.storedRoot 6 []).map decInvalidation = s.invalidations :=
    map_dec_enc decInvalidation_encInvalidation s.invalidations
  have hdecisions : (fieldOr seq? s.storedRoot 7 []).map decDecision =
      s.decisions.values.map CompatibilityDecision.bare := by
    rw [fieldOr_of (x := s.decisions.values.map encDecision) rfl rfl, List.map_map]
    exact List.map_congr_left fun d _ => decDecision_encDecision d
  have heq : recoverRoot s.storedRoot = ((s.allRecords.map storedProfile).mapM fun e => do
      let p ← decProfile e
      verifyFingerprint p) >>= fun ps =>
      if (s.restoredFrom ps).hasCycle then .error (recoverError "recover: dependency cycle in snapshot")
      else .ok (s.restoredFrom ps) := by
    unfold recoverRoot
    rw [hprofiles]
    congr 1
    funext ps
    simp only [hrules, hevidence, hinvalidations, hdecisions, Result.ok_bind]
    rfl
  have hcycle : s.restored.hasCycle = false ↔ ¬ DepthFirst.Cyclic s.newestDeps := by
    rw [← restored_hasCycle h, Bool.not_eq_true]
  rw [heq, Result.bind_eq_ok]
  simp only [mapM_decProfile h]
  constructor
  · rintro ⟨_, ⟨rfl, hsound⟩, ht⟩
    change (if s.restored.hasCycle then _ else Except.ok s.restored) = _ at ht
    split_ifs at ht with hc
    cases ht
    exact ⟨rfl, hsound, hcycle.mp (by simpa using hc)⟩
  · rintro ⟨rfl, hsound, hacyclic⟩
    refine ⟨_, ⟨rfl, hsound⟩, ?_⟩
    change (if s.restored.hasCycle then _ else Except.ok s.restored) = _
    rw [hcycle.mpr hacyclic]
    rfl

/-- What comes back from the snapshot of a registry. -/
theorem recover_snapshot {s : Registry} (h : Inv s) {t : Registry} :
    (∃ bytes, s.snapshot = .ok bytes ∧ recover bytes = .ok t) ↔
      t = s.restored ∧ s.encodedSize < 2 ^ 32 ∧ (∀ p ∈ s.allRecords, p.forced.Sound p.id) ∧
        ¬ DepthFirst.Cyclic s.newestDeps := by
  have hrecover : recover (sealContainer s.storedRoot.encoding) = .ok t ↔
      s.encodedSize < 2 ^ 32 ∧ recoverRoot s.storedRoot = .ok t := by
    unfold recover
    rw [openContainer_sealContainer, Result.ok_bind, Result.bind_eq_ok]
    simp only [canonicalDecode_storedRoot h]
    constructor
    · rintro ⟨_, ⟨hsize, rfl⟩, ht⟩
      exact ⟨hsize, ht⟩
    · rintro ⟨hsize, ht⟩
      exact ⟨_, ⟨hsize, rfl⟩, ht⟩
  rw [snapshot_eq h]
  simp only [Except.ok.injEq, exists_eq_left', hrecover, recoverRoot_storedRoot h]
  tauto

end Registry

end CompatRegistry
