import CompatRegistry.Registry.Recover
import CompatRegistry.Registry.Invariant

/-! Decoding undoes encoding, object by object. A payload or an evidence value
comes back as a record, a rule with its own `active` flag set, a decision without
its explanation and its evidence ids. Everything else comes back as it was. -/

namespace CompatRegistry

open Foundation Canon

namespace Canon

/-! ### Fields that are present -/

theorem recordField_of {c : Canon} {tag : UInt32} {r : Record} (hr : SortedMap.Sorted r)
    (h : c.field tag = some (.record r)) : recordField c tag = .ok (.record r) := by
  unfold recordField
  rw [h]
  exact mkRecord_of_sorted hr

end Canon

theorem castField_of {ε : Type} [Enumerated ε] {c : Canon} {tag : UInt32} {k : Enum8 ε} {dflt : ε}
    (h : c.field tag = some (.uint k.toUInt64)) : castField c tag dflt = k := by
  simp [castField, h, uint?]

theorem map_dec_enc {α : Type} {dec : Canon → α} {enc : α → Canon} (h : ∀ x, dec (enc x) = x)
    (l : List α) : (l.map enc).map dec = l := by
  rw [List.map_map]
  exact (List.map_congr_left fun x _ => h x).trans (List.map_id l)

/-! ### Constraints, items and rules -/

theorem decConstraint_encConstraint (c : Constraint) : decConstraint (encConstraint c) = c := by
  unfold decConstraint
  rw [castField_of rfl]
  rfl

theorem decConstraintItem_encConstraintItem (c : ConstraintItem) :
    decConstraintItem (encConstraintItem c) = c := rfl

theorem field_encRule_of_mem {rule : CompatibilityRule} {active : Bool} {tag : UInt32} {v : Canon}
    (h : (tag, v) ∈ ruleEntries rule active) : (encRule rule active).field tag = some v :=
  (SortedMap.find_eq_some_iff (List.isChain_iff_pairwise.mp (ruleEntries_isChain rule active))).mpr h

theorem field_encRule_kinds (rule : CompatibilityRule) (active : Bool) :
    (encRule rule active).field 7 = rule.leftKind.map (fun k => .uint k.toUInt64) ∧
      (encRule rule active).field 8 = rule.rightKind.map (fun k => .uint k.toUInt64) := by
  change SortedMap.find 7 (ruleEntries rule active) = _ ∧ SortedMap.find 8 (ruleEntries rule active) = _
  unfold ruleEntries
  cases rule.leftKind <;> cases rule.rightKind <;> exact ⟨rfl, rfl⟩

/-- A stored rule comes back, except for the `active` flag of the rule itself. -/
theorem decRule_encRule (rule : CompatibilityRule) (active : Bool) :
    decRule (encRule rule active) = { rule := { rule with active := true }, active } := by
  obtain ⟨hl, hr⟩ := field_encRule_kinds rule active
  have hfield : ∀ {tag v}, (tag, v) ∈ ruleEntries rule active →
      (encRule rule active).field tag = some v := field_encRule_of_mem
  have hkinds : ∀ o : Option (Enum8 ProfileKind),
      ((o.map fun k => Canon.uint k.toUInt64).bind uint?).map Enum8.cast = o := by
    intro o
    cases o <;> simp [uint?]
  have hcon : ∀ tag cs, (tag, Canon.sequence (cs.map encConstraint)) ∈ ruleEntries rule active →
      (fieldOr seq? (encRule rule active) tag []).map decConstraint = cs := by
    intro tag cs h
    have hseq : fieldOr seq? (encRule rule active) tag [] = cs.map encConstraint :=
      fieldOr_of rfl (hfield h)
    rw [hseq]
    exact map_dec_enc decConstraint_encConstraint cs
  have hkind : castField (encRule rule active) 9 RuleKind.equality = rule.kind :=
    castField_of (hfield (by simp [ruleEntries]))
  have hout : castField (encRule rule active) 10 Outcome.compatible = rule.outcome :=
    castField_of (hfield (by simp [ruleEntries]))
  have hadapt : itemsOf str? (encRule rule active) 15 = rule.adaptations :=
    itemsOf_of (w := .str) (fun _ => rfl) (hfield (by simp [ruleEntries]))
  have hprov : fieldOr str? (encRule rule active) 16 [] = rule.provenance :=
    fieldOr_of rfl (hfield (v := .str rule.provenance) (by simp [ruleEntries]))
  have hprio : (fieldOr int? (encRule rule active) 5 0).toInt32 = rule.priority :=
    Int32.toInt32_toInt64 _
  unfold decRule
  rw [hl, hr, hkinds, hkinds, hkind, hout, hcon 11 rule.required (by simp [ruleEntries]),
    hcon 12 rule.anyOf (by simp [ruleEntries]), hcon 13 rule.incompatibleWith (by simp [ruleEntries]),
    hcon 14 rule.conditions (by simp [ruleEntries]), hadapt, hprov, hprio]
  rfl

/-! ### Profiles, evidence, invalidations, decisions -/

/-- A record with its payload as it is written. -/
def ProfileRecord.forced (p : ProfileRecord) : ProfileRecord := { p with payload := p.payload.forced }

def EvidenceRecord.forced (e : EvidenceRecord) : EvidenceRecord := { e with value := e.value.forced }

/-- A decision without the members that are not written. -/
def CompatibilityDecision.bare (d : CompatibilityDecision) : CompatibilityDecision :=
  { d with evidence := [], explanation := [] }

/-- A stored rule, with the flag that is not written at its default. -/
def RuleRecord.reset (rr : RuleRecord) : RuleRecord :=
  { rule := { rr.rule with active := true }, active := rr.active }

theorem ProfileRecord.forced_eq_self_iff {p : ProfileRecord} : p.forced = p ↔ p.payload.kind = .record := by
  rw [← Canon.forced_eq_self_iff]
  unfold ProfileRecord.forced
  exact ⟨fun h => congrArg (fun q : ProfileRecord => q.payload) h, fun h => by rw [h]⟩

theorem EvidenceRecord.forced_eq_self_iff {e : EvidenceRecord} : e.forced = e ↔ e.value.kind = .record := by
  rw [← Canon.forced_eq_self_iff]
  unfold EvidenceRecord.forced
  exact ⟨fun h => congrArg EvidenceRecord.value h, fun h => by rw [h]⟩

/-- The record that `encProfile` makes when nothing throws. -/
def storedProfile (p : ProfileRecord) : Canon :=
  ofEntries [(1, .uuid p.id), (2, .uint p.kind.toUInt64), (3, .uint p.generation),
    (4, p.payload.forced), (5, .sequence (p.deps.map .uuid)), (6, .bool p.active),
    (7, .bool p.superseded), (8, .str p.provenance), (9, .str p.fingerprint)]

theorem encProfile_of_wf {p : ProfileRecord} (hp : p.payload.WF) : encProfile p = .ok (storedProfile p) := by
  unfold encProfile
  rw [mkRecord_of_sorted (asRecord_sorted hp)]
  rfl

theorem decProfile_storedProfile {p : ProfileRecord} (hp : p.payload.WF) :
    decProfile (storedProfile p) = .ok p.forced := by
  have hpayload : recordField (storedProfile p) 4 = .ok p.payload.forced :=
    recordField_of (asRecord_sorted hp) rfl
  unfold decProfile
  rw [hpayload, Result.ok_bind, castField_of rfl, itemsOf_of (w := .uuid) (fun _ => rfl) rfl]
  rfl

def storedEvidence (e : EvidenceRecord) : Canon :=
  ofEntries [(1, .uuid e.id), (2, .uuid e.subject), (3, .str e.field), (4, e.value.forced),
    (5, .str e.provenance), (6, .str e.source), (7, .uint e.sourceGeneration),
    (8, .str e.observedTimestamp), (9, .uint e.kind.toUInt64), (10, .bool e.validated),
    (11, .str e.digestHex)]

theorem encEvidence_of_wf {e : EvidenceRecord} (he : e.value.WF) : encEvidence e = .ok (storedEvidence e) := by
  unfold encEvidence
  rw [mkRecord_of_sorted (asRecord_sorted he)]
  rfl

theorem decEvidence_storedEvidence {e : EvidenceRecord} (he : e.value.WF) :
    decEvidence (storedEvidence e) = .ok e.forced := by
  have hvalue : recordField (storedEvidence e) 4 = .ok e.value.forced :=
    recordField_of (asRecord_sorted he) rfl
  unfold decEvidence
  rw [hvalue, Result.ok_bind, castField_of rfl]
  rfl

theorem decInvalidation_encInvalidation (iv : Invalidation) :
    decInvalidation (encInvalidation iv) = iv := rfl

theorem digestOfBytes_bytes (d : Digest) : digestOfBytes d.bytes = d := by
  obtain ⟨b, h⟩ := d
  simp [digestOfBytes, h, List.take_of_length_le]

theorem decDecision_encDecision (d : CompatibilityDecision) : decDecision (encDecision d) = d.bare := by
  have hsatisfied : (fieldOr seq? (encDecision d) 9 []).map decConstraintItem = d.satisfied :=
    map_dec_enc decConstraintItem_encConstraintItem _
  have hfailed : (fieldOr seq? (encDecision d) 10 []).map decConstraintItem = d.failed :=
    map_dec_enc decConstraintItem_encConstraintItem _
  have hadaptations : itemsOf str? (encDecision d) 11 = d.adaptations :=
    itemsOf_of (w := .str) (fun _ => rfl) rfl
  have hmissing : itemsOf str? (encDecision d) 12 = d.missingEvidence :=
    itemsOf_of (w := .str) (fun _ => rfl) rfl
  have hprovenance : itemsOf str? (encDecision d) 13 = d.provenance :=
    itemsOf_of (w := .str) (fun _ => rfl) rfl
  have hdigest : digestOfBytes (fieldOr bytes? (encDecision d) 16 []) = d.digest :=
    digestOfBytes_bytes _
  unfold decDecision
  rw [castField_of rfl, hsatisfied, hfailed, hadaptations, hmissing, hprovenance, hdigest]
  rfl

/-! ### Well-formedness of what is written -/

theorem encConstraint_wf {c : Constraint} (h : c.WF) : (encConstraint c).WF :=
  ofEntries_wf _ (by simpa [WFRecord, WF, Constraint.WF] using h)

theorem wfSeq_map_encConstraint {cs : List Constraint} (h : ∀ c ∈ cs, c.WF) :
    WFSeq (cs.map encConstraint) := by
  rw [wfSeq_iff, List.forall_mem_map]
  exact fun c hc => encConstraint_wf (h c hc)

theorem encRule_wf {rule : CompatibilityRule} (h : rule.WF) (active : Bool) :
    (encRule rule active).WF := by
  apply ofEntries_wf _
  have hreq := wfSeq_map_encConstraint h.required
  have hany := wfSeq_map_encConstraint h.anyOf
  have hinc := wfSeq_map_encConstraint h.incompatibleWith
  have hcond := wfSeq_map_encConstraint h.conditions
  unfold ruleEntries
  cases rule.leftKind <;> cases rule.rightKind <;>
    simp [kindEntry, WFRecord, WF, CompatibilityDecision.wfSeq_map_str, hreq, hany, hinc, hcond]

theorem storedProfile_wf {p : ProfileRecord} (h : p.payload.WF) : (storedProfile p).WF := by
  apply ofEntries_wf _
  have hdeps : WFSeq (p.deps.map .uuid) := by simp [wfSeq_iff, WF]
  simp [WFRecord, WF, forced_wf h, hdeps]

theorem storedEvidence_wf {e : EvidenceRecord} (h : e.value.WF) : (storedEvidence e).WF :=
  ofEntries_wf _ (by simp [WFRecord, WF, forced_wf h])

theorem encInvalidation_wf (iv : Invalidation) : (encInvalidation iv).WF :=
  ofEntries_wf _ (by simp [WFRecord, WF])

theorem encDecision_wf (d : CompatibilityDecision) : (encDecision d).WF :=
  ofEntries_wf _ (by simp [WFRecord, WF, CompatibilityDecision.wfSeq_map_str,
    CompatibilityDecision.wfSeq_map_encConstraintItem])

namespace Registry

/-! ### The root and the container -/

/-- The root record when nothing throws. -/
def storedRoot (s : Registry) : Canon :=
  ofEntries [(1, .uint s.registryGen), (2, .uuid s.policyId),
    (3, .sequence (s.allRecords.map storedProfile)),
    (4, .sequence (s.rules.values.map fun rr => encRule rr.rule rr.active)),
    (5, .sequence (s.evidence.values.map storedEvidence)),
    (6, .sequence (s.invalidations.map encInvalidation)),
    (7, .sequence (s.decisions.values.map encDecision))]

theorem mem_allRecords {s : Registry} {p : ProfileRecord} :
    p ∈ s.allRecords ↔ ∃ id, p ∈ s.historyOf id := by
  unfold allRecords
  simp only [List.mem_flatten, List.mem_map, UMap.mem_values_iff]
  constructor
  · rintro ⟨_, ⟨h, ⟨id, hl⟩, rfl⟩, hp⟩
    refine ⟨id, ?_⟩
    unfold historyOf
    rwa [hl]
  · rintro ⟨id, hp⟩
    unfold historyOf at hp
    cases hl : s.profiles.lookup id with
    | none => simp [hl] at hp
    | some h =>
      rw [hl] at hp
      exact ⟨_, ⟨h, ⟨id, hl⟩, rfl⟩, hp⟩

theorem Inv.allRecords {s : Registry} (h : Inv s) {p : ProfileRecord} (hp : p ∈ s.allRecords) :
    p.Sound p.id := by
  obtain ⟨id, hmem⟩ := mem_allRecords.mp hp
  have hsound := h.profiles id p hmem
  rw [hsound.id]
  exact hsound

theorem Inv.evidenceValues {s : Registry} (h : Inv s) {ev : EvidenceRecord}
    (hev : ev ∈ s.evidence.values) : ev.value.WF := by
  obtain ⟨id, hl⟩ := UMap.mem_values_iff.mp hev
  exact (h.evidence id ev hl).2

theorem snapshotRoot_eq {s : Registry} (h : Inv s) : s.snapshotRoot = .ok s.storedRoot := by
  have hprofiles : s.allRecords.mapM encProfile = .ok (s.allRecords.map storedProfile) :=
    Result.mapM_of_ok fun p hp => encProfile_of_wf (h.allRecords hp).wf
  have hevidence : s.evidence.values.mapM encEvidence = .ok (s.evidence.values.map storedEvidence) :=
    Result.mapM_of_ok fun e he => encEvidence_of_wf (h.evidenceValues he)
  unfold snapshotRoot
  rw [hprofiles, Result.ok_bind, hevidence, Result.ok_bind]
  rfl

theorem storedRoot_wf {s : Registry} (h : Inv s) : s.storedRoot.WF := by
  have hprofiles : WFSeq (s.allRecords.map storedProfile) := by
    rw [wfSeq_iff, List.forall_mem_map]
    exact fun p hp => storedProfile_wf (h.allRecords hp).wf
  have hrules : WFSeq (s.rules.values.map fun rr => encRule rr.rule rr.active) := by
    rw [wfSeq_iff, List.forall_mem_map]
    intro rr hrr
    obtain ⟨id, hl⟩ := UMap.mem_values_iff.mp hrr
    exact encRule_wf (h.rules id rr hl).2 rr.active
  have hevidence : WFSeq (s.evidence.values.map storedEvidence) := by
    rw [wfSeq_iff, List.forall_mem_map]
    exact fun e he => storedEvidence_wf (h.evidenceValues he)
  have hinvalidations : WFSeq (s.invalidations.map encInvalidation) := by
    simp [wfSeq_iff, encInvalidation_wf]
  have hdecisions : WFSeq (s.decisions.values.map encDecision) := by
    simp [wfSeq_iff, encDecision_wf]
  exact ofEntries_wf _ (by simp [WFRecord, WF, hprofiles, hrules, hevidence, hinvalidations, hdecisions])

theorem snapshot_eq {s : Registry} (h : Inv s) :
    s.snapshot = .ok (sealContainer s.storedRoot.encoding) := by
  unfold snapshot
  rw [snapshotRoot_eq h, Result.ok_bind, canonicalEncode_of_wf (storedRoot_wf h)]
  rfl

theorem openContainer_sealContainer (payload : Bytes) :
    openContainer (sealContainer payload) = .ok payload := by
  have hlen : (sealContainer payload).length = 6 + payload.length + 32 := by
    simp [sealContainer, containerMagic, (Sha256.compute payload).size]
    omega
  have hmagic : (sealContainer payload).take 5 = containerMagic := rfl
  have hversion : (sealContainer payload)[5]? = some containerVersion := rfl
  have hdrop : (sealContainer payload).drop 6 = payload ++ (Sha256.compute payload).bytes := rfl
  have hsize : (sealContainer payload).length - 5 - 1 - 32 = payload.length := by omega
  have hsum : (sealContainer payload).drop (6 + payload.length) = (Sha256.compute payload).bytes := by
    rw [← List.drop_drop, hdrop, List.drop_left]
  unfold openContainer
  rw [if_neg (by omega), if_neg (by simp [hmagic]), if_neg (by simp [hversion])]
  simp only [hsize, hdrop, List.take_left, hsum, ne_eq, not_true_eq_false, ↓reduceIte]

/-- A root record is decoded to itself exactly when its body fits a 32-bit length. -/
theorem canonicalDecode_encoding_record {r : Record} {c : Canon} (h : (Canon.record r).WF) :
    canonicalDecode (Canon.record r).encoding = .ok c ↔
      (recordBody r).length < 2 ^ 32 ∧ c = .record r := by
  have hdecode : (recordBody r).length < 2 ^ 32 →
      canonicalDecode (Canon.record r).encoding = .ok (.record r) :=
    fun hlen => canonicalDecode_eq_ok.mpr ⟨h, ⟨hlen, fitsRecord_of_length r hlen⟩, rfl⟩
  constructor
  · intro hc
    obtain ⟨-, hfits, heq⟩ := canonicalDecode_eq_ok.mp hc
    have hlen : (recordBody r).length < 2 ^ 32 := by
      cases c with
      | record r' =>
        have hsame := congrArg List.length heq
        simp only [encoding, element, List.length_append, frame_length] at hsame
        have := hfits.1
        omega
      | _ => simp [encoding, element, frame] at heq
    rw [hdecode hlen] at hc
    exact ⟨hlen, by simpa using hc.symm⟩
  · rintro ⟨hlen, rfl⟩
    exact hdecode hlen

end Registry

end CompatRegistry
