import CompatRegistry.Registry.Graph

/-! What an accepted snapshot leaves. Recovery tests the checksum, the fingerprints
that are present and the graph of dependencies. The rest of what holds of a registry
that was built by its operations, it takes over from the document as it is. -/

namespace CompatRegistry

open Foundation Canon

/-! ### Enumerators -/

def Constraint.Declared (c : Constraint) : Prop := c.op.isDeclared = true

structure CompatibilityRule.Declared (rule : CompatibilityRule) : Prop where
  kind : rule.kind.isDeclared = true
  outcome : rule.outcome.isDeclared = true
  leftKind : ∀ k ∈ rule.leftKind, k.isDeclared = true
  rightKind : ∀ k ∈ rule.rightKind, k.isDeclared = true
  required : ∀ c ∈ rule.required, c.Declared
  anyOf : ∀ c ∈ rule.anyOf, c.Declared
  incompatibleWith : ∀ c ∈ rule.incompatibleWith, c.Declared
  conditions : ∀ c ∈ rule.conditions, c.Declared

/-- An unsigned integer in the field is an enumerator, up to its low byte. -/
def Names (ε : Type) [Enumerated ε] (c : Canon) (tag : UInt32) : Prop :=
  ∀ v, c.field tag = some (.uint v) → ∃ e : ε, Enumerated.code e = v.toUInt8

section Names
variable {ε : Type} [Enumerated ε] {c : Canon} {tag : UInt32}

theorem names_iff : Names ε c tag ↔
    ∀ k ∈ (((c.field tag).bind uint?).map Enum8.cast : Option (Enum8 ε)), k.isDeclared = true := by
  unfold Names
  cases c.field tag with
  | none => simp
  | some v => cases v <;> simp [uint?, Enum8.cast_isDeclared]

theorem castField_isDeclared (dflt : ε) : (castField c tag dflt).isDeclared = true ↔ Names ε c tag := by
  rw [names_iff]
  unfold castField
  cases ((c.field tag).bind uint?).map (Enum8.cast : UInt64 → Enum8 ε) with
  | none => simp [Enum8.isDeclared]
  | some k => simp

end Names

/-- Every operator of the constraints in the field is an enumerator. -/
def NamesOps (c : Canon) (tag : UInt32) : Prop := ∀ e ∈ fieldOr seq? c tag [], Names PredOp e 1

theorem decConstraints_declared {c : Canon} {tag : UInt32} :
    (∀ x ∈ (fieldOr seq? c tag []).map decConstraint, x.Declared) ↔ NamesOps c tag := by
  rw [List.forall_mem_map]
  exact forall₂_congr fun e _ => castField_isDeclared _

structure NamesRule (c : Canon) : Prop where
  leftKind : Names ProfileKind c 7
  rightKind : Names ProfileKind c 8
  kind : Names RuleKind c 9
  outcome : Names Outcome c 10
  required : NamesOps c 11
  anyOf : NamesOps c 12
  incompatibleWith : NamesOps c 13
  conditions : NamesOps c 14

theorem decRule_declared {c : Canon} : (decRule c).rule.Declared ↔ NamesRule c := by
  constructor
  · intro h
    exact {
      leftKind := names_iff.mpr h.leftKind
      rightKind := names_iff.mpr h.rightKind
      kind := (castField_isDeclared _).mp h.kind
      outcome := (castField_isDeclared _).mp h.outcome
      required := decConstraints_declared.mp h.required
      anyOf := decConstraints_declared.mp h.anyOf
      incompatibleWith := decConstraints_declared.mp h.incompatibleWith
      conditions := decConstraints_declared.mp h.conditions }
  · intro h
    exact {
      leftKind := names_iff.mp h.leftKind
      rightKind := names_iff.mp h.rightKind
      kind := (castField_isDeclared _).mpr h.kind
      outcome := (castField_isDeclared _).mpr h.outcome
      required := decConstraints_declared.mpr h.required
      anyOf := decConstraints_declared.mpr h.anyOf
      incompatibleWith := decConstraints_declared.mpr h.incompatibleWith
      conditions := decConstraints_declared.mpr h.conditions }

namespace Registry

/-- What holds of every registry that was built by its operations. -/
structure Valid (s : Registry) : Prop where
  kinds : ∀ id, ∀ p ∈ s.historyOf id, p.kind.isDeclared = true
  generations : ∀ id, (s.historyOf id).Pairwise fun p q => p.generation < q.generation
  first : ∀ id, ∀ p ∈ s.historyOf id, 1 ≤ p.generation
  active : ∀ id i p, (s.historyOf id)[i]? = some p → p.active = true → i + 1 = (s.historyOf id).length
  fingerprints : ∀ id, ∀ p ∈ s.historyOf id, canonicalFingerprintHex p.payload = .ok p.fingerprint
  rules : ∀ id rr, s.rules.lookup id = some rr → rr.rule.Declared
  evidence : ∀ id ev, s.evidence.lookup id = some ev → ev.kind.isDeclared = true
  outcomes : ∀ k d, s.decisions.lookup k = some d → d.outcome.isDeclared = true
  digests : ∀ k d, s.decisions.lookup k = some d → d.computeDigest = .ok d.digest
  acyclic : ∀ id, ¬ Relation.TransGen (fun a b => b ∈ s.dependenciesOf a) id id

/-! ### The document -/

/-- The document in a container. -/
def documentOf (bytes : Bytes) : Result Canon := openContainer bytes >>= canonicalDecode

/-- The entries for the generations of a profile. -/
def entriesOf (doc : Canon) (id : Uuid) : List Canon :=
  (fieldOr seq? doc 3 []).filter fun e => fieldOr uuid? e 1 Uuid.zero = id

/-- The digest under which an entry is cached. -/
def cachedDigest (e : Canon) : Digest := digestOfBytes (fieldOr bytes? e 16 [])

/-- What recovery does not test. Of several rules, pieces of evidence or decisions
under one key it keeps the last, so only that one counts. -/
structure StatesValid (doc : Canon) : Prop where
  kinds : ∀ e ∈ fieldOr seq? doc 3 [], Names ProfileKind e 2
  generations : ∀ id, (entriesOf doc id).Pairwise fun e e' => fieldOr uint? e 3 0 < fieldOr uint? e' 3 0
  first : ∀ e ∈ fieldOr seq? doc 3 [], 1 ≤ fieldOr uint? e 3 0
  active : ∀ id i e, (entriesOf doc id)[i]? = some e → fieldOr bool? e 6 true = true →
    i + 1 = (entriesOf doc id).length
  fingerprints : ∀ e ∈ fieldOr seq? doc 3 [], fieldOr str? e 9 [] ≠ []
  rules : ∀ e, UMap.LastUnder (fun e => fieldOr uuid? e 1 Uuid.zero) (fieldOr seq? doc 4 []) e → NamesRule e
  evidence : ∀ e, UMap.LastUnder (fun e => fieldOr uuid? e 1 Uuid.zero) (fieldOr seq? doc 5 []) e →
    Names EvidenceKind e 9
  outcomes : ∀ e, UMap.LastUnder cachedDigest (fieldOr seq? doc 7 []) e → Names Outcome e 4
  digests : ∀ e, UMap.LastUnder cachedDigest (fieldOr seq? doc 7 []) e →
    (decDecision e).computeDigest = .ok (cachedDigest e)

/-! ### The entries, as they are read -/

/-- A record field of a well formed value, which its decoder returns. -/
def recordOr (c : Canon) (tag : UInt32) : Canon :=
  match c.field tag with
  | some (.record r) => .record r
  | _ => .null

theorem recordField_of_wf {c : Canon} (h : c.WF) (tag : UInt32) :
    recordField c tag = .ok (recordOr c tag) ∧ (recordOr c tag).WF := by
  unfold recordField recordOr
  cases hf : c.field tag with
  | none => exact ⟨rfl, trivial⟩
  | some v =>
    cases v with
    | record r =>
      have hwf : (Canon.record r).WF := field_wf h hf
      exact ⟨mkRecord_of_sorted (wf_record_iff.mp hwf).1, hwf⟩
    | _ => exact ⟨rfl, trivial⟩

def profileOf (e : Canon) : ProfileRecord where
  id := fieldOr uuid? e 1 Uuid.zero
  kind := castField e 2 .model
  generation := fieldOr uint? e 3 0
  payload := recordOr e 4
  deps := itemsOf uuid? e 5
  active := fieldOr bool? e 6 true
  superseded := fieldOr bool? e 7 false
  provenance := fieldOr str? e 8 []
  fingerprint := fieldOr str? e 9 []

theorem decProfile_of_wf {e : Canon} (h : e.WF) : decProfile e = .ok (profileOf e) := by
  unfold decProfile
  rw [(recordField_of_wf h 4).1]
  rfl

def evidenceOf (e : Canon) : EvidenceRecord where
  id := fieldOr uuid? e 1 Uuid.zero
  subject := fieldOr uuid? e 2 Uuid.zero
  field := fieldOr str? e 3 []
  value := recordOr e 4
  provenance := fieldOr str? e 5 []
  source := fieldOr str? e 6 []
  sourceGeneration := fieldOr uint? e 7 0
  observedTimestamp := fieldOr str? e 8 []
  kind := castField e 9 .reported
  validated := fieldOr bool? e 10 false
  digestHex := fieldOr str? e 11 []

theorem decEvidence_of_wf {e : Canon} (h : e.WF) : decEvidence e = .ok (evidenceOf e) := by
  unfold decEvidence
  rw [(recordField_of_wf h 4).1]
  rfl

theorem entry_wf {doc : Canon} (h : doc.WF) {tag : UInt32} : ∀ e ∈ fieldOr seq? doc tag [], e.WF := by
  intro e he
  unfold fieldOr at he
  cases hf : doc.field tag with
  | none => simp [hf] at he
  | some v =>
    have hv := field_wf h hf
    rw [hf] at he
    cases v with
    | sequence q => exact wf_sequence_iff.mp hv e he
    | _ => simp [seq?] at he

/-- What a document is recovered to. -/
structure RecoveredFrom (doc : Canon) (s : Registry) : Prop where
  matching : ∀ e ∈ fieldOr seq? doc 3 [], Matches (profileOf e)
  history : ∀ id, s.historyOf id = (entriesOf doc id).map profileOf
  rules : s.rules = UMap.fill (fun rr => rr.rule.ruleId) ((fieldOr seq? doc 4 []).map decRule) ∅
  evidence : s.evidence = UMap.fill EvidenceRecord.id ((fieldOr seq? doc 5 []).map evidenceOf) ∅
  decisions : s.decisions =
    UMap.fill CompatibilityDecision.digest ((fieldOr seq? doc 7 []).map decDecision) ∅

theorem recoveredFrom_of_recoverRoot {doc : Canon} (hdoc : doc.WF) {s : Registry}
    (h : recoverRoot doc = .ok s) : RecoveredFrom doc s := by
  obtain ⟨profiles, hprofiles, h⟩ := Result.bind_eq_ok.mp h
  obtain ⟨evidence, hevidence, h⟩ := Result.bind_eq_ok.mp h
  simp only at h
  split_ifs at h
  cases h
  have hread : profiles = (fieldOr seq? doc 3 []).map profileOf ∧
      ∀ e ∈ fieldOr seq? doc 3 [], Matches (profileOf e) := by
    rw [← List.map_id (fieldOr seq? doc 3 [])] at hprofiles
    refine (Result.mapM_map_eq_ok fun e he p => ?_).mp hprofiles
    have hwf := entry_wf hdoc e he
    rw [id, decProfile_of_wf hwf, Result.ok_bind]
    exact verifyFingerprint_iff (recordField_of_wf hwf 4).2
  have hevidence' : evidence = (fieldOr seq? doc 5 []).map evidenceOf := by
    rw [Result.mapM_of_ok fun e he => decEvidence_of_wf (entry_wf hdoc e he)] at hevidence
    exact (Except.ok.inj hevidence).symm
  obtain ⟨rfl, hmatching⟩ := hread
  refine ⟨hmatching, fun id => ?_, rfl, by rw [hevidence'], rfl⟩
  obtain ⟨d, r, heq⟩ := rebuildEdges_eq {
    registryGen := fieldOr uint? doc 1 0
    policyId := fieldOr uuid? doc 2 Uuid.zero
    profiles := fillProfiles ((fieldOr seq? doc 3 []).map profileOf) ∅ }
  rw [heq]
  have hfill := historyOf_fillProfiles ((fieldOr seq? doc 3 []).map profileOf) ∅ id
  rw [List.filter_map] at hfill
  exact hfill

/-! ### What is tested and what is taken over -/

namespace RecoveredFrom

variable {doc : Canon} {s : Registry}

theorem forall_historyOf (h : RecoveredFrom doc s) {P : ProfileRecord → Prop} :
    (∀ id, ∀ p ∈ s.historyOf id, P p) ↔ ∀ e ∈ fieldOr seq? doc 3 [], P (profileOf e) := by
  simp only [h.history, List.forall_mem_map]
  constructor
  · intro hall e he
    exact hall (fieldOr uuid? e 1 Uuid.zero) e (List.mem_filter.mpr ⟨he, by simp⟩)
  · intro hall id e he
    exact hall e (List.mem_filter.mp he).1

theorem kinds_iff (h : RecoveredFrom doc s) :
    (∀ id, ∀ p ∈ s.historyOf id, p.kind.isDeclared = true) ↔
      ∀ e ∈ fieldOr seq? doc 3 [], Names ProfileKind e 2 := by
  rw [h.forall_historyOf]
  exact forall₂_congr fun e _ => castField_isDeclared _

theorem generations_iff (h : RecoveredFrom doc s) (id : Uuid) :
    ((s.historyOf id).Pairwise fun p q => p.generation < q.generation) ↔
      (entriesOf doc id).Pairwise fun e e' => fieldOr uint? e 3 0 < fieldOr uint? e' 3 0 := by
  rw [h.history, List.pairwise_map]
  rfl

theorem active_iff (h : RecoveredFrom doc s) (id : Uuid) :
    (∀ i p, (s.historyOf id)[i]? = some p → p.active = true → i + 1 = (s.historyOf id).length) ↔
      ∀ i e, (entriesOf doc id)[i]? = some e → fieldOr bool? e 6 true = true →
        i + 1 = (entriesOf doc id).length := by
  rw [h.history, List.length_map]
  constructor
  · intro hall i e he hactive
    exact hall i (profileOf e) (by rw [List.getElem?_map, he, Option.map_some]) hactive
  · intro hall i p hp hactive
    rw [List.getElem?_map] at hp
    obtain ⟨e, he, rfl⟩ := Option.map_eq_some_iff.mp hp
    exact hall i e he hactive

/-- A fingerprint that is there has been tested. -/
theorem fingerprints_iff (h : RecoveredFrom doc s) (hdoc : doc.WF) :
    (∀ id, ∀ p ∈ s.historyOf id, canonicalFingerprintHex p.payload = .ok p.fingerprint) ↔
      ∀ e ∈ fieldOr seq? doc 3 [], fieldOr str? e 9 [] ≠ [] := by
  rw [h.forall_historyOf]
  apply forall₂_congr
  intro e he
  have hpayload : (profileOf e).payload.WF := (recordField_of_wf (entry_wf hdoc e he) 4).2
  constructor
  · intro hfp hnone
    rw [canonicalFingerprintHex_of_wf hpayload] at hfp
    exact Sha256.hex_ne_nil _ ((Except.ok.inj hfp).trans hnone)
  · intro hsome
    exact (h.matching e he).resolve_left hsome

theorem rules_iff (h : RecoveredFrom doc s) :
    (∀ id rr, s.rules.lookup id = some rr → rr.rule.Declared) ↔
      ∀ e, UMap.LastUnder (fun e => fieldOr uuid? e 1 Uuid.zero) (fieldOr seq? doc 4 []) e → NamesRule e := by
  rw [h.rules, UMap.forall_fill_map]
  exact forall₂_congr fun e _ => decRule_declared

theorem evidence_iff (h : RecoveredFrom doc s) :
    (∀ id ev, s.evidence.lookup id = some ev → ev.kind.isDeclared = true) ↔
      ∀ e, UMap.LastUnder (fun e => fieldOr uuid? e 1 Uuid.zero) (fieldOr seq? doc 5 []) e →
        Names EvidenceKind e 9 := by
  rw [h.evidence, UMap.forall_fill_map]
  exact forall₂_congr fun e _ => castField_isDeclared _

theorem outcomes_iff (h : RecoveredFrom doc s) :
    (∀ k d, s.decisions.lookup k = some d → d.outcome.isDeclared = true) ↔
      ∀ e, UMap.LastUnder cachedDigest (fieldOr seq? doc 7 []) e → Names Outcome e 4 := by
  rw [h.decisions, UMap.forall_fill_map]
  exact forall₂_congr fun e _ => castField_isDeclared _

theorem digests_iff (h : RecoveredFrom doc s) :
    (∀ k d, s.decisions.lookup k = some d → d.computeDigest = .ok d.digest) ↔
      ∀ e, UMap.LastUnder cachedDigest (fieldOr seq? doc 7 []) e →
        (decDecision e).computeDigest = .ok (cachedDigest e) := by
  rw [h.decisions, UMap.forall_fill_map]
  rfl

end RecoveredFrom

theorem wf_of_documentOf {bytes : Bytes} {doc : Canon} (h : documentOf bytes = .ok doc) : doc.WF := by
  obtain ⟨payload, -, hdecode⟩ := Result.bind_eq_ok.mp h
  exact (canonicalDecode_eq_ok.mp hdecode).1

theorem recoveredFrom_of_recover {bytes : Bytes} {doc : Canon} (hdoc : documentOf bytes = .ok doc)
    {s : Registry} (h : recover bytes = .ok s) : RecoveredFrom doc s := by
  obtain ⟨payload, hpayload, h⟩ := Result.bind_eq_ok.mp h
  obtain ⟨doc', hdoc', h⟩ := Result.bind_eq_ok.mp h
  have hsame : documentOf bytes = .ok doc' := Result.bind_eq_ok.mpr ⟨payload, hpayload, hdoc'⟩
  obtain rfl : doc' = doc := Except.ok.inj (hsame.symm.trans hdoc)
  split_ifs at h
  exact recoveredFrom_of_recoverRoot (wf_of_documentOf hdoc) h

/-- A recovered registry is valid exactly when its document states what recovery
does not test. -/
theorem recover_valid_iff {bytes : Bytes} {doc : Canon} (hdoc : documentOf bytes = .ok doc) {s : Registry}
    (h : recover bytes = .ok s) : Valid s ↔ StatesValid doc := by
  have hfrom := recoveredFrom_of_recover hdoc h
  have hwf := wf_of_documentOf hdoc
  constructor
  · intro hv
    exact {
      kinds := hfrom.kinds_iff.mp hv.kinds
      generations := fun id => (hfrom.generations_iff id).mp (hv.generations id)
      first := hfrom.forall_historyOf.mp hv.first
      active := fun id => (hfrom.active_iff id).mp (hv.active id)
      fingerprints := (hfrom.fingerprints_iff hwf).mp hv.fingerprints
      rules := hfrom.rules_iff.mp hv.rules
      evidence := hfrom.evidence_iff.mp hv.evidence
      outcomes := hfrom.outcomes_iff.mp hv.outcomes
      digests := hfrom.digests_iff.mp hv.digests }
  · intro hd
    exact {
      kinds := hfrom.kinds_iff.mpr hd.kinds
      generations := fun id => (hfrom.generations_iff id).mpr (hd.generations id)
      first := hfrom.forall_historyOf.mpr hd.first
      active := fun id => (hfrom.active_iff id).mpr (hd.active id)
      fingerprints := (hfrom.fingerprints_iff hwf).mpr hd.fingerprints
      rules := hfrom.rules_iff.mpr hd.rules
      evidence := hfrom.evidence_iff.mpr hd.evidence
      outcomes := hfrom.outcomes_iff.mpr hd.outcomes
      digests := hfrom.digests_iff.mpr hd.digests
      acyclic := fun id hid => (recover_graphInv h).acyclic ⟨id, hid⟩ }

/-! ### A document with one rule -/

def ruleDocument (outcome : UInt64) : Canon := .record [(4, .sequence [.record [(10, .uint outcome)]])]

/-- The registry with the rule of the document. -/
def ruleRegistry (outcome : UInt64) : Registry where
  rules := UMap.fill (fun rr => rr.rule.ruleId) [decRule (.record [(10, .uint outcome)])] ∅

theorem documentOf_ruleDocument (outcome : UInt64) :
    documentOf (sealContainer (ruleDocument outcome).encoding) = .ok (ruleDocument outcome) := by
  have hlength : (ruleDocument outcome).element.length = 36 := rfl
  unfold documentOf
  rw [openContainer_sealContainer, Result.ok_bind]
  refine canonicalDecode_eq_ok.mpr ⟨?_, fits_of_length _ (by omega), rfl⟩
  simp [ruleDocument, WF, WFRecord, WFSeq, SortedMap.Sorted]

theorem recover_ruleDocument (outcome : UInt64) :
    recover (sealContainer (ruleDocument outcome).encoding) = .ok (ruleRegistry outcome) := by
  have hacyclic : (ruleRegistry outcome).hasCycle = false := by
    rw [← Bool.not_eq_true]
    exact fun hcycle => GraphInv.empty.acyclic ((hasCycleIn_iff _).mp hcycle)
  have hdoc := documentOf_ruleDocument outcome
  unfold documentOf at hdoc
  rw [openContainer_sealContainer, Result.ok_bind] at hdoc
  unfold recover
  rw [openContainer_sealContainer, Result.ok_bind, hdoc, Result.ok_bind]
  show (if (ruleRegistry outcome).hasCycle then .error (recoverError "recover: dependency cycle in snapshot")
    else Except.ok (ruleRegistry outcome)) = _
  rw [hacyclic]
  rfl

theorem namesRule_compatible : NamesRule (.record [(10, .uint 1)]) where
  leftKind _ hv := by cases hv
  rightKind _ hv := by cases hv
  kind _ hv := by cases hv
  outcome v hv := by
    obtain rfl : 1 = v := Canon.uint.inj (Option.some.inj hv)
    exact ⟨.compatible, by decide⟩
  required := List.forall_mem_nil _
  anyOf := List.forall_mem_nil _
  incompatibleWith := List.forall_mem_nil _
  conditions := List.forall_mem_nil _

/-- A rule whose outcome is an enumerator, and nothing else. -/
theorem recover_valid_compatible : Valid (ruleRegistry 1) := by
  apply (recover_valid_iff (documentOf_ruleDocument 1) (recover_ruleDocument 1)).mpr
  exact {
    kinds := List.forall_mem_nil _
    generations := fun id => List.Pairwise.nil
    first := List.forall_mem_nil _
    active := fun id i e he => by cases he
    fingerprints := List.forall_mem_nil _
    rules := fun e he => by
      rw [List.mem_singleton.mp he.mem]
      exact namesRule_compatible
    evidence := fun e he => by cases he.mem
    outcomes := fun e he => by cases he.mem
    digests := fun e he => by cases he.mem }

/-- The rule has an outcome that is no enumerator. -/
theorem recover_not_valid_undeclared : ∃ s,
    recover (sealContainer (ruleDocument 200).encoding) = .ok s ∧ ¬ Valid s := by
  refine ⟨ruleRegistry 200, recover_ruleDocument 200, fun h => ?_⟩
  have hdeclared := (h.rules Uuid.zero (decRule (.record [(10, .uint 200)])) rfl).outcome
  exact absurd hdeclared (by decide)

end Registry

end CompatRegistry
