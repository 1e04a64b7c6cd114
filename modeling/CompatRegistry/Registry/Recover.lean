import CompatRegistry.Registry.Snapshot
import CompatRegistry.Registry.Dependencies
import CompatRegistry.Canon.Decode
import CompatRegistry.Capability

/-! The recovery of a registry from a snapshot. A field that is absent, or of
another kind than the one expected, leaves the default of its member. -/

namespace CompatRegistry

open Foundation Canon

namespace Canon

/-- A record field, rebuilt by `mk_record`. -/
def recordField (c : Canon) (tag : UInt32) : Result Canon :=
  match c.field tag with
  | some (.record r) => mkRecord r
  | _ => .ok .null

end Canon

/-- `static_cast` of an unsigned field to an enumeration. -/
def castField {ε : Type} [Enumerated ε] (c : Canon) (tag : UInt32) (dflt : ε) : Enum8 ε :=
  (((c.field tag).bind uint?).map Enum8.cast).getD (.declared dflt)

def decConstraint (c : Canon) : Constraint where
  op := castField c 1 .eq
  field := fieldOr str? c 2 []
  rightField := fieldOr str? c 3 []
  expected := (c.field 4).getD .null
  expected2 := (c.field 5).getD .null
  set := fieldOr seq? c 6 []
  note := fieldOr str? c 7 []

def decConstraintItem (c : Canon) : ConstraintItem where
  dimension := fieldOr str? c 1 []
  left := fieldOr str? c 2 []
  right := fieldOr str? c 3 []
  satisfied := fieldOr bool? c 4 false
  note := fieldOr str? c 5 []

def decProfile (c : Canon) : Result ProfileRecord := do
  let payload ← recordField c 4
  .ok {
    id := fieldOr uuid? c 1 Uuid.zero
    kind := castField c 2 .model
    generation := fieldOr uint? c 3 0
    payload := payload
    deps := itemsOf uuid? c 5
    active := fieldOr bool? c 6 true
    superseded := fieldOr bool? c 7 false
    provenance := fieldOr str? c 8 []
    fingerprint := fieldOr str? c 9 [] }

def decRule (c : Canon) : RuleRecord where
  rule := {
    ruleId := fieldOr uuid? c 1 Uuid.zero
    generation := fieldOr uint? c 2 0
    domain := fieldOr str? c 3 []
    scope := fieldOr str? c 4 []
    priority := (fieldOr int? c 5 0).toInt32
    leftKind := ((c.field 7).bind uint?).map Enum8.cast
    rightKind := ((c.field 8).bind uint?).map Enum8.cast
    kind := castField c 9 .equality
    outcome := castField c 10 .compatible
    required := (fieldOr seq? c 11 []).map decConstraint
    anyOf := (fieldOr seq? c 12 []).map decConstraint
    incompatibleWith := (fieldOr seq? c 13 []).map decConstraint
    conditions := (fieldOr seq? c 14 []).map decConstraint
    adaptations := itemsOf str? c 15
    provenance := fieldOr str? c 16 [] }
  active := fieldOr bool? c 6 true

def decEvidence (c : Canon) : Result EvidenceRecord := do
  let value ← recordField c 4
  .ok {
    id := fieldOr uuid? c 1 Uuid.zero
    subject := fieldOr uuid? c 2 Uuid.zero
    field := fieldOr str? c 3 []
    value := value
    provenance := fieldOr str? c 5 []
    source := fieldOr str? c 6 []
    sourceGeneration := fieldOr uint? c 7 0
    observedTimestamp := fieldOr str? c 8 []
    kind := castField c 9 .reported
    validated := fieldOr bool? c 10 false
    digestHex := fieldOr str? c 11 [] }

def decInvalidation (c : Canon) : Invalidation where
  target := fieldOr uuid? c 1 Uuid.zero
  generation := fieldOr uint? c 2 0
  reason := fieldOr str? c 3 []
  fingerprintBefore := fieldOr str? c 4 []

/-- The first 32 bytes of a string, over a digest of zeros. -/
def digestOfBytes (s : Bytes) : Digest :=
  ⟨s.take 32 ++ List.replicate (32 - s.length) 0, by simp; omega⟩

def decDecision (c : Canon) : CompatibilityDecision where
  decisionId := fieldOr uuid? c 1 Uuid.zero
  left := fieldOr uuid? c 2 Uuid.zero
  right := fieldOr uuid? c 3 Uuid.zero
  outcome := castField c 4 .unknown
  ruleId := fieldOr uuid? c 5 Uuid.zero
  ruleGeneration := fieldOr uint? c 6 0
  policyId := fieldOr uuid? c 7 Uuid.zero
  policyGeneration := fieldOr uint? c 8 0
  satisfied := (fieldOr seq? c 9 []).map decConstraintItem
  failed := (fieldOr seq? c 10 []).map decConstraintItem
  adaptations := itemsOf str? c 11
  missingEvidence := itemsOf str? c 12
  provenance := itemsOf str? c 13
  registryGeneration := fieldOr uint? c 14 0
  counterfactual := fieldOr bool? c 15 false
  digest := digestOfBytes (fieldOr bytes? c 16 [])

namespace Registry

def recoverError (what : String) : Fault := .runtimeError (ascii what)

/-- A stored fingerprint, if there is one, has to be that of the payload. -/
def verifyFingerprint (p : ProfileRecord) : Result ProfileRecord :=
  if p.fingerprint = [] then .ok p
  else do
    let fingerprint ← canonicalFingerprintHex p.payload
    if fingerprint ≠ p.fingerprint then
      .error (recoverError "recover: profile fingerprint mismatch (corruption)")
    else .ok p

/-- The fingerprint, if there is one, is that of the payload. -/
def Matches (p : ProfileRecord) : Prop :=
  p.fingerprint = [] ∨ canonicalFingerprintHex p.payload = .ok p.fingerprint

theorem verifyFingerprint_iff {p q : ProfileRecord} (h : p.payload.WF) :
    verifyFingerprint p = .ok q ↔ q = p ∧ Matches p := by
  unfold verifyFingerprint Matches
  rw [canonicalFingerprintHex_of_wf h, Result.ok_bind]
  by_cases hnone : p.fingerprint = []
  · rw [if_pos hnone, Except.ok.injEq, eq_comm, and_iff_left (.inl hnone)]
  · rw [if_neg hnone]
    by_cases hsame : Sha256.hex (Sha256.compute p.payload.encoding) = p.fingerprint
    · rw [if_neg (not_not.mpr hsame), Except.ok.injEq, eq_comm, and_iff_left (.inr (congrArg _ hsame))]
    · rw [if_pos hsame]
      simp [hnone, hsame]

/-- `profiles_[p.id].push_back(p)` for each record in turn. -/
def fillProfiles : List ProfileRecord → UMap Uuid History → UMap Uuid History
  | [], m => m
  | p :: ps, m => fillProfiles ps (m.insert p.id (History.pushOrSingle (m.lookup p.id) p))

/-- The edges of every generation of every profile, each replacing those before. -/
def rebuildEdges (s : Registry) : Registry :=
  s.profiles.entries.foldl
    (fun s e => e.2.records.foldl (fun s p => addDependency e.1 p.deps s) s) s

/-- The registry that the root record of a snapshot describes. -/
def recoverRoot (doc : Canon) : Result Registry := do
  let profiles ← (fieldOr seq? doc 3 []).mapM fun e => do
    let p ← decProfile e
    verifyFingerprint p
  let s : Registry := {
    registryGen := fieldOr uint? doc 1 0
    policyId := fieldOr uuid? doc 2 Uuid.zero
    profiles := fillProfiles profiles ∅ }
  let s := rebuildEdges s
  let evidence ← (fieldOr seq? doc 5 []).mapM decEvidence
  let s := { s with
    rules := UMap.fill (fun rr => rr.rule.ruleId) ((fieldOr seq? doc 4 []).map decRule) ∅
    evidence := UMap.fill EvidenceRecord.id evidence ∅
    invalidations := (fieldOr seq? doc 6 []).map decInvalidation
    decisions := UMap.fill CompatibilityDecision.digest ((fieldOr seq? doc 7 []).map decDecision) ∅ }
  if s.hasCycle then .error (recoverError "recover: dependency cycle in snapshot") else .ok s

/-- The payload of a container whose size, magic bytes, version and checksum are right. -/
def openContainer (bytes : Bytes) : Result Bytes :=
  if bytes.length < 5 + 1 + 32 then .error (recoverError "recover: buffer too small")
  else if bytes.take 5 ≠ containerMagic then
    .error (recoverError "recover: bad container magic")
  else if bytes[5]? ≠ some containerVersion then .error (recoverError "recover: unsupported container version")
  else
    let payloadSize := bytes.length - 5 - 1 - 32
    let payload := (bytes.drop 6).take payloadSize
    if (Sha256.compute payload).bytes ≠ bytes.drop (6 + payloadSize) then
      .error (recoverError "recover: checksum mismatch (corruption)")
    else .ok payload

def recover (bytes : Bytes) : Result Registry := do
  let payload ← openContainer bytes
  let doc ← canonicalDecode payload
  if doc.kind ≠ .record then .error (recoverError "recover: payload not a record")
  else recoverRoot doc

end Registry

end CompatRegistry
