import CompatRegistry.Registry.State

/-! The snapshot of a registry: one canonical record for each stored object, a
root record with the sequences of them, and a container with a checksum. Payloads
and evidence values are written as records, whatever their kind. -/

namespace CompatRegistry

open Foundation Canon

def encConstraint (c : Constraint) : Canon :=
  ofEntries [(1, .uint c.op.toUInt64), (2, .str c.field), (3, .str c.rightField), (4, c.expected),
    (5, c.expected2), (6, .sequence c.set), (7, .str c.note)]

def encProfile (p : ProfileRecord) : Result Canon := do
  let payload ← mkRecord p.payload.asRecord
  .ok (ofEntries [(1, .uuid p.id), (2, .uint p.kind.toUInt64), (3, .uint p.generation), (4, payload),
    (5, .sequence (p.deps.map .uuid)), (6, .bool p.active), (7, .bool p.superseded),
    (8, .str p.provenance), (9, .str p.fingerprint)])

/-- The entry of an optional kind. -/
def kindEntry (tag : UInt32) : Option (Enum8 ProfileKind) → Record
  | none => []
  | some k => [(tag, .uint k.toUInt64)]

def ruleEntries (rule : CompatibilityRule) (active : Bool) : Record :=
  [(1, .uuid rule.ruleId), (2, .uint rule.generation), (3, .str rule.domain), (4, .str rule.scope),
    (5, .int rule.priority.toInt64), (6, .bool active)] ++
  kindEntry 7 rule.leftKind ++ kindEntry 8 rule.rightKind ++
  [(9, .uint rule.kind.toUInt64), (10, .uint rule.outcome.toUInt64),
    (11, .sequence (rule.required.map encConstraint)), (12, .sequence (rule.anyOf.map encConstraint)),
    (13, .sequence (rule.incompatibleWith.map encConstraint)),
    (14, .sequence (rule.conditions.map encConstraint)), (15, .sequence (rule.adaptations.map .str)),
    (16, .str rule.provenance)]

theorem ruleEntries_isChain (rule : CompatibilityRule) (active : Bool) :
    ((ruleEntries rule active).map Prod.fst).IsChain (· < ·) := by
  unfold ruleEntries
  cases rule.leftKind <;> cases rule.rightKind <;> simp [kindEntry]

def encRule (rule : CompatibilityRule) (active : Bool) : Canon :=
  ofEntries (ruleEntries rule active) (ruleEntries_isChain rule active)

def encEvidence (e : EvidenceRecord) : Result Canon := do
  let value ← mkRecord e.value.asRecord
  .ok (ofEntries [(1, .uuid e.id), (2, .uuid e.subject), (3, .str e.field), (4, value),
    (5, .str e.provenance), (6, .str e.source), (7, .uint e.sourceGeneration),
    (8, .str e.observedTimestamp), (9, .uint e.kind.toUInt64), (10, .bool e.validated),
    (11, .str e.digestHex)])

def encInvalidation (iv : Invalidation) : Canon :=
  ofEntries [(1, .uuid iv.target), (2, .uint iv.generation), (3, .str iv.reason),
    (4, .str iv.fingerprintBefore)]

def encDecision (d : CompatibilityDecision) : Canon :=
  ofEntries [(1, .uuid d.decisionId), (2, .uuid d.left), (3, .uuid d.right),
    (4, .uint d.outcome.toUInt64), (5, .uuid d.ruleId), (6, .uint d.ruleGeneration),
    (7, .uuid d.policyId), (8, .uint d.policyGeneration),
    (9, .sequence (d.satisfied.map encConstraintItem)),
    (10, .sequence (d.failed.map encConstraintItem)), (11, .sequence (d.adaptations.map .str)),
    (12, .sequence (d.missingEvidence.map .str)), (13, .sequence (d.provenance.map .str)),
    (14, .uint d.registryGeneration), (15, .bool d.counterfactual), (16, .bytes d.digest.bytes)]

namespace Registry

/-- Every record of every history, history by history. -/
def allRecords (s : Registry) : List ProfileRecord := (s.profiles.values.map History.records).flatten

/-- The root record of a snapshot. -/
def snapshotRoot (s : Registry) : Result Canon := do
  let profiles ← s.allRecords.mapM encProfile
  let evidence ← s.evidence.values.mapM encEvidence
  .ok (ofEntries [(1, .uint s.registryGen), (2, .uuid s.policyId), (3, .sequence profiles),
    (4, .sequence (s.rules.values.map fun rr => encRule rr.rule rr.active)), (5, .sequence evidence),
    (6, .sequence (s.invalidations.map encInvalidation)),
    (7, .sequence (s.decisions.values.map encDecision))])

/-- `'C','R','R','E','G'`. -/
def containerMagic : Bytes := [0x43, 0x52, 0x52, 0x45, 0x47]

def containerVersion : UInt8 := 1

/-- The magic bytes, the version, the payload and its checksum. -/
def sealContainer (payload : Bytes) : Bytes :=
  containerMagic ++ [containerVersion] ++ payload ++ (Sha256.compute payload).bytes

def snapshot (s : Registry) : Result Bytes := do
  let root ← s.snapshotRoot
  let payload ← canonicalEncode root
  .ok (sealContainer payload)

end Registry

end CompatRegistry
