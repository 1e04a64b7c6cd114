import CompatRegistry.RuleEval
import CompatRegistry.Canon.RoundTrip
import CompatRegistry.Canon.Json

/-! Evidence records, decisions, and what is computed from a decision: its
digest over the semantic fields and its explanation as text and as JSON. -/

namespace CompatRegistry

open Foundation Canon

inductive EvidenceKind where
  | measured | reported | derived | validated | reconstructed | unavailable
  deriving DecidableEq, Repr

instance : Enumerated EvidenceKind where
  code k := UInt8.ofNat k.ctorIdx
  enumerators := [.measured, .reported, .derived, .validated, .reconstructed, .unavailable]
  complete k := by cases k <;> decide
  code_injective := by decide

structure EvidenceRecord where
  id : Uuid := Uuid.zero
  subject : Uuid := Uuid.zero
  field : Bytes := []
  value : Canon := .null
  provenance : Bytes := []
  source : Bytes := []
  sourceGeneration : Generation := 0
  observedTimestamp : Bytes := []
  kind : Enum8 EvidenceKind := .declared .reported
  validated : Bool := false
  digestHex : Bytes := []

structure CompatibilityDecision where
  decisionId : Uuid := Uuid.zero
  left : Uuid := Uuid.zero
  right : Uuid := Uuid.zero
  outcome : Enum8 Outcome := .declared .unknown
  ruleId : Uuid := Uuid.zero
  ruleGeneration : Generation := 0
  policyId : Uuid := Uuid.zero
  policyGeneration : Generation := 0
  evidence : List Uuid := []
  satisfied : List ConstraintItem := []
  failed : List ConstraintItem := []
  adaptations : List Bytes := []
  missingEvidence : List Bytes := []
  provenance : List Bytes := []
  registryGeneration : Generation := 0
  counterfactual : Bool := false
  explanation : Bytes := []
  digest : Digest := FixedBytes.zero 32
  deriving DecidableEq

/-- The canonical record of a constraint item, in digests and in snapshots. -/
def encConstraintItem (c : ConstraintItem) : Canon :=
  ofEntries [(1, .str c.dimension), (2, .str c.left), (3, .str c.right), (4, .bool c.satisfied),
    (5, .str c.note)]

namespace CompatibilityDecision

def digestRecord (d : CompatibilityDecision) : Canon :=
  ofEntries [(1, .uuid d.left), (2, .uuid d.right), (3, .uint d.outcome.toUInt64), (4, .uuid d.ruleId),
    (5, .uint d.ruleGeneration), (6, .uuid d.policyId), (7, .uint d.policyGeneration),
    (8, .uint d.registryGeneration), (9, .bool d.counterfactual),
    (10, .sequence (d.satisfied.map encConstraintItem)),
    (11, .sequence (d.failed.map encConstraintItem)), (12, .sequence (d.adaptations.map .str)),
    (13, .sequence (d.missingEvidence.map .str))]

def computeDigest (d : CompatibilityDecision) : Result Digest := canonicalFingerprint d.digestRecord

def digestHex (d : CompatibilityDecision) : Bytes := Sha256.hex d.digest

/-- One line of text. -/
def line (parts : List Bytes) : Bytes := parts.flatten ++ [0x0A]

/-- A heading with its items, left out when there are none. -/
def block {α : Type} (title : Bytes) (item : α → List Bytes) (items : List α) : Bytes :=
  if items.isEmpty then [] else line [title] ++ (items.map fun x => line (item x)).flatten

def explainText (d : CompatibilityDecision) : Result Bytes := do
  let outcome ← outcomeName d.outcome
  .ok (line [ascii "Compatibility decision ", d.decisionId.toString] ++
    line [ascii "  left:  ", d.left.toString] ++
    line [ascii "  right: ", d.right.toString] ++
    line [ascii "  outcome: ", outcome] ++
    (if d.ruleId.isZero then [] else
      line [ascii "  rule: ", d.ruleId.toString, ascii " (generation ",
        decimal d.ruleGeneration.toNat, ascii ")"]) ++
    (if d.policyId.isZero then [] else line [ascii "  policy: ", d.policyId.toString]) ++
    line [ascii "  registry generation: ", decimal d.registryGeneration.toNat] ++
    block (ascii "  satisfied constraints:")
      (fun c => [ascii "    + ", c.dimension, ascii " [", c.left, ascii " == ", c.right, ascii "] : ",
        c.note]) d.satisfied ++
    block (ascii "  failed constraints:")
      (fun c => [ascii "    - ", c.dimension, ascii " : ", c.note]) d.failed ++
    block (ascii "  required adaptations:") (fun a => [ascii "    * ", a]) d.adaptations ++
    block (ascii "  missing evidence:") (fun m => [ascii "    ? ", m]) d.missingEvidence ++
    (if d.counterfactual then line [ascii "  NOTE: derived counterfactual; not authoritative"] else []) ++
    ascii "  digest: " ++ d.digestHex)

def explainRecord (d : CompatibilityDecision) (outcome : Bytes) : Canon :=
  ofEntries ([(1, .str (ascii "decision")), (2, .str d.decisionId.toString), (3, .str outcome),
    (4, .str d.left.toString), (5, .str d.right.toString)] ++
    (if d.ruleId.isZero then [] else [(6, .str d.ruleId.toString)]) ++
    [(7, .sequence (d.missingEvidence.map .str)), (8, .sequence (d.adaptations.map .str)),
    (9, .sequence (d.provenance.map .str))]) (by split_ifs <;> simp)

def explainJson (d : CompatibilityDecision) : Result Bytes := do
  let outcome ← outcomeName d.outcome
  .ok (canonicalToJson (d.explainRecord outcome))

theorem wfSeq_map_str (l : List Bytes) : WFSeq (l.map .str) := by
  simp [wfSeq_iff, WF]

theorem encConstraintItem_wf (c : ConstraintItem) : (encConstraintItem c).WF :=
  ofEntries_wf _ (by simp [WFRecord, WF])

theorem wfSeq_map_encConstraintItem (l : List ConstraintItem) : WFSeq (l.map encConstraintItem) := by
  simp [wfSeq_iff, encConstraintItem_wf]

theorem digestRecord_wf (d : CompatibilityDecision) : d.digestRecord.WF :=
  ofEntries_wf _ (by simp [WFRecord, WF, wfSeq_map_str, wfSeq_map_encConstraintItem])

/-- A digest is always computed. -/
theorem computeDigest_eq (d : CompatibilityDecision) :
    d.computeDigest = .ok (Sha256.compute d.digestRecord.encoding) :=
  canonicalFingerprint_of_wf d.digestRecord_wf

/-- A decision is explained exactly when its outcome has a name, in a text that
is not empty. -/
theorem explainText_isOk (d : CompatibilityDecision) :
    (∃ text, d.explainText = .ok text) ↔ d.outcome.isDeclared = true := by
  rw [← outcomeName_isOk]
  simp only [explainText, Result.bind_eq_ok, Except.ok.injEq]
  constructor
  · rintro ⟨_, name, hname, -⟩
    exact ⟨name, hname⟩
  · rintro ⟨name, hname⟩
    exact ⟨_, name, hname, rfl⟩

/-- The explanation as JSON is the text of one object, that of the record of the decision. -/
theorem explainJson_jsonText {d : CompatibilityDecision} {text : Bytes} (h : d.explainJson = .ok text) :
    ∃ outcome, outcomeName d.outcome = .ok outcome ∧ Json.Text (mirror (d.explainRecord outcome)) text := by
  simp only [explainJson, Result.bind_eq_ok, Except.ok.injEq] at h
  obtain ⟨outcome, houtcome, rfl⟩ := h
  exact ⟨outcome, houtcome, text_canonicalToJson _⟩

end CompatibilityDecision

end CompatRegistry
