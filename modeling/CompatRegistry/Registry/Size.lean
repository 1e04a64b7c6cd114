import CompatRegistry.Registry.RoundTrip

/-! The size of a registry: the number of bytes that the entries of the root
record of its snapshot take. Lengths are written in 32 bits, so this is what has to
stay below `2^32`. It does not depend on the order in which the maps are iterated. -/

namespace CompatRegistry

open Foundation Canon

/-! ### Sizes of elements: five header bytes and a payload -/

def textSize (s : Bytes) : ℕ := 5 + s.length

def wordSize : ℕ := 13

def flagSize : ℕ := 6

def uuidSize : ℕ := 21

def seqSize {α : Type} (size : α → ℕ) (l : List α) : ℕ := 5 + (l.map size).sum

/-- The entries of a record, each with a tag of four bytes. -/
def entriesSize (sizes : List ℕ) : ℕ := (sizes.map (4 + ·)).sum

def recordSize (sizes : List ℕ) : ℕ := 5 + entriesSize sizes

def valueSize (c : Canon) : ℕ := c.element.length

theorem length_recordBody (r : Record) : (recordBody r).length = entriesSize (r.map fun e => valueSize e.2) := by
  induction r with
  | nil => rfl
  | cons e r ih =>
    obtain ⟨t, c⟩ := e
    simp only [recordBody, List.length_append, toBE_length, ih, List.map_cons, entriesSize, List.sum_cons,
      valueSize]

theorem length_seqBody (q : Seq) : (seqBody q).length = (q.map valueSize).sum := by
  induction q with
  | nil => rfl
  | cons c q ih =>
    simp only [seqBody, List.length_append, ih, List.map_cons, List.sum_cons, valueSize]

section
variable {α : Type}

@[simp] theorem valueSize_uint (v : UInt64) : valueSize (.uint v) = wordSize := by
  simp [valueSize, element, wordSize]

@[simp] theorem valueSize_int (v : Int64) : valueSize (.int v) = wordSize := by
  simp [valueSize, element, wordSize]

@[simp] theorem valueSize_bool (v : Bool) : valueSize (.bool v) = flagSize := by
  simp [valueSize, element, flagSize]

@[simp] theorem valueSize_str (s : Bytes) : valueSize (.str s) = textSize s := by
  simp [valueSize, element, textSize]

@[simp] theorem valueSize_bytes (s : Bytes) : valueSize (.bytes s) = textSize s := by
  simp [valueSize, element, textSize]

@[simp] theorem valueSize_uuid (u : Uuid) : valueSize (.uuid u) = uuidSize := by
  simp [valueSize, element, uuidSize, u.size]

theorem valueSize_sequence (q : Seq) : valueSize (.sequence q) = seqSize valueSize q := by
  simp [valueSize, element, seqSize, length_seqBody]

theorem valueSize_map {f : α → Canon} {size : α → ℕ} (h : ∀ x, valueSize (f x) = size x) (l : List α) :
    valueSize (.sequence (l.map f)) = seqSize size l := by
  rw [valueSize_sequence, seqSize, seqSize, List.map_map]
  congr 2
  exact List.map_congr_left fun x _ => h x

@[simp] theorem valueSize_strs (l : List Bytes) :
    valueSize (.sequence (l.map .str)) = seqSize textSize l := valueSize_map valueSize_str l

@[simp] theorem valueSize_uuids (l : List Uuid) :
    valueSize (.sequence (l.map .uuid)) = seqSize (fun _ => uuidSize) l := valueSize_map valueSize_uuid l

@[simp] theorem valueSize_ofEntries (r : Record) (h : (r.map Prod.fst).IsChain (· < ·)) :
    valueSize (ofEntries r h) = recordSize (r.map fun e => valueSize e.2) := by
  unfold ofEntries recordSize
  rw [valueSize, element, frame_length, length_recordBody]

end

/-! ### Sizes of the stored objects -/

def constraintSize (c : Constraint) : ℕ :=
  recordSize [wordSize, textSize c.field, textSize c.rightField, valueSize c.expected,
    valueSize c.expected2, seqSize valueSize c.set, textSize c.note]

def itemSize (c : ConstraintItem) : ℕ :=
  recordSize [textSize c.dimension, textSize c.left, textSize c.right, flagSize, textSize c.note]

def kindSizes (k : Option (Enum8 ProfileKind)) : List ℕ := k.toList.map fun _ => wordSize

def ruleSize (rule : CompatibilityRule) : ℕ :=
  recordSize ([uuidSize, wordSize, textSize rule.domain, textSize rule.scope, wordSize, flagSize] ++
    kindSizes rule.leftKind ++ kindSizes rule.rightKind ++
    [wordSize, wordSize, seqSize constraintSize rule.required, seqSize constraintSize rule.anyOf,
      seqSize constraintSize rule.incompatibleWith, seqSize constraintSize rule.conditions,
      seqSize textSize rule.adaptations, textSize rule.provenance])

def profileSize (p : ProfileRecord) : ℕ :=
  recordSize [uuidSize, wordSize, wordSize, valueSize p.payload.forced,
    seqSize (fun _ => uuidSize) p.deps, flagSize, flagSize, textSize p.provenance,
    textSize p.fingerprint]

def evidenceSize (e : EvidenceRecord) : ℕ :=
  recordSize [uuidSize, uuidSize, textSize e.field, valueSize e.value.forced, textSize e.provenance,
    textSize e.source, wordSize, textSize e.observedTimestamp, wordSize, flagSize, textSize e.digestHex]

def invalidationSize (iv : Invalidation) : ℕ :=
  recordSize [uuidSize, wordSize, textSize iv.reason, textSize iv.fingerprintBefore]

def decisionSize (d : CompatibilityDecision) : ℕ :=
  recordSize [uuidSize, uuidSize, uuidSize, wordSize, uuidSize, wordSize, uuidSize, wordSize,
    seqSize itemSize d.satisfied, seqSize itemSize d.failed, seqSize textSize d.adaptations,
    seqSize textSize d.missingEvidence, seqSize textSize d.provenance, wordSize, flagSize,
    textSize d.digest.bytes]

theorem valueSize_encConstraint (c : Constraint) : valueSize (encConstraint c) = constraintSize c := by
  simp [encConstraint, constraintSize, valueSize_sequence]

theorem valueSize_encConstraintItem (c : ConstraintItem) :
    valueSize (encConstraintItem c) = itemSize c := by
  simp [encConstraintItem, itemSize]

theorem valueSize_kindEntry (tag : UInt32) (k : Option (Enum8 ProfileKind)) :
    (kindEntry tag k).map (fun e => valueSize e.2) = kindSizes k := by
  cases k <;> simp [kindEntry, kindSizes]

theorem valueSize_encRule (rule : CompatibilityRule) (active : Bool) :
    valueSize (encRule rule active) = ruleSize rule := by
  rw [encRule, valueSize_ofEntries]
  simp [ruleEntries, ruleSize, valueSize_kindEntry, valueSize_map valueSize_encConstraint]

theorem valueSize_storedProfile (p : ProfileRecord) : valueSize (storedProfile p) = profileSize p := by
  simp [storedProfile, profileSize]

theorem valueSize_storedEvidence (e : EvidenceRecord) : valueSize (storedEvidence e) = evidenceSize e := by
  simp [storedEvidence, evidenceSize]

theorem valueSize_encInvalidation (iv : Invalidation) :
    valueSize (encInvalidation iv) = invalidationSize iv := by
  simp [encInvalidation, invalidationSize]

theorem valueSize_encDecision (d : CompatibilityDecision) : valueSize (encDecision d) = decisionSize d := by
  simp [encDecision, decisionSize, valueSize_map valueSize_encConstraintItem]

namespace Registry

/-- The size of everything that a snapshot writes. -/
def encodedSize (s : Registry) : ℕ :=
  entriesSize [wordSize, uuidSize, seqSize profileSize s.allRecords,
    seqSize (fun rr => ruleSize rr.rule) s.rules.values, seqSize evidenceSize s.evidence.values,
    seqSize invalidationSize s.invalidations, seqSize decisionSize s.decisions.values]

/-- The root record decodes to itself as long as the size is below `2^32`. -/
theorem canonicalDecode_storedRoot {s : Registry} (h : Inv s) {c : Canon} :
    canonicalDecode s.storedRoot.encoding = .ok c ↔ s.encodedSize < 2 ^ 32 ∧ c = s.storedRoot := by
  have hsize := valueSize_map (fun rr : RuleRecord => valueSize_encRule rr.rule rr.active) s.rules.values
  unfold storedRoot ofEntries
  rw [canonicalDecode_encoding_record (storedRoot_wf h), length_recordBody]
  simp only [List.map_cons, List.map_nil, valueSize_uint, valueSize_uuid, hsize,
    valueSize_map valueSize_storedProfile, valueSize_map valueSize_storedEvidence,
    valueSize_map valueSize_encInvalidation, valueSize_map valueSize_encDecision, encodedSize]

end Registry

end CompatRegistry
