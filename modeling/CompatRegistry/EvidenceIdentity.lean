import CompatRegistry.Decision

/-! The fingerprint of an evidence record. The value goes into a record slot through
`as_record`, which is empty on every other kind, so that values that are no records all
hash as the empty one. -/

namespace CompatRegistry

open Foundation Canon

namespace EvidenceRecord

/-- The record that `fingerprint` hashes. -/
def hashed (e : EvidenceRecord) : Result Canon := do
  let value ← mkRecord e.value.asRecord
  mkRecord [(1, .uuid e.id), (2, .uuid e.subject), (3, .str e.field), (4, value), (5, .str e.provenance),
    (6, .str e.source), (7, .uint e.sourceGeneration)]

def fingerprint (e : EvidenceRecord) : Result Bytes := do
  let r ← e.hashed
  canonicalFingerprintHex r

/-- What is hashed for a well-formed value. -/
def identity (e : EvidenceRecord) : Canon :=
  ofEntries [(1, .uuid e.id), (2, .uuid e.subject), (3, .str e.field), (4, e.value.forced),
    (5, .str e.provenance), (6, .str e.source), (7, .uint e.sourceGeneration)]

/-- Agreement on what is hashed beside the value. -/
structure SameContext (e e' : EvidenceRecord) : Prop where
  id : e.id = e'.id
  subject : e.subject = e'.subject
  field : e.field = e'.field
  provenance : e.provenance = e'.provenance
  source : e.source = e'.source
  sourceGeneration : e.sourceGeneration = e'.sourceGeneration

structure SameEvidence (e e' : EvidenceRecord) : Prop extends SameContext e e' where
  value : e.value = e'.value

/-- The fingerprints are equal exactly for the same evidence. -/
def Fingerprinted (e e' : EvidenceRecord) : Prop :=
  ∃ f f', e.fingerprint = .ok f ∧ e'.fingerprint = .ok f' ∧ (f = f' ↔ SameEvidence e e')

/-- Values as the constructors build them, sizes below `2 ^ 32`, and no collision between
the two texts that are hashed. -/
structure Hashable (e e' : EvidenceRecord) : Prop where
  wf : e.value.WF
  wf' : e'.value.WF
  fits : e.identity.Fits
  fits' : e'.identity.Fits
  distinct : Sha256.compute e.identity.encoding = Sha256.compute e'.identity.encoding →
    e.identity.encoding = e'.identity.encoding

theorem hashed_of_wf {e : EvidenceRecord} (h : e.value.WF) : e.hashed = .ok e.identity := by
  rw [hashed, mkRecord_of_sorted (asRecord_sorted h), Result.ok_bind]
  exact mkRecord_ofEntries _

theorem identity_wf {e : EvidenceRecord} (h : e.value.WF) : e.identity.WF := by
  have hvalue := forced_wf h
  exact ofEntries_wf _ (by simp [WFRecord, WF, hvalue])

theorem fingerprint_of_wf {e : EvidenceRecord} (h : e.value.WF) :
    e.fingerprint = .ok (Sha256.hex (Sha256.compute e.identity.encoding)) := by
  rw [fingerprint, hashed_of_wf h, Result.ok_bind, canonicalFingerprintHex_of_wf (identity_wf h)]

section Pair
variable {e e' : EvidenceRecord}

theorem identity_eq_iff : e.identity = e'.identity ↔ SameContext e e' ∧ e.value.asRecord = e'.value.asRecord := by
  simp only [identity, ofEntries, forced, Canon.record.injEq, List.cons.injEq, Prod.mk.injEq,
    Canon.uuid.injEq, Canon.str.injEq, Canon.uint.injEq, true_and, and_true]
  constructor
  · rintro ⟨hid, hsubject, hfield, hvalue, hprovenance, hsource, hgeneration⟩
    exact ⟨⟨hid, hsubject, hfield, hprovenance, hsource, hgeneration⟩, hvalue⟩
  · rintro ⟨h, hvalue⟩
    exact ⟨h.id, h.subject, h.field, hvalue, h.provenance, h.source, h.sourceGeneration⟩

/-- Without a collision the fingerprints show everything but what `as_record` drops. -/
theorem fingerprint_eq_iff (h : Hashable e e') :
    e.fingerprint = e'.fingerprint ↔ SameContext e e' ∧ e.value.asRecord = e'.value.asRecord := by
  rw [fingerprint_of_wf h.wf, fingerprint_of_wf h.wf', ← identity_eq_iff, Except.ok.injEq,
    Sha256.hex_injective.eq_iff]
  constructor
  · intro heq
    exact encoding_injective (identity_wf h.wf) (identity_wf h.wf') h.fits h.fits' (h.distinct heq)
  · intro heq
    rw [heq]

end Pair

theorem asRecord_eq_iff {v w : Canon} :
    v.asRecord = w.asRecord ↔ v = w ∨ v.asRecord = [] ∧ w.asRecord = [] := by
  cases v <;> cases w <;> simp +contextual [asRecord, eq_comm]

/-- The fingerprints tell two evidence records apart, or take them for the same, as they
should, unless the records differ in their values alone and neither value is a record
with an entry. -/
theorem fingerprinted_iff {e e' : EvidenceRecord} (h : Hashable e e') :
    Fingerprinted e e' ↔
      ¬ SameContext e e' ∨ e.value = e'.value ∨ e.value.asRecord ≠ [] ∨ e'.value.asRecord ≠ [] := by
  have hsame : SameEvidence e e' ↔ SameContext e e' ∧ e.value = e'.value :=
    ⟨fun hs => ⟨hs.toSameContext, hs.value⟩, fun ⟨hc, hv⟩ => ⟨hc, hv⟩⟩
  have hfingerprints : Fingerprinted e e' ↔ (e.fingerprint = e'.fingerprint ↔ SameEvidence e e') := by
    unfold Fingerprinted
    rw [fingerprint_of_wf h.wf, fingerprint_of_wf h.wf', Except.ok.injEq]
    simp only [Except.ok.injEq, exists_and_left, exists_eq_left']
  rw [hfingerprints, fingerprint_eq_iff h, hsame, asRecord_eq_iff]
  tauto

/-- A reported data type. -/
def dtypeEvidence (value : Canon) : EvidenceRecord := { field := ascii "dtype", value }

theorem fingerprinted_record :
    Fingerprinted (dtypeEvidence (.record [(1, .uint 5)])) (dtypeEvidence (.record [(1, .uint 6)])) := by
  refine (fingerprinted_iff ⟨?_, ?_, ?_, ?_, ?_⟩).mpr (.inr (.inr (.inl ?_)))
  · simp [dtypeEvidence, WF, WFRecord, SortedMap.Sorted]
  · simp [dtypeEvidence, WF, WFRecord, SortedMap.Sorted]
  · exact fits_of_length _ (by decide +kernel)
  · exact fits_of_length _ (by decide +kernel)
  · decide +kernel
  · simp [dtypeEvidence, asRecord]

/-- Two data types that are strings have one fingerprint. -/
theorem not_fingerprinted_str :
    ¬ Fingerprinted (dtypeEvidence (.str (ascii "bf16"))) (dtypeEvidence (.str (ascii "f16"))) := by
  rintro ⟨f, f', hf, hf', hiff⟩
  have hwf : ∀ s, (dtypeEvidence (.str s)).value.WF := fun _ => trivial
  have hsame : f = f' := by
    rw [fingerprint_of_wf (hwf _)] at hf hf'
    exact Except.ok.inj (hf.symm.trans hf')
  have hvalue : Canon.str (ascii "bf16") = .str (ascii "f16") := (hiff.mp hsame).value
  exact absurd (Canon.str.inj hvalue) (by decide)

end EvidenceRecord

end CompatRegistry
