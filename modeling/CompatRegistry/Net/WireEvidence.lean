import CompatRegistry.Net.Scope
import CompatRegistry.Net.Frame
import CompatRegistry.Registry.StaleEvidence

/-! An evidence record on the way from a client to the registry. The request carries
the field and the value, the latter written as a record, and names its source, but
the handler stores no source, generation or subject with them. So the stored record
is attributed to nobody. -/

namespace CompatRegistry

open Foundation Canon

/-! ### The request -/

def wireEvidenceEntries (source : Bytes) (bootId : Uuid) (sourceGen epoch : UInt64) (ev : EvidenceRecord) :
    Record :=
  [(1, .str source), (2, .uuid bootId), (3, .uint sourceGen), (4, .str ev.field), (5, ev.value.forced),
    (kEpochTag, .uint epoch)]

theorem wireEvidenceEntries_isChain (source : Bytes) (bootId : Uuid) (sourceGen epoch : UInt64)
    (ev : EvidenceRecord) :
    ((wireEvidenceEntries source bootId sourceGen epoch ev).map Prod.fst).IsChain (· < ·) := by
  simp [wireEvidenceEntries, kEpochTag]

/-- `RegistryClient::register_evidence`. -/
def registerEvidenceRequest (source : Bytes) (bootId : Uuid) (sourceGen epoch : UInt64)
    (ev : EvidenceRecord) : NetMessage where
  type := .declared .registerEvidence
  payload := ofEntries (wireEvidenceEntries source bootId sourceGen epoch ev)
    (wireEvidenceEntries_isChain source bootId sourceGen epoch ev)

/-- The part of a record that arrives, under the id that it is given on arrival. -/
def EvidenceRecord.wired (seed : Uuid) (ev : EvidenceRecord) : EvidenceRecord where
  id := seed
  field := ev.field
  value := ev.value.forced

/-- What the claim of a source comes to: a record of its name and generation with
the subject, the field and the value of `ev`. -/
structure EvidenceRecord.AttributedTo (source : Bytes) (sourceGen : Generation) (ev held : EvidenceRecord) :
    Prop where
  subject : held.subject = ev.subject
  field : held.field = ev.field
  value : held.value = ev.value
  source : held.source = source
  sourceGeneration : held.sourceGeneration = sourceGen

section Request
variable {source : Bytes} {bootId : Uuid} {sourceGen epoch : UInt64} {ev : EvidenceRecord}

/-- Nothing of the source is left in a record that has arrived. -/
theorem attributedTo_wired_iff (seed : Uuid) :
    ev.AttributedTo source sourceGen (ev.wired seed) ↔
      ev.subject = Uuid.zero ∧ ev.value.forced = ev.value ∧ source = [] ∧ sourceGen = 0 := by
  constructor
  · intro h
    exact ⟨h.subject.symm, h.value, h.source.symm, h.sourceGeneration.symm⟩
  · rintro ⟨hsubject, hvalue, hsource, hgen⟩
    exact ⟨hsubject.symm, rfl, hvalue, hsource.symm, hgen.symm⟩

end Request

/-! ### Through the coordinator -/

namespace Coordinator

/-- The registry holds a record that is attributed to the source. -/
def Holds (source : Bytes) (sourceGen : Generation) (ev : EvidenceRecord) (s : Registry) : Prop :=
  ∃ id, ∃ held ∈ s.findEvidence id, ev.AttributedTo source sourceGen held

section Accepted
variable {source : Bytes} {bootId : Uuid} {sourceGen epoch : UInt64} {ev : EvidenceRecord} {seed : Uuid}
  {s : Coordinator} {resp : NetMessage}

theorem registry_of_accepted
    (haccept : (handleRequest seed (registerEvidenceRequest source bootId sourceGen epoch ev) s).1 =
      .ok (true, resp)) :
    (handleRequest seed (registerEvidenceRequest source bootId sourceGen epoch ev) s).2.registry =
      (Registry.registerEvidence (ev.wired seed) s.registry).2 := by
  have hhandler : handleRequest seed (registerEvidenceRequest source bootId sourceGen epoch ev) =
      acknowledge (Registry.registerEvidence (ev.wired seed))
        (registerEvidenceRequest source bootId sourceGen epoch ev) := rfl
  rw [hhandler] at haccept ⊢
  cases hadm : notAdmitted (registerEvidenceRequest source bootId sourceGen epoch ev) s with
  | none =>
    rw [acknowledge_of_none hadm]
    rfl
  | some m =>
    rw [acknowledge_of_some hadm] at haccept
    cases haccept

/-- An accepted record is attributed to its source afterwards exactly when the registry
held such a record before, under another id, or there was nothing to attribute. -/
theorem holds_accepted_iff
    (haccept : (handleRequest seed (registerEvidenceRequest source bootId sourceGen epoch ev) s).1 =
      .ok (true, resp)) :
    Holds source sourceGen ev
        (handleRequest seed (registerEvidenceRequest source bootId sourceGen epoch ev) s).2.registry ↔
      (∃ id ≠ seed, ∃ held ∈ s.registry.findEvidence id, ev.AttributedTo source sourceGen held) ∨
        ev.subject = Uuid.zero ∧ ev.value.forced = ev.value ∧ source = [] ∧ sourceGen = 0 := by
  unfold Holds
  rw [registry_of_accepted haccept, ← attributedTo_wired_iff seed]
  simp only [Registry.findEvidence_registerEvidence]
  constructor
  · rintro ⟨id, held, hheld, hattr⟩
    split_ifs at hheld with hid
    · cases hheld
      exact .inr hattr
    · exact .inl ⟨id, hid, held, hheld, hattr⟩
  · rintro (⟨id, hid, held, hheld, hattr⟩ | hattr)
    · refine ⟨id, held, ?_, hattr⟩
      rw [EvidenceRecord.wired, if_neg hid]
      exact hheld
    · exact ⟨seed, ev.wired seed, if_pos rfl, hattr⟩

end Accepted

def clockEvidence : EvidenceRecord where
  subject := uuidOf 5
  field := ascii "clock"
  value := .record [(1, .uint 1000)]

/-- A registry that has the evidence of the source from elsewhere, before the source sends it. -/
def informed : Registry :=
  (Registry.registerEvidence
    { clockEvidence with id := uuidOf 7, source := ascii "bench", sourceGeneration := 1 } {}).2

theorem holds_accepted_informed :
    Holds (ascii "bench") 1 clockEvidence
      (handleRequest (uuidOf 1) (registerEvidenceRequest (ascii "bench") (uuidOf 9) 1 1 clockEvidence)
        (after [(uuidOf 9, deviceSource)] { registry := informed })).2.registry := by
  have haccept : (handleRequest (uuidOf 1)
      (registerEvidenceRequest (ascii "bench") (uuidOf 9) 1 1 clockEvidence)
      (after [(uuidOf 9, deviceSource)] { registry := informed })).1 = .ok (true, { payload := ackRec }) := rfl
  apply (holds_accepted_iff haccept).mpr
  exact .inl ⟨uuidOf 7, by decide, _, rfl, ⟨rfl, rfl, rfl, rfl, rfl⟩⟩

/-- The first evidence of a source is accepted, and stored without its subject and source. -/
theorem not_holds_first : ∃ resp,
    (handleRequest (uuidOf 1) (registerEvidenceRequest (ascii "bench") (uuidOf 9) 1 1 clockEvidence)
      (after [(uuidOf 9, deviceSource)] {})).1 = .ok (true, resp) ∧
    ¬ Holds (ascii "bench") 1 clockEvidence
      (handleRequest (uuidOf 1) (registerEvidenceRequest (ascii "bench") (uuidOf 9) 1 1 clockEvidence)
        (after [(uuidOf 9, deviceSource)] {})).2.registry := by
  have haccept : (handleRequest (uuidOf 1)
      (registerEvidenceRequest (ascii "bench") (uuidOf 9) 1 1 clockEvidence)
      (after [(uuidOf 9, deviceSource)] {})).1 = .ok (true, { payload := ackRec }) := rfl
  refine ⟨_, haccept, ?_⟩
  rintro ⟨id, held, hheld, hattr⟩
  rw [registry_of_accepted haccept, Registry.findEvidence_registerEvidence] at hheld
  split_ifs at hheld with hid
  · cases hheld
    exact absurd hattr.source (by decide)
  · cases hheld

end Coordinator

end CompatRegistry
