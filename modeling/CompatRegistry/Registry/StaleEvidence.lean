import CompatRegistry.Registry.Operations

/-! Evidence that arrives out of order. A record replaces the retained one of its id
whatever generation its source gives, so a record that is behind is neither rejected
nor ignored. -/

namespace CompatRegistry

open Foundation

namespace Registry

/-- The records arrive one after the other. -/
def registerAll (evs : List EvidenceRecord) (s : Registry) : Registry :=
  evs.foldl (fun s ev => (registerEvidence ev s).2) s

/-- Evidence, counters and generation are as they were. -/
structure SameEvidence (s t : Registry) : Prop where
  findEvidence : ∀ id, t.findEvidence id = s.findEvidence id
  evidenceGen : t.evidenceGen = s.evidenceGen
  registryGen : t.registryGen = s.registryGen

/-- The retained record of the id and source of `ev` is of a later generation. -/
def Stale (s : Registry) (ev : EvidenceRecord) : Prop :=
  ∃ old ∈ s.findEvidence ev.id, old.source = ev.source ∧ ev.sourceGeneration < old.sourceGeneration

/-- A stale record changes nothing, and no retained record falls behind its source. -/
structure RejectsStale (s : Registry) (ev : EvidenceRecord) : Prop where
  ignored : Stale s ev → SameEvidence s (registerEvidence ev s).2
  monotone : ∀ id, ∀ old ∈ s.findEvidence id, ∀ new ∈ (registerEvidence ev s).2.findEvidence id,
    new.source = old.source → old.sourceGeneration ≤ new.sourceGeneration

/-- The record that arrived last under an id, or else the one that was retained before. -/
def previous (s : Registry) (arrived : List EvidenceRecord) (id : Uuid) : Option EvidenceRecord :=
  (arrived.reverse.find? (·.id = id)).or (s.findEvidence id)

/-- No record is behind the previous one of its id and source. -/
def InOrder (s : Registry) (evs : List EvidenceRecord) : Prop :=
  ∀ before ev after, evs = before ++ ev :: after → ∀ old ∈ s.previous before ev.id,
    old.source = ev.source → old.sourceGeneration ≤ ev.sourceGeneration

theorem findEvidence_registerEvidence (ev : EvidenceRecord) (s : Registry) (id : Uuid) :
    (registerEvidence ev s).2.findEvidence id = if id = ev.id then some ev else s.findEvidence id :=
  UMap.lookup_insert_ite ev.id id ev s.evidence

/-- The retained record is the one that arrived last. -/
theorem findEvidence_registerAll (evs : List EvidenceRecord) (s : Registry) (id : Uuid) :
    (registerAll evs s).findEvidence id = s.previous evs id := by
  induction evs using List.reverseRecOn with
  | nil => rfl
  | append_singleton evs ev ih =>
    have hlast : registerAll (evs ++ [ev]) s = (registerEvidence ev (registerAll evs s)).2 := by
      unfold registerAll
      rw [List.foldl_append]
      rfl
    rw [hlast, findEvidence_registerEvidence, ih]
    unfold previous
    rw [List.reverse_append, List.reverse_singleton, List.singleton_append]
    split_ifs with hid
    · rw [List.find?_cons_of_pos (by simpa using hid.symm)]
      rfl
    · rw [List.find?_cons_of_neg (by simpa using Ne.symm hid)]

/-- One arrival. -/
theorem rejectsStale_iff {s : Registry} {ev : EvidenceRecord} : RejectsStale s ev ↔
    ∀ old ∈ s.findEvidence ev.id, old.source = ev.source → old.sourceGeneration ≤ ev.sourceGeneration := by
  constructor
  · intro hrejects old hold hsource
    have hnew : ev ∈ (registerEvidence ev s).2.findEvidence ev.id := by
      rw [findEvidence_registerEvidence, if_pos rfl]
      rfl
    exact hrejects.monotone ev.id old hold ev hnew hsource.symm
  · intro horder
    refine ⟨?_, fun id old hold new hnew hsource => ?_⟩
    · rintro ⟨old, hold, hsource, hbehind⟩
      exact absurd hbehind (UInt64.not_lt.mpr (horder old hold hsource))
    · rw [findEvidence_registerEvidence] at hnew
      split_ifs at hnew with hid
      · cases hnew
        rw [hid] at hold
        exact horder old hold hsource.symm
      · rw [hold] at hnew
        cases hnew
        exact UInt64.le_refl _

/-- Over every sequence of arrivals in every state, stale records are rejected exactly
when there are none. -/
theorem rejectsStale_iff_inOrder (s : Registry) (evs : List EvidenceRecord) :
    (∀ before ev after, evs = before ++ ev :: after → RejectsStale (registerAll before s) ev) ↔
      InOrder s evs := by
  unfold InOrder
  refine forall₂_congr fun before ev => forall₂_congr fun after _ => ?_
  rw [rejectsStale_iff, findEvidence_registerAll]

/-- One source, which starts again with an older generation. -/
def restartedSource (generation : Generation) : EvidenceRecord :=
  { field := ascii "graph_support", value := .bool true, source := ascii "vertex-runtime"
    sourceGeneration := generation, kind := .declared .measured }

theorem not_rejectsStale_restarted : Stale (registerAll [restartedSource 5] {}) (restartedSource 3) ∧
    ¬ RejectsStale (registerAll [restartedSource 5] {}) (restartedSource 3) := by
  have hretained : restartedSource 5 ∈ (registerAll [restartedSource 5] {}).findEvidence Uuid.zero := rfl
  have hstale : Stale (registerAll [restartedSource 5] {}) (restartedSource 3) :=
    ⟨restartedSource 5, hretained, rfl, by decide⟩
  refine ⟨hstale, fun hrejects => ?_⟩
  have hgen := (hrejects.ignored hstale).registryGen
  revert hgen
  decide

end Registry

end CompatRegistry
