import CompatRegistry.Registry.Reachable
import CompatRegistry.Foundation.Aging

/-! The histories of profiles over a run. A history only grows at its end, by a
record of the next generation; an older record keeps its contents, and its flags only
go from active to inactive and from current to superseded. -/

namespace CompatRegistry

open Foundation Canon

/-- The same record later on. -/
structure ProfileRecord.Aged (p q : ProfileRecord) : Prop where
  contents : q = { p with active := q.active, superseded := q.superseded }
  active : q.active = true → p.active = true
  superseded : p.superseded = true → q.superseded = true

namespace ProfileRecord

theorem Aged.refl (p : ProfileRecord) : Aged p p := ⟨rfl, fun h => h, fun h => h⟩

theorem Aged.trans (p q r : ProfileRecord) (h₁ : Aged p q) (h₂ : Aged q r) : Aged p r where
  contents := by
    have h := h₂.contents
    rw [h₁.contents] at h
    exact h
  active h := h₁.active (h₂.active h)
  superseded h := h₂.superseded (h₁.superseded h)

theorem aged_deactivate (p : ProfileRecord) : Aged p p.deactivate where
  contents := by
    unfold deactivate
    split_ifs <;> rfl
  active h := by
    rw [deactivate_active] at h
    cases h
  superseded h := by
    unfold deactivate
    split_ifs
    · rfl
    · exact h

theorem aged_retire (p : ProfileRecord) : Aged p p.retire where
  contents := rfl
  active h := by cases h
  superseded _ := rfl

end ProfileRecord

/-- The record at index `i` has generation `i + 1`, and only the last one can be active. -/
structure WellKept (records : List ProfileRecord) : Prop where
  generation : ∀ (i : ℕ) (p : ProfileRecord), records[i]? = some p → p.generation = UInt64.ofNat (i + 1)
  active : ∀ (i : ℕ) (p : ProfileRecord), records[i]? = some p → p.active = true → i + 1 = records.length

namespace WellKept

theorem nil : WellKept [] where
  generation i p h := by simp at h
  active i p h := by simp at h

theorem map {records : List ProfileRecord} (h : WellKept records) {f : ProfileRecord → ProfileRecord}
    (hgeneration : ∀ p, (f p).generation = p.generation)
    (hactive : ∀ p, (f p).active = true → p.active = true) : WellKept (records.map f) where
  generation i p hp := by
    rw [List.getElem?_map] at hp
    obtain ⟨q, hq, rfl⟩ := Option.map_eq_some_iff.mp hp
    exact (hgeneration q).trans (h.generation i q hq)
  active i p hp hactive' := by
    rw [List.getElem?_map] at hp
    obtain ⟨q, hq, rfl⟩ := Option.map_eq_some_iff.mp hp
    rw [List.length_map]
    exact h.active i q hq (hactive q hactive')

/-- A record of the next generation goes behind records none of which is active. -/
theorem append {records : List ProfileRecord} (h : WellKept records)
    (hinactive : ∀ p ∈ records, p.active = false) {record : ProfileRecord}
    (hgeneration : record.generation = UInt64.ofNat (records.length + 1)) :
    WellKept (records ++ [record]) where
  generation i p hp := by
    rcases lt_trichotomy i records.length with hi | hi | hi
    · rw [List.getElem?_append_left hi] at hp
      exact h.generation i p hp
    · subst hi
      rw [List.getElem?_concat_length, Option.some.injEq] at hp
      rw [← hp, hgeneration]
    · rw [List.getElem?_eq_none (by simp; omega)] at hp
      cases hp
  active i p hp hactive := by
    rw [List.length_append, List.length_singleton]
    by_cases hi : i < records.length
    · rw [List.getElem?_append_left hi] at hp
      rw [hinactive p (List.mem_of_getElem? hp)] at hactive
      cases hactive
    · have hlt := (List.getElem?_eq_some_iff.mp hp).1
      rw [List.length_append, List.length_singleton] at hlt
      omega

end WellKept

namespace Registry

/-! ### What an effect does to a history -/

theorem Prepared.historyOf {id : Uuid} {s t : Registry} (h : Prepared id s t) (id' : Uuid) :
    t.historyOf id' =
      if id' = id then (s.historyOf id).map ProfileRecord.deactivate else s.historyOf id' := by
  obtain ⟨d, r, rfl⟩ := h.eq
  exact historyOf_deactivateAll id id' s

theorem historyOf_invalidateWith (id : Uuid) (reason : Bytes) (s : Registry) (id' : Uuid) :
    (invalidateWith id reason s).historyOf id' =
      if id' = id then (s.historyOf id).map ProfileRecord.retire else s.historyOf id' := by
  unfold invalidateWith
  cases hl : s.profiles.lookup id with
  | none =>
    split_ifs with hid
    · subst hid
      simp [Registry.historyOf, hl]
    · rfl
  | some hist =>
    apply (historyOf_insert id id' _ s).trans
    split_ifs
    · simp [Registry.historyOf, hl]
    · rfl

theorem nextGeneration_eq {s : Registry} {id : Uuid} (h : WellKept (s.historyOf id)) :
    nextGeneration (s.profiles.lookup id) = UInt64.ofNat ((s.historyOf id).length + 1) := by
  cases hl : s.profiles.lookup id with
  | none => simp [nextGeneration, Registry.historyOf, hl]
  | some hist =>
    have hrecords : s.historyOf id = hist.records := by simp [Registry.historyOf, hl]
    have hlast : hist.records[hist.records.length - 1]? = some hist.back := by
      rw [← List.getLast?_eq_getElem?]
      exact List.getLast?_eq_some_getLast hist.nonempty
    have hpos := List.length_pos_iff.mpr hist.nonempty
    rw [hrecords] at h ⊢
    rw [nextGeneration, h.generation _ _ hlast, Nat.sub_add_cancel hpos]
    exact (UInt64.ofNat_add _ 1).symm

/-- What a step may do to the history of an id. -/
structure HistoryStep (old new : List ProfileRecord) : Prop where
  grows : Grows ProfileRecord.Aged old new
  kept : WellKept old → WellKept new

theorem HistoryStep.refl (records : List ProfileRecord) : HistoryStep records records :=
  ⟨Grows.refl ProfileRecord.Aged.refl records, id⟩

theorem HistoryStep.trans {l₁ l₂ l₃ : List ProfileRecord} (h₁ : HistoryStep l₁ l₂)
    (h₂ : HistoryStep l₂ l₃) : HistoryStep l₁ l₃ :=
  ⟨h₁.grows.trans ProfileRecord.Aged.trans h₂.grows, fun h => h₂.kept (h₁.kept h)⟩

theorem historyStep_deactivate (records : List ProfileRecord) :
    HistoryStep records (records.map ProfileRecord.deactivate) where
  grows := Grows.map ProfileRecord.aged_deactivate records
  kept h := h.map (fun p => by rw [(ProfileRecord.aged_deactivate p).contents])
    fun p => (ProfileRecord.aged_deactivate p).active

theorem historyStep_retire (records : List ProfileRecord) :
    HistoryStep records (records.map ProfileRecord.retire) where
  grows := Grows.map ProfileRecord.aged_retire records
  kept h := h.map (fun _ => rfl) fun p => (ProfileRecord.aged_retire p).active

theorem Prepared.historyStep {id : Uuid} {s t : Registry} (h : Prepared id s t) (id' : Uuid) :
    HistoryStep (s.historyOf id') (t.historyOf id') := by
  rw [h.historyOf]
  split_ifs with hid
  · rw [hid]
    exact historyStep_deactivate _
  · exact HistoryStep.refl _

theorem invalidateWith_historyStep (id : Uuid) (reason : Bytes) (s : Registry) (id' : Uuid) :
    HistoryStep (s.historyOf id') ((invalidateWith id reason s).historyOf id') := by
  rw [historyOf_invalidateWith]
  split_ifs with hid
  · rw [hid]
    exact historyStep_retire _
  · exact HistoryStep.refl _

theorem propagateLoop_historyStep (reverse : UMap Uuid (List Uuid)) (stack seen : List Uuid)
    (s : Registry) (id' : Uuid) :
    HistoryStep (s.historyOf id') ((propagateLoop reverse stack seen s).historyOf id') :=
  propagateLoop_related (R := fun s t => HistoryStep (s.historyOf id') (t.historyOf id'))
    (fun _ => HistoryStep.refl _) HistoryStep.trans (fun id s => invalidateWith_historyStep id propagateReason s id')
    reverse stack seen s

theorem appendRecord_historyStep {record : ProfileRecord} {s t : Registry}
    (hprepared : Prepared record.id s t)
    (hgeneration : record.generation = nextGeneration (s.profiles.lookup record.id)) (id' : Uuid) :
    HistoryStep (s.historyOf id') ((appendRecord record t).historyOf id') := by
  rw [historyOf_appendRecord]
  split_ifs with hid
  · subst hid
    rw [hprepared.historyOf, if_pos rfl]
    have hstep := historyStep_deactivate (s.historyOf record.id)
    refine ⟨hstep.grows.append _, fun h => (hstep.kept h).append ?_ ?_⟩
    · intro p hp
      obtain ⟨q, -, rfl⟩ := List.mem_map.mp hp
      exact ProfileRecord.deactivate_active q
    · rw [hgeneration, nextGeneration_eq h, List.length_map]
  · exact hprepared.historyStep id'

theorem Effect.historyStep {s t : Registry} (he : Effect s t) (id : Uuid) :
    HistoryStep (s.historyOf id) (t.historyOf id) := by
  cases he with
  | unchanged => exact HistoryStep.refl _
  | rejected prepared cyclic => exact prepared.historyStep id
  | appended prepared sound generation acyclic => exact appendRecord_historyStep prepared generation id
  | retired id' reason known => exact invalidateWith_historyStep id' reason s id
  | propagated id' => exact propagateLoop_historyStep s.reverse [id'] [] s id
  | ruleStored => exact HistoryStep.refl _
  | evidenceStored => exact HistoryStep.refl _
  | policySet => exact HistoryStep.refl _
  | decided => exact HistoryStep.refl _

/-! ### Runs -/

theorem runOps_historyStep {ops : List Op} (hops : ∀ op ∈ ops, op.WF) {s : Registry} (h : Inv s)
    (id : Uuid) : HistoryStep (s.historyOf id) ((runOps ops s).historyOf id) := by
  induction ops generalizing s with
  | nil => exact HistoryStep.refl _
  | cons op ops ih =>
    obtain ⟨hop, hops⟩ := List.forall_mem_cons.mp hops
    exact ((Op.run_effect hop h).historyStep id).trans (ih hops (Op.run_inv hop h))

theorem Reachable.wellKept {s : Registry} (h : Reachable s) (id : Uuid) : WellKept (s.historyOf id) := by
  induction h with
  | empty => exact WellKept.nil
  | step op hop hs ih => exact ((Op.run_effect hop hs.inv).historyStep id).kept ih
  | reorder _ hst ih =>
    rw [hst.historyOf]
    exact ih
  | recover hs hsnap ht ih =>
    obtain ⟨rfl, -, -, -⟩ := (recover_snapshot hs.inv).mp ⟨_, hsnap, ht⟩
    rw [historyOf_restored hs.inv]
    exact ih.map (fun _ => rfl) fun _ h => h

/-- In every reachable state the histories are well kept and their fingerprints are
those of the payloads, and every later call only appends to them and ages them. -/
theorem histories_over_runs {s : Registry} (h : Reachable s) (id : Uuid) :
    WellKept (s.historyOf id) ∧
    (∀ p ∈ s.historyOf id, canonicalFingerprintHex p.payload = .ok p.fingerprint) ∧
    ∀ ops : List Op, (∀ op ∈ ops, op.WF) →
      Grows ProfileRecord.Aged (s.historyOf id) ((runOps ops s).historyOf id) := by
  refine ⟨h.wellKept id, fun p hp => ?_, fun ops hops => (runOps_historyStep hops h.inv id).grows⟩
  have hsound := h.inv.profiles id p hp
  rw [canonicalFingerprintHex_of_wf hsound.wf, hsound.fingerprint]

/-- A profile and its second generation. -/
theorem histories_over_runs_superseded :
    WellKept ((runOps [.registerProfile (uuidOf 1) (.declared .model) (.record []) [] [],
      .supersedeProfile (.declared .model) (uuidOf 1) (.bool true) [] []] {}).historyOf (uuidOf 1)) := by
  refine (histories_over_runs (runOps_reachable ?_ Reachable.empty) (uuidOf 1)).1
  simp [Op.WF, WF, WFRecord, SortedMap.Sorted]

end Registry

end CompatRegistry
