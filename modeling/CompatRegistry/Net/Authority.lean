import CompatRegistry.Net.Handled

/-! The authority of the sources over whole runs. A request changes the registry only
in the epoch of the coordinator and with the boot id that its source was given last,
and a request that is answered with false has changed nothing. The generation of a
source does not fall before the source registers again, but only a profile is refused
for a lower one: the other requests of an older generation are carried out. -/

namespace CompatRegistry

open Foundation Canon

namespace Coordinator

/-! ### Boot ids -/

/-- The boot id that the last registration of the source in these requests was given. -/
def issuedBoot (source : Bytes) (past : List (Uuid × NetMessage)) : Option Uuid :=
  (past.reverse.find? fun m => decide (m.2.Registers source)).map Prod.fst

theorem issuedBoot_concat (source : Bytes) (past : List (Uuid × NetMessage)) (m : Uuid × NetMessage) :
    issuedBoot source (past ++ [m]) = if m.2.Registers source then some m.1 else issuedBoot source past := by
  unfold issuedBoot
  rw [List.reverse_append, List.reverse_singleton, List.singleton_append, List.find?_cons]
  by_cases hreg : m.2.Registers source <;> simp [hreg]

theorem issuedBoot_mem {source : Bytes} {past : List (Uuid × NetMessage)} {boot : Uuid}
    (h : issuedBoot source past = some boot) : ∃ m ∈ past, m.1 = boot := by
  obtain ⟨m, hm, rfl⟩ := Option.map_eq_some_iff.mp h
  exact ⟨m, List.mem_reverse.mp (List.mem_of_find?_eq_some hm), rfl⟩

theorem bootId_of_rel {before after : Option SourceInfo} (h : Option.Rel SourceInfo.Renews before after) :
    after.map SourceInfo.bootId = before.map SourceInfo.bootId := by
  cases h with
  | none => rfl
  | some hrenews => exact congrArg some hrenews.bootId

/-- The boot id on record is the one that was issued last. -/
theorem bootId_after (registry : Registry) (past : List (Uuid × NetMessage)) (source : Bytes) :
    ((after past { registry }).sources.lookup source).map SourceInfo.bootId = issuedBoot source past := by
  induction past using List.reverseRecOn with
  | nil => rfl
  | append_singleton past m ih =>
    have hstep := (handleRequest_facts m.1 m.2 (after past { registry })).handled.lookup_sources source
    rw [after_append, after_cons, after_nil, issuedBoot_concat]
    split_ifs at hstep ⊢ with hreg
    · rw [hstep, Option.map_some]
    · rw [← ih]
      exact bootId_of_rel hstep

/-! ### Mutations -/

/-- A mutation that changed the registry was admitted. -/
theorem admitted_of_changes {seed : Uuid} {msg : NetMessage} {s : Coordinator}
    (htype : msg.type ∈ MsgType.mutations)
    (hchange : (handleRequest seed msg s).2.registry ≠ s.registry) : notAdmitted msg s = none := by
  have hhandled := (handleRequest_facts seed msg s).handled
  generalize (handleRequest seed msg s).2 = t at hhandled hchange
  have hprofile : profileNotAdmitted msg s = none → notAdmitted msg s = none := by
    intro hadm
    obtain ⟨hepoch, info, hinfo, hboot, -⟩ := profileNotAdmitted_eq_none.mp hadm
    exact notAdmitted_eq_none.mpr ⟨hepoch, info, hinfo, hboot⟩
  cases hhandled with
  | unchanged => exact absurd rfl hchange
  | sourced => exact absurd rfl hchange
  | published type payload cast admitted => exact hprofile admitted
  | escaped type payload cast admitted => exact hprofile admitted
  | ruled type admitted => exact admitted
  | observed type admitted => exact admitted
  | retired type admitted => exact admitted
  | queried requirement type =>
    rw [type] at htype
    cases requirement <;> exact absurd htype (by decide)

/-- A value other than the default is the value of a field that is there. -/
theorem field_of_fieldOr {α : Type} {read : Canon → Option α} {c : Canon} {tag : UInt32} {dflt : α}
    (h : fieldOr read c tag dflt ≠ dflt) :
    ∃ v, c.field tag = some v ∧ read v = some (fieldOr read c tag dflt) := by
  unfold fieldOr at h ⊢
  cases hv : c.field tag with
  | none => simp [hv] at h
  | some v =>
    cases hread : read v with
    | none => simp [hv, hread] at h
    | some x => exact ⟨v, rfl, by simp [hread]⟩

theorem uint_of_fieldOr {c : Canon} {tag : UInt32} {n : UInt64} (h : fieldOr uint? c tag 0 = n) (hn : n ≠ 0) :
    c.field tag = some (.uint n) := by
  obtain ⟨v, hv, hread⟩ := field_of_fieldOr (h.trans_ne hn)
  rw [h] at hread
  cases v <;> simp [uint?] at hread
  rw [hv, hread]

theorem uuid_of_fieldUuid {msg : NetMessage} {tag : UInt32} {u : Uuid} (h : msg.fieldUuid tag = u)
    (hu : u ≠ Uuid.zero) : msg.payload.field tag = some (.uuid u) := by
  unfold NetMessage.fieldUuid at h
  obtain ⟨v, hv, hread⟩ := field_of_fieldOr (h.trans_ne hu)
  rw [h] at hread
  cases v <;> simp [uuid?] at hread
  rw [hv, hread]

/-- What is asked of every call of a run: a mutation that changes the registry
carries the epoch of the coordinator and the boot id that the last registration of
its source was given, and a call that returns false changes nothing. -/
structure Fenced (requests : List (Uuid × NetMessage)) (s : Coordinator) : Prop where
  mutations : ∀ past m rest, requests = past ++ m :: rest → m.2.type ∈ MsgType.mutations →
    (handleRequest m.1 m.2 (after past s)).2.registry ≠ (after past s).registry →
    m.2.payload.field kEpochTag = some (.uint (after past s).epoch) ∧
      ∃ boot, issuedBoot (m.2.fieldStr 1) past = some boot ∧ m.2.payload.field 2 = some (.uuid boot)
  refusals : ∀ past m rest, requests = past ++ m :: rest →
    SaysNo (handleRequest m.1 m.2 (after past s)) → (handleRequest m.1 m.2 (after past s)).2 = after past s

/-- Every run of a coordinator that starts without sources is fenced. -/
theorem run_fenced (registry : Registry) (requests : List (Uuid × NetMessage))
    (hissued : ∀ m ∈ requests, ∃ a b, m.1 = Uuid.generateV4 a b) : Fenced requests { registry } where
  mutations past m rest heq htype hchange := by
    obtain ⟨hepoch, info, hinfo, hboot⟩ := notAdmitted_eq_none.mp (admitted_of_changes htype hchange)
    have hissue : issuedBoot (m.2.fieldStr 1) past = some info.bootId := by
      rw [← bootId_after registry, hinfo, Option.map_some]
    obtain ⟨m', hm', hseed⟩ := issuedBoot_mem hissue
    obtain ⟨a, b, hab⟩ := hissued m' (by rw [heq]; exact List.mem_append_left _ hm')
    have hzero : info.bootId ≠ Uuid.zero := by
      rw [← hseed, hab]
      exact Uuid.generateV4_ne_zero a b
    have hsame : fieldOr uint? m.2.payload kEpochTag 0 = (after past { registry }).epoch := by
      simpa [staleEpoch] using hepoch
    refine ⟨uint_of_fieldOr hsame ?_, info.bootId, hissue, uuid_of_fieldUuid hboot.symm hzero⟩
    rw [after_epoch]
    show (1 : UInt64) ≠ 0
    decide
  refusals past m rest heq hno := (handleRequest_facts m.1 m.2 _).unchanged hno

def benchSource : NetMessage where
  type := .declared .registerSource
  payload := .record [(1, .str (ascii "bench")), (2, .str (ascii "*"))]

/-- A rule of the source, with a boot id and a generation. -/
def benchRule (boot : Uuid) (generation : UInt64) : NetMessage where
  type := .declared .registerRule
  payload := .record [(1, .str (ascii "bench")), (2, .uuid boot), (3, .uint generation),
    (4, .uuid (uuidOf 3)), (100, .uint 1)]

/-- A rule before a restart of its source, and one that is delayed until after it. -/
def restartRun : List (Uuid × NetMessage) :=
  [(Uuid.generateV4 1 2, benchSource), (Uuid.generateV4 3 4, benchRule (Uuid.generateV4 1 2) 1),
    (Uuid.generateV4 5 6, benchSource), (Uuid.generateV4 7 8, benchRule (Uuid.generateV4 1 2) 1)]

theorem run_fenced_restart :
    (∀ m ∈ restartRun, ∃ a b, m.1 = Uuid.generateV4 a b) ∧ Fenced restartRun {} := by
  have hissued : ∀ m ∈ restartRun, ∃ a b, m.1 = Uuid.generateV4 a b := by
    intro m hm
    simp only [restartRun, List.mem_cons, List.not_mem_nil, or_false] at hm
    obtain rfl | rfl | rfl | rfl := hm
    · exact ⟨1, 2, rfl⟩
    · exact ⟨3, 4, rfl⟩
    · exact ⟨5, 6, rfl⟩
    · exact ⟨7, 8, rfl⟩
  exact ⟨hissued, run_fenced {} restartRun hissued⟩

/-- The rule is stored before the restart and refused after it. -/
example : (trace restartRun {}).map (fun call => ((handleRequest call.2.1 call.2.2 call.1).1.map Prod.fst)) =
    [.ok true, .ok true, .ok true, .ok false] := by
  decide +kernel

/-! ### Generations -/

/-- A mutation with a generation below the one on record for its source. -/
def StaleGeneration (s : Coordinator) (msg : NetMessage) : Prop :=
  msg.type ∈ MsgType.mutations ∧ ∃ g info, msg.payload.field 3 = some (.uint g) ∧
    s.sources.lookup (msg.fieldStr 1) = some info ∧ g < info.generation

/-- The call returns false and leaves the state as it was. -/
def Refused (seed : Uuid) (msg : NetMessage) (s : Coordinator) : Prop :=
  SaysNo (handleRequest seed msg s) ∧ (handleRequest seed msg s).2 = s

/-- What is asked of a run: every mutation of a stale generation is refused, and the
generation on record for a source does not fall while it does not register. -/
structure FencesGenerations (requests : List (Uuid × NetMessage)) (s : Coordinator) : Prop where
  refused : ∀ call ∈ trace requests s, StaleGeneration call.1 call.2.2 → Refused call.2.1 call.2.2 call.1
  rising : ∀ past mid rest, requests = past ++ mid ++ rest →
    ∀ source, (∀ m ∈ mid, ¬ m.2.Registers source) →
    ∀ info, (after past s).sources.lookup source = some info →
      ∃ info', (after (past ++ mid) s).sources.lookup source = some info' ∧
        info.generation ≤ info'.generation

/-- A source keeps its entry over requests among which it does not register. -/
theorem renews_after {source : Bytes} {requests : List (Uuid × NetMessage)}
    (h : ∀ m ∈ requests, ¬ m.2.Registers source) (s : Coordinator) :
    Option.Rel SourceInfo.Renews (s.sources.lookup source) ((after requests s).sources.lookup source) := by
  refine after_induction
    (r := fun s t => Option.Rel SourceInfo.Renews (s.sources.lookup source) (t.sources.lookup source))
    (fun s => ?_) (fun s t u hst htu => ?_) (fun m hm s => ?_) s
  · cases s.sources.lookup source with
    | none => exact .none
    | some info => exact .some (.refl info)
  · revert hst htu
    generalize s.sources.lookup source = a
    generalize t.sources.lookup source = b
    generalize u.sources.lookup source = c
    intro hst htu
    cases hst with
    | none => exact htu
    | some hab =>
      cases htu with
      | some hbc => exact .some (hab.trans hbc)
  · have hstep := (handleRequest_facts m.1 m.2 s).handled.lookup_sources source
    rwa [if_neg (h m hm)] at hstep

section Guards
variable {msg : NetMessage} {s : Coordinator}

theorem saysNo_refuse (m : String) : SaysNo (refuse m s) := ⟨_, rfl⟩

theorem acknowledge_saysNo {α : Type} (op : Step α) :
    SaysNo (acknowledge op msg s) ↔ notAdmitted msg s ≠ none := by
  cases hadm : notAdmitted msg s with
  | some m =>
    rw [acknowledge_of_some hadm]
    exact iff_of_true (saysNo_refuse m) (by simp)
  | none =>
    rw [acknowledge_of_none hadm]
    exact iff_of_false (andThen_ends fun _ => reply_ends _).2 (by simp)

theorem registerProfile_saysNo (seed : Uuid) (h : profileNotAdmitted msg s ≠ none) :
    SaysNo (registerProfile seed msg s) := by
  obtain ⟨m, hm⟩ := Option.ne_none_iff_exists'.mp h
  unfold registerProfile
  split
  · rw [hm]
    exact saysNo_refuse m
  · exact saysNo_refuse _

end Guards

/-- Of the mutations with a stale generation those are refused that are profiles,
and those that are not admitted for another reason. -/
theorem refused_iff_of_stale {msg : NetMessage} {s : Coordinator} (h : StaleGeneration s msg) (seed : Uuid) :
    Refused seed msg s ↔ msg.type = .declared .registerProfile ∨ notAdmitted msg s ≠ none := by
  obtain ⟨htype, g, info, hfield, hinfo, hlt⟩ := h
  have hrefused : Refused seed msg s ↔ SaysNo (handleRequest seed msg s) :=
    and_iff_left_of_imp (handleRequest_facts seed msg s).unchanged
  have hprofile : profileNotAdmitted msg s ≠ none := by
    intro hadm
    obtain ⟨-, info', hinfo', -, hgen, -⟩ := profileNotAdmitted_eq_none.mp hadm
    obtain rfl : info = info' := Option.some.inj (hinfo.symm.trans hinfo')
    have hg : fieldOr uint? msg.payload 3 0 = g := by
      unfold fieldOr
      rw [hfield]
      rfl
    rw [hg] at hgen
    exact UInt64.not_le.mpr hlt hgen
  rw [hrefused]
  unfold handleRequest
  simp only [MsgType.mutations, List.mem_cons, List.not_mem_nil, or_false] at htype
  rcases htype with htype | htype | htype | htype <;> rw [htype]
  · exact iff_of_true (registerProfile_saysNo seed hprofile) (.inl rfl)
  · exact (acknowledge_saysNo _).trans (by simp)
  · exact (acknowledge_saysNo _).trans (by simp)
  · exact (acknowledge_saysNo _).trans (by simp)

/-- A run fences the generations exactly when each of its mutations with a stale
generation is a profile, or is out of the epoch or of the boot of its source as well. -/
theorem fencesGenerations_iff (requests : List (Uuid × NetMessage)) (s : Coordinator) :
    FencesGenerations requests s ↔ ∀ call ∈ trace requests s, StaleGeneration call.1 call.2.2 →
      call.2.2.type = .declared .registerProfile ∨ notAdmitted call.2.2 call.1 ≠ none := by
  constructor
  · intro h call hcall hstale
    exact (refused_iff_of_stale hstale call.2.1).mp (h.refused call hcall hstale)
  · intro h
    refine ⟨fun call hcall hstale => (refused_iff_of_stale hstale call.2.1).mpr (h call hcall hstale), ?_⟩
    intro past mid rest heq source hmid info hinfo
    have hrenews := renews_after hmid (after past s)
    rw [hinfo, ← after_append] at hrenews
    generalize (after (past ++ mid) s).sources.lookup source = entry at hrenews ⊢
    cases hrenews with
    | some hrenews => exact ⟨_, rfl, hrenews.generation⟩

/-- A rule of a generation that its source has left when it registered. -/
def olderRun : List (Uuid × NetMessage) := [(uuidOf 9, benchSource), (uuidOf 0, benchRule (uuidOf 9) 0)]

/-- The rule of the older generation is stored. -/
theorem not_fencesGenerations_olderRun : ¬ FencesGenerations olderRun {} := by
  intro h
  have hstale : StaleGeneration (after [(uuidOf 9, benchSource)] {}) (benchRule (uuidOf 9) 0) :=
    ⟨by decide, 0, { bootId := uuidOf 9, scope := ascii "*" }, rfl, rfl, by decide⟩
  obtain ⟨⟨m, hno⟩, -⟩ := h.refused (_, uuidOf 0, benchRule (uuidOf 9) 0) (.tail _ (.head _)) hstale
  cases hno

end Coordinator

end CompatRegistry
