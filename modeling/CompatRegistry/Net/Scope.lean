import CompatRegistry.Net.Handled
import CompatRegistry.Net.NoEscape
import CompatRegistry.Registry.Histories

/-! What a source with a scope can publish. The scope is compared with the domain
that a profile request states, never with the kind that the profile is stored under,
and not at all with the domain of a rule. -/

namespace CompatRegistry

open Foundation Canon

namespace Registry

/-! ### What is new in a registry -/

/-- The records that `t` has in the history of the profile and `s` has not. -/
def newRecords (s t : Registry) (id : Uuid) : List ProfileRecord :=
  (t.historyOf id).drop (s.historyOf id).length

theorem newRecords_of_length {s t : Registry} {id : Uuid}
    (h : (t.historyOf id).length = (s.historyOf id).length) : newRecords s t id = [] := by
  rw [newRecords, ← h, List.drop_length]

theorem length_historyOf_invalidateProfile (id : Uuid) (reason : Bytes) (s : Registry) (id' : Uuid) :
    ((invalidateProfile id reason s).2.historyOf id').length = (s.historyOf id').length := by
  unfold invalidateProfile
  cases s.profiles.lookup id with
  | none => rfl
  | some hist =>
    show ((invalidateWith id reason s).historyOf id').length = _
    rw [historyOf_invalidateWith]
    split_ifs with hid
    · rw [List.length_map, hid]
    · rfl

theorem length_historyOf_deactivateAll (id : Uuid) (s : Registry) (id' : Uuid) :
    ((deactivateAll id s).historyOf id').length = (s.historyOf id').length := by
  rw [historyOf_deactivateAll]
  split_ifs with hid
  · rw [List.length_map, hid]
  · rfl

/-- Only the history of the identity that the call is given gets longer. -/
theorem length_historyOf_registerProfile (seed : Uuid) (kind : Enum8 ProfileKind) (payload : Canon)
    (deps : List Uuid) (provenance : Bytes) (s : Registry) {id : Uuid} (hid : id ≠ seed) :
    ((registerProfile seed kind payload deps provenance s).2.historyOf id).length =
      (s.historyOf id).length := by
  unfold registerProfile
  cases hfp : canonicalFingerprintHex payload with
  | error e => rfl
  | ok fingerprint =>
    unfold registerRecord
    simp only [hfp]
    split_ifs
    · rfl
    · exact length_historyOf_deactivateAll seed s id
    · rw [historyOf_appendRecord, if_neg hid]
      exact length_historyOf_deactivateAll seed s id

theorem newRecords_appendRecord (p : ProfileRecord) (s : Registry) (id : Uuid) :
    newRecords s (appendRecord p (deactivateAll p.id s)) id = if id = p.id then [p] else [] := by
  rw [newRecords, historyOf_appendRecord]
  split_ifs with hid
  · rw [hid, ← length_historyOf_deactivateAll p.id s p.id, List.drop_left]
  · rw [← length_historyOf_deactivateAll p.id s id, List.drop_length]

/-- A profile is only stored under the kind that the call names. -/
theorem registerProfile_newRecords (seed : Uuid) (kind : Enum8 ProfileKind) (payload : Canon)
    (deps : List Uuid) (provenance : Bytes) (s : Registry) (id : Uuid) :
    ∀ p ∈ newRecords s (registerProfile seed kind payload deps provenance s).2 id, p.kind = kind := by
  have hnone : ∀ {t : Registry}, (t.historyOf id).length = (s.historyOf id).length →
      ∀ p ∈ newRecords s t id, p.kind = kind := by
    intro t ht
    rw [newRecords_of_length ht]
    exact List.forall_mem_nil _
  unfold registerProfile
  cases hfp : canonicalFingerprintHex payload with
  | error e => exact hnone rfl
  | ok fingerprint =>
    unfold registerRecord
    simp only [hfp]
    split_ifs with hsame hcycle
    · exact hnone rfl
    · exact hnone (length_historyOf_deactivateAll seed s id)
    · intro p hp
      rw [newRecords_appendRecord] at hp
      split_ifs at hp with hid
      · rw [List.mem_singleton.mp hp]
      · cases hp

/-- In a registry without edges a profile is stored under a fresh identity. -/
theorem registerProfile_fresh {s : Registry} (hdeps : s.deps = ∅) {seed : Uuid}
    (hfresh : s.historyOf seed = []) (kind : Enum8 ProfileKind) {payload : Canon} (hp : payload.WF)
    (provenance : Bytes) :
    newRecords s (registerProfile seed kind payload [] provenance s).2 seed ≠ [] := by
  have hnone : s.profiles.lookup seed = none := by
    unfold historyOf at hfresh
    cases hl : s.profiles.lookup seed with
    | none => rfl
    | some hist =>
      rw [hl] at hfresh
      exact absurd hfresh hist.nonempty
  have hcycle : createCycle seed [] (deactivateAll seed s) = false := createCycle_nil hdeps seed
  unfold registerProfile registerRecord
  simp only [canonicalFingerprintHex_of_wf hp, hnone, Option.any_none, Bool.false_eq_true, if_false, hcycle]
  rw [newRecords_appendRecord, if_pos rfl]
  exact List.cons_ne_nil _ _

theorem registerProfile_rules (seed : Uuid) (kind : Enum8 ProfileKind) (payload : Canon)
    (deps : List Uuid) (provenance : Bytes) (s : Registry) :
    (registerProfile seed kind payload deps provenance s).2.rules = s.rules := by
  unfold registerProfile
  cases hfp : canonicalFingerprintHex payload with
  | error e => rfl
  | ok fingerprint =>
    unfold registerRecord
    simp only [hfp]
    split_ifs
    · rfl
    · rfl
    · obtain ⟨d, r, heq⟩ := appendRecord_eq _ (deactivateAll seed s)
      rw [heq]
      rfl

theorem invalidateProfile_rules (id : Uuid) (reason : Bytes) (s : Registry) :
    (invalidateProfile id reason s).2.rules = s.rules := by
  unfold invalidateProfile
  cases s.profiles.lookup id with
  | none => rfl
  | some hist =>
    obtain ⟨p, i, heq⟩ := invalidateWith_eq id reason s
    simp only [heq]

/-- An evaluation changes only the cache. -/
theorem evaluateWith_eq (requirement : Bool) (left right : Uuid) (s : Registry) :
    ∃ d, (evaluateWith requirement left right s).2 = { s with decisions := d } := by
  unfold evaluateWith
  cases evaluateLocked s left right requirement with
  | error e => exact ⟨s.decisions, rfl⟩
  | ok d => exact ⟨_, rfl⟩

/-- The rule that a call stores. -/
def stored (rule : CompatibilityRule) (s : Registry) : RuleRecord :=
  { rule := { rule with generation := assignedGeneration rule s } }

theorem lookup_registerRule (rule : CompatibilityRule) (s : Registry) (id : Uuid) :
    (registerRule rule s).2.rules.lookup id =
      if id = rule.ruleId then some (stored rule s) else s.rules.lookup id :=
  UMap.lookup_insert_ite rule.ruleId id (stored rule s) s.rules

/-- A rule without a generation does not repeat the rule that it replaces. -/
theorem stored_ne_predecessor {rule : CompatibilityRule} (hgen : rule.generation = 0) (s : Registry) :
    s.rules.lookup rule.ruleId ≠ some (stored rule s) := by
  intro h
  have hpred : predecessor rule s = some (stored rule s) := by
    unfold predecessor
    rw [h]
    rfl
  have hnext : (stored rule s).rule.generation = (stored rule s).rule.generation + 1 := by
    conv_lhs => unfold stored assignedGeneration
    simp [hgen, hpred]
  simp at hnext

end Registry

namespace Coordinator

/-! ### One call -/

/-- A profile or a rule that a call of the source stores is of its scope. -/
structure WithinScope (seed : Uuid) (msg : NetMessage) (s : Coordinator) (scope : Bytes) : Prop where
  profiles : ∀ id, ∀ p ∈ Registry.newRecords s.registry (handleRequest seed msg s).2.registry id,
    profileKindName p.kind = scope
  rules : ∀ id rr, (handleRequest seed msg s).2.registry.rules.lookup id = some rr →
    s.registry.rules.lookup id ≠ some rr → rr.rule.domain = scope

/-- An admitted profile states a kind of the scope, and an admitted rule its domain. -/
structure StatesScope (msg : NetMessage) (s : Coordinator) (scope : Bytes) : Prop where
  kind : msg.type = .declared .registerProfile → profileNotAdmitted msg s = none →
    ∀ prof kind, msg.payload.field 5 = some (.record prof) → msg.payload.field 6 = some (.uint kind) →
      profileKindName (Enum8.cast kind) = scope
  domain : msg.type = .declared .registerRule → notAdmitted msg s = none → msg.fieldStr 7 = scope

/-- The source of the request is known, and its scope is not the wildcard. -/
def Scoped (msg : NetMessage) (s : Coordinator) (scope : Bytes) : Prop :=
  ∃ info, s.sources.lookup (msg.fieldStr 1) = some info ∧ info.scope = scope ∧ scope ≠ ascii "*"

theorem profiles_of_states {msg : NetMessage} {s : Coordinator} {scope : Bytes}
    (h : StatesScope msg s scope) (seed id : Uuid) :
    ∀ p ∈ Registry.newRecords s.registry (handleRequest seed msg s).2.registry id,
      profileKindName p.kind = scope := by
  have hhandled := (handleRequest_facts seed msg s).handled
  generalize (handleRequest seed msg s).2 = t at hhandled ⊢
  have hkeep : (t.registry.historyOf id).length = (s.registry.historyOf id).length →
      ∀ p ∈ Registry.newRecords s.registry t.registry id, profileKindName p.kind = scope := by
    intro ht
    rw [Registry.newRecords_of_length ht]
    exact List.forall_mem_nil _
  have hstored : ∀ {kind : UInt64} {prof : Record}, profileKindName (Enum8.cast kind) = scope →
      ∀ p ∈ Registry.newRecords s.registry
        (Registry.registerProfile seed (Enum8.cast kind) (.record prof) [] [] s.registry).2 id,
        profileKindName p.kind = scope := by
    intro kind prof hkind p hp
    rw [Registry.registerProfile_newRecords seed _ _ [] [] s.registry id p hp]
    exact hkind
  cases hhandled with
  | unchanged => exact hkeep rfl
  | sourced => exact hkeep rfl
  | published type payload cast admitted => exact hstored (h.kind type admitted _ _ payload cast)
  | escaped type payload cast admitted => exact hstored (h.kind type admitted _ _ payload cast)
  | ruled => exact hkeep rfl
  | observed => exact hkeep rfl
  | retired => exact hkeep (Registry.length_historyOf_invalidateProfile _ _ s.registry id)
  | queried requirement =>
    obtain ⟨d, heq⟩ := Registry.evaluateWith_eq requirement (msg.fieldUuid 1) (msg.fieldUuid 2) s.registry
    rw [heq] at hkeep ⊢
    exact hkeep rfl

theorem rules_of_states {msg : NetMessage} {s : Coordinator} {scope : Bytes}
    (h : StatesScope msg s scope) (seed id : Uuid) (rr : RuleRecord)
    (hnew : (handleRequest seed msg s).2.registry.rules.lookup id = some rr)
    (hold : s.registry.rules.lookup id ≠ some rr) : rr.rule.domain = scope := by
  have hhandled := (handleRequest_facts seed msg s).handled
  generalize (handleRequest seed msg s).2 = t at hhandled hnew
  have hkeep : t.registry.rules = s.registry.rules → rr.rule.domain = scope := by
    intro ht
    rw [ht] at hnew
    exact absurd hnew hold
  cases hhandled with
  | unchanged => exact hkeep rfl
  | sourced => exact hkeep rfl
  | published => exact hkeep (Registry.registerProfile_rules seed _ _ [] [] s.registry)
  | escaped => exact hkeep (Registry.registerProfile_rules seed _ _ [] [] s.registry)
  | ruled type admitted =>
    rw [Registry.lookup_registerRule] at hnew
    split_ifs at hnew with hid
    · obtain rfl := Option.some.inj hnew
      exact h.domain type admitted
    · exact absurd hnew hold
  | observed => exact hkeep rfl
  | retired => exact hkeep (Registry.invalidateProfile_rules _ _ s.registry)
  | queried requirement =>
    obtain ⟨d, heq⟩ := Registry.evaluateWith_eq requirement (msg.fieldUuid 1) (msg.fieldUuid 2) s.registry
    rw [heq] at hkeep
    exact hkeep rfl

theorem withinScope_of_states {msg : NetMessage} {s : Coordinator} {scope : Bytes}
    (h : StatesScope msg s scope) (seed : Uuid) : WithinScope seed msg s scope :=
  ⟨profiles_of_states h seed, rules_of_states h seed⟩

/-- With a fresh identity, and without edges in the registry, the two agree. -/
theorem states_of_withinScope {seed : Uuid} {msg : NetMessage} {s : Coordinator} {scope : Bytes}
    (hdeps : s.registry.deps = ∅) (hfresh : s.registry.historyOf seed = []) (hmsg : msg.payload.WF)
    (h : WithinScope seed msg s scope) : StatesScope msg s scope := by
  constructor
  · intro htype hadm prof kind hprof hkind
    have hwf : (Canon.record prof).WF := field_wf hmsg hprof
    have hregistry : (handleRequest seed msg s).2.registry =
        (Registry.registerProfile seed (Enum8.cast kind) (.record prof) [] [] s.registry).2 := by
      unfold handleRequest
      rw [htype]
      simp only [registerProfile, hprof, hkind, hadm]
      obtain ⟨e, -, heq⟩ | ⟨pid, -, heq⟩ := andThen_cases
        (Registry.registerProfile seed (Enum8.cast kind) (.record prof) [] [])
        (fun pid s => reply (ofEntries [(1, .uuid pid)]) (setGeneration msg s)) s
      · rw [heq]
      · rw [heq]
        rfl
    have hprofiles := h.profiles seed
    rw [hregistry] at hprofiles
    obtain ⟨p, hp⟩ := List.exists_mem_of_ne_nil _
      (Registry.registerProfile_fresh hdeps hfresh (Enum8.cast kind) hwf [])
    rw [← Registry.registerProfile_newRecords seed _ _ [] [] s.registry seed p hp]
    exact hprofiles p hp
  · intro htype hadm
    have hregistry : (handleRequest seed msg s).2.registry =
        (Registry.registerRule (wireRule msg) s.registry).2 := by
      unfold handleRequest
      rw [htype]
      simp only [registerRule, acknowledge_of_none hadm]
      rfl
    have hrules := h.rules (wireRule msg).ruleId (Registry.stored (wireRule msg) s.registry)
    rw [hregistry, Registry.lookup_registerRule, if_pos rfl] at hrules
    exact hrules rfl (Registry.stored_ne_predecessor rfl s.registry)

/-! ### Runs -/

/-- Whatever a scoped source causes to be stored in the run is of its scope. -/
def PublishesWithinScope (requests : List (Uuid × NetMessage)) (s : Coordinator) : Prop :=
  ∀ call ∈ trace requests s, ∀ scope, Scoped call.2.2 call.1 scope →
    WithinScope call.2.1 call.2.2 call.1 scope

/-- Identities are drawn afresh, from a state without edges. -/
structure DrawnAfresh (requests : List (Uuid × NetMessage)) (s : Coordinator) : Prop where
  inv : Inv s
  payloads : ∀ m ∈ requests, m.2.payload.WF
  once : (requests.map Prod.fst).Nodup
  unused : ∀ m ∈ requests, s.registry.historyOf m.1 = []

theorem historyOf_handleRequest {seed id : Uuid} {msg : NetMessage} {s : Coordinator} (hid : id ≠ seed) :
    ((handleRequest seed msg s).2.registry.historyOf id).length = (s.registry.historyOf id).length := by
  have hhandled := (handleRequest_facts seed msg s).handled
  generalize (handleRequest seed msg s).2 = t at hhandled ⊢
  cases hhandled with
  | unchanged => rfl
  | sourced => rfl
  | published => exact Registry.length_historyOf_registerProfile seed _ _ [] [] s.registry hid
  | escaped => exact Registry.length_historyOf_registerProfile seed _ _ [] [] s.registry hid
  | ruled => rfl
  | observed => rfl
  | retired => exact Registry.length_historyOf_invalidateProfile _ _ s.registry id
  | queried requirement =>
    obtain ⟨d, heq⟩ := Registry.evaluateWith_eq requirement (msg.fieldUuid 1) (msg.fieldUuid 2) s.registry
    rw [heq]
    rfl

/-- The identity of a call has no history when the call is made. -/
theorem DrawnAfresh.call {requests : List (Uuid × NetMessage)} {s : Coordinator}
    (h : DrawnAfresh requests s) : ∀ call ∈ trace requests s,
      call.1.registry.deps = ∅ ∧ call.1.registry.historyOf call.2.1 = [] ∧ call.2.2.payload.WF := by
  induction requests generalizing s with
  | nil => exact List.forall_mem_nil _
  | cons m requests ih =>
    obtain ⟨hm, hpayloads⟩ := List.forall_mem_cons.mp h.payloads
    obtain ⟨hunused, hrest⟩ := List.forall_mem_cons.mp h.unused
    obtain ⟨hnotMem, honce⟩ := List.nodup_cons.mp h.once
    rw [trace, List.forall_mem_cons]
    refine ⟨⟨h.inv.deps, hunused, hm⟩, ih ⟨(handleRequest_isOk h.inv hm m.1).2, hpayloads, honce, ?_⟩⟩
    intro m' hm'
    have hne : m'.1 ≠ m.1 := fun heq => hnotMem (List.mem_map.mpr ⟨m', hm', heq⟩)
    rw [← List.length_eq_zero_iff, historyOf_handleRequest hne, hrest m' hm']
    rfl

/-- In a run in which every admitted profile of a scoped source states a kind of the
scope, and every admitted rule its domain, all that is stored is within scope; and in
a run that draws its identities afresh nothing less will do. -/
theorem publishesWithinScope_of_states (requests : List (Uuid × NetMessage)) (s : Coordinator) :
    ((∀ call ∈ trace requests s, ∀ scope, Scoped call.2.2 call.1 scope →
        StatesScope call.2.2 call.1 scope) → PublishesWithinScope requests s) ∧
    (DrawnAfresh requests s → PublishesWithinScope requests s →
      ∀ call ∈ trace requests s, ∀ scope, Scoped call.2.2 call.1 scope →
        StatesScope call.2.2 call.1 scope) := by
  constructor
  · intro h call hcall scope hscoped
    exact withinScope_of_states (h call hcall scope hscoped) call.2.1
  · intro hdrawn h call hcall scope hscoped
    obtain ⟨hdeps, hfresh, hwf⟩ := hdrawn.call call hcall
    exact states_of_withinScope hdeps hfresh hwf (h call hcall scope hscoped)

/-! ### Runs of a source for devices -/

def deviceSource : NetMessage where
  type := .declared .registerSource
  payload := .record [(1, .str (ascii "bench")), (2, .str (ascii "device"))]

def domainRule (domain : String) : NetMessage where
  type := .declared .registerRule
  payload := .record [(1, .str (ascii "bench")), (2, .uuid (uuidOf 9)), (4, .uuid (uuidOf 3)),
    (7, .str (ascii domain)), (100, .uint 1)]

/-- A profile of the domain `device`, stored under the kind with this number. -/
def kindProfile (kind : UInt64) : NetMessage where
  type := .declared .registerProfile
  payload := .record [(1, .str (ascii "bench")), (2, .uuid (uuidOf 9)), (3, .uint 1),
    (4, .str (ascii "device")), (5, .record []), (6, .uint kind), (100, .uint 1)]

def deviceRun (msg : NetMessage) : List (Uuid × NetMessage) := [(uuidOf 9, deviceSource), (uuidOf 1, msg)]

theorem scoped_deviceRun {msg : NetMessage} (h : msg.fieldStr 1 = ascii "bench") :
    Scoped msg (after [(uuidOf 9, deviceSource)] {}) (ascii "device") :=
  ⟨{ bootId := uuidOf 9, scope := ascii "device" }, by rw [h]; rfl, rfl, by decide⟩

theorem states_deviceRun {msg : NetMessage} (hsource : msg.fieldStr 1 = ascii "bench")
    (h : StatesScope msg (after [(uuidOf 9, deviceSource)] {}) (ascii "device")) :
    ∀ call ∈ trace (deviceRun msg) {}, ∀ scope, Scoped call.2.2 call.1 scope →
      StatesScope call.2.2 call.1 scope := by
  simp only [deviceRun, trace, List.forall_mem_cons]
  refine ⟨?_, ?_, List.forall_mem_nil _⟩
  · rintro scope ⟨info, hinfo, -, -⟩
    cases hinfo
  · rintro scope ⟨info, hinfo, hscope, -⟩
    rw [hsource] at hinfo
    obtain rfl := Option.some.inj hinfo
    obtain rfl : ascii "device" = scope := hscope
    exact h

theorem publishesWithinScope_device :
    PublishesWithinScope (deviceRun (kindProfile 8)) {} ∧
    PublishesWithinScope (deviceRun (domainRule "device")) {} := by
  constructor
  · refine (publishesWithinScope_of_states (deviceRun (kindProfile 8)) {}).1 (states_deviceRun rfl ⟨?_, ?_⟩)
    · rintro - - prof kind - hkind
      obtain rfl : 8 = kind := Canon.uint.inj (Option.some.inj hkind)
      decide
    · intro htype
      exact absurd htype (by decide)
  · refine (publishesWithinScope_of_states (deviceRun (domainRule "device")) {}).1
      (states_deviceRun rfl ⟨?_, fun _ _ => rfl⟩)
    intro htype
    exact absurd htype (by decide)

/-- Neither the kind of a profile nor the domain of a rule is held against the scope. -/
theorem not_publishesWithinScope_model :
    ¬ PublishesWithinScope (deviceRun (kindProfile 0)) {} ∧
    ¬ PublishesWithinScope (deviceRun (domainRule "model")) {} := by
  have hdeps : (after [(uuidOf 9, deviceSource)] {}).registry.deps = ∅ := rfl
  have hfresh : (after [(uuidOf 9, deviceSource)] {}).registry.historyOf (uuidOf 1) = [] := rfl
  constructor
  · intro h
    have hstates := states_of_withinScope hdeps hfresh (by simp [kindProfile, WF, WFRecord, SortedMap.Sorted])
      (h (_, uuidOf 1, kindProfile 0) (.tail _ (.head _)) _ (scoped_deviceRun rfl))
    exact absurd (hstates.kind rfl (by decide) [] 0 rfl rfl) (by decide)
  · intro h
    have hstates := states_of_withinScope hdeps hfresh (by simp [domainRule, WF, WFRecord, SortedMap.Sorted])
      (h (_, uuidOf 1, domainRule "model") (.tail _ (.head _)) _ (scoped_deviceRun rfl))
    exact absurd (hstates.domain rfl (by decide)) (by decide)

end Coordinator

end CompatRegistry
