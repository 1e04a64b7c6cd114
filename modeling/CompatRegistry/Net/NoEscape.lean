import CompatRegistry.Net.Coordinator
import CompatRegistry.Registry.Effect
import CompatRegistry.Registry.PairSpec
import CompatRegistry.RuleReturns

/-! Which calls of the coordinator an exception escapes from. Its registry never
has an edge, so no cycle is ever found, and its snapshots never fail. What is left
are queries that come to a rule which cannot read an operand or which hands on an
outcome that is no enumerator. -/

namespace CompatRegistry

open Foundation Canon

namespace Registry

/-! ### Registering without dependencies -/

theorem hasCycleIn_of_no_edges {g : UMap Uuid (List Uuid)} (h : ∀ a, adjacent g a = []) :
    hasCycleIn g = false := by
  rw [← Bool.not_eq_true, hasCycleIn_iff]
  rintro ⟨x, hx⟩
  obtain ⟨y, hxy, -⟩ := Relation.TransGen.head'_iff.mp hx
  have hmem : y ∈ adjacent g x := hxy
  simp [h] at hmem

theorem createCycle_nil {s : Registry} (h : s.deps = ∅) (id : Uuid) : createCycle id [] s = false := by
  apply hasCycleIn_of_no_edges
  intro a
  unfold adjacent prospective
  simp only [List.filter_nil, List.foldl_nil, h, AList.lookup_empty, UMap.lookup_insert_ite]
  split_ifs <;> rfl

theorem appendRecord_deps {p : ProfileRecord} {s : Registry} (hp : p.deps = []) (h : s.deps = ∅) :
    (appendRecord p s).deps = ∅ := by
  unfold appendRecord addDependency
  simp only [h, hp, AList.lookup_empty, pushEdges]

/-- A record without dependencies is registered in a registry without edges. -/
theorem registerRecord_isOk {s : Registry} (h : s.deps = ∅) {p : ProfileRecord} (hp : p.payload.WF)
    (hdeps : p.deps = []) :
    (∃ id, (registerRecord p s).1 = .ok id) ∧ (registerRecord p s).2.deps = ∅ := by
  have hcycle : createCycle p.id p.deps (deactivateAll p.id s) = false := by
    rw [hdeps]
    exact createCycle_nil h p.id
  unfold registerRecord
  rw [canonicalFingerprintHex_of_wf hp]
  simp only [hcycle, Bool.false_eq_true, if_false]
  split_ifs
  · exact ⟨⟨_, rfl⟩, h⟩
  · exact ⟨⟨_, rfl⟩, appendRecord_deps hdeps h⟩

theorem registerProfile_isOk {s : Registry} (h : s.deps = ∅) (seed : Uuid) (kind : Enum8 ProfileKind)
    {payload : Canon} (hp : payload.WF) (provenance : Bytes) :
    (∃ id, (registerProfile seed kind payload [] provenance s).1 = .ok id) ∧
      (registerProfile seed kind payload [] provenance s).2.deps = ∅ := by
  unfold registerProfile
  rw [canonicalFingerprintHex_of_wf hp]
  exact registerRecord_isOk h hp rfl

theorem invalidateProfile_frame (id : Uuid) (reason : Bytes) (s : Registry) :
    (∃ found, (invalidateProfile id reason s).1 = .ok found) ∧
      (invalidateProfile id reason s).2.deps = s.deps := by
  unfold invalidateProfile invalidateWith
  cases s.profiles.lookup id <;> exact ⟨⟨_, rfl⟩, rfl⟩

theorem evaluateWith_deps (requirement : Bool) (left right : Uuid) (s : Registry) :
    (evaluateWith requirement left right s).2.deps = s.deps := by
  unfold evaluateWith
  cases evaluateLocked s left right requirement <;> rfl

/-! ### Evaluations -/

/-- The rules that apply to the pair can read what they come to, and none that
passes hands on an outcome that is no enumerator. -/
def QueryReadable (s : Registry) (requirement : Bool) (left right : Uuid) : Prop :=
  ∀ l r, s.newestActive left = some l → s.newestActive right = some r → l.fingerprint ≠ r.fingerprint →
    ∀ id rr, s.rules.lookup id = some rr → applicable (scopeOf requirement) l r rr = true →
      RuleReadable l.toSubject r.toSubject rr.rule ∧
      (Passes l.toSubject r.toSubject rr.rule → StatesOutcome l.toSubject r.toSubject rr.rule →
        rr.rule.outcome.isDeclared = true)

theorem evaluateWith_isOk {s : Registry} (h : Inv s) (requirement : Bool) (left right : Uuid) :
    (∃ d, (evaluateWith requirement left right s).1 = .ok d) ↔ QueryReadable s requirement left right := by
  rw [evaluateWith_fst, evaluateLocked_isOk]
  unfold RulesEvaluate QueryReadable
  refine forall₂_congr fun l r => forall₃_congr fun hl hr hf => ?_
  have hlwf := (h.newestActive hl).wf
  have hrwf := (h.newestActive hr).wf
  have hrule : ∀ rule : CompatibilityRule, rule.WF →
      ((∃ e, evalRule l.toSubject r.toSubject rule = .ok e ∧
        (e.conclusive = true → e.outcome.isDeclared = true)) ↔
      RuleReadable l.toSubject r.toSubject rule ∧
        (Passes l.toSubject r.toSubject rule → StatesOutcome l.toSubject r.toSubject rule →
          rule.outcome.isDeclared = true)) := by
    intro rule hwf
    rw [← evalRule_isOk hlwf hrwf hwf, ← conclusive_declared_iff]
    constructor
    · rintro ⟨e, he, hdeclared⟩
      refine ⟨⟨e, he⟩, fun e' he' => ?_⟩
      obtain rfl : e = e' := Except.ok.inj (he.symm.trans he')
      exact hdeclared
    · rintro ⟨⟨e, he⟩, hdeclared⟩
      exact ⟨e, he, hdeclared e he⟩
  constructor
  · intro hall id rr hlook happ
    exact (hrule rr.rule (h.rules id rr hlook).2).mp (hall rr.rule (mem_candidates.mpr ⟨id, rr, hlook, happ, rfl⟩))
  · intro hall rule hmem
    obtain ⟨id, rr, hlook, happ, rfl⟩ := mem_candidates.mp hmem
    exact (hrule rr.rule (h.rules id rr hlook).2).mpr (hall id rr hlook happ)

end Registry

namespace Coordinator

/-! ### One call -/

structure Inv (s : Coordinator) : Prop where
  registry : s.registry.Inv
  deps : s.registry.deps = ∅

theorem Inv.empty : Inv {} := ⟨Registry.Inv.empty, rfl⟩

/-- What has to hold of the state and the request for the call to return. -/
def Answerable (s : Coordinator) (msg : NetMessage) : Prop :=
  match msg.type with
  | .declared .queryPair => s.registry.QueryReadable false (msg.fieldUuid 1) (msg.fieldUuid 2)
  | .declared .queryRequirement => s.registry.QueryReadable true (msg.fieldUuid 1) (msg.fieldUuid 2)
  | _ => True

/-- The call has returned and the invariant holds. -/
def Fine (call : Result (Bool × NetMessage) × Coordinator) : Prop := (∃ out, call.1 = .ok out) ∧ Inv call.2

theorem fine_refuse {s : Coordinator} (h : Inv s) (m : String) : Fine (refuse m s) := ⟨⟨_, rfl⟩, h⟩

theorem fine_reply {s : Coordinator} (h : Inv s) (payload : Canon) : Fine (reply payload s) :=
  ⟨⟨_, rfl⟩, h⟩

theorem fine_andThen {α : Type} {op : Step α} {next : α → Handler} {s : Coordinator}
    (hop : ∃ a, (op s.registry).1 = .ok a)
    (hnext : ∀ a, Fine (next a { s with registry := (op s.registry).2 })) :
    Fine (andThen op next s) := by
  obtain ⟨a, ha⟩ := hop
  have hfine := hnext a
  unfold andThen
  rcases hs : op s.registry with ⟨result, registry⟩
  rw [hs] at ha hfine
  obtain rfl : result = .ok a := ha
  exact hfine

theorem decConstraintWire_wf {c : Canon} (h : c.WF) : (decConstraintWire c).WF := by
  refine ⟨?_, trivial, trivial⟩
  unfold decConstraintWire
  cases hf : c.field 4 with
  | none => trivial
  | some v => exact field_wf h hf

theorem wireConstraints_wf {c : Canon} (h : c.WF) (tag : UInt32) :
    ∀ x ∈ (fieldOr seq? c tag []).map decConstraintWire, x.WF := by
  intro x hx
  obtain ⟨v, hv, rfl⟩ := List.mem_map.mp hx
  apply decConstraintWire_wf
  unfold fieldOr at hv
  cases hf : c.field tag with
  | none => simp [hf] at hv
  | some w =>
    have hw := field_wf h hf
    rw [hf] at hv
    cases w with
    | sequence q => exact wf_sequence_iff.mp hw v hv
    | _ => simp [seq?] at hv

theorem wireRule_wf {msg : NetMessage} (h : msg.payload.WF) : (wireRule msg).WF where
  required := wireConstraints_wf h 10
  anyOf := by simp [wireRule]
  incompatibleWith := wireConstraints_wf h 11
  conditions := by simp [wireRule]

theorem wireEvidence_wf {msg : NetMessage} (h : msg.payload.WF) (seed : Uuid) :
    (wireEvidence seed msg).value.WF := by
  unfold wireEvidence
  cases hf : msg.payload.field 5 with
  | none => trivial
  | some v => exact field_wf h hf

section Handlers
variable {s : Coordinator} {msg : NetMessage}

theorem registerSource_fine (h : Inv s) (boot : Uuid) : Fine (registerSource boot msg s) := by
  unfold registerSource
  simp only
  split_ifs
  · exact fine_refuse h _
  · exact ⟨⟨_, rfl⟩, h.registry, h.deps⟩

theorem registerProfile_fine (h : Inv s) (hmsg : msg.payload.WF) (seed : Uuid) :
    Fine (registerProfile seed msg s) := by
  unfold registerProfile
  split
  next prof kind hprof _ =>
    have hwf : (Canon.record prof).WF := field_wf hmsg hprof
    cases profileNotAdmitted msg s with
    | some m => exact fine_refuse h m
    | none =>
      have hok := Registry.registerProfile_isOk h.deps seed (Enum8.cast kind) hwf []
      have hinv := (Registry.registerProfile_effect s.registry seed (Enum8.cast kind) hwf [] []).inv h.registry
      exact fine_andThen hok.1 fun pid => ⟨⟨_, rfl⟩, hinv, hok.2⟩
  · exact fine_refuse h _

/-- A mutation whose operation returns and leaves the invariant of the registry. -/
theorem acknowledge_fine {α : Type} {op : Step α} (h : Inv s) (hok : ∃ a, (op s.registry).1 = .ok a)
    (hinv : (op s.registry).2.Inv) (hdeps : (op s.registry).2.deps = s.registry.deps) :
    Fine (acknowledge op msg s) := by
  cases hadm : notAdmitted msg s with
  | some m =>
    rw [acknowledge_of_some hadm]
    exact fine_refuse h m
  | none =>
    rw [acknowledge_of_none hadm]
    exact fine_andThen hok fun _ => ⟨⟨_, rfl⟩, hinv, hdeps.trans h.deps⟩

theorem registerRule_fine (h : Inv s) (hmsg : msg.payload.WF) : Fine (registerRule msg s) := by
  have hinv := (Registry.registerRule_effect s.registry (wireRule_wf hmsg)).inv h.registry
  exact acknowledge_fine h ⟨_, rfl⟩ hinv rfl

theorem registerEvidence_fine (h : Inv s) (hmsg : msg.payload.WF) (seed : Uuid) :
    Fine (registerEvidence seed msg s) := by
  have hinv := Registry.registerEvidence_inv h.registry (wireEvidence_wf hmsg seed)
  exact acknowledge_fine h ⟨_, rfl⟩ hinv rfl

theorem invalidate_fine (h : Inv s) : Fine (invalidate msg s) := by
  have hframe := Registry.invalidateProfile_frame (msg.fieldUuid 4) (msg.fieldStr 5) s.registry
  have hinv := (Registry.invalidateProfile_effect s.registry (msg.fieldUuid 4) (msg.fieldStr 5)).inv h.registry
  exact acknowledge_fine h hframe.1 hinv hframe.2

theorem snapshot_fine (h : Inv s) : Fine (snapshot s) :=
  fine_andThen ⟨_, Registry.snapshot_eq h.registry⟩ fun _ => fine_reply h _

/-- A query returns when the registry can answer it, and keeps the invariant anyway. -/
theorem query_isOk (h : Inv s) (requirement : Bool) :
    ((∃ out, (query requirement msg s).1 = .ok out) ↔
      s.registry.QueryReadable requirement (msg.fieldUuid 1) (msg.fieldUuid 2)) ∧
    Inv (query requirement msg s).2 := by
  rw [← Registry.evaluateWith_isOk h.registry]
  have hinv := (Registry.evaluateWith_effect s.registry requirement (msg.fieldUuid 1) (msg.fieldUuid 2)).inv h.registry
  have hdeps := Registry.evaluateWith_deps requirement (msg.fieldUuid 1) (msg.fieldUuid 2) s.registry
  unfold query andThen
  generalize Registry.evaluateWith requirement (msg.fieldUuid 1) (msg.fieldUuid 2) s.registry = call
    at hinv hdeps ⊢
  obtain ⟨result, registry⟩ := call
  have hstate : Inv { s with registry := registry } := ⟨hinv, hdeps.trans h.deps⟩
  cases result with
  | error e => exact ⟨by simp, hstate⟩
  | ok d => exact ⟨by simp, hstate⟩

end Handlers

/-- A call returns exactly when the state can answer the request, and always
leaves the invariant. -/
theorem handleRequest_isOk {s : Coordinator} (h : Inv s) {msg : NetMessage} (hmsg : msg.payload.WF)
    (seed : Uuid) :
    ((∃ out, (handleRequest seed msg s).1 = .ok out) ↔ Answerable s msg) ∧
      Inv (handleRequest seed msg s).2 := by
  have hfine : ∀ {call : Result (Bool × NetMessage) × Coordinator}, Fine call →
      ((∃ out, call.1 = .ok out) ↔ True) ∧ Inv call.2 := fun hf => ⟨iff_true_intro hf.1, hf.2⟩
  unfold handleRequest Answerable
  cases msg.type with
  | undeclared raw hraw => exact hfine (fine_refuse h _)
  | declared type =>
    cases type with
    | registerSource => exact hfine (registerSource_fine h seed)
    | registerProfile => exact hfine (registerProfile_fine h hmsg seed)
    | registerRule => exact hfine (registerRule_fine h hmsg)
    | registerEvidence => exact hfine (registerEvidence_fine h hmsg seed)
    | queryPair => exact query_isOk h false
    | queryRequirement => exact query_isOk h true
    | invalidate => exact hfine (invalidate_fine h)
    | snapshot => exact hfine (snapshot_fine h)
    | shutdown => exact hfine (fine_reply h _)
    | decision => exact hfine (fine_refuse h _)
    | ack => exact hfine (fine_refuse h _)
    | error => exact hfine (fine_refuse h _)

/-! ### Runs -/

theorem trace_inv {requests : List (Uuid × NetMessage)} (hreq : ∀ m ∈ requests, m.2.payload.WF)
    {s : Coordinator} (h : Inv s) :
    ∀ call ∈ trace requests s, Inv call.1 ∧ call.2.2.payload.WF := by
  induction requests generalizing s with
  | nil => simp [trace]
  | cons m requests ih =>
    obtain ⟨seed, msg⟩ := m
    obtain ⟨hmsg, hreq⟩ := List.forall_mem_cons.mp hreq
    rw [trace, List.forall_mem_cons]
    exact ⟨⟨h, hmsg⟩, ih hreq (handleRequest_isOk h hmsg seed).2⟩

/-- No exception escapes from any call of the run from the empty coordinator. -/
def AllReturn (requests : List (Uuid × NetMessage)) : Prop :=
  ∀ call ∈ trace requests {}, ∃ out, (handleRequest call.2.1 call.2.2 call.1).1 = .ok out

/-- In a run from the empty coordinator no exception escapes from any call exactly
when every call is one that its state can answer. -/
theorem all_calls_return_iff (requests : List (Uuid × NetMessage))
    (hreq : ∀ m ∈ requests, m.2.payload.WF) :
    AllReturn requests ↔ ∀ call ∈ trace requests {}, Answerable call.1 call.2.2 := by
  apply forall₂_congr
  intro call hcall
  obtain ⟨hinv, hmsg⟩ := trace_inv hreq Inv.empty call hcall
  exact (handleRequest_isOk hinv hmsg call.2.1).1

/-! ### Two runs -/

def sourceRequest : Uuid × NetMessage :=
  (uuidOf 9, {
    type := .declared .registerSource
    payload := .record [(1, .str (ascii "bench")), (2, .str (ascii "*"))] })

/-- A profile of the source, which gets the identity `uuidOf b`. -/
def profileRequest (b : UInt8) (profile : Record) : Uuid × NetMessage :=
  (uuidOf b, {
    type := .declared .registerProfile
    payload := .record [(1, .str (ascii "bench")), (2, .uuid (uuidOf 9)), (3, .uint 1),
      (5, .record profile), (6, .uint 0), (100, .uint 1)] })

def ruleRequest (outcome : UInt64) : Uuid × NetMessage :=
  (uuidOf 0, {
    type := .declared .registerRule
    payload := .record [(1, .str (ascii "bench")), (2, .uuid (uuidOf 9)), (4, .uuid (uuidOf 3)),
      (6, .str (ascii "pair")), (9, .uint outcome), (100, .uint 1)] })

def queryRequest (left right : UInt8) : Uuid × NetMessage :=
  (uuidOf 0, {
    type := .declared .queryPair
    payload := .record [(1, .uuid (uuidOf left)), (2, .uuid (uuidOf right))] })

/-- Two profiles, a rule without constraints, and a query of the two. -/
def ruleAndQuery (outcome : UInt64) : List (Uuid × NetMessage) :=
  [sourceRequest, profileRequest 1 [], profileRequest 2 [(1, .uint 1)], ruleRequest outcome,
    queryRequest 1 2]

theorem ruleAndQuery_wf (outcome : UInt64) : ∀ m ∈ ruleAndQuery outcome, m.2.payload.WF := by
  simp [ruleAndQuery, sourceRequest, profileRequest, ruleRequest, queryRequest, WF, WFRecord,
    SortedMap.Sorted]

/-- The calls without the query. -/
def published : List (Uuid × NetMessage) :=
  [sourceRequest, profileRequest 1 [], profileRequest 2 [(1, .uint 1)], ruleRequest 1]

/-- No constraints, and an outcome that is an enumerator. -/
def plainRule (rr : RuleRecord) : Bool :=
  rr.rule.required.isEmpty && rr.rule.anyOf.isEmpty && rr.rule.incompatibleWith.isEmpty &&
    rr.rule.conditions.isEmpty && rr.rule.outcome.isDeclared

theorem queryReadable_of_plain {s : Registry} (h : s.rules.values.all plainRule = true)
    (requirement : Bool) (left right : Uuid) : s.QueryReadable requirement left right := by
  intro l r _ _ _ id rr hlook _
  have hplain := List.all_eq_true.mp h rr (UMap.mem_values_iff.mpr ⟨id, hlook⟩)
  simp only [plainRule, Bool.and_eq_true, List.isEmpty_iff] at hplain
  obtain ⟨⟨⟨⟨hrequired, hany⟩, hveto⟩, hconditions⟩, hout⟩ := hplain
  refine ⟨⟨?_, fun _ => ?_, fun _ _ => ?_, fun _ _ => ?_⟩, fun _ _ => hout⟩
  · rw [hveto]
    trivial
  · rw [hrequired]
    exact List.forall_mem_nil _
  · rw [hany]
    trivial
  · rw [hconditions]
    exact List.forall_mem_nil _

theorem all_calls_return_compatible : AllReturn (ruleAndQuery 1) := by
  apply (all_calls_return_iff (ruleAndQuery 1) (ruleAndQuery_wf 1)).mpr
  intro call hcall
  have hplain : (trace (ruleAndQuery 1) {}).all
      (fun call => call.1.registry.rules.values.all plainRule) = true := by
    decide +kernel
  have hrules := List.all_eq_true.mp hplain call hcall
  unfold Answerable
  split
  · exact queryReadable_of_plain hrules false _ _
  · exact queryReadable_of_plain hrules true _ _
  · trivial

/-- The rule is registered, and the query then lets the exception escape. -/
theorem not_all_calls_return_undeclared :
    (∀ m ∈ ruleAndQuery 200, ∃ bytes, canonicalDecode bytes = .ok m.2.payload) ∧
    ¬ AllReturn (ruleAndQuery 200) := by
  constructor
  · have hsize : ∀ m ∈ ruleAndQuery 200, m.2.payload.element.length < 2 ^ 32 := by decide +kernel
    intro m hm
    exact ⟨_, canonicalDecode_eq_ok.mpr ⟨ruleAndQuery_wf 200 m hm, fits_of_length _ (hsize m hm), rfl⟩⟩
  · intro h
    have hresults : (trace (ruleAndQuery 200) {}).map
        (fun call => (handleRequest call.2.1 call.2.2 call.1).1.map fun out => out.1) =
        [.ok true, .ok true, .ok true, .ok true,
          .error (.runtimeError (ascii "outcome_name: unknown outcome"))] := by
      decide +kernel
    have hmem : Except.error (.runtimeError (ascii "outcome_name: unknown outcome")) ∈
        (trace (ruleAndQuery 200) {}).map
          (fun call => (handleRequest call.2.1 call.2.2 call.1).1.map fun out => out.1) := by
      rw [hresults]
      simp
    obtain ⟨call, hcall, herror⟩ := List.mem_map.mp hmem
    obtain ⟨out, hout⟩ := h call hcall
    rw [hout] at herror
    cases herror

end Coordinator

end CompatRegistry
