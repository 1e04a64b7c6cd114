import CompatRegistry.Net.Handled
import CompatRegistry.Net.NoEscape
import CompatRegistry.Registry.AnyOrder
import CompatRegistry.Registry.Histories

/-! What a coordinator is for: a ledger of what its sources publish. The ledger knows no
histories, edges, fingerprints or hash maps. Over every run the coordinator keeps exactly
the entries of the ledger and refuses exactly the requests that the ledger refuses. -/

namespace CompatRegistry

open Foundation Canon

/-- A published profile. -/
structure Publication where
  kind : Enum8 ProfileKind
  payload : Record
  withdrawn : Bool := false

namespace Publication

def withdraw (p : Publication) : Publication := { p with withdrawn := true }

def fingerprint (p : Publication) : Bytes := Sha256.hex (Sha256.compute (Canon.record p.payload).encoding)

end Publication

structure Ledger where
  epoch : UInt64 := 1
  sources : Bytes → Option SourceInfo := fun _ => none
  profiles : Uuid → Option Publication := fun _ => none
  rules : Uuid → Option CompatibilityRule := fun _ => none
  evidence : Uuid → Option EvidenceRecord := fun _ => none

namespace Ledger

/-- The request is of this epoch and of the last boot of a source, for which the rest holds. -/
def AdmitsIf (condition : SourceInfo → Prop) (msg : NetMessage) (l : Ledger) : Prop :=
  fieldOr uint? msg.payload kEpochTag 0 = l.epoch ∧
    ∃ info, l.sources (msg.fieldStr 1) = some info ∧ info.bootId = msg.fieldUuid 2 ∧ condition info

def Admits : NetMessage → Ledger → Prop := AdmitsIf fun _ => True

/-- A profile has to be of the newest generation of its source, and in its scope. -/
def AdmitsProfile (msg : NetMessage) : Ledger → Prop :=
  AdmitsIf (fun info => info.generation ≤ fieldOr uint? msg.payload 3 0 ∧
    (info.scope = ascii "*" ∨ info.scope = msg.fieldStr 4)) msg

/-- The profile in a request. -/
def publication? (msg : NetMessage) : Option Publication :=
  match msg.payload.field 5, msg.payload.field 6 with
  | some (.record prof), some (.uint kind) => some { kind := Enum8.cast kind, payload := prof }
  | _, _ => none

def enrol (seed : Uuid) (msg : NetMessage) (l : Ledger) : Ledger :=
  { l with sources := Function.update l.sources (msg.fieldStr 1) (some { bootId := seed, scope := msg.fieldStr 2 }) }

/-- The profile goes under a fresh identity, and the source takes the generation of the request. -/
def publish (seed : Uuid) (msg : NetMessage) (p : Publication) (l : Ledger) : Ledger :=
  { l with
    profiles := Function.update l.profiles seed (some p)
    sources := Function.update l.sources (msg.fieldStr 1)
      ((l.sources (msg.fieldStr 1)).map fun info => { info with generation := fieldOr uint? msg.payload 3 0 }) }

def rule (r : CompatibilityRule) (l : Ledger) : Ledger := { l with rules := Function.update l.rules r.ruleId (some r) }

def observe (ev : EvidenceRecord) (l : Ledger) : Ledger :=
  { l with evidence := Function.update l.evidence ev.id (some ev) }

def withdraw (id : Uuid) (l : Ledger) : Ledger :=
  { l with profiles := Function.update l.profiles id ((l.profiles id).map Publication.withdraw) }

open scoped Classical in
/-- The ledger after a request, or nothing where it is refused. -/
noncomputable def handle (seed : Uuid) (msg : NetMessage) (l : Ledger) : Option Ledger :=
  match msg.type with
  | .declared .registerSource => if msg.fieldStr 1 = [] then none else some (l.enrol seed msg)
  | .declared .registerProfile =>
    (publication? msg).bind fun p => if l.AdmitsProfile msg then some (l.publish seed msg p) else none
  | .declared .registerRule => if l.Admits msg then some (l.rule (Coordinator.wireRule msg)) else none
  | .declared .registerEvidence => if l.Admits msg then some (l.observe (Coordinator.wireEvidence seed msg)) else none
  | .declared .invalidate => if l.Admits msg then some (l.withdraw (msg.fieldUuid 4)) else none
  | .declared .queryPair => some l
  | .declared .queryRequirement => some l
  | .declared .snapshot => some l
  | .declared .shutdown => some l
  | _ => none

noncomputable def record (m : Uuid × NetMessage) (l : Ledger) : Ledger := (l.handle m.1 m.2).getD l

/-- The ledger of a run. -/
noncomputable def of (requests : List (Uuid × NetMessage)) : Ledger := requests.foldl (fun l m => l.record m) {}

/-- The only record of a published profile. -/
def recordOf (id : Uuid) (p : Publication) : ProfileRecord where
  kind := p.kind
  payload := .record p.payload
  id := id
  generation := 1
  active := !p.withdrawn
  superseded := p.withdrawn
  fingerprint := p.fingerprint

end Ledger

namespace Coordinator

/-- The coordinator holds what is in the ledger: one record for each publication, the last rule
under each id, under a generation that the registry has chosen, and all evidence. -/
structure Keeps (s : Coordinator) (l : Ledger) : Prop where
  epoch : s.epoch = l.epoch
  sources : ∀ source, s.sources.lookup source = l.sources source
  profiles : ∀ id, s.registry.historyOf id = ((l.profiles id).map (Ledger.recordOf id)).toList
  rules : ∀ id, Option.Rel (fun rule rr => ∃ generation, rr = { rule := { rule with generation } })
    (l.rules id) (s.registry.rules.lookup id)
  evidence : ∀ id, s.registry.findEvidence id = l.evidence id

theorem Keeps.empty : Keeps {} {} := ⟨rfl, fun _ => rfl, fun _ => rfl, fun _ => .none, fun _ => rfl⟩

section Call
variable {seed : Uuid} {msg : NetMessage} {s : Coordinator} {l : Ledger}

/-! ### Admission -/

theorem Keeps.epoch_iff (h : Keeps s l) :
    staleEpoch msg s = false ↔ fieldOr uint? msg.payload kEpochTag 0 = l.epoch := by
  unfold staleEpoch
  rw [bne_eq_false_iff_eq, h.epoch]

theorem Keeps.admits_iff (h : Keeps s l) : notAdmitted msg s = none ↔ l.Admits msg := by
  rw [notAdmitted_eq_none, h.epoch_iff, h.sources]
  unfold Ledger.Admits Ledger.AdmitsIf
  simp only [and_true]

theorem Keeps.admitsProfile_iff (h : Keeps s l) : profileNotAdmitted msg s = none ↔ l.AdmitsProfile msg := by
  rw [profileNotAdmitted_eq_none, h.epoch_iff, h.sources]
  rfl

/-! ### Effects -/

theorem Keeps.publish (h : Keeps s l) (hs : Inv s) (hnew : l.profiles seed = none) {p : Publication}
    (hp : (Canon.record p.payload).WF) (hfresh : p.withdrawn = false) :
    (Registry.registerProfile seed p.kind (.record p.payload) [] [] s.registry).1 = .ok seed ∧
      Keeps (setGeneration msg { s with
        registry := (Registry.registerProfile seed p.kind (.record p.payload) [] [] s.registry).2 })
      (l.publish seed msg p) := by
  have hlookup : s.registry.profiles.lookup seed = none := by
    have hhistory := h.profiles seed
    rw [hnew] at hhistory
    unfold Registry.historyOf at hhistory
    cases hl : s.registry.profiles.lookup seed with
    | none => rfl
    | some hist =>
      rw [hl] at hhistory
      exact absurd hhistory hist.nonempty
  let record : ProfileRecord := { kind := p.kind, payload := .record p.payload, id := seed }
  have hrun : Registry.registerProfile seed p.kind (.record p.payload) [] [] s.registry =
      (.ok seed, Registry.appendRecord record.first (Registry.deactivateAll seed s.registry)) := by
    have hnew : Registry.registerRecord record s.registry =
        if Registry.createCycle record.id record.deps s.registry then _ else _ :=
      Registry.registerRecord_new hp hlookup
    rw [if_neg (by rw [Registry.createCycle_nil hs.deps]; exact Bool.false_ne_true)] at hnew
    unfold Registry.registerProfile
    rw [canonicalFingerprintHex_of_wf hp]
    exact hnew
  have hfirst : record.first = Ledger.recordOf seed p := by
    simp only [ProfileRecord.first, Ledger.recordOf, Publication.fingerprint, hfresh, record, Bool.not_false]
  have hhistory : ∀ id, (Registry.appendRecord (Ledger.recordOf seed p)
      (Registry.deactivateAll seed s.registry)).historyOf id =
        if id = seed then [Ledger.recordOf seed p] else s.registry.historyOf id := by
    intro id
    have hown : (Ledger.recordOf seed p).id = seed := rfl
    rw [Registry.historyOf_appendRecord, Registry.historyOf_deactivateAll, Registry.historyOf_deactivateAll, hown]
    have hnone : s.registry.historyOf seed = [] := by
      rw [h.profiles, hnew]
      rfl
    by_cases hid : id = seed
    · rw [if_pos hid, if_pos hid, if_pos rfl]
      exact congrArg (fun l => List.map ProfileRecord.deactivate l ++ [Ledger.recordOf seed p]) hnone
    · rw [if_neg hid, if_neg hid, if_neg hid]
  rw [hrun, hfirst]
  obtain ⟨d, r, heq⟩ := Registry.appendRecord_eq (Ledger.recordOf seed p) (Registry.deactivateAll seed s.registry)
  rw [heq] at hhistory ⊢
  refine ⟨rfl, h.epoch, fun source => ?_, fun id => ?_, h.rules, h.evidence⟩
  · simp only [setGeneration, UMap.lookup_modify, h.sources, Ledger.publish, Function.update_apply]
  · refine (hhistory id).trans ?_
    simp only [Ledger.publish, Function.update_apply]
    split_ifs with hid
    · rw [hid]
      rfl
    · exact h.profiles id

theorem Keeps.rule (h : Keeps s l) (r : CompatibilityRule) :
    Keeps { s with registry := (Registry.registerRule r s.registry).2 } (l.rule r) where
  epoch := h.epoch
  sources := h.sources
  profiles := h.profiles
  evidence := h.evidence
  rules id := by
    simp only [Registry.registerRule, UMap.lookup_insert_ite, Ledger.rule, Function.update_apply]
    split_ifs
    · exact .some ⟨_, rfl⟩
    · exact h.rules id

theorem Keeps.observe (h : Keeps s l) (ev : EvidenceRecord) :
    Keeps { s with registry := (Registry.registerEvidence ev s.registry).2 } (l.observe ev) where
  epoch := h.epoch
  sources := h.sources
  profiles := h.profiles
  rules := h.rules
  evidence id := by
    simp only [Registry.registerEvidence, Registry.findEvidence, UMap.lookup_insert_ite, Ledger.observe,
      Function.update_apply]
    split_ifs
    · rfl
    · exact h.evidence id

theorem Keeps.withdraw (h : Keeps s l) (id : Uuid) (reason : Bytes) :
    Keeps { s with registry := (Registry.invalidateProfile id reason s.registry).2 } (l.withdraw id) := by
  have hretire : ∀ p : Publication, (Ledger.recordOf id p).retire = Ledger.recordOf id p.withdraw := fun p => rfl
  have hhistory : ∀ id', (Registry.invalidateProfile id reason s.registry).2.historyOf id' =
      (((l.withdraw id).profiles id').map (Ledger.recordOf id')).toList := by
    intro id'
    have hchanged : (Registry.invalidateProfile id reason s.registry).2.historyOf id' =
        if id' = id then (s.registry.historyOf id).map ProfileRecord.retire else s.registry.historyOf id' := by
      rw [← Registry.historyOf_invalidateWith id reason]
      unfold Registry.invalidateProfile
      cases hl : s.registry.profiles.lookup id with
      | none =>
        unfold Registry.invalidateWith
        rw [hl]
      | some hist => rfl
    rw [hchanged]
    simp only [Ledger.withdraw, Function.update_apply]
    split_ifs with hid
    · rw [h.profiles, hid]
      cases l.profiles id with
      | none => rfl
      | some p => exact congrArg (fun r => [r]) (hretire p)
    · exact h.profiles id'
  have hrest : (Registry.invalidateProfile id reason s.registry).2.rules = s.registry.rules ∧
      (Registry.invalidateProfile id reason s.registry).2.evidence = s.registry.evidence := by
    unfold Registry.invalidateProfile
    cases s.registry.profiles.lookup id with
    | none => exact ⟨rfl, rfl⟩
    | some hist =>
      obtain ⟨p, i, heq⟩ := Registry.invalidateWith_eq id reason s.registry
      simp only [heq, and_self]
  refine ⟨h.epoch, h.sources, hhistory, fun id' => ?_, fun id' => ?_⟩
  · simp only [hrest.1]
    exact h.rules id'
  · simp only [Registry.findEvidence, hrest.2]
    exact h.evidence id'

/-- An evaluation leaves the ledger alone. -/
theorem Keeps.evaluate (h : Keeps s l) (requirement : Bool) (left right : Uuid) :
    Keeps { s with registry := (Registry.evaluateWith requirement left right s.registry).2 } l := by
  unfold Registry.evaluateWith
  cases Registry.evaluateLocked s.registry left right requirement with
  | error e => exact h
  | ok d => exact ⟨h.epoch, h.sources, h.profiles, h.rules, h.evidence⟩

/-! ### Every request -/

/-- The call is refused as the ledger refuses the request, or does what the ledger does. -/
def Follows (call : Result (Bool × NetMessage) × Coordinator) (s : Coordinator) : Option Ledger → Prop
  | none => SaysNo call ∧ call.2 = s
  | some l => ¬ SaysNo call ∧ Keeps call.2 l

theorem follows_refuse (m : String) : Follows (refuse m s) s none := ⟨⟨_, rfl⟩, rfl⟩

theorem follows_ends {call : Result (Bool × NetMessage) × Coordinator} {t : Coordinator}
    (h : call.2 = t ∧ ¬ SaysNo call) (ht : Keeps t l) : Follows call s (some l) := ⟨h.2, h.1 ▸ ht⟩

theorem query_ends (requirement : Bool) (msg : NetMessage) (s : Coordinator) :
    (query requirement msg s).2 = { s with
      registry := (Registry.evaluateWith requirement (msg.fieldUuid 1) (msg.fieldUuid 2) s.registry).2 } ∧
      ¬ SaysNo (query requirement msg s) := by
  refine andThen_ends fun d t => ⟨rfl, ?_⟩
  rintro ⟨m, hm⟩
  cases hm

open scoped Classical in
/-- The three handlers that admit a request by its epoch and boot id. -/
theorem follows_acknowledge (h : Keeps s l) {α : Type} {op : Step α} {next : Ledger}
    (hop : Keeps { s with registry := (op s.registry).2 } next) :
    Follows (acknowledge op msg s) s (if l.Admits msg then some next else none) := by
  split_ifs with hadmits
  · rw [acknowledge_of_none (h.admits_iff.mpr hadmits)]
    exact follows_ends (andThen_ends fun _ => reply_ends _) hop
  · cases hm : notAdmitted msg s with
    | none => exact absurd (h.admits_iff.mp hm) hadmits
    | some m =>
      rw [acknowledge_of_some hm]
      exact follows_refuse m

theorem registerProfile_cases (seed : Uuid) (msg : NetMessage) (s : Coordinator) :
    (∃ prof kind, msg.payload.field 5 = some (.record prof) ∧
      Ledger.publication? msg = some { kind := Enum8.cast kind, payload := prof } ∧
      registerProfile seed msg s = match profileNotAdmitted msg s with
        | some m => refuse m s
        | none => andThen (Registry.registerProfile seed (Enum8.cast kind) (.record prof) [] [])
            (fun pid s => reply (ofEntries [(1, .uuid pid)]) (setGeneration msg s)) s) ∨
      Ledger.publication? msg = none ∧ registerProfile seed msg s = refuse "bad profile" s := by
  by_cases hboth : ∃ prof kind, msg.payload.field 5 = some (.record prof) ∧ msg.payload.field 6 = some (.uint kind)
  · obtain ⟨prof, kind, hprof, hkind⟩ := hboth
    refine .inl ⟨prof, kind, hprof, ?_, ?_⟩
    · simp only [Ledger.publication?, hprof, hkind]
    · cases hm : profileNotAdmitted msg s with
      | none => simp only [registerProfile, hprof, hkind, hm]
      | some m => simp only [registerProfile, hprof, hkind, hm]
  · refine .inr ⟨?_, ?_⟩
    · unfold Ledger.publication?
      split
      next prof kind hprof hkind => exact absurd ⟨prof, kind, hprof, hkind⟩ hboth
      · rfl
    · unfold registerProfile
      split
      next prof kind hprof hkind => exact absurd ⟨prof, kind, hprof, hkind⟩ hboth
      · rfl

open scoped Classical in
theorem handleRequest_follows (h : Keeps s l) (hs : Inv s) (hmsg : msg.payload.WF) (hnew : l.profiles seed = none) :
    Follows (handleRequest seed msg s) s (l.handle seed msg) := by
  unfold handleRequest Ledger.handle
  cases msg.type with
  | undeclared raw hraw => exact follows_refuse _
  | declared type =>
    cases type with
    | registerSource =>
      simp only [registerSource]
      split_ifs with hname
      · exact follows_refuse _
      · refine follows_ends (reply_ends _ _) ⟨h.epoch, fun source => ?_, h.profiles, h.rules, h.evidence⟩
        simp only [UMap.lookup_insert_ite, Ledger.enrol, Function.update_apply, h.sources]
    | registerProfile =>
      obtain ⟨prof, kind, hprof, hpublication, hcall⟩ | ⟨hpublication, hcall⟩ := registerProfile_cases seed msg s
      · simp only [hpublication, hcall, Option.bind_some]
        cases hm : profileNotAdmitted msg s with
        | some m =>
          rw [if_neg fun hadmits => by rw [h.admitsProfile_iff.mpr hadmits] at hm; cases hm]
          exact follows_refuse m
        | none =>
          rw [if_pos (h.admitsProfile_iff.mp hm)]
          let p : Publication := { kind := Enum8.cast kind, payload := prof }
          obtain ⟨hok, hkeeps⟩ := Keeps.publish h hs hnew (p := p) (field_wf hmsg hprof) rfl
          obtain ⟨e, herror, -⟩ | ⟨pid, -, heq⟩ := andThen_cases
            (Registry.registerProfile seed (Enum8.cast kind) (.record prof) [] [])
            (fun pid s => reply (ofEntries [(1, .uuid pid)]) (setGeneration msg s)) s
          · have hnever := hok.symm.trans herror
            cases hnever
          · simp only [heq]
            exact follows_ends (reply_ends _ _) hkeeps
      · simp only [hpublication, hcall, Option.bind_none]
        exact follows_refuse _
    | registerRule => exact follows_acknowledge h (h.rule (wireRule msg))
    | registerEvidence => exact follows_acknowledge h (h.observe (wireEvidence seed msg))
    | queryPair => exact follows_ends (query_ends false msg s) (h.evaluate false _ _)
    | queryRequirement => exact follows_ends (query_ends true msg s) (h.evaluate true _ _)
    | invalidate => exact follows_acknowledge h (h.withdraw (msg.fieldUuid 4) (msg.fieldStr 5))
    | snapshot => exact follows_ends (andThen_ends fun _ => reply_ends _) h
    | shutdown => exact follows_ends (reply_ends _ _) h
    | decision => exact follows_refuse _
    | ack => exact follows_refuse _
    | error => exact follows_refuse _

end Call

/-! ### Every run -/

theorem ledger_of_concat (past : List (Uuid × NetMessage)) (m : Uuid × NetMessage) :
    Ledger.of (past ++ [m]) = (Ledger.of past).record m := by
  rw [Ledger.of, List.foldl_append, List.foldl_cons, List.foldl_nil, Ledger.of]

/-- A request brings at most the profile under its own identity. -/
theorem profiles_handle {seed : Uuid} {msg : NetMessage} {l l' : Ledger} (h : l.handle seed msg = some l') {id : Uuid}
    (hid : id ≠ seed) (hnone : l.profiles id = none) : l'.profiles id = none := by
  unfold Ledger.handle at h
  split at h
  · split_ifs at h
    obtain rfl := Option.some.inj h
    exact hnone
  · obtain ⟨p, -, h⟩ := Option.bind_eq_some_iff.mp h
    split_ifs at h
    obtain rfl := Option.some.inj h
    exact (Function.update_of_ne hid _ _).trans hnone
  · split_ifs at h
    obtain rfl := Option.some.inj h
    exact hnone
  · split_ifs at h
    obtain rfl := Option.some.inj h
    exact hnone
  · split_ifs at h
    obtain rfl := Option.some.inj h
    simp only [Ledger.withdraw, Function.update_apply]
    split_ifs with hwithdrawn
    · rw [← hwithdrawn, hnone, Option.map_none]
    · exact hnone
  all_goals first | (obtain rfl := Option.some.inj h; exact hnone) | cases h

/-- The state of a run beside its ledger. -/
structure Booked (past : List (Uuid × NetMessage)) : Prop where
  keeps : Keeps (after past {}) (Ledger.of past)
  inv : Inv (after past {})
  issued : ∀ id, id ∉ past.map Prod.fst → (Ledger.of past).profiles id = none

theorem booked {past : List (Uuid × NetMessage)} (hreq : ∀ m ∈ past, m.2.payload.WF)
    (hfresh : (past.map Prod.fst).Nodup) : Booked past := by
  induction past using List.reverseRecOn with
  | nil => exact ⟨.empty, .empty, fun _ _ => rfl⟩
  | append_singleton past m ih =>
    rw [List.map_append, List.nodup_append] at hfresh
    have hpast := ih (fun m' hm' => hreq m' (List.mem_append_left _ hm')) hfresh.1
    have hmsg := hreq m (List.mem_append_right _ (List.mem_singleton_self m))
    have hnew : m.1 ∉ past.map Prod.fst := fun hmem => hfresh.2.2 _ hmem m.1 (List.mem_singleton_self m.1) rfl
    have hfollows := handleRequest_follows hpast.keeps hpast.inv hmsg (hpast.issued m.1 hnew)
    have hrecord : (Ledger.of past).record m = ((Ledger.of past).handle m.1 m.2).getD (Ledger.of past) := rfl
    have hinv := (handleRequest_isOk hpast.inv hmsg m.1).2
    constructor
    case keeps =>
      rw [after_append, after_cons, after_nil, ledger_of_concat, hrecord]
      cases hhandle : (Ledger.of past).handle m.1 m.2 with
      | none =>
        rw [hhandle] at hfollows
        rw [hfollows.2]
        exact hpast.keeps
      | some l =>
        rw [hhandle] at hfollows
        exact hfollows.2
    case inv => rwa [after_append, after_cons, after_nil]
    case issued =>
      intro id hid
      rw [List.map_append, List.mem_append, not_or] at hid
      have hnone := hpast.issued id hid.1
      rw [ledger_of_concat, hrecord]
      cases hhandle : (Ledger.of past).handle m.1 m.2 with
      | none => exact hnone
      | some l => exact profiles_handle hhandle (fun heq => hid.2 (List.mem_singleton.mpr heq)) hnone

/-- The coordinator is the ledger: over every run whose fresh identities do not repeat it refuses
exactly what the ledger refuses, without a trace, and holds exactly what is in the ledger. -/
theorem run_keeps {requests : List (Uuid × NetMessage)} (hreq : ∀ m ∈ requests, m.2.payload.WF)
    (hfresh : (requests.map Prod.fst).Nodup) :
    Keeps (after requests {}) (Ledger.of requests) ∧
      ∀ past m rest, requests = past ++ m :: rest →
        Follows (handleRequest m.1 m.2 (after past {})) (after past {}) ((Ledger.of past).handle m.1 m.2) := by
  refine ⟨(booked hreq hfresh).keeps, fun past m rest heq => ?_⟩
  rw [heq, List.map_append, List.map_cons] at hfresh
  have hpast := booked (fun m' hm' => hreq m' (heq ▸ List.mem_append_left _ hm')) (List.nodup_append.mp hfresh).1
  have hnew : m.1 ∉ past.map Prod.fst := fun hmem =>
    (List.nodup_append.mp hfresh).2.2 _ hmem m.1 List.mem_cons_self rfl
  exact handleRequest_follows hpast.keeps hpast.inv (hreq m (heq ▸ List.mem_append_right _ List.mem_cons_self))
    (hpast.issued m.1 hnew)

/-- A source publishes a profile and a rule, and withdraws the profile. -/
def withdrawnRun : List (Uuid × NetMessage) :=
  [sourceRequest, profileRequest 1 [(1, .uint 1)], ruleRequest 1,
    (uuidOf 2, {
      type := .declared .invalidate
      payload := .record [(1, .str (ascii "bench")), (2, .uuid (uuidOf 9)), (4, .uuid (uuidOf 1)),
        (5, .str (ascii "recalled")), (100, .uint 1)] })]

theorem run_keeps_withdrawn :
    Keeps (after withdrawnRun {}) (Ledger.of withdrawnRun) ∧
      ∀ past m rest, withdrawnRun = past ++ m :: rest →
        Follows (handleRequest m.1 m.2 (after past {})) (after past {}) ((Ledger.of past).handle m.1 m.2) :=
  run_keeps (by simp [withdrawnRun, sourceRequest, profileRequest, ruleRequest, WF, WFRecord, SortedMap.Sorted])
    (by decide)

/-- The coordinator has refused nothing, and holds the profile as withdrawn. -/
example : (trace withdrawnRun {}).map (fun call => ((handleRequest call.2.1 call.2.2 call.1).1.map Prod.fst)) =
      [.ok true, .ok true, .ok true, .ok true] ∧
    ((after withdrawnRun {}).registry.historyOf (uuidOf 1)).map ProfileRecord.active = [false] := by
  decide +kernel

end Coordinator

end CompatRegistry
