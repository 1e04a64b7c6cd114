import CompatRegistry.Net.Coordinator
import CompatRegistry.Foundation.UnorderedMap

/-! What a call of the coordinator can do, said once, and runs of calls. A call that
returns false has changed nothing. Only the registration of a source replaces an
entry of the table of sources; a profile that was admitted renews the generation of
its source. -/

namespace CompatRegistry

open Foundation Canon

/-- The types of request by which a source changes the registry. -/
def MsgType.mutations : List (Enum8 MsgType) :=
  [.declared .registerProfile, .declared .registerRule, .declared .registerEvidence, .declared .invalidate]

/-- A request on which the source takes a new boot id. -/
def NetMessage.Registers (source : Bytes) (msg : NetMessage) : Prop :=
  msg.type = .declared .registerSource ∧ msg.fieldStr 1 = source ∧ source ≠ []

instance (source : Bytes) (msg : NetMessage) : Decidable (msg.Registers source) :=
  inferInstanceAs (Decidable (_ ∧ _ ∧ _))

theorem NetMessage.not_registers {msg : NetMessage} {type : Enum8 MsgType} (h : msg.type = type)
    (hne : type ≠ .declared .registerSource) (source : Bytes) : ¬ msg.Registers source := by
  rintro ⟨hsource, -, -⟩
  exact hne (h.symm.trans hsource)

/-- The same boot of a source, at a generation that is not lower. -/
structure SourceInfo.Renews (before after : SourceInfo) : Prop where
  bootId : after.bootId = before.bootId
  scope : after.scope = before.scope
  generation : before.generation ≤ after.generation

theorem SourceInfo.Renews.refl (info : SourceInfo) : info.Renews info := ⟨rfl, rfl, UInt64.le_refl _⟩

theorem SourceInfo.Renews.trans {a b c : SourceInfo} (hab : a.Renews b) (hbc : b.Renews c) : a.Renews c where
  bootId := hbc.bootId.trans hab.bootId
  scope := hbc.scope.trans hab.scope
  generation := UInt64.le_trans hab.generation hbc.generation

namespace Coordinator

/-! ### One call -/

/-- The state that a call leaves. -/
inductive Handled (seed : Uuid) (msg : NetMessage) (s : Coordinator) : Coordinator → Prop
  | unchanged (idle : ∀ source, ¬ msg.Registers source) : Handled seed msg s s
  | sourced (type : msg.type = .declared .registerSource) (named : msg.fieldStr 1 ≠ []) :
      Handled seed msg s { s with
        sources := s.sources.insert (msg.fieldStr 1) { bootId := seed, scope := msg.fieldStr 2 } }
  | published {prof : Record} {kind : UInt64} {pid : Uuid} (type : msg.type = .declared .registerProfile)
      (payload : msg.payload.field 5 = some (.record prof)) (cast : msg.payload.field 6 = some (.uint kind))
      (admitted : profileNotAdmitted msg s = none)
      (stored : (Registry.registerProfile seed (Enum8.cast kind) (.record prof) [] [] s.registry).1 = .ok pid) :
      Handled seed msg s (setGeneration msg { s with
        registry := (Registry.registerProfile seed (Enum8.cast kind) (.record prof) [] [] s.registry).2 })
  | escaped {prof : Record} {kind : UInt64} {e : Fault} (type : msg.type = .declared .registerProfile)
      (payload : msg.payload.field 5 = some (.record prof)) (cast : msg.payload.field 6 = some (.uint kind))
      (admitted : profileNotAdmitted msg s = none)
      (thrown : (Registry.registerProfile seed (Enum8.cast kind) (.record prof) [] [] s.registry).1 = .error e) :
      Handled seed msg s { s with
        registry := (Registry.registerProfile seed (Enum8.cast kind) (.record prof) [] [] s.registry).2 }
  | ruled (type : msg.type = .declared .registerRule) (admitted : notAdmitted msg s = none) :
      Handled seed msg s { s with registry := (Registry.registerRule (wireRule msg) s.registry).2 }
  | observed (type : msg.type = .declared .registerEvidence) (admitted : notAdmitted msg s = none) :
      Handled seed msg s { s with
        registry := (Registry.registerEvidence (wireEvidence seed msg) s.registry).2 }
  | retired (type : msg.type = .declared .invalidate) (admitted : notAdmitted msg s = none) :
      Handled seed msg s { s with
        registry := (Registry.invalidateProfile (msg.fieldUuid 4) (msg.fieldStr 5) s.registry).2 }
  | queried (requirement : Bool)
      (type : msg.type = .declared (if requirement then .queryRequirement else .queryPair)) :
      Handled seed msg s { s with
        registry := (Registry.evaluateWith requirement (msg.fieldUuid 1) (msg.fieldUuid 2) s.registry).2 }

/-- The call returned false. -/
def SaysNo (call : Result (Bool × NetMessage) × Coordinator) : Prop := ∃ m, call.1 = .ok (false, m)

theorem andThen_cases {α : Type} (op : Step α) (next : α → Handler) (s : Coordinator) :
    (∃ e, (op s.registry).1 = .error e ∧
      andThen op next s = (.error e, { s with registry := (op s.registry).2 })) ∨
    (∃ a, (op s.registry).1 = .ok a ∧
      andThen op next s = next a { s with registry := (op s.registry).2 }) := by
  unfold andThen
  rcases op s.registry with ⟨result, registry⟩
  cases result with
  | error e => exact .inl ⟨e, rfl, rfl⟩
  | ok a => exact .inr ⟨a, rfl, rfl⟩

/-- An operation of the registry whose answer ends the call: the sources stay, and
the call does not return false. -/
theorem andThen_ends {α : Type} {op : Step α} {next : α → Handler} {s : Coordinator}
    (hnext : ∀ a t, (next a t).2 = t ∧ ¬ SaysNo (next a t)) :
    (andThen op next s).2 = { s with registry := (op s.registry).2 } ∧ ¬ SaysNo (andThen op next s) := by
  obtain ⟨e, -, heq⟩ | ⟨a, -, heq⟩ := andThen_cases op next s
  · rw [heq]
    exact ⟨rfl, by rintro ⟨m, hm⟩; cases hm⟩
  · rw [heq]
    exact hnext a _

theorem reply_ends (payload : Canon) (s : Coordinator) :
    (reply payload s).2 = s ∧ ¬ SaysNo (reply payload s) := by
  refine ⟨rfl, ?_⟩
  rintro ⟨m, hm⟩
  cases hm

/-- What is known of a call: the state it leaves, and that it has changed nothing
when it returns false. -/
structure CallFacts (seed : Uuid) (msg : NetMessage) (s : Coordinator)
    (call : Result (Bool × NetMessage) × Coordinator) : Prop where
  handled : Handled seed msg s call.2
  unchanged : SaysNo call → call.2 = s

section Handlers
variable {seed : Uuid} {msg : NetMessage} {s : Coordinator}

theorem refuse_facts (h : ∀ source, ¬ msg.Registers source) (m : String) :
    CallFacts seed msg s (refuse m s) := ⟨.unchanged h, fun _ => rfl⟩

theorem facts_of_ends {call : Result (Bool × NetMessage) × Coordinator} {t : Coordinator}
    (h : call.2 = t ∧ ¬ SaysNo call) (ht : Handled seed msg s t) : CallFacts seed msg s call :=
  ⟨h.1 ▸ ht, fun hno => absurd hno h.2⟩

theorem registerSource_facts (h : msg.type = .declared .registerSource) :
    CallFacts seed msg s (registerSource seed msg s) := by
  unfold registerSource
  simp only
  split_ifs with hname
  · exact refuse_facts (fun source hreg => hreg.2.2 (hreg.2.1.symm.trans hname)) _
  · exact facts_of_ends (reply_ends _ _) (.sourced h hname)

theorem registerProfile_facts (h : msg.type = .declared .registerProfile) :
    CallFacts seed msg s (registerProfile seed msg s) := by
  unfold registerProfile
  split
  next prof kind hprof hkind =>
    cases hadm : profileNotAdmitted msg s with
    | some m => exact refuse_facts (NetMessage.not_registers h (by decide)) m
    | none =>
      obtain ⟨e, he, heq⟩ | ⟨pid, hpid, heq⟩ := andThen_cases
        (Registry.registerProfile seed (Enum8.cast kind) (.record prof) [] [])
        (fun pid s => reply (ofEntries [(1, .uuid pid)]) (setGeneration msg s)) s
      · rw [heq]
        exact ⟨.escaped h hprof hkind hadm he, by rintro ⟨m, hm⟩; cases hm⟩
      · rw [heq]
        exact facts_of_ends (reply_ends _ _) (.published h hprof hkind hadm hpid)
  · exact refuse_facts (NetMessage.not_registers h (by decide)) _

/-- A mutation that is acknowledged has changed the registry by its operation, and one whose source is
not admitted has changed nothing. -/
theorem acknowledge_facts {α : Type} {op : Step α} (h : ∀ source, ¬ msg.Registers source)
    (hop : notAdmitted msg s = none → Handled seed msg s { s with registry := (op s.registry).2 }) :
    CallFacts seed msg s (acknowledge op msg s) := by
  cases hadm : notAdmitted msg s with
  | some m =>
    rw [acknowledge_of_some hadm]
    exact refuse_facts h m
  | none =>
    rw [acknowledge_of_none hadm]
    exact facts_of_ends (andThen_ends fun _ => reply_ends _) (hop hadm)

theorem query_facts (requirement : Bool)
    (h : msg.type = .declared (if requirement then .queryRequirement else .queryPair)) :
    CallFacts seed msg s (query requirement msg s) := by
  refine facts_of_ends (andThen_ends fun d t => ⟨rfl, ?_⟩) (.queried requirement h)
  rintro ⟨m, hm⟩
  cases hm

end Handlers

theorem handleRequest_facts (seed : Uuid) (msg : NetMessage) (s : Coordinator) :
    CallFacts seed msg s (handleRequest seed msg s) := by
  have hother : ∀ type, msg.type = type → type ≠ .declared .registerSource → ∀ source, ¬ msg.Registers source :=
    fun type htype hne => NetMessage.not_registers htype hne
  unfold handleRequest
  cases htype : msg.type with
  | undeclared raw hraw => exact refuse_facts (hother _ htype (by simp)) _
  | declared type =>
    cases type with
    | registerSource => exact registerSource_facts htype
    | registerProfile => exact registerProfile_facts htype
    | registerRule => exact acknowledge_facts (hother _ htype (by decide)) (.ruled htype)
    | registerEvidence => exact acknowledge_facts (hother _ htype (by decide)) (.observed htype)
    | queryPair => exact query_facts false htype
    | queryRequirement => exact query_facts true htype
    | invalidate => exact acknowledge_facts (hother _ htype (by decide)) (.retired htype)
    | snapshot =>
      exact facts_of_ends (andThen_ends fun _ => reply_ends _)
        (.unchanged (hother _ htype (by decide)))
    | shutdown =>
      exact facts_of_ends (reply_ends _ _) (.unchanged (hother _ htype (by decide)))
    | decision => exact refuse_facts (hother _ htype (by decide)) _
    | ack => exact refuse_facts (hother _ htype (by decide)) _
    | error => exact refuse_facts (hother _ htype (by decide)) _

/-! ### The sources -/

section Sources
variable {seed : Uuid} {msg : NetMessage} {s t : Coordinator}

/-- A source whose profile is admitted is known, with the boot id of the request, a
generation that the request reaches and a scope that covers its domain. -/
theorem profileNotAdmitted_eq_none : profileNotAdmitted msg s = none ↔
    staleEpoch msg s = false ∧ ∃ info, s.sources.lookup (msg.fieldStr 1) = some info ∧
      info.bootId = msg.fieldUuid 2 ∧ info.generation ≤ fieldOr uint? msg.payload 3 0 ∧
      (info.scope = ascii "*" ∨ info.scope = msg.fieldStr 4) := by
  unfold profileNotAdmitted
  cases staleEpoch msg s with
  | true => simp
  | false =>
    cases s.sources.lookup (msg.fieldStr 1) with
    | none => simp
    | some info =>
      simp only [Bool.false_eq_true, if_false, Option.some.injEq, exists_eq_left', true_and]
      split_ifs with hboot hgen hscope
      · simp [hboot]
      · simp [UInt64.not_le.mpr hgen]
      · simp [hscope.1, hscope.2]
      · refine iff_of_true rfl ⟨not_not.mp hboot, UInt64.not_lt.mp hgen, ?_⟩
        tauto

theorem notAdmitted_eq_none : notAdmitted msg s = none ↔
    staleEpoch msg s = false ∧ ∃ info, s.sources.lookup (msg.fieldStr 1) = some info ∧
      info.bootId = msg.fieldUuid 2 := by
  unfold notAdmitted
  cases staleEpoch msg s with
  | true => simp
  | false =>
    cases s.sources.lookup (msg.fieldStr 1) with
    | none => simp
    | some info => simp

theorem Handled.epoch (h : Handled seed msg s t) : t.epoch = s.epoch := by
  cases h <;> rfl

/-- The entry of a source after a call. -/
theorem Handled.lookup_sources (h : Handled seed msg s t) (source : Bytes) :
    if msg.Registers source then t.sources.lookup source = some { bootId := seed, scope := msg.fieldStr 2 }
    else Option.Rel SourceInfo.Renews (s.sources.lookup source) (t.sources.lookup source) := by
  have hrefl : Option.Rel SourceInfo.Renews (s.sources.lookup source) (s.sources.lookup source) := by
    cases s.sources.lookup source with
    | none => exact .none
    | some info => exact .some (.refl info)
  have hidle : ∀ type, msg.type = type → type ≠ .declared .registerSource → ¬ msg.Registers source :=
    fun type htype hne => NetMessage.not_registers htype hne source
  cases h with
  | unchanged idle =>
    rw [if_neg (idle source)]
    exact hrefl
  | sourced type named =>
    rw [UMap.lookup_insert_ite]
    by_cases hsource : source = msg.fieldStr 1
    · rw [if_pos hsource, if_pos ⟨type, hsource.symm, hsource ▸ named⟩]
    · rw [if_neg hsource, if_neg fun hreg => hsource hreg.2.1.symm]
      exact hrefl
  | published type payload cast admitted stored =>
    rw [if_neg (hidle _ type (by decide)), setGeneration, UMap.lookup_modify]
    split_ifs with hsource
    · obtain ⟨-, info, hinfo, -, hgen, -⟩ := profileNotAdmitted_eq_none.mp admitted
      rw [hsource, hinfo]
      exact .some ⟨rfl, rfl, hgen⟩
    · exact hrefl
  | escaped type =>
    rw [if_neg (hidle _ type (by decide))]
    exact hrefl
  | ruled type =>
    rw [if_neg (hidle _ type (by decide))]
    exact hrefl
  | observed type =>
    rw [if_neg (hidle _ type (by decide))]
    exact hrefl
  | retired type =>
    rw [if_neg (hidle _ type (by decide))]
    exact hrefl
  | queried requirement type =>
    rw [if_neg (hidle _ type (by cases requirement <;> decide))]
    exact hrefl

end Sources

/-! ### Runs -/

/-- The state after the calls of a run. -/
def after (requests : List (Uuid × NetMessage)) (s : Coordinator) : Coordinator :=
  requests.foldl (fun s m => (handleRequest m.1 m.2 s).2) s

@[simp] theorem after_nil (s : Coordinator) : after [] s = s := rfl

@[simp] theorem after_cons (m : Uuid × NetMessage) (requests : List (Uuid × NetMessage)) (s : Coordinator) :
    after (m :: requests) s = after requests (handleRequest m.1 m.2 s).2 := rfl

theorem after_append (past mid : List (Uuid × NetMessage)) (s : Coordinator) :
    after (past ++ mid) s = after mid (after past s) := List.foldl_append

/-- What every call keeps from the state before it to the state after it holds from
the first state of a run to its last. -/
theorem after_induction {r : Coordinator → Coordinator → Prop} (hrefl : ∀ s, r s s)
    (htrans : ∀ s t u, r s t → r t u → r s u) {requests : List (Uuid × NetMessage)}
    (hstep : ∀ m ∈ requests, ∀ s, r s (handleRequest m.1 m.2 s).2) (s : Coordinator) :
    r s (after requests s) := by
  induction requests generalizing s with
  | nil => exact hrefl s
  | cons m requests ih =>
    obtain ⟨hm, hrequests⟩ := List.forall_mem_cons.mp hstep
    exact htrans _ _ _ (hm s) (ih hrequests _)

theorem after_epoch (requests : List (Uuid × NetMessage)) (s : Coordinator) :
    (after requests s).epoch = s.epoch :=
  after_induction (r := fun s t => t.epoch = s.epoch) (fun _ => rfl) (fun _ _ _ h₁ h₂ => h₂.trans h₁)
    (fun m _ s => (handleRequest_facts m.1 m.2 s).handled.epoch) s

end Coordinator

end CompatRegistry
