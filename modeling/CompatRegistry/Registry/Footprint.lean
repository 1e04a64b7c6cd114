import CompatRegistry.Registry.Replay
import CompatRegistry.Registry.CycleExact

/-! What evaluations read, and the calls that change it without advancing the
generation. Only a profile call does so whose dependencies close a cycle: by the time
it throws, it has deactivated the newest record of the profile. Without such a call a
generation stands for one reading of the registry, and for one digest of each pair. -/

namespace CompatRegistry

open Foundation Canon

namespace Registry

/-- An evaluation reads the same in both states. -/
structure SameRead (s t : Registry) : Prop where
  newestActive : ∀ id, t.newestActive id = s.newestActive id
  activeRules : ∀ id, (t.rules.lookup id).filter (·.active) = (s.rules.lookup id).filter (·.active)
  policyId : t.policyId = s.policyId

/-- The profile call that an operation makes. -/
def Op.profileCall : Op → Option ProfileCall
  | .registerProfile genseed kind payload deps provenance =>
    some (.register { kind, payload, id := genseed, deps, provenance })
  | .registerRecord p => some (.register p)
  | .supersedeProfile kind id payload deps provenance => some (.supersede kind id payload deps provenance)
  | _ => none

/-- A profile with an active record is to get dependencies one of which reaches it,
and the call is no repeat of the newest record. -/
structure ProfileCall.Silences (c : ProfileCall) (s : Registry) : Prop where
  active : (s.newestActive c.id).isSome = true
  new : ¬ c.Repeats s
  cyclic : c.OtherReaches s

/-- The call is such a profile call. -/
def Call.Silences (c : Call) (s : Registry) : Prop :=
  match c with
  | .operation op => ∃ pc ∈ op.profileCall, pc.Silences s
  | _ => False

/-! ### One call -/

theorem registerProfile_eq_run (genseed : Uuid) (kind : Enum8 ProfileKind) (payload : Canon)
    (deps : List Uuid) (provenance : Bytes) (s : Registry) :
    registerProfile genseed kind payload deps provenance s =
      (ProfileCall.register { kind, payload, id := genseed, deps, provenance }).run s := by
  simp only [registerProfile, ProfileCall.run, registerRecord]
  cases canonicalFingerprintHex payload with
  | error e => rfl
  | ok fingerprint => rfl

theorem Op.run_eq_profileCall {op : Op} {pc : ProfileCall} (h : op.profileCall = some pc) (s : Registry) :
    op.run s = (pc.run s).2 := by
  cases op <;> cases h
  case registerProfile genseed kind payload deps provenance =>
    exact congrArg Prod.snd (registerProfile_eq_run genseed kind payload deps provenance s)
  all_goals rfl

/-- A profile call stores no rule and takes no number for one. -/
theorem Op.rulebook_of_profileCall {op : Op} {pc : ProfileCall} (h : op.profileCall = some pc) (s : Registry) :
    (op.run s).rules = s.rules ∧ (op.run s).ruleGen = s.ruleGen := by
  rw [Op.run_eq_profileCall h]
  have hkept : (pc.beforeTest s).rules = s.rules ∧ (pc.beforeTest s).ruleGen = s.ruleGen := by
    obtain ⟨d, r, heq⟩ := (pc.prepared s).eq
    rw [heq]
    exact ⟨rfl, rfl⟩
  have hends := pc.ends s
  generalize pc.run s = result at hends ⊢
  cases hends with
  | refused early other => exact ⟨rfl, rfl⟩
  | repeated repeats => exact ⟨rfl, rfl⟩
  | rejected known new cyclic => exact hkept
  | @appended fingerprint known new encodes acyclic =>
    obtain ⟨d, r, heq⟩ := appendRecord_eq (pc.newRecord fingerprint s) (pc.beforeTest s)
    rw [heq]
    exact hkept

theorem Op.profileCall_wf {op : Op} {pc : ProfileCall} (h : op.profileCall = some pc) (hop : op.WF) :
    pc.payload.WF := by
  cases op <;> cases h <;> exact hop

/-- Every other call leaves the profiles alone or advances the generation. -/
theorem Op.profiles_or_advances {op : Op} (h : op.profileCall = none) (s : Registry) :
    (op.run s).profiles = s.profiles ∨ (op.run s).registryGen = s.registryGen + 1 := by
  cases op with
  | registerProfile genseed kind payload deps provenance => cases h
  | registerRecord p => cases h
  | supersedeProfile kind id payload deps provenance => cases h
  | invalidateProfile id reason =>
    obtain ⟨p, i, heq⟩ := invalidateWith_eq id reason s
    simp only [run, Registry.invalidateProfile, heq]
    cases s.profiles.lookup id with
    | none => exact .inl rfl
    | some hist => exact .inr rfl
  | propagateInvalidation id =>
    obtain ⟨p, i, heq⟩ := propagateLoop_eq s.reverse [id] [] s
    simp only [run, Registry.propagateInvalidation, heq, or_true]
  | registerRule rule => exact .inr rfl
  | supersedeRule id rule =>
    simp only [run, Registry.supersedeRule]
    cases s.rules.lookup id with
    | none => exact .inl rfl
    | some rr => exact .inr rfl
  | disableRule id =>
    simp only [run, Registry.disableRule]
    cases s.rules.lookup id with
    | none => exact .inl rfl
    | some rr => exact .inr rfl
  | registerEvidence ev => exact .inr rfl
  | setPolicy policy => exact .inr rfl
  | evaluatePair left right =>
    simp only [run, Registry.evaluatePair, evaluateWith]
    cases evaluateLocked s left right false <;> exact .inl rfl
  | evaluateRequirement candidate requirement =>
    simp only [run, Registry.evaluateRequirement, evaluateWith]
    cases evaluateLocked s candidate requirement true <;> exact .inl rfl

theorem Prepared.newestActive {id : Uuid} {s t : Registry} (h : Prepared id s t) (id' : Uuid) :
    t.newestActive id' = if id' = id then none else s.newestActive id' := by
  obtain ⟨d, r, rfl⟩ := h.eq
  exact newestActive_deactivateAll id id' s

/-- A profile call that does not silence the profile takes no active record away unless
it advances the generation. -/
theorem ProfileCall.newestActive_or_advances {pc : ProfileCall} {s : Registry} (h : GraphInv s)
    (hs : ¬ pc.Silences s) : (∀ id, (pc.run s).2.newestActive id = s.newestActive id) ∨
      (pc.run s).2.registryGen = s.registryGen + 1 := by
  have hends := pc.ends s
  generalize pc.run s = result at hends ⊢
  cases hends with
  | refused early other => exact .inl fun _ => rfl
  | repeated repeats => exact .inl fun _ => rfl
  | rejected known new cyclic =>
    refine .inl fun id => ?_
    rw [(pc.prepared s).newestActive]
    split_ifs with hid
    · rw [createCycle_beforeTest h] at cyclic
      have hinactive : ¬ (s.newestActive pc.id).isSome = true := fun hactive => hs ⟨hactive, new, cyclic⟩
      rw [hid]
      exact (Option.not_isSome_iff_eq_none.mp hinactive).symm
    · rfl
  | @appended fingerprint known new encodes acyclic =>
    obtain ⟨d, r, heq⟩ := appendRecord_eq (pc.newRecord fingerprint s) (pc.beforeTest s)
    rw [heq]
    exact .inr (congrArg (· + 1) (pc.prepared s).quiet.2)

/-- A silencing call takes the active record of its profile away and advances nothing. -/
theorem ProfileCall.Silences.run {pc : ProfileCall} {s : Registry} (h : GraphInv s)
    (hpayload : pc.payload.WF) (hs : pc.Silences s) :
    (pc.run s).2.newestActive pc.id = none ∧ (pc.run s).2.registryGen = s.registryGen := by
  have hknown : pc.Known s := by
    cases pc with
    | register record => trivial
    | supersede kind id payload deps provenance =>
      obtain ⟨p, hp⟩ := Option.isSome_iff_exists.mp hs.active
      obtain ⟨hist, hl, -⟩ := Option.bind_eq_some_iff.mp hp
      exact Option.isSome_iff_exists.mpr ⟨hist, hl⟩
  have hthrows := (throwsCycle_iff h hpayload hs.new).mpr ⟨hknown, hs.cyclic⟩
  rw [hthrows.state, (pc.prepared s).newestActive, if_pos rfl]
  exact ⟨rfl, (pc.prepared s).quiet.2⟩

/-! ### Runs -/

/-- The generation advanced `k` times, and without an advance no active record changed. -/
structure Steady (k : ℕ) (s t : Registry) : Prop extends Since k s t where
  newestActive : k = 0 → ∀ id, t.newestActive id = s.newestActive id

theorem Steady.refl (s : Registry) : Steady 0 s s := ⟨Since.refl s, fun _ _ => rfl⟩

theorem Call.steady {c : Call} (hc : c.WF) {s : Registry} (h : Reachable s) (hs : ¬ c.Silences s) {k : ℕ}
    {r : Registry} (hsteady : Steady k r s) : ∃ k' ≤ k + 1, Steady k' r (c.run s) := by
  cases c with
  | operation op =>
    have hnewest : (∀ id, (op.run s).newestActive id = s.newestActive id) ∨
        (op.run s).registryGen = s.registryGen + 1 := by
      cases hpc : op.profileCall with
      | none =>
        refine (Op.profiles_or_advances hpc s).imp_left fun hprofiles id => ?_
        unfold Registry.newestActive
        rw [hprofiles]
      | some pc =>
        rw [Op.run_eq_profileCall hpc]
        exact ProfileCall.newestActive_or_advances h.graphInv fun hpcs => hs ⟨pc, hpc, hpcs⟩
    have hadvance : (op.run s).registryGen = s.registryGen + 1 →
        ∃ k' ≤ k + 1, Steady k' r (op.run s) := fun hgen =>
      ⟨k + 1, le_rfl, hsteady.toSince.advance hgen, fun hk => absurd hk (Nat.succ_ne_zero k)⟩
    rcases (Op.run_effect hc h.inv).quiet_or_advances with ⟨hquiet, hgen⟩ | hgen
    · rcases hnewest with hkeep | hgen'
      · exact ⟨k, Nat.le_succ k, hsteady.toSince.quiet_step hquiet hgen,
          fun hk id => (hkeep id).trans (hsteady.newestActive hk id)⟩
      · exact hadvance hgen'
    · exact hadvance hgen
  | matrix lefts rights => exact ⟨k, Nat.le_succ k, hsteady⟩
  | counterfactualPair left right edits => exact ⟨k, Nat.le_succ k, hsteady⟩

/-- Two evaluations of one pair whose decisions report one generation have one digest. -/
def SameDigests (steps : List (Registry × Call)) : Prop :=
  ∀ e ∈ evaluationsOf steps, ∀ e' ∈ evaluationsOf steps,
    e.requirement = false → e'.requirement = false → e'.left = e.left → e'.right = e.right →
      e'.decision.registryGeneration = e.decision.registryGeneration → e'.decision.digest = e.decision.digest

/-- Every call that changes what an evaluation reads changes the generation. -/
def ChangesAdvance (steps : List (Registry × Call)) : Prop :=
  ∀ step ∈ steps, SameRead step.1 (step.2.run step.1) ∨ (step.2.run step.1).registryGen ≠ step.1.registryGen

/-- Two evaluations of one pair at one generation read the same. -/
def Agreed (e e' : Evaluation) : Prop :=
  e'.left = e.left → e'.right = e.right → e'.state.registryGen = e.state.registryGen →
    SameInputs e.left e.right e.state e'.state

theorem Agreed.symm {e e' : Evaluation} (h : Agreed e e') : Agreed e' e := by
  intro hleft hright hgen
  have hinputs := h hleft.symm hright.symm hgen.symm
  rw [hleft, hright] at hinputs
  exact ⟨hinputs.left.symm, hinputs.right.symm, fun id => (hinputs.rules id).symm,
    hinputs.registryGen.symm, hinputs.policyId.symm⟩

theorem Trace.agreed {start s : Registry} {steps : List (Registry × Call)} (h : Trace start steps s)
    (hstart : Reachable start) (hn : steps.length < 2 ^ 64) (hs : ∀ step ∈ steps, ¬ step.2.Silences step.1) :
    ∀ e ∈ evaluationsOf steps, ∀ e' ∈ evaluationsOf steps, Agreed e e' := by
  have hsymm : Std.Symm Agreed := ⟨fun _ _ => Agreed.symm⟩
  have hrefl : ∀ e ∈ evaluationsOf steps, Agreed e e := fun e _ _ _ _ => ⟨rfl, rfl, fun _ => rfl, rfl, rfl⟩
  have hlags : (evaluationsOf steps).Pairwise fun e e' => ∃ k ≤ steps.length, Steady k e.state e'.state := by
    refine (h.lags Steady.refl (fun step hstep k r hsteady => ?_) fun k r s t hsteady hst => ?_).2
    · obtain ⟨hreachable, hwf⟩ := h.step_reachable hstart step hstep
      exact Call.steady hwf hreachable (hs step hstep) hsteady
    · refine ⟨hsteady.toSince.quiet_step hst.quiet hst.registryGen, fun hk id => ?_⟩
      rw [← hsteady.newestActive hk id]
      unfold Registry.newestActive
      rw [hst.profiles.lookup]
  have hpairs : (evaluationsOf steps).Pairwise Agreed := by
    refine hlags.imp fun {e e'} ⟨k, hk, hsteady⟩ hleft hright hgen => ?_
    have hzero := hsteady.toSince.eq_zero (by omega) hgen
    have hquiet := hsteady.quiet hzero
    exact ⟨hsteady.newestActive hzero _, hsteady.newestActive hzero _, hquiet.rules, hgen, hquiet.policyId⟩
  intro e he e' he'
  exact hpairs.forall_of_forall hrefl he he'

theorem Trace.sameDigests {start s : Registry} {steps : List (Registry × Call)} (h : Trace start steps s)
    (hstart : Reachable start) (hn : steps.length < 2 ^ 64) (hs : ∀ step ∈ steps, ¬ step.2.Silences step.1) :
    SameDigests steps := by
  have hreach : ∀ e ∈ evaluationsOf steps, Inv e.state := by
    intro e he
    obtain ⟨step, hstep, hmem⟩ := List.mem_flatMap.mp he
    rw [Call.state_of_mem hmem]
    exact (h.step_reachable hstart step hstep).1.inv
  intro e he e' he' hpair hpair' hleft hright hreport
  rw [(Evaluation.decision_request (hreach e he)).2.2.2, (Evaluation.decision_request (hreach e' he')).2.2.2]
    at hreport
  have hinputs := h.agreed hstart hn hs e he e' he' hleft hright hreport
  have hsame : Evaluation.SameRequest e e' := ⟨hleft, hright, hinputs.policyId, hreport⟩
  rw [Evaluation.decision_eq_of_inputs (hreach e he) (hreach e' he') hsame hinputs (hpair.trans hpair'.symm)]

/-- In every run of a registry the digests and the generations are as documented
exactly when no call silences a profile. -/
theorem changesAdvance_iff_unsilenced {start s : Registry} {steps : List (Registry × Call)}
    (h : Trace start steps s) (hstart : Reachable start) :
    (steps.length < 2 ^ 64 → SameDigests steps) ∧ ChangesAdvance steps ↔
      ∀ step ∈ steps, ¬ step.2.Silences step.1 := by
  constructor
  · rintro ⟨-, hchanges⟩ ⟨r, c⟩ hstep hsilences
    obtain ⟨hreachable, hwf⟩ := h.step_reachable hstart (r, c) hstep
    cases c with
    | operation op =>
      obtain ⟨pc, hpc, hpcs⟩ := hsilences
      obtain ⟨hnone, hgen⟩ := hpcs.run hreachable.graphInv (Op.profileCall_wf hpc hwf)
      rw [← Op.run_eq_profileCall hpc] at hnone hgen
      rcases hchanges _ hstep with hsame | hne
      · have hsome := hpcs.active
        rw [← hsame.newestActive pc.id] at hsome
        change ((op.run r).newestActive pc.id).isSome = true at hsome
        rw [hnone] at hsome
        cases hsome
      · exact hne hgen
    | matrix lefts rights => exact hsilences
    | counterfactualPair left right edits => exact hsilences
  · intro hs
    refine ⟨fun hn => h.sameDigests hstart hn hs, fun step hstep => ?_⟩
    obtain ⟨hreachable, hwf⟩ := h.step_reachable hstart step hstep
    obtain ⟨k, hk, hsteady⟩ := Call.steady hwf hreachable (hs step hstep) (Steady.refl step.1)
    by_cases hgen : (step.2.run step.1).registryGen = step.1.registryGen
    · have hzero := hsteady.toSince.eq_zero (by omega) hgen
      have hquiet := hsteady.quiet hzero
      refine .inl ⟨hsteady.newestActive hzero, fun id => ?_, hquiet.policyId⟩
      rw [hquiet.rules id]
    · exact .inr hgen

/-! ### Lists of calls -/

def stepsOf : List Call → Registry → List (Registry × Call)
  | [], _ => []
  | c :: cs, s => (s, c) :: stepsOf cs (c.run s)

theorem Trace.append {start s : Registry} {steps : List (Registry × Call)} (h : Trace start steps s)
    {cs : List Call} (hcs : ∀ c ∈ cs, c.WF) : Trace start (steps ++ stepsOf cs s) (runCalls cs s) := by
  induction cs generalizing steps s with
  | nil =>
    rw [stepsOf, List.append_nil]
    exact h
  | cons c cs ih =>
    obtain ⟨hc, hcs⟩ := List.forall_mem_cons.mp hcs
    have htrace := ih (h.call c hc) hcs
    rw [List.append_assoc, List.singleton_append] at htrace
    exact htrace

theorem trace_stepsOf {cs : List Call} (hcs : ∀ c ∈ cs, c.WF) (start : Registry) :
    Trace start (stepsOf cs start) (runCalls cs start) :=
  Trace.start.append hcs

/-- Both profiles are registered and evaluated. -/
def announcedCalls : List Call := [
  .operation (.registerRecord (modelRecord base [])),
  .operation (.registerRecord (modelRecord user [base])),
  .operation (.evaluatePair base user)]

theorem changesAdvance_announced : SameDigests (stepsOf announcedCalls {}) ∧
    ChangesAdvance (stepsOf announcedCalls {}) := by
  have hwf : ∀ c ∈ announcedCalls, c.WF := by
    simp [announcedCalls, Call.WF, Op.WF, modelRecord, WF, WFRecord, SortedMap.Sorted]
  have hunsilenced : ∀ step ∈ stepsOf announcedCalls {}, ¬ step.2.Silences step.1 := by
    simp only [announcedCalls, stepsOf, List.forall_mem_cons, List.not_mem_nil, false_imp_iff, implies_true,
      and_true]
    refine ⟨?_, ?_, ?_⟩
    · rintro ⟨pc, hpc, hactive, -, -⟩
      cases hpc
      cases hactive
    · rintro ⟨pc, hpc, hactive, -, -⟩
      cases hpc
      revert hactive
      decide +kernel
    · rintro ⟨pc, hpc, -⟩
      cases hpc
  have hboth := (changesAdvance_iff_unsilenced (trace_stepsOf hwf {}) .empty).mpr hunsilenced
  refine ⟨hboth.1 ?_, hboth.2⟩
  show 3 < 2 ^ 64
  omega

/-- After an evaluation of the pair the edge back is rejected, and the pair is evaluated again. -/
def silencingCalls : List Call :=
  announcedCalls ++ [.operation (.registerRecord (modelRecord base [user])), .operation (.evaluatePair base user)]

theorem not_sameDigests_silencing : Trace {} (stepsOf silencingCalls {}) (runCalls silencingCalls {}) ∧
    ¬ SameDigests (stepsOf silencingCalls {}) ∧ ¬ ChangesAdvance (stepsOf silencingCalls {}) := by
  have hwf : ∀ c ∈ silencingCalls, c.WF := by
    simp [silencingCalls, announcedCalls, Call.WF, Op.WF, modelRecord, WF, WFRecord, SortedMap.Sorted]
  refine ⟨trace_stepsOf hwf {}, ?_, ?_⟩
  · have hdiffer : ∃ e ∈ evaluationsOf (stepsOf silencingCalls {}),
        ∃ e' ∈ evaluationsOf (stepsOf silencingCalls {}), e.requirement = false ∧ e'.requirement = false ∧
          e'.left = e.left ∧ e'.right = e.right ∧
          e'.decision.registryGeneration = e.decision.registryGeneration ∧
          e'.decision.digest ≠ e.decision.digest := by
      decide +kernel
    intro hsame
    obtain ⟨e, he, e', he', hpair, hpair', hleft, hright, hgen, hne⟩ := hdiffer
    exact hne (hsame e he e' he' hpair hpair' hleft hright hgen)
  · have hsilenced : ∃ step ∈ stepsOf silencingCalls {},
        (step.2.run step.1).registryGen = step.1.registryGen ∧
          ((step.2.run step.1).newestActive base).isSome ≠ (step.1.newestActive base).isSome := by
      decide +kernel
    intro hchanges
    obtain ⟨step, hstep, hgen, hne⟩ := hsilenced
    rcases hchanges step hstep with hsame | hadvanced
    · rw [hsame.newestActive] at hne
      exact hne rfl
    · exact hadvanced hgen

end Registry

end CompatRegistry
