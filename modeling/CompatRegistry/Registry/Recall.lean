import CompatRegistry.Registry.Resume

/-! A recall holds. A profile that has no active record gets none from anything but a new
publication of that profile, through crashes and recoveries too, and every evaluation of it
says until then that it is absent. -/

namespace CompatRegistry

open Foundation Canon

namespace Registry

/-- The call publishes a record of the profile, or tries to. -/
def Op.Publishes (id : Uuid) (op : Op) : Prop := ∃ call ∈ op.profileCall, call.id = id

/-- The call evaluates the profile. -/
def Op.Asks (id : Uuid) : Op → Prop
  | .evaluatePair left right => left = id ∨ right = id
  | .evaluateRequirement candidate requirement => candidate = id ∨ requirement = id
  | _ => False

/-- The records of the profile are still there, in their order, and none has become active. -/
def Fades (id : Uuid) (s t : Registry) : Prop :=
  ∃ f : ProfileRecord → ProfileRecord, (∀ p, (f p).active = true → p.active = true) ∧
    t.historyOf id = (s.historyOf id).map f

namespace Fades

variable {id : Uuid} {s t u : Registry}

theorem of_eq (h : t.historyOf id = s.historyOf id) : Fades id s t :=
  ⟨fun p => p, fun _ hp => hp, h.trans (List.map_id _).symm⟩

theorem refl (id : Uuid) (s : Registry) : Fades id s s := of_eq rfl

theorem trans (h₁ : Fades id s t) (h₂ : Fades id t u) : Fades id s u := by
  obtain ⟨f, hf, heq⟩ := h₁
  obtain ⟨g, hg, heq'⟩ := h₂
  refine ⟨g ∘ f, fun p hp => hf p (hg (f p) hp), ?_⟩
  rw [heq', heq, List.map_map]

theorem newestActive (h : Fades id s t) (hs : s.newestActive id = none) : t.newestActive id = none := by
  obtain ⟨f, hf, heq⟩ := h
  rw [newestActive_eq_find?, List.find?_eq_none] at hs ⊢
  intro p hp hactive
  rw [List.mem_reverse, heq] at hp
  obtain ⟨q, hq, rfl⟩ := List.mem_map.mp hp
  exact hs q (List.mem_reverse.mpr hq) (hf q hactive)

theorem length (h : Fades id s t) : (t.historyOf id).length = (s.historyOf id).length := by
  obtain ⟨f, -, heq⟩ := h
  rw [heq, List.length_map]

theorem invalidateWith (id id' : Uuid) (reason : Bytes) (s : Registry) :
    Fades id s (invalidateWith id' reason s) := by
  by_cases hid : id = id'
  · exact ⟨ProfileRecord.retire, fun p hp => absurd hp Bool.false_ne_true,
      by rw [historyOf_invalidateWith, if_pos hid, hid]⟩
  · exact of_eq (by rw [historyOf_invalidateWith, if_neg hid])

theorem propagateLoop (id : Uuid) (reverse : UMap Uuid (List Uuid)) (stack seen : List Uuid) (s : Registry) :
    Fades id s (propagateLoop reverse stack seen s) :=
  propagateLoop_related (refl id) trans (fun id' s => invalidateWith id id' propagateReason s) reverse stack seen s

theorem reorder (h : Reordered s t) : Fades id s t := of_eq (h.historyOf id)

/-- A snapshot keeps the flags of every record. -/
theorem recover (hs : Inv s) {bytes : Bytes} (hsnapshot : s.snapshot = .ok bytes)
    (hrecover : Registry.recover bytes = .ok t) : Fades id s t := by
  obtain ⟨rfl, -⟩ := (recover_snapshot hs).mp ⟨bytes, hsnapshot, hrecover⟩
  exact ⟨ProfileRecord.forced, fun _ hp => hp, historyOf_restored hs id⟩

end Fades

/-- A call that publishes another profile, or none. -/
theorem Op.fades {op : Op} {id : Uuid} (h : ¬ op.Publishes id) (s : Registry) : Fades id s (op.run s) := by
  cases hcall : op.profileCall with
  | some call =>
    have hid : id ≠ call.id := fun hid => h ⟨call, hcall, hid.symm⟩
    rw [Op.run_eq_profileCall hcall]
    have hprepared := call.prepared s
    have hkept : (call.beforeTest s).historyOf id = s.historyOf id := (hprepared.historyOf id).trans (if_neg hid)
    have hends := call.ends s
    generalize call.run s = result at hends ⊢
    cases hends with
    | refused early other => exact .refl id s
    | repeated repeats => exact .refl id s
    | rejected known new cyclic => exact .of_eq hkept
    | @appended fingerprint known new encodes acyclic =>
      have hown : (call.newRecord fingerprint s).id = call.id := by cases call <;> rfl
      refine .of_eq ?_
      rw [historyOf_appendRecord, hown, if_neg hid, hkept]
  | none =>
    cases op with
    | registerProfile genseed kind payload deps provenance => cases hcall
    | registerRecord p => cases hcall
    | supersedeProfile kind id payload deps provenance => cases hcall
    | invalidateProfile id' reason =>
      simp only [Op.run, Registry.invalidateProfile]
      cases s.profiles.lookup id' with
      | none => exact .refl id s
      | some hist => exact .invalidateWith id id' reason s
    | propagateInvalidation id' => exact .propagateLoop id s.reverse [id'] [] s
    | registerRule rule => exact .of_eq rfl
    | supersedeRule id' rule =>
      simp only [Op.run, Registry.supersedeRule]
      cases s.rules.lookup id' <;> exact .of_eq rfl
    | disableRule id' =>
      simp only [Op.run, Registry.disableRule]
      cases s.rules.lookup id' <;> exact .of_eq rfl
    | registerEvidence ev => exact .of_eq rfl
    | setPolicy policy => exact .of_eq rfl
    | evaluatePair left right =>
      simp only [Op.run, Registry.evaluatePair, evaluateWith]
      cases evaluateLocked s left right false <;> exact .of_eq rfl
    | evaluateRequirement candidate requirement =>
      simp only [Op.run, Registry.evaluateRequirement, evaluateWith]
      cases evaluateLocked s candidate requirement true <;> exact .of_eq rfl

/-! ### Answers about an absent profile -/

/-- The answer is that the pair cannot be evaluated. -/
def SaysAbsent (answer : Reply) : Prop :=
  ∃ d : CompatibilityDecision, answer = .decision (.ok d) ∧ d.outcome = .declared .unknown ∧
    d.ruleId = Uuid.zero ∧ d.satisfied = [] ∧
    d.explanation = ascii "pair cannot be evaluated: one or both profiles are absent or invalidated"

theorem saysAbsent {s : Registry} {left right : Uuid} (requirement : Bool)
    (h : s.newestActive left = none ∨ s.newestActive right = none) :
    SaysAbsent (.decision (evaluateWith requirement left right s).1) := by
  obtain ⟨digest, heq⟩ := absentDecision_eq s left right
  rw [evaluateWith_fst, evaluateLocked_of_absent h, heq]
  exact ⟨_, rfl, rfl, rfl, rfl, rfl⟩

theorem Op.Asks.saysAbsent {op : Op} {id : Uuid} (h : op.Asks id) {s : Registry} (hs : s.newestActive id = none) :
    SaysAbsent (op.reply s) := by
  cases op with
  | evaluatePair left right =>
    refine Registry.saysAbsent false ?_
    rcases h with rfl | rfl
    · exact .inl hs
    · exact .inr hs
  | evaluateRequirement candidate requirement =>
    refine Registry.saysAbsent true ?_
    rcases h with rfl | rfl
    · exact .inl hs
    · exact .inr hs
  | _ => cases h

/-! ### Runs -/

theorem CrashingRun.reachable {start s : Registry} {ops : List Op} {answers : List Reply}
    (h : CrashingRun start ops answers s) (hstart : Reachable start) (hops : ∀ op ∈ ops, op.WF) : Reachable s := by
  induction h with
  | start => exact hstart
  | call op h ih =>
    obtain ⟨hops, hop⟩ := List.forall_mem_append.mp hops
    exact (ih hops).step op (hop op (List.mem_singleton_self op))
  | crash h saved recovered ih => exact (ih hops).recover saved recovered
  | reorder h reordered ih => exact (ih hops).reorder reordered

/-- One answer for each call. -/
theorem CrashingRun.length {start s : Registry} {ops : List Op} {answers : List Reply}
    (h : CrashingRun start ops answers s) : ops.length = answers.length := by
  induction h with
  | start => rfl
  | call op h ih => rw [List.length_append, List.length_append, ih, List.length_singleton, List.length_singleton]
  | crash h saved recovered ih => exact ih
  | reorder h reordered ih => exact ih

/-- Without a publication of the profile it fades, and as long as it has no active record every
evaluation of it says so. -/
theorem CrashingRun.fades {start s : Registry} {ops : List Op} {answers : List Reply}
    (h : CrashingRun start ops answers s) (hstart : Reachable start) {id : Uuid}
    (hops : ∀ op ∈ ops, op.WF ∧ ¬ op.Publishes id) (hnone : start.newestActive id = none) :
    Fades id start s ∧ ∀ call ∈ ops.zip answers, call.1.Asks id → SaysAbsent call.2 := by
  induction h with
  | start => exact ⟨.refl id start, fun call hcall => by cases hcall⟩
  | @call ops answers s op h ih =>
    obtain ⟨hops, hop⟩ := List.forall_mem_append.mp hops
    obtain ⟨hfades, hanswers⟩ := ih hops
    refine ⟨hfades.trans (Op.fades (hop op (List.mem_singleton_self op)).2 s), fun call hcall hasks => ?_⟩
    rw [List.zip_append h.length] at hcall
    obtain hcall | hcall := List.mem_append.mp hcall
    · exact hanswers call hcall hasks
    · rw [List.zip_cons_cons, List.zip_nil_right] at hcall
      rw [List.mem_singleton.mp hcall] at hasks ⊢
      exact hasks.saysAbsent (hfades.newestActive hnone)
  | crash h saved recovered ih =>
    obtain ⟨hfades, hanswers⟩ := ih hops
    have hreach := h.reachable hstart fun op hop => (hops op hop).1
    exact ⟨hfades.trans (.recover hreach.inv saved recovered), hanswers⟩
  | reorder h reordered ih =>
    obtain ⟨hfades, hanswers⟩ := ih hops
    exact ⟨hfades.trans (.reorder reordered), hanswers⟩

/-- Every affected profile is visited, and what is visited has no active record left. -/
theorem Affected.newestActive {s : Registry} (h : Reachable s) {id p : Uuid} (hp : s.Affected id p) :
    (propagateInvalidation id s).2.newestActive p = none := by
  obtain ⟨order, hvisits, heq⟩ := propagateLoop_visits s.reverse [id] [] s
  have hretires := retires_foldl (hvisits.nodup (not_dependsOn_self h.graphInv id)) s
  rw [← heq] at hretires
  have hmem : p ∈ order := hvisits.mem_iff.mpr ((affected_eq s id p).mp hp)
  have hlookup := (hretires.lookup p).trans (if_pos hmem)
  change (propagateInvalidation id s).2.profiles.lookup p = _ at hlookup
  unfold Registry.newestActive
  rw [hlookup]
  cases s.profiles.lookup p with
  | none => rfl
  | some hist => exact retired_notActive.2.1

/-- After a propagation has recalled a profile with everything that depends on it: whatever else is
registered, superseded, disabled, invalidated or evaluated, and however often the registry crashes
and recovers, every one of them that is not published again stays withdrawn, with its whole
history, and every evaluation of it says that it is absent. -/
theorem recall_holds {s t : Registry} (h : Reachable s) {id p : Uuid} (hp : s.Affected id p) {ops : List Op}
    {answers : List Reply} (hops : ∀ op ∈ ops, op.WF ∧ ¬ op.Publishes p)
    (hrun : CrashingRun (propagateInvalidation id s).2 ops answers t) :
    t.findProfile p = none ∧ (∀ kind, ∀ q ∈ t.queryByKind kind, q.id ≠ p) ∧
      (t.historyOf p).length = (s.historyOf p).length ∧
      ∀ call ∈ ops.zip answers, call.1.Asks p → SaysAbsent call.2 := by
  have hrecalled : Reachable (propagateInvalidation id s).2 := h.step (.propagateInvalidation id) trivial
  obtain ⟨hfades, hanswers⟩ := hrun.fades hrecalled hops (hp.newestActive h)
  have hnone := hfades.newestActive (hp.newestActive h)
  refine ⟨?_, fun kind q hq hid => ?_, ?_, hanswers⟩
  · rw [ProfileCall.findProfile_eq_find?, ← newestActive_eq_find?, hnone]
  · obtain ⟨hq, -⟩ := List.mem_filter.mp ((List.mem_insertionSort _).mp hq)
    obtain ⟨hist, hhist, hnewest⟩ := List.mem_filterMap.mp hq
    obtain ⟨id', hl⟩ := UMap.mem_values_iff.mp hhist
    have hq' : t.newestActive id' = some q := Option.bind_eq_some_iff.mpr ⟨hist, hl, hnewest⟩
    have hreach := hrun.reachable hrecalled fun op hop => (hops op hop).1
    rw [← (hreach.inv.newestActive hq').id, hid, hnone] at hq'
    cases hq'
  · rw [hfades.length]
    exact (Fades.propagateLoop p s.reverse [id] [] s).length

/-- `base` is recalled with its user, and the user is evaluated after a rule has come. -/
theorem recall_holds_user : ∃ t answers,
    CrashingRun (propagateInvalidation base baseAndUser).2
      [.registerRule { ruleId := uuidOf 3, scope := ascii "pair" }, .evaluatePair base user] answers t ∧
    t.findProfile user = none := by
  have hedge : baseAndUser.Affected base user := .single (by decide +kernel)
  let ops : List Op := [.registerRule { ruleId := uuidOf 3, scope := ascii "pair" }, .evaluatePair base user]
  have hops : ∀ op ∈ ops, op.WF ∧ ¬ op.Publishes user := by
    simp only [ops, List.forall_mem_cons, List.not_mem_nil, false_imp_iff, implies_true, and_true]
    refine ⟨⟨⟨?_, ?_, ?_, ?_⟩, ?_⟩, trivial, ?_⟩ <;> simp [Op.Publishes, Op.profileCall]
  have hstart : CrashingRun (propagateInvalidation base baseAndUser).2 [] [] _ := .start
  have hruled := hstart.call (.registerRule { ruleId := uuidOf 3, scope := ascii "pair" })
  have hrun := hruled.call (.evaluatePair base user)
  exact ⟨_, _, hrun, (recall_holds ProfileCall.baseAndUser_reachable hedge hops hrun).1⟩

end Registry

end CompatRegistry
