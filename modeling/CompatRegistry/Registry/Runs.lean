import CompatRegistry.Registry.Derived
import CompatRegistry.Registry.DecisionId
import CompatRegistry.Registry.Reachable

/-! Runs of a registry with the evaluations that returned in them, and what an
evaluation reads over a run. A call that does not advance the generation leaves the
rules and the policy alone, and of a profile it can only take the active record
away, as a profile call that is rejected for a cycle does. -/

namespace CompatRegistry

open Foundation Canon

namespace Registry

/-! ### Quiet steps -/

/-- The rules and the policy are the same, and no active record is another one. -/
structure Quiet (s t : Registry) : Prop where
  rules : ∀ id, t.rules.lookup id = s.rules.lookup id
  policyId : t.policyId = s.policyId
  newestActive : ∀ id, t.newestActive id = s.newestActive id ∨ t.newestActive id = none

theorem Quiet.refl (s : Registry) : Quiet s s := ⟨fun _ => rfl, rfl, fun _ => .inl rfl⟩

theorem Quiet.trans {s t u : Registry} (h₁ : Quiet s t) (h₂ : Quiet t u) : Quiet s u where
  rules id := (h₂.rules id).trans (h₁.rules id)
  policyId := h₂.policyId.trans h₁.policyId
  newestActive id := by
    rcases h₂.newestActive id with h | h
    · rw [h]
      exact h₁.newestActive id
    · exact .inr h

/-- Two states that agree on the maps that an evaluation reads. -/
theorem Quiet.of_maps {s t : Registry} (hprofiles : ∀ id, t.profiles.lookup id = s.profiles.lookup id)
    (hrules : ∀ id, t.rules.lookup id = s.rules.lookup id) (hpolicy : t.policyId = s.policyId) :
    Quiet s t where
  rules := hrules
  policyId := hpolicy
  newestActive id := by
    unfold Registry.newestActive
    rw [hprofiles]
    exact .inl rfl

theorem newestActive_deactivateAll (id id' : Uuid) (s : Registry) :
    (deactivateAll id s).newestActive id' = if id' = id then none else s.newestActive id' := by
  rw [newestActive_eq_find?, historyOf_deactivateAll, newestActive_eq_find?]
  split_ifs with hid
  · rw [List.find?_eq_none]
    intro p hp
    obtain ⟨q, -, rfl⟩ := List.mem_map.mp (List.mem_reverse.mp hp)
    rw [ProfileRecord.deactivate_active]
    exact Bool.false_ne_true
  · rfl

theorem Prepared.quiet {id : Uuid} {s t : Registry} (h : Prepared id s t) :
    Quiet s t ∧ t.registryGen = s.registryGen := by
  obtain ⟨d, r, rfl⟩ := h.eq
  refine ⟨⟨fun _ => rfl, rfl, fun id' => ?_⟩, rfl⟩
  change (deactivateAll id s).newestActive id' = _ ∨ (deactivateAll id s).newestActive id' = none
  rw [newestActive_deactivateAll]
  split_ifs
  · exact .inr rfl
  · exact .inl rfl

/-- A call is quiet or advances the generation by one. -/
theorem Effect.quiet_or_advances {s t : Registry} (he : Effect s t) :
    (Quiet s t ∧ t.registryGen = s.registryGen) ∨ t.registryGen = s.registryGen + 1 := by
  cases he with
  | unchanged => exact .inl ⟨Quiet.refl s, rfl⟩
  | rejected prepared cyclic => exact .inl prepared.quiet
  | @appended record u prepared sound generation acyclic =>
    obtain ⟨d, r, heq⟩ := appendRecord_eq record u
    rw [heq]
    exact .inr (congrArg (· + 1) prepared.quiet.2)
  | retired id reason known =>
    obtain ⟨p, i, heq⟩ := invalidateWith_eq id reason s
    rw [heq]
    exact .inr rfl
  | propagated id =>
    obtain ⟨p, i, heq⟩ := propagateLoop_eq s.reverse [id] [] s
    unfold propagateInvalidation
    rw [heq]
    exact .inr rfl
  | ruleStored => exact .inr rfl
  | evidenceStored => exact .inr rfl
  | policySet => exact .inr rfl
  | decided => exact .inl ⟨Quiet.of_maps (fun _ => rfl) (fun _ => rfl) rfl, rfl⟩

/-- The generation advanced `k` times, and without an advance all steps were quiet. -/
structure Since (k : ℕ) (s t : Registry) : Prop where
  registryGen : t.registryGen = s.registryGen + UInt64.ofNat k
  quiet : k = 0 → Quiet s t

theorem Since.refl (s : Registry) : Since 0 s s := ⟨(UInt64.add_zero _).symm, fun _ => Quiet.refl s⟩

theorem Since.quiet_step {k : ℕ} {s t u : Registry} (h : Since k s t) (hquiet : Quiet t u)
    (hgen : u.registryGen = t.registryGen) : Since k s u :=
  ⟨hgen.trans h.registryGen, fun hk => (h.quiet hk).trans hquiet⟩

theorem Since.advance {k : ℕ} {s t u : Registry} (h : Since k s t)
    (hgen : u.registryGen = t.registryGen + 1) : Since (k + 1) s u where
  registryGen := by
    rw [hgen, h.registryGen, UInt64.add_assoc]
    exact congrArg (s.registryGen + ·) (UInt64.ofNat_add k 1).symm
  quiet hk := absurd hk (Nat.succ_ne_zero k)

/-- Short of `2^64` advances the generation does not come round. -/
theorem Since.eq_zero {k : ℕ} {s t : Registry} (h : Since k s t) (hk : k < 2 ^ 64)
    (hgen : t.registryGen = s.registryGen) : k = 0 := by
  have hnat := congrArg UInt64.toNat h.registryGen
  have hlt := s.registryGen.toNat_lt
  rw [hgen, UInt64.toNat_add, UInt64.toNat_ofNat'] at hnat
  omega

/-! ### Calls and runs -/

/-- The calls of a registry: the operations that change it, and the derived ones. -/
inductive Call where
  | operation (op : Op)
  | matrix (lefts rights : List Uuid)
  | counterfactualPair (left right : Uuid) (edits : List CounterfactualEdit)

/-- The evaluation, if it returns. -/
def evaluationOf (s : Registry) (left right : Uuid) (requirement : Bool) : List Evaluation :=
  match h : evaluateLocked s left right requirement with
  | .ok d => [⟨s, left, right, requirement, d, h⟩]
  | .error _ => []

/-- The evaluations that return from an operation. -/
def Op.evaluations : Op → Registry → List Evaluation
  | .evaluatePair left right, s => evaluationOf s left right false
  | .evaluateRequirement candidate requirement, s => evaluationOf s candidate requirement true
  | _, _ => []

namespace Call

def WF : Call → Prop
  | .operation op => op.WF
  | _ => True

def run : Call → Registry → Registry
  | .operation op, s => op.run s
  | .matrix lefts rights, s => (Registry.matrix lefts rights s).2
  | .counterfactualPair left right edits, s => (Registry.counterfactualPair left right edits s).2

def evaluations : Call → Registry → List Evaluation
  | .operation op, s => op.evaluations s
  | _, _ => []

end Call

/-- A run of `n` calls from the empty registry, with the evaluations that returned,
oldest first. The hash maps may be iterated in another order at any time. -/
inductive Run : ℕ → List Evaluation → Registry → Prop
  | empty : Run 0 [] {}
  | call {n : ℕ} {log : List Evaluation} {s : Registry} (c : Call) (hc : c.WF) (h : Run n log s) :
      Run (n + 1) (log ++ c.evaluations s) (c.run s)
  | reorder {n : ℕ} {log : List Evaluation} {s t : Registry} (h : Run n log s) (hst : Reordered s t) :
      Run n log t

theorem Call.run_reachable {c : Call} (hc : c.WF) {s : Registry} (h : Reachable s) : Reachable (c.run s) := by
  cases c with
  | operation op => exact h.step op hc
  | matrix lefts rights => exact h
  | counterfactualPair left right edits => exact h

theorem Run.reachable {n : ℕ} {log : List Evaluation} {s : Registry} (h : Run n log s) : Reachable s := by
  induction h with
  | empty => exact .empty
  | call c hc _ ih => exact Call.run_reachable hc ih
  | reorder _ hst ih => exact ih.reorder hst

theorem mem_evaluationOf {s : Registry} {left right : Uuid} {requirement : Bool} {e : Evaluation}
    (h : e ∈ evaluationOf s left right requirement) : e.state = s := by
  unfold evaluationOf at h
  split at h
  · rw [List.mem_singleton.mp h]
  · cases h

theorem Call.state_of_mem {c : Call} {s : Registry} {e : Evaluation} (h : e ∈ c.evaluations s) :
    e.state = s := by
  cases c with
  | operation op =>
    cases op with
    | evaluatePair left right => exact mem_evaluationOf h
    | evaluateRequirement candidate requirement => exact mem_evaluationOf h
    | _ => cases h
  | matrix lefts rights => cases h
  | counterfactualPair left right edits => cases h

theorem Run.state_reachable {n : ℕ} {log : List Evaluation} {s : Registry} (h : Run n log s)
    {e : Evaluation} (he : e ∈ log) : Reachable e.state := by
  induction h with
  | empty => cases he
  | call c hc h ih =>
    rcases List.mem_append.mp he with he | he
    · exact ih he
    · rw [Call.state_of_mem he]
      exact h.reachable
  | reorder _ _ ih => exact ih he

theorem Call.since {c : Call} (hc : c.WF) {s : Registry} (h : Inv s) {k : ℕ} {r : Registry}
    (hs : Since k r s) : ∃ k' ≤ k + 1, Since k' r (c.run s) := by
  cases c with
  | operation op =>
    rcases (Op.run_effect hc h).quiet_or_advances with ⟨hquiet, hgen⟩ | hgen
    · exact ⟨k, Nat.le_succ k, hs.quiet_step hquiet hgen⟩
    · exact ⟨k + 1, le_rfl, hs.advance hgen⟩
  | matrix lefts rights => exact ⟨k, Nat.le_succ k, hs⟩
  | counterfactualPair left right edits => exact ⟨k, Nat.le_succ k, hs⟩

theorem evaluationOf_pairwise (R : Evaluation → Evaluation → Prop) (s : Registry) (left right : Uuid)
    (requirement : Bool) : (evaluationOf s left right requirement).Pairwise R := by
  unfold evaluationOf
  split
  · exact List.pairwise_singleton R _
  · exact List.Pairwise.nil

theorem Call.evaluations_pairwise (R : Evaluation → Evaluation → Prop) (c : Call) (s : Registry) :
    (c.evaluations s).Pairwise R := by
  cases c with
  | operation op =>
    cases op with
    | evaluatePair left right => exact evaluationOf_pairwise R s left right false
    | evaluateRequirement candidate requirement =>
      exact evaluationOf_pairwise R s candidate requirement true
    | _ => exact List.Pairwise.nil
  | matrix lefts rights => exact List.Pairwise.nil
  | counterfactualPair left right edits => exact List.Pairwise.nil

/-! ### Calls with their states -/

/-- A run from `start`: the calls, oldest first, each with the state that it met. -/
inductive Trace (start : Registry) : List (Registry × Call) → Registry → Prop
  | start : Trace start [] start
  | call {steps : List (Registry × Call)} {s : Registry} (c : Call) (hc : c.WF) (h : Trace start steps s) :
      Trace start (steps ++ [(s, c)]) (c.run s)
  | reorder {steps : List (Registry × Call)} {s t : Registry} (h : Trace start steps s)
      (hst : Reordered s t) : Trace start steps t

/-- The evaluations that returned, oldest first. -/
def evaluationsOf (steps : List (Registry × Call)) : List Evaluation :=
  steps.flatMap fun step => step.2.evaluations step.1

theorem evaluationsOf_snoc (steps : List (Registry × Call)) (s : Registry) (c : Call) :
    evaluationsOf (steps ++ [(s, c)]) = evaluationsOf steps ++ c.evaluations s := by
  unfold evaluationsOf
  rw [List.flatMap_append, List.flatMap_singleton]

theorem Run.trace {n : ℕ} {log : List Evaluation} {s : Registry} (h : Run n log s) :
    ∃ steps, Trace {} steps s ∧ steps.length = n ∧ evaluationsOf steps = log := by
  induction h with
  | empty => exact ⟨[], .start, rfl, rfl⟩
  | @call n log s c hc _ ih =>
    obtain ⟨steps, htrace, hlength, hlog⟩ := ih
    refine ⟨steps ++ [(s, c)], htrace.call c hc, ?_, ?_⟩
    · rw [List.length_append, hlength, List.length_singleton]
    · rw [evaluationsOf_snoc, hlog]
  | reorder _ hst ih =>
    obtain ⟨steps, htrace, hlength, hlog⟩ := ih
    exact ⟨steps, htrace.reorder hst, hlength, hlog⟩

theorem Trace.reachable {start s : Registry} {steps : List (Registry × Call)} (h : Trace start steps s)
    (hstart : Reachable start) : Reachable s := by
  induction h with
  | start => exact hstart
  | call c hc _ ih => exact Call.run_reachable hc ih
  | reorder _ hst ih => exact ih.reorder hst

/-- Every call of a run met a reachable state. -/
theorem Trace.step_reachable {start s : Registry} {steps : List (Registry × Call)} (h : Trace start steps s)
    (hstart : Reachable start) : ∀ step ∈ steps, Reachable step.1 ∧ step.2.WF := by
  induction h with
  | start => simp
  | @call steps s c hc h ih =>
    intro step hstep
    rcases List.mem_append.mp hstep with hstep | hstep
    · exact ih step hstep
    · rw [List.mem_singleton.mp hstep]
      exact ⟨h.reachable hstart, hc⟩
  | reorder _ _ ih => exact ih

/-- A relation that may count one more with every call: how far the state of each
evaluation of a run lies behind the last state, and behind that of each later one. -/
theorem Trace.lags {start s : Registry} {steps : List (Registry × Call)} {R : ℕ → Registry → Registry → Prop}
    (h : Trace start steps s) (refl : ∀ s, R 0 s s)
    (call : ∀ step ∈ steps, ∀ k r, R k r step.1 → ∃ k' ≤ k + 1, R k' r (step.2.run step.1))
    (reorder : ∀ k r s t, R k r s → Reordered s t → R k r t) :
    (∀ e ∈ evaluationsOf steps, ∃ k ≤ steps.length, R k e.state s) ∧
      (evaluationsOf steps).Pairwise fun e e' => ∃ k ≤ steps.length, R k e.state e'.state := by
  induction h with
  | start => exact ⟨by simp [evaluationsOf], List.Pairwise.nil⟩
  | @call steps s c hc h ih =>
    obtain ⟨hlast, hpairs⟩ := ih fun step hstep => call step (List.mem_append_left _ hstep)
    have hcall := call (s, c) (List.mem_append_right _ (List.mem_singleton_self _))
    rw [evaluationsOf_snoc, List.length_append, List.length_singleton]
    refine ⟨fun e he => ?_, List.pairwise_append.mpr ⟨?_, c.evaluations_pairwise _ s, ?_⟩⟩
    · rcases List.mem_append.mp he with he | he
      · obtain ⟨k, hk, hlag⟩ := hlast e he
        obtain ⟨k', hk', hlag'⟩ := hcall k e.state hlag
        exact ⟨k', by omega, hlag'⟩
      · rw [Call.state_of_mem he]
        obtain ⟨k', hk', hlag'⟩ := hcall 0 s (refl s)
        exact ⟨k', by omega, hlag'⟩
    · exact hpairs.imp fun ⟨k, hk, hlag⟩ => ⟨k, by omega, hlag⟩
    · intro e he e' he'
      obtain ⟨k, hk, hlag⟩ := hlast e he
      rw [Call.state_of_mem he']
      exact ⟨k, by omega, hlag⟩
  | @reorder steps s t h hst ih =>
    obtain ⟨hlast, hpairs⟩ := ih call
    refine ⟨fun e he => ?_, hpairs⟩
    obtain ⟨k, hk, hlag⟩ := hlast e he
    exact ⟨k, hk, reorder k e.state s t hlag hst⟩

theorem Reordered.quiet {s t : Registry} (h : Reordered s t) : Quiet s t :=
  Quiet.of_maps (fun id => (h.profiles.lookup id).symm) (fun id => (h.rules.lookup id).symm) h.policyId

/-- How far the state of each evaluation of a run lies behind, and behind each later one. -/
theorem Run.since {n : ℕ} {log : List Evaluation} {s : Registry} (h : Run n log s) :
    (∀ e ∈ log, ∃ k ≤ n, Since k e.state s) ∧
      log.Pairwise fun e e' => ∃ k ≤ n, Since k e.state e'.state := by
  obtain ⟨steps, htrace, rfl, rfl⟩ := h.trace
  apply htrace.lags Since.refl
  · intro step hstep k r hsince
    obtain ⟨hreachable, hwf⟩ := htrace.step_reachable .empty step hstep
    exact Call.since hwf hreachable.inv hsince
  · exact fun k r s t hsince hst => hsince.quiet_step hst.quiet hst.registryGen

end Registry

end CompatRegistry
