import CompatRegistry.Registry.PairSpec
import CompatRegistry.Registry.Recall

/-! What does not touch an evaluation. The ruling on a pair is a function of the two newest active
records and the rules that apply to them. So it stays what it is, exceptions included, over every
run of calls that publish or withdraw other profiles, store rules that apply to other pairs, or
change the evidence or the policy. -/

namespace CompatRegistry

open Foundation Canon

/-- What a decision says on its pair, apart from the policy and the generation under which it was
made and what is derived from them. -/
structure Ruling where
  outcome : Enum8 Outcome
  ruleId : Uuid
  ruleGeneration : UInt64
  satisfied : List ConstraintItem
  failed : List ConstraintItem
  adaptations : List Bytes
  missingEvidence : List Bytes
  provenance : List Bytes

def CompatibilityDecision.ruling (d : CompatibilityDecision) : Ruling where
  outcome := d.outcome
  ruleId := d.ruleId
  ruleGeneration := d.ruleGeneration
  satisfied := d.satisfied
  failed := d.failed
  adaptations := d.adaptations
  missingEvidence := d.missingEvidence
  provenance := d.provenance

namespace Registry

/-! ### A function of the pair and its rules -/

theorem resolveRules_ruling {d d' : CompatibilityDecision} (h : d'.ruling = d.ruling)
    (cand : List CompatibilityRule) (evals : List RuleEval) :
    (resolveRules d' cand evals).map CompatibilityDecision.ruling =
      (resolveRules d cand evals).map CompatibilityDecision.ruling := by
  simp only [CompatibilityDecision.ruling, Ruling.mk.injEq] at h
  obtain ⟨houtcome, hrule, hgeneration, hsatisfied, hfailed, hadaptations, hmissing, hprovenance⟩ := h
  unfold resolveRules
  cases evals.filter (·.conclusive) with
  | cons best others =>
    simp only [Result.map_bind]
    cases conflictLines best.outcome others with
    | error e => rfl
    | ok lines => simp only [Result.ok_bind, Except.map, CompatibilityDecision.ruling, hprovenance]
  | nil =>
    cases cand with
    | nil =>
      simp only [Except.map]
      split_ifs <;> simp only [CompatibilityDecision.ruling, hrule, hgeneration, hsatisfied, hfailed, hadaptations,
        hmissing, hprovenance]
    | cons first rest =>
      simp only [Except.map]
      split_ifs <;> simp only [CompatibilityDecision.ruling, hsatisfied, hfailed, hadaptations, hmissing, hprovenance]

/-- Sealing fails or not by the outcome alone. -/
theorem sealDecision_ruling (s : Registry) (requirement : Bool) (d : CompatibilityDecision) :
    (sealDecision s requirement d).map CompatibilityDecision.ruling =
      (outcomeName d.outcome).map fun _ => d.ruling := by
  have houtcome : (identified s requirement d).outcome = d.outcome := rfl
  rw [sealDecision_eq, CompatibilityDecision.explainText, houtcome]
  cases outcomeName d.outcome <;> rfl

theorem ruleDecision_ruling {s t : Registry} {l r : ProfileRecord} {requirement : Bool}
    (h : candidates t (scopeOf requirement) l r = candidates s (scopeOf requirement) l r) :
    (ruleDecision t l r requirement).map CompatibilityDecision.ruling =
      (ruleDecision s l r requirement).map CompatibilityDecision.ruling := by
  unfold ruleDecision
  rw [h]
  simp only [Result.map_bind, sealDecision_ruling]
  cases (candidates s (scopeOf requirement) l r).mapM (evalRule l.toSubject r.toSubject) with
  | error e => rfl
  | ok evals =>
    have hopen : (openDecision t l.id r.id).ruling = (openDecision s l.id r.id).ruling := rfl
    have hresolve := resolveRules_ruling hopen (candidates s (scopeOf requirement) l r) evals
    simp only [Result.ok_bind]
    cases ht : resolveRules (openDecision t l.id r.id) (candidates s (scopeOf requirement) l r) evals with
    | error e =>
      cases hs : resolveRules (openDecision s l.id r.id) (candidates s (scopeOf requirement) l r) evals with
      | error e' =>
        rw [ht, hs] at hresolve
        simpa only [Except.map, Except.error.injEq, Result.error_bind] using hresolve
      | ok d =>
        rw [ht, hs] at hresolve
        cases hresolve
    | ok d' =>
      cases hs : resolveRules (openDecision s l.id r.id) (candidates s (scopeOf requirement) l r) evals with
      | error e =>
        rw [ht, hs] at hresolve
        cases hresolve
      | ok d =>
        rw [ht, hs] at hresolve
        simp only [Except.map, Except.ok.injEq] at hresolve
        simp only [Result.ok_bind, hresolve]
        rw [show d'.outcome = d.outcome from congrArg Ruling.outcome hresolve]

/-- What an evaluation of a pair reads: the two records and the rules that apply to them. -/
structure SamePair (scope : Bytes) (left right : Uuid) (s t : Registry) : Prop where
  leftActive : t.newestActive left = s.newestActive left
  rightActive : t.newestActive right = s.newestActive right
  rules : ∀ l r, s.newestActive left = some l → s.newestActive right = some r → ∀ id rr,
    applicable scope l r rr = true → (t.rules.lookup id = some rr ↔ s.rules.lookup id = some rr)

theorem SamePair.refl (scope : Bytes) (left right : Uuid) (s : Registry) : SamePair scope left right s s :=
  ⟨rfl, rfl, fun _ _ _ _ _ _ _ => Iff.rfl⟩

theorem SamePair.trans {scope : Bytes} {left right : Uuid} {s t u : Registry} (h₁ : SamePair scope left right s t)
    (h₂ : SamePair scope left right t u) : SamePair scope left right s u where
  leftActive := h₂.leftActive.trans h₁.leftActive
  rightActive := h₂.rightActive.trans h₁.rightActive
  rules l r hl hr id rr happ :=
    (h₂.rules l r (h₁.leftActive.trans hl) (h₁.rightActive.trans hr) id rr happ).trans (h₁.rules l r hl hr id rr happ)

theorem SamePair.ruling {s t : Registry} (hs : Inv s) (ht : Inv t) {requirement : Bool} {left right : Uuid}
    (h : SamePair (scopeOf requirement) left right s t) :
    (evaluateLocked t left right requirement).map CompatibilityDecision.ruling =
      (evaluateLocked s left right requirement).map CompatibilityDecision.ruling := by
  unfold evaluateLocked
  rw [h.leftActive, h.rightActive]
  have habsent : ∀ left right, (absentDecision t left right).map CompatibilityDecision.ruling =
      (absentDecision s left right).map CompatibilityDecision.ruling := by
    intro left right
    obtain ⟨digest, heq⟩ := absentDecision_eq t left right
    obtain ⟨digest', heq'⟩ := absentDecision_eq s left right
    rw [heq, heq']
    rfl
  cases hl : s.newestActive left with
  | none => exact habsent left right
  | some l =>
    cases hr : s.newestActive right with
    | none => exact habsent left right
    | some r =>
      simp only
      split_ifs with hsame
      · obtain ⟨digest, heq⟩ := exactDecision_eq t l r
        obtain ⟨digest', heq'⟩ := exactDecision_eq s l r
        rw [heq, heq']
        rfl
      · apply ruleDecision_ruling
        have hirrefl : Std.Irrefl RuleBefore := ⟨RuleBefore.irrefl⟩
        have hantisymm : Std.Antisymm RuleBefore := ⟨fun a b hab hba => absurd hba hab.asymm⟩
        have hcand := candidates_sorted hs (scopeOf requirement) l r
        have hcand' := candidates_sorted ht (scopeOf requirement) l r
        apply hcand'.sorted.eq_of_mem_iff hcand.sorted
        intro rule
        rw [hcand'.mem, hcand.mem]
        constructor
        · rintro ⟨id, rr, hlook, happ, hrule⟩
          exact ⟨id, rr, (h.rules l r hl hr id rr happ).mp hlook, happ, hrule⟩
        · rintro ⟨id, rr, hlook, happ, hrule⟩
          exact ⟨id, rr, (h.rules l r hl hr id rr happ).mpr hlook, happ, hrule⟩

/-! ### Calls -/

/-- The rule applies to the pair as it stands. -/
def AppliesTo (scope : Bytes) (left right : Uuid) (s : Registry) (rr : RuleRecord) : Prop :=
  ∃ l r, s.newestActive left = some l ∧ s.newestActive right = some r ∧ applicable scope l r rr = true

/-- The call publishes or withdraws one of the two profiles, or stores or replaces a rule that
applies to them. -/
def Op.Touches (requirement : Bool) (left right : Uuid) (s : Registry) : Op → Prop
  | .invalidateProfile id _ => id = left ∨ id = right
  | .propagateInvalidation id => s.Affected id left ∨ s.Affected id right
  | .registerRule rule =>
    AppliesTo (scopeOf requirement) left right s { rule } ∨
      ∃ rr ∈ s.rules.lookup rule.ruleId, AppliesTo (scopeOf requirement) left right s rr
  | .supersedeRule id rule =>
    AppliesTo (scopeOf requirement) left right s { rule } ∨
      ∃ rr ∈ s.rules.lookup id, AppliesTo (scopeOf requirement) left right s rr
  | .disableRule id => ∃ rr ∈ s.rules.lookup id, AppliesTo (scopeOf requirement) left right s rr
  | op => op.Publishes left ∨ op.Publishes right

section Step
variable {scope : Bytes} {left right : Uuid} {s t : Registry}

theorem SamePair.of_profiles (hleft : t.newestActive left = s.newestActive left)
    (hright : t.newestActive right = s.newestActive right) (hrules : t.rules = s.rules) :
    SamePair scope left right s t :=
  ⟨hleft, hright, fun _ _ _ _ _ _ _ => by rw [hrules]⟩

theorem newestActive_of_lookup {id : Uuid} (h : t.profiles.lookup id = s.profiles.lookup id) :
    t.newestActive id = s.newestActive id := by
  unfold newestActive
  rw [h]

/-- A rule takes the place of one that does not apply, and does not apply itself. -/
theorem SamePair.of_rule (hprofiles : t.profiles = s.profiles) {id : Uuid} {rr : RuleRecord}
    (hrules : t.rules = s.rules.insert id rr) (hnew : ¬ AppliesTo scope left right s rr)
    (hold : ∀ rr' ∈ s.rules.lookup id, ¬ AppliesTo scope left right s rr') : SamePair scope left right s t where
  leftActive := newestActive_of_lookup (by rw [hprofiles])
  rightActive := newestActive_of_lookup (by rw [hprofiles])
  rules l r hl hr id' rr' happ := by
    rw [hrules]
    exact UMap.lookup_insert_of_not hnew hold id' ⟨l, r, hl, hr, happ⟩

/-- A profile call keeps every other profile. -/
theorem newestActive_of_other {op : Op} {call : ProfileCall} (hcall : op.profileCall = some call) {id : Uuid}
    (hid : id ≠ call.id) (s : Registry) : (op.run s).newestActive id = s.newestActive id := by
  rw [Op.run_eq_profileCall hcall, newestActive_eq_find?, newestActive_eq_find?]
  have hkept : (call.beforeTest s).historyOf id = s.historyOf id :=
    ((call.prepared s).historyOf id).trans (if_neg hid)
  have hends := call.ends s
  generalize call.run s = result at hends ⊢
  cases hends with
  | refused early other => rfl
  | repeated repeats => rfl
  | rejected known new cyclic => rw [hkept]
  | @appended fingerprint known new encodes acyclic =>
    have hown : (call.newRecord fingerprint s).id = call.id := by cases call <;> rfl
    rw [historyOf_appendRecord, hown, if_neg hid, hkept]

theorem lookup_propagateInvalidation (hs : Reachable s) {id p : Uuid} (hp : ¬ s.Affected id p) :
    (propagateInvalidation id s).2.profiles.lookup p = s.profiles.lookup p := by
  obtain ⟨order, hvisits, heq⟩ := propagateLoop_visits s.reverse [id] [] s
  have hretires := retires_foldl (hvisits.nodup (not_dependsOn_self hs.graphInv id)) s
  rw [← heq] at hretires
  exact (hretires.lookup p).trans (if_neg fun hmem => hp ((affected_eq s id p).mpr (hvisits.mem_iff.mp hmem)))

theorem samePair_of_untouched (hs : Reachable s) {requirement : Bool} {op : Op}
    (h : ¬ op.Touches requirement left right s) : SamePair (scopeOf requirement) left right s (op.run s) := by
  have hpublished : ∀ call, op.profileCall = some call → ¬ (op.Publishes left ∨ op.Publishes right) →
      SamePair (scopeOf requirement) left right s (op.run s) := by
    intro call hcall hnot
    rw [not_or] at hnot
    refine .of_profiles (newestActive_of_other hcall (fun hid => hnot.1 ⟨call, hcall, hid.symm⟩) s)
      (newestActive_of_other hcall (fun hid => hnot.2 ⟨call, hcall, hid.symm⟩) s)
      (Op.rulebook_of_profileCall hcall s).1
  cases op with
  | registerProfile genseed kind payload deps provenance => exact hpublished _ rfl h
  | registerRecord p => exact hpublished _ rfl h
  | supersedeProfile kind id payload deps provenance => exact hpublished _ rfl h
  | invalidateProfile id reason =>
    simp only [Op.Touches, not_or] at h
    have hother : ∀ p, id ≠ p →
        (Registry.invalidateProfile id reason s).2.profiles.lookup p = s.profiles.lookup p := by
      intro p hp
      unfold invalidateProfile
      cases s.profiles.lookup id with
      | none => rfl
      | some hist => exact (lookup_invalidateWith id reason s p).trans (if_neg (Ne.symm hp))
    refine .of_profiles (newestActive_of_lookup (hother left h.1)) (newestActive_of_lookup (hother right h.2)) ?_
    simp only [Op.run, invalidateProfile]
    cases s.profiles.lookup id with
    | none => rfl
    | some hist =>
      obtain ⟨p, i, heq⟩ := invalidateWith_eq id reason s
      rw [heq]
  | propagateInvalidation id =>
    simp only [Op.Touches, not_or] at h
    refine .of_profiles (newestActive_of_lookup (lookup_propagateInvalidation hs h.1))
      (newestActive_of_lookup (lookup_propagateInvalidation hs h.2)) ?_
    obtain ⟨p, i, heq⟩ := propagateLoop_eq s.reverse [id] [] s
    simp only [Op.run, propagateInvalidation, heq]
  | registerRule rule =>
    simp only [Op.Touches, not_or, not_exists, not_and] at h
    exact .of_rule rfl rfl h.1 h.2
  | supersedeRule id rule =>
    simp only [Op.Touches, not_or, not_exists, not_and] at h
    simp only [Op.run, supersedeRule]
    cases hl : s.rules.lookup id with
    | none => exact .refl _ _ _ s
    | some old => exact .of_rule rfl rfl h.1 h.2
  | disableRule id =>
    simp only [Op.Touches, not_exists, not_and] at h
    simp only [Op.run, disableRule]
    cases hl : s.rules.lookup id with
    | none => exact .refl _ _ _ s
    | some old =>
      refine .of_rule rfl rfl (fun happlies => ?_) h
      obtain ⟨l, r, -, -, happ⟩ := happlies
      simp [applicable] at happ
  | registerEvidence ev => exact .of_profiles rfl rfl rfl
  | setPolicy policy => exact .of_profiles rfl rfl rfl
  | evaluatePair a b =>
    simp only [Op.run, evaluatePair, evaluateWith]
    cases evaluateLocked s a b false <;> exact .of_profiles rfl rfl rfl
  | evaluateRequirement a b =>
    simp only [Op.run, evaluateRequirement, evaluateWith]
    cases evaluateLocked s a b true <;> exact .of_profiles rfl rfl rfl

end Step

/-! ### Runs -/

/-- No call of the run touches the pair as it stands when the call is made. -/
def Untouched (requirement : Bool) (left right : Uuid) (ops : List Op) (s : Registry) : Prop :=
  EachCall (fun op s => ¬ op.Touches requirement left right s) ops s

/-- An evaluation answers the same before and after every run that does not touch its pair: the
same ruling, or the same exception. -/
theorem ruling_untouched {s : Registry} (h : Reachable s) {requirement : Bool} {left right : Uuid}
    {ops : List Op} (hops : Untouched requirement left right ops s) :
    (evaluateWith requirement left right (runOps ops s)).1.map CompatibilityDecision.ruling =
      (evaluateWith requirement left right s).1.map CompatibilityDecision.ruling := by
  obtain ⟨hreach, hsame⟩ := EachCall.related (SamePair.refl (scopeOf requirement) left right)
    (fun _ _ _ => SamePair.trans) (fun _ _ hs hop => samePair_of_untouched hs hop) h hops
  rw [evaluateWith_fst, evaluateWith_fst]
  exact hsame.ruling h.inv hreach.inv

/-- Another profile comes, a rule for requirements and another policy, and the profile goes again. -/
def otherOps : List Op := [
  .registerRecord (modelRecord (uuidOf 7) [base]),
  .registerRule { ruleId := uuidOf 3, scope := ascii "requirement" },
  .setPolicy (uuidOf 4),
  .invalidateProfile (uuidOf 7) (ascii "recalled")]

theorem ruling_untouched_other :
    (evaluateWith false base user (runOps otherOps baseAndUser)).1.map CompatibilityDecision.ruling =
      (evaluateWith false base user baseAndUser).1.map CompatibilityDecision.ruling := by
  have hrules : ((Op.registerRecord (modelRecord (uuidOf 7) [base])).run baseAndUser).rules.lookup (uuidOf 3) =
      none := by
    simp only [Op.run]
    exact Option.isNone_iff_eq_none.mp (by decide +kernel)
  apply ruling_untouched ProfileCall.baseAndUser_reachable
  simp only [otherOps, Untouched, EachCall, Along, and_true]
  refine ⟨⟨?_, ?_⟩, ⟨⟨?_, ?_, ?_, ?_⟩, ?_⟩, ⟨trivial, ?_⟩, trivial, ?_⟩
  · simp [Op.WF, modelRecord, WF, WFRecord, SortedMap.Sorted]
  · simp [Op.Touches, Op.Publishes, Op.profileCall, ProfileCall.id, modelRecord]
    decide
  · simp
  · simp
  · simp
  · simp
  · simp [Op.Touches, hrules, AppliesTo, applicable, scopeOf]
    decide
  · simp [Op.Touches, Op.Publishes, Op.profileCall]
  · simp [Op.Touches]
    decide

end Registry

end CompatRegistry
