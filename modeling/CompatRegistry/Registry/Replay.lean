import CompatRegistry.Registry.Runs
import CompatRegistry.Foundation.KeyedCache

/-! Which decisions of a run can be found again. The cache is keyed by the digest of
a decision, which leaves out its scope and its identity, and searched by the
identity, which an early decision does not have. -/

namespace CompatRegistry

open Foundation Canon

theorem toUInt64_injective {ε : Type} [Enumerated ε] :
    Function.Injective (Enum8.toUInt64 : Enum8 ε → UInt64) := by
  intro x y h
  rw [← Enum8.cast_toUInt64 x, h, Enum8.cast_toUInt64]

/-- What the digests of two decisions with one digest record agree on, however long
the rest of the record is. -/
theorem CompatibilityDecision.eq_of_digestRecord {d d' : CompatibilityDecision}
    (h : d.digestRecord.encoding = d'.digestRecord.encoding) :
    d.left = d'.left ∧ d.right = d'.right ∧ d.outcome = d'.outcome ∧ d.ruleId = d'.ruleId ∧
      d.ruleGeneration = d'.ruleGeneration ∧ d.policyId = d'.policyId ∧
      d.registryGeneration = d'.registryGeneration := by
  have hbody := recordBody_of_encoding_eq h
  let front (d : CompatibilityDecision) : Record :=
    [(1, .uuid d.left), (2, .uuid d.right), (3, .uint d.outcome.toUInt64), (4, .uuid d.ruleId),
      (5, .uint d.ruleGeneration), (6, .uuid d.policyId), (7, .uint d.policyGeneration),
      (8, .uint d.registryGeneration)]
  have hsizes : List.Forall₂ (fun e e' => e.1 = e'.1 ∧ SameSize e.2 e'.2) (front d) (front d') := by
    refine .cons ⟨rfl, .uuid _ _⟩ (.cons ⟨rfl, .uuid _ _⟩ (.cons ⟨rfl, .uint _ _⟩ (.cons ⟨rfl, .uuid _ _⟩
      (.cons ⟨rfl, .uint _ _⟩ (.cons ⟨rfl, .uuid _ _⟩ (.cons ⟨rfl, .uint _ _⟩
        (.cons ⟨rfl, .uint _ _⟩ .nil)))))))
  obtain ⟨hfront, -⟩ := recordBody_prefix hsizes hbody
  simp only [front, List.cons.injEq, Prod.mk.injEq, true_and, Canon.uuid.injEq, Canon.uint.injEq,
    toUInt64_injective.eq_iff, and_true] at hfront
  obtain ⟨hleft, hright, houtcome, hrule, hgeneration, hpolicy, -, hregistry⟩ := hfront
  exact ⟨hleft, hright, houtcome, hrule, hgeneration, hpolicy, hregistry⟩

namespace Registry

namespace Evaluation

/-- Two evaluations of one pair, under one policy and at one generation. -/
structure SameRequest (e e' : Evaluation) : Prop where
  left : e'.left = e.left
  right : e'.right = e.right
  policyId : e'.state.policyId = e.state.policyId
  registryGen : e'.state.registryGen = e.state.registryGen

theorem SameRequest.symm {e e' : Evaluation} (h : SameRequest e e') : SameRequest e' e :=
  ⟨h.left.symm, h.right.symm, h.policyId.symm, h.registryGen.symm⟩

theorem key_eq_iff {e e' : Evaluation} :
    e.key = e'.key ↔ SameRequest e e' ∧ e.requirement = e'.requirement := by
  unfold key
  rw [EvaluationKey.mk.injEq, scopeOf_injective.eq_iff]
  constructor
  · rintro ⟨hleft, hright, hscope, hpolicy, hgen⟩
    exact ⟨⟨hleft.symm, hright.symm, hpolicy.symm, hgen.symm⟩, hscope⟩
  · rintro ⟨hsame, hscope⟩
    exact ⟨hsame.left.symm, hsame.right.symm, hscope, hsame.policyId.symm, hsame.registryGen.symm⟩

/-- One of the profiles has no active record. -/
def Absent (e : Evaluation) : Prop :=
  e.state.newestActive e.left = none ∨ e.state.newestActive e.right = none

theorem Absent.early {e : Evaluation} (h : e.Absent) : e.Early := by
  intro l r hl hr
  simp [Absent, hl, hr] at h

theorem active_of_not_absent {e : Evaluation} (h : ¬ e.Absent) :
    ∃ l r, e.state.newestActive e.left = some l ∧ e.state.newestActive e.right = some r := by
  unfold Absent at h
  rw [not_or] at h
  obtain ⟨l, hl⟩ := Option.ne_none_iff_exists'.mp h.1
  obtain ⟨r, hr⟩ := Option.ne_none_iff_exists'.mp h.2
  exact ⟨l, r, hl, hr⟩

/-- The rules have nothing to say: none is conclusive or misses evidence, and the
first candidate, if there is one, has a zero identity and generation. -/
def RulesSilent (e : Evaluation) : Prop :=
  ∃ l r, e.state.newestActive e.left = some l ∧ e.state.newestActive e.right = some r ∧
    l.fingerprint ≠ r.fingerprint ∧
    (∀ rule ∈ candidates e.state (scopeOf e.requirement) l r,
      ∀ ev, evalRule l.toSubject r.toSubject rule = .ok ev → ev.conclusive = false ∧ ev.missing = false) ∧
    ∀ first ∈ (candidates e.state (scopeOf e.requirement) l r).head?,
      first.ruleId = Uuid.zero ∧ first.generation = 0

/-- Nothing but the request goes into the digest. -/
def Blank (e : Evaluation) : Prop := e.Absent ∨ e.RulesSilent

/-- Two evaluations do not disturb each other in the cache: early ones, which share an
identity, are of one request and for one reason, and blank ones of one request, which
share a digest, are both of an absent profile or both of one scope. -/
structure Undisturbed (e e' : Evaluation) : Prop where
  early : e.Early → e'.Early → SameRequest e e' ∧ (e.Absent ↔ e'.Absent)
  blank : SameRequest e e' → e.Blank → e'.Blank →
    (e.Absent ↔ e'.Absent) ∧ (¬ e.Absent → e.requirement = e'.requirement)

/-! ### What a decision says -/

/-- A decision carries its request. -/
theorem decision_request {e : Evaluation} (h : Inv e.state) :
    e.decision.left = e.left ∧ e.decision.right = e.right ∧ e.decision.policyId = e.state.policyId ∧
      e.decision.registryGeneration = e.state.registryGen := by
  cases evaluateLocked_returned e.returned with
  | absent missing decided =>
    obtain ⟨digest, heq⟩ := absentDecision_eq e.state e.left e.right
    rw [heq, Except.ok.injEq] at decided
    rw [← decided]
    exact ⟨rfl, rfl, rfl, rfl⟩
  | identical l r left_active right_active same decided =>
    obtain ⟨digest, heq⟩ := exactDecision_eq e.state l r
    rw [heq, Except.ok.injEq] at decided
    rw [← decided]
    exact ⟨(h.newestActive left_active).id, (h.newestActive right_active).id, rfl, rfl⟩
  | ruled l r left_active right_active differ decided =>
    obtain ⟨evals, d₁, text, -, hd₁, heq⟩ := ruleDecision_eq_ok decided
    have hframe := resolveRules_frame hd₁
    rw [heq]
    exact ⟨(congrArg CompatibilityDecision.left hframe).trans (h.newestActive left_active).id,
      (congrArg CompatibilityDecision.right hframe).trans (h.newestActive right_active).id,
      congrArg CompatibilityDecision.policyId hframe,
      congrArg CompatibilityDecision.registryGeneration hframe⟩

theorem digest_eq (e : Evaluation) :
    e.decision.digest = Sha256.compute e.decision.digestRecord.encoding := by
  have h := evaluateLocked_digest e.returned
  rw [CompatibilityDecision.computeDigest_eq, Except.ok.injEq] at h
  exact h.symm

/-- The outcomes of the early decisions. -/
theorem outcome_of_early {e : Evaluation} (he : e.Early) :
    e.decision.outcome = .declared .unknown ↔ e.Absent := by
  cases evaluateLocked_returned e.returned with
  | absent missing decided =>
    obtain ⟨digest, heq⟩ := absentDecision_eq e.state e.left e.right
    rw [heq, Except.ok.injEq] at decided
    rw [← decided]
    exact ⟨fun _ => missing, fun _ => rfl⟩
  | identical l r left_active right_active same decided =>
    obtain ⟨digest, heq⟩ := exactDecision_eq e.state l r
    rw [heq, Except.ok.injEq] at decided
    rw [← decided]
    simp [Absent, left_active, right_active]
  | ruled l r left_active right_active differ decided =>
    exact absurd (he l r left_active right_active) differ

/-- Rules that have nothing to say leave the digest record as it is opened. -/
theorem digestRecord_of_resolveRules {s : Registry} {left right : Uuid} {cand : List CompatibilityRule}
    {evals : List RuleEval} {d : CompatibilityDecision}
    (hd : resolveRules (openDecision s left right) cand evals = .ok d)
    (hspeak : ∀ ev ∈ evals, ev.conclusive = false ∧ ev.missing = false)
    (hfirst : ∀ first ∈ cand.head?, first.ruleId = Uuid.zero ∧ first.generation = 0) :
    d.digestRecord = (openDecision s left right).digestRecord := by
  have hfilter : evals.filter (·.conclusive) = [] :=
    List.filter_eq_nil_iff.mpr fun ev hev => by simp [(hspeak ev hev).1]
  have hany : evals.any (·.missing) = false :=
    List.any_eq_false.mpr fun ev hev => by simp [(hspeak ev hev).2]
  unfold resolveRules at hd
  rw [hfilter, hany] at hd
  cases cand with
  | nil =>
    cases hd
    rfl
  | cons first rest =>
    obtain ⟨hid, hgen⟩ := hfirst first rfl
    cases hd
    unfold CompatibilityDecision.digestRecord
    simp only [hid, hgen]
    rfl

/-- A blank decision has the digest record of the request. -/
theorem digestRecord_of_blank {e : Evaluation} (h : Inv e.state) (hb : e.Blank) :
    e.decision.digestRecord = (openDecision e.state e.left e.right).digestRecord := by
  have decided := e.returned
  rcases hb with habsent | ⟨l, r, hl, hr, hne, hsilent, hfirst⟩
  · obtain ⟨digest, heq⟩ := absentDecision_eq e.state e.left e.right
    rw [evaluateLocked_of_absent habsent, heq, Except.ok.injEq] at decided
    rw [← decided]
    rfl
  · rw [evaluateLocked_of_active hl hr, if_neg hne] at decided
    obtain ⟨evals, d₁, text, hevals, hd₁, heq⟩ := ruleDecision_eq_ok decided
    have hspeak : ∀ ev ∈ evals, ev.conclusive = false ∧ ev.missing = false := by
      intro ev hev
      obtain ⟨rule, hrule, hrun⟩ := Result.mapM_mem_right hevals hev
      exact hsilent rule hrule ev hrun
    have hrecord := digestRecord_of_resolveRules hd₁ hspeak hfirst
    have hlid : l.id = e.left := (h.newestActive hl).id
    have hrid : r.id = e.right := (h.newestActive hr).id
    rw [heq, ← hlid, ← hrid]
    exact hrecord

/-- The rule that a decision by rules names, and when it names none. -/
theorem named_of_ruled {e : Evaluation} {l r : ProfileRecord}
    (hl : e.state.newestActive e.left = some l) (hr : e.state.newestActive e.right = some r)
    (hne : l.fingerprint ≠ r.fingerprint) :
    (candidates e.state (scopeOf e.requirement) l r = [] ∨
      ∃ rule ∈ candidates e.state (scopeOf e.requirement) l r, e.decision.ruleId = rule.ruleId) ∧
    (e.decision.outcome = .declared .unknown → e.decision.ruleId = Uuid.zero →
      e.decision.ruleGeneration = 0 → e.RulesSilent) := by
  have decided := e.returned
  rw [evaluateLocked_of_active hl hr, if_neg hne] at decided
  obtain ⟨evals, d₁, text, hevals, hd₁, heq⟩ := ruleDecision_eq_ok decided
  have houtcome : e.decision.outcome = d₁.outcome := by rw [heq]; rfl
  have hid : e.decision.ruleId = d₁.ruleId := by rw [heq]; rfl
  have hgen : e.decision.ruleGeneration = d₁.ruleGeneration := by rw [heq]; rfl
  rw [houtcome, hid, hgen]
  cases resolveRules_resolution hd₁ with
  | concluded before best after conflicts split inconclusive conclusive outcome ruleId =>
    refine ⟨.inr ?_, fun hunknown => ?_⟩
    · obtain ⟨rule, hrule, hrun⟩ := Result.mapM_mem_right hevals (split ▸ by simp : best ∈ evals)
      exact ⟨rule, hrule, by rw [ruleId, evalRule_rule hrun]⟩
    · unfold RuleEval.conclusive at conclusive
      rw [← outcome, hunknown] at conclusive
      simp at conclusive
  | undecided inconclusive named outcome =>
    refine ⟨?_, fun hunknown hzero hfirst => ⟨l, r, hl, hr, hne, fun rule hrule ev hrun => ?_, ?_⟩⟩
    · cases hcand : candidates e.state (scopeOf e.requirement) l r with
      | nil => exact .inl rfl
      | cons first rest => exact .inr ⟨first, List.mem_cons_self, (named first rest hcand).1⟩
    · obtain ⟨ev', hmem, hrun'⟩ := Result.mapM_mem_left hevals hrule
      rw [hrun, Except.ok.injEq] at hrun'
      subst hrun'
      refine ⟨inconclusive ev hmem, ?_⟩
      rw [hunknown] at outcome
      have hany : evals.any (·.missing) = false := by
        by_contra hmissing
        rw [Bool.not_eq_false] at hmissing
        rw [hmissing] at outcome
        simp at outcome
      simpa using List.any_eq_false.mp hany ev hmem
    · intro first hhead
      obtain ⟨rest, hcand⟩ := List.head?_eq_some_iff.mp hhead
      obtain ⟨hfirstId, hfirstGen⟩ := named first rest hcand
      exact ⟨hfirstId.symm.trans hzero, hfirstGen.symm.trans hfirst⟩

/-- A blank decision is `Unknown` and names no rule. -/
theorem fields_of_blank {e : Evaluation} (h : Inv e.state) (hb : e.Blank) :
    e.decision.outcome = .declared .unknown ∧ e.decision.ruleId = Uuid.zero ∧
      e.decision.ruleGeneration = 0 := by
  obtain ⟨-, -, houtcome, hrule, hgeneration, -, -⟩ := CompatibilityDecision.eq_of_digestRecord
    (congrArg Canon.encoding (digestRecord_of_blank h hb))
  exact ⟨houtcome, hrule, hgeneration⟩

/-! ### Equal requests -/

theorem decision_eq_of_absent {e e' : Evaluation} (hsame : SameRequest e e') (he : e.Absent)
    (he' : e'.Absent) : e.decision = e'.decision := by
  have hdecided : ∀ e : Evaluation, e.Absent → absentDecision e.state e.left e.right = .ok e.decision := by
    intro e he
    rw [← evaluateLocked_of_absent he]
    exact e.returned
  have heq : absentDecision e'.state e'.left e'.right = absentDecision e.state e.left e.right := by
    unfold absentDecision openDecision
    rw [hsame.left, hsame.right, hsame.policyId, hsame.registryGen]
  rw [hdecided e he, hdecided e' he', Except.ok.injEq] at heq
  exact heq.symm

/-- The newest records of two evaluations of one request are the same, if there are any. -/
def Settled (e e' : Evaluation) : Prop :=
  SameRequest e e' → ¬ e.Absent → ¬ e'.Absent → SameInputs e.left e.right e.state e'.state

theorem decision_eq_of_inputs {e e' : Evaluation} (h : Inv e.state) (h' : Inv e'.state)
    (hsame : SameRequest e e') (hinputs : SameInputs e.left e.right e.state e'.state)
    (hrequirement : e.requirement = e'.requirement) : e.decision = e'.decision := by
  have heq := e'.returned
  rw [hsame.left, hsame.right, evaluateLocked_congr h hinputs h', ← hrequirement, e.returned,
    Except.ok.injEq] at heq
  exact heq

/-- The scope does not matter to the short cut. -/
theorem decision_eq_of_early {e e' : Evaluation} (hsame : SameRequest e e') (he : e.Early)
    (he' : e'.Early) (habsent : e.Absent ↔ e'.Absent) (hsettled : Settled e e') :
    e.decision = e'.decision := by
  by_cases hmissing : e.Absent
  · exact decision_eq_of_absent hsame hmissing (habsent.mp hmissing)
  · have hinputs := hsettled hsame hmissing (mt habsent.mpr hmissing)
    have hdecided : ∀ e : Evaluation, ¬ e.Absent → e.Early → ∃ l r,
        e.state.newestActive e.left = some l ∧ e.state.newestActive e.right = some r ∧
          exactDecision e.state l r = .ok e.decision := by
      intro e hactive hearly
      obtain ⟨l, r, hl, hr⟩ := active_of_not_absent hactive
      have decided := e.returned
      rw [evaluateLocked_of_active hl hr, if_pos (hearly l r hl hr)] at decided
      exact ⟨l, r, hl, hr, decided⟩
    obtain ⟨l, r, hl, hr, hd⟩ := hdecided e hmissing he
    obtain ⟨l', r', hl', hr', hd'⟩ := hdecided e' (mt habsent.mpr hmissing) he'
    rw [hsame.left, hinputs.left, hl, Option.some.injEq] at hl'
    rw [hsame.right, hinputs.right, hr, Option.some.injEq] at hr'
    subst hl' hr'
    have heq : exactDecision e'.state l r = exactDecision e.state l r := by
      unfold exactDecision openDecision
      rw [hsame.policyId, hsame.registryGen]
    rw [hd, hd', Except.ok.injEq] at heq
    exact heq.symm

/-! ### Shared digests -/

theorem sameRequest_of_digestRecord {e e' : Evaluation} (h : Inv e.state) (h' : Inv e'.state)
    (heq : e.decision.digestRecord.encoding = e'.decision.digestRecord.encoding) : SameRequest e e' := by
  obtain ⟨hleft, hright, -, -, -, hpolicy, hgen⟩ := CompatibilityDecision.eq_of_digestRecord heq
  obtain ⟨hl, hr, hp, hg⟩ := decision_request h
  obtain ⟨hl', hr', hp', hg'⟩ := decision_request h'
  rw [hl, hl'] at hleft
  rw [hr, hr'] at hright
  rw [hp, hp'] at hpolicy
  rw [hg, hg'] at hgen
  exact ⟨hleft.symm, hright.symm, hpolicy.symm, hgen.symm⟩

/-- A decision by rules with the digest of a blank one is blank. -/
theorem silent_of_digestRecord {e e' : Evaluation} (h : Inv e.state) (hb : e.Blank) (he' : ¬ e'.Early)
    (heq : e.decision.digestRecord.encoding = e'.decision.digestRecord.encoding) : e'.RulesSilent := by
  obtain ⟨-, -, houtcome, hrule, hgeneration, -, -⟩ := CompatibilityDecision.eq_of_digestRecord heq
  obtain ⟨hunknown, hzero, hfirst⟩ := fields_of_blank h hb
  obtain ⟨l, r, hl, hr⟩ := active_of_not_absent (mt Absent.early he')
  have hne : l.fingerprint ≠ r.fingerprint := by
    intro hf
    apply he'
    intro l' r' hl' hr'
    rw [hl, Option.some.injEq] at hl'
    rw [hr, Option.some.injEq] at hr'
    rw [← hl', ← hr']
    exact hf
  exact (named_of_ruled hl hr hne).2 (houtcome.symm.trans hunknown) (hrule.symm.trans hzero)
    (hgeneration.symm.trans hfirst)

/-- An early decision and one by rules share a digest only if both are blank. -/
theorem blank_of_digestRecord {e e' : Evaluation} (h : Inv e.state) (h' : Inv e'.state)
    (he : e.Early) (he' : ¬ e'.Early) (hsettled : Settled e e')
    (heq : e.decision.digestRecord.encoding = e'.decision.digestRecord.encoding) :
    e.Absent ∧ e'.RulesSilent := by
  have hsame := sameRequest_of_digestRecord h h' heq
  have habsent : e.Absent := by
    by_contra hactive
    have hinputs := hsettled hsame hactive (mt Absent.early he')
    refine he' fun l r hl hr => he l r ?_ ?_
    · rw [← hinputs.left, ← hsame.left]
      exact hl
    · rw [← hinputs.right, ← hsame.right]
      exact hr
  exact ⟨habsent, silent_of_digestRecord h (.inl habsent) he' heq⟩

/-- The candidates of the two scopes have different identities. -/
theorem ruleId_ne_of_scopes {s t : Registry} (h : Inv s) (h' : Inv t)
    (hrules : ∀ id, t.rules.lookup id = s.rules.lookup id) {requirement requirement' : Bool}
    (hne : requirement ≠ requirement') {l r l' r' : ProfileRecord} {a b : CompatibilityRule}
    (ha : a ∈ candidates s (scopeOf requirement) l r)
    (hb : b ∈ candidates t (scopeOf requirement') l' r') : a.ruleId ≠ b.ruleId := by
  obtain ⟨id, rr, hlook, happ, rfl⟩ := mem_candidates.mp ha
  obtain ⟨id', rr', hlook', happ', rfl⟩ := mem_candidates.mp hb
  intro hid
  rw [(h.rules id rr hlook).1, (h'.rules id' rr' hlook').1] at hid
  rw [hrules, ← hid, hlook, Option.some.injEq] at hlook'
  subst hlook'
  unfold applicable at happ happ'
  simp only [Bool.and_eq_true, beq_iff_eq] at happ happ'
  exact hne (scopeOf_injective (happ.1.1.2.symm.trans happ'.1.1.2))

/-- Two decisions by rules in different scopes share a digest only if both are blank. -/
theorem silent_of_scopes {e e' : Evaluation} (h : Inv e.state) (h' : Inv e'.state) (he : ¬ e.Early)
    (he' : ¬ e'.Early) (hne : e.requirement ≠ e'.requirement) (hsettled : Settled e e')
    (heq : e.decision.digestRecord.encoding = e'.decision.digestRecord.encoding) :
    e.RulesSilent ∧ e'.RulesSilent := by
  have hsame := sameRequest_of_digestRecord h h' heq
  have hinputs := hsettled hsame (mt Absent.early he) (mt Absent.early he')
  obtain ⟨-, -, -, hrule, -, -, -⟩ := CompatibilityDecision.eq_of_digestRecord heq
  have hruled : ∀ e : Evaluation, ¬ e.Early → ∃ l r, e.state.newestActive e.left = some l ∧
      e.state.newestActive e.right = some r ∧ l.fingerprint ≠ r.fingerprint := by
    intro e hearly
    unfold Early at hearly
    push Not at hearly
    exact hearly
  obtain ⟨l, r, hl, hr, hf⟩ := hruled e he
  obtain ⟨l', r', hl', hr', hf'⟩ := hruled e' he'
  have hempty : ∀ {e : Evaluation} {l r : ProfileRecord}, e.state.newestActive e.left = some l →
      e.state.newestActive e.right = some r → l.fingerprint ≠ r.fingerprint →
      candidates e.state (scopeOf e.requirement) l r = [] → e.RulesSilent := by
    intro e l r hl hr hf hnil
    refine ⟨l, r, hl, hr, hf, ?_, ?_⟩
    · rw [hnil]
      exact fun _ hmem => absurd hmem List.not_mem_nil
    · rw [hnil]
      exact fun _ hmem => absurd hmem (by simp)
  rcases (named_of_ruled hl hr hf).1 with hnil | ⟨a, ha, haid⟩
  · have hsilent := hempty hl hr hf hnil
    exact ⟨hsilent, silent_of_digestRecord h (.inr hsilent) he' heq⟩
  · rcases (named_of_ruled hl' hr' hf').1 with hnil | ⟨b, hb, hbid⟩
    · have hsilent := hempty hl' hr' hf' hnil
      exact ⟨silent_of_digestRecord h' (.inr hsilent) he heq.symm, hsilent⟩
    · exact absurd (haid.symm.trans (hrule.trans hbid))
        (ruleId_ne_of_scopes h h' hinputs.rules hne ha hb)

/-! ### Undisturbed evaluations -/

theorem Settled.symm {e e' : Evaluation} (h : Settled e e') : Settled e' e := by
  intro hsame ha' ha
  have hinputs := h hsame.symm ha ha'
  rw [hsame.symm.left, hsame.symm.right]
  exact ⟨hinputs.left.symm, hinputs.right.symm, fun id => (hinputs.rules id).symm,
    hinputs.registryGen.symm, hinputs.policyId.symm⟩

/-- What is hashed tells the decisions apart. -/
structure CollisionFree (e e' : Evaluation) : Prop extends IdsCollisionFree e e' where
  digests : Sha256.compute e.decision.digestRecord.encoding =
    Sha256.compute e'.decision.digestRecord.encoding →
      e.decision.digestRecord.encoding = e'.decision.digestRecord.encoding

/-- Two decisions that share an identity or a digest are the same exactly when the
evaluations do not disturb each other. -/
theorem shared_imp_eq_iff {e e' : Evaluation} (h : Inv e.state) (h' : Inv e'.state)
    (hcoll : CollisionFree e e') (hsettled : Settled e e') :
    (e.decision.decisionId = e'.decision.decisionId ∨ e.decision.digest = e'.decision.digest →
      e.decision = e'.decision) ↔ Undisturbed e e' := by
  have hid := decisionId_eq_iff h h' hcoll.toIdsCollisionFree
  constructor
  · intro hshared
    refine ⟨fun he he' => ?_, fun hsame hb hb' => ?_⟩
    · have heq := hshared (.inl (hid.mpr (.inl ⟨he, he'⟩)))
      refine ⟨sameRequest_of_digestRecord h h' (by rw [heq]), ?_⟩
      rw [← outcome_of_early he, ← outcome_of_early he', heq]
    · have hrecord : e.decision.digestRecord = e'.decision.digestRecord := by
        rw [digestRecord_of_blank h hb, digestRecord_of_blank h' hb']
        unfold openDecision
        rw [hsame.left, hsame.right, hsame.policyId, hsame.registryGen]
      have heq := hshared (.inr (by rw [digest_eq, digest_eq, hrecord]))
      rcases hid.mp (congrArg CompatibilityDecision.decisionId heq) with ⟨he, he'⟩ | ⟨he, he', hkey⟩
      · have habsent : e.Absent ↔ e'.Absent := by
          rw [← outcome_of_early he, ← outcome_of_early he', heq]
        refine ⟨habsent, fun hactive => ?_⟩
        obtain ⟨l, r, hl, hr, hne, -⟩ := hb.resolve_left hactive
        exact absurd (he l r hl hr) hne
      · exact ⟨iff_of_false (mt Absent.early he) (mt Absent.early he'), fun _ => (key_eq_iff.mp hkey).2⟩
  · intro hund
    have hearly : ∀ he : e.Early, ∀ he' : e'.Early, e.decision = e'.decision := fun he he' =>
      decision_eq_of_early (hund.early he he').1 he he' (hund.early he he').2 hsettled
    have hruled : ∀ he : ¬ e.Early, ∀ he' : ¬ e'.Early, SameRequest e e' →
        e.requirement = e'.requirement → e.decision = e'.decision := fun he he' hsame =>
      decision_eq_of_inputs h h' hsame (hsettled hsame (mt Absent.early he) (mt Absent.early he'))
    rintro (hsame | hsame)
    · rcases hid.mp hsame with ⟨he, he'⟩ | ⟨he, he', hkey⟩
      · exact hearly he he'
      · exact hruled he he' (key_eq_iff.mp hkey).1 (key_eq_iff.mp hkey).2
    · rw [digest_eq, digest_eq] at hsame
      have hrecord := hcoll.digests hsame
      have hrequest := sameRequest_of_digestRecord h h' hrecord
      by_cases he : e.Early <;> by_cases he' : e'.Early
      · exact hearly he he'
      · obtain ⟨habsent, hsilent⟩ := blank_of_digestRecord h h' he he' hsettled hrecord
        have hiff := (hund.blank hrequest (.inl habsent) (.inr hsilent)).1
        exact absurd (hiff.mp habsent).early he'
      · obtain ⟨habsent, hsilent⟩ := blank_of_digestRecord h' h he' he hsettled.symm hrecord.symm
        have hiff := (hund.blank hrequest (.inr hsilent) (.inl habsent)).1
        exact absurd (hiff.mpr habsent).early he
      · apply hruled he he' hrequest
        by_contra hne
        obtain ⟨hsilent, hsilent'⟩ := silent_of_scopes h h' he he' hne hsettled hrecord
        exact hne ((hund.blank hrequest (.inr hsilent) (.inr hsilent')).2 (mt Absent.early he))

/-- Different identities and different digests, none of the identities zero. -/
theorem collisionFree_of_nodup {log : List Evaluation} (h : (Uuid.zero :: log.map requestId).Nodup ∧
    (log.map fun e => Sha256.compute e.decision.digestRecord.encoding).Nodup) :
    ∀ e ∈ log, ∀ e' ∈ log, CollisionFree e e' := by
  obtain ⟨hids, hdigests⟩ := h
  obtain ⟨hzero, hids⟩ := List.nodup_cons.mp hids
  intro e he e' he'
  refine ⟨⟨fun heq => ?_, fun hz => ?_, fun hz => ?_⟩, fun heq => ?_⟩
  · rw [List.inj_on_of_nodup_map hids he he' heq]
  · exact hzero (hz ▸ List.mem_map_of_mem he)
  · exact hzero (hz ▸ List.mem_map_of_mem he')
  · rw [List.inj_on_of_nodup_map hdigests he he' heq]

end Evaluation

/-! ### The cache over a run -/

open Evaluation

/-- In a run of fewer than `2^64` calls the generation does not come round. -/
theorem Run.settled {n : ℕ} {log : List Evaluation} {s : Registry} (h : Run n log s) (hn : n < 2 ^ 64) :
    ∀ e ∈ log, ∀ e' ∈ log, Settled e e' := by
  have hsymm : Std.Symm Settled := ⟨fun _ _ => Settled.symm⟩
  have hrefl : ∀ e ∈ log, Settled e e := fun e _ _ _ _ => ⟨rfl, rfl, fun _ => rfl, rfl, rfl⟩
  have hpairs : log.Pairwise Settled := by
    refine h.since.2.imp fun {e e'} ⟨k, hk, hsince⟩ hsame _ ha' => ?_
    have hzero := hsince.eq_zero (by omega) hsame.registryGen
    have hquiet := hsince.quiet hzero
    unfold Absent at ha'
    rw [hsame.left, hsame.right, not_or] at ha'
    exact {
      left := (hquiet.newestActive e.left).resolve_right ha'.1
      right := (hquiet.newestActive e.right).resolve_right ha'.2
      rules := hquiet.rules
      registryGen := hsame.registryGen
      policyId := hsame.policyId }
  intro e he e' he'
  exact hpairs.forall_of_forall hrefl he he'

/-- The cached decisions are those of the evaluations. -/
def Cached (log : List Evaluation) (s : Registry) : Prop :=
  KeyedCache.Fills CompatibilityDecision.digest (log.map Evaluation.decision) s.decisions

theorem cached_evaluateWith {log : List Evaluation} {s : Registry} (h : Cached log s) (left right : Uuid)
    (requirement : Bool) :
    Cached (log ++ evaluationOf s left right requirement) (evaluateWith requirement left right s).2 := by
  unfold evaluationOf
  split
  next d hd =>
    have hrun : (evaluateWith requirement left right s).2.decisions = s.decisions.insert d.digest d := by
      unfold evaluateWith
      rw [hd]
    unfold Cached
    rw [List.map_append, hrun]
    exact KeyedCache.Fills.insert h d
  next e he =>
    have hrun : (evaluateWith requirement left right s).2 = s := by
      unfold evaluateWith
      rw [he]
    rw [hrun, List.append_nil]
    exact h

theorem registerRecord_decisions (p : ProfileRecord) (s : Registry) :
    (registerRecord p s).2.decisions = s.decisions := by
  unfold registerRecord
  cases canonicalFingerprintHex p.payload with
  | error e => rfl
  | ok fingerprint =>
    simp only
    split_ifs
    · rfl
    · rfl
    · obtain ⟨d, r, heq⟩ := appendRecord_eq
        { p with fingerprint, generation := nextGeneration (s.profiles.lookup p.id) } (deactivateAll p.id s)
      rw [heq]
      rfl

theorem registerProfile_decisions (genseed : Uuid) (kind : Enum8 ProfileKind) (payload : Canon)
    (deps : List Uuid) (provenance : Bytes) (s : Registry) :
    (registerProfile genseed kind payload deps provenance s).2.decisions = s.decisions := by
  unfold registerProfile
  cases canonicalFingerprintHex payload with
  | error e => rfl
  | ok fingerprint => exact registerRecord_decisions _ s

theorem supersedeProfile_decisions (kind : Enum8 ProfileKind) (id : Uuid) (payload : Canon)
    (deps : List Uuid) (provenance : Bytes) (s : Registry) :
    (supersedeProfile kind id payload deps provenance s).2.decisions = s.decisions := by
  have hdropped : (removeDependency id (deactivateAll id s)).decisions = s.decisions := by
    obtain ⟨d, r, heq⟩ := removeDependency_eq id (deactivateAll id s)
    rw [heq]
    rfl
  unfold supersedeProfile
  cases s.profiles.lookup id with
  | none => rfl
  | some hist =>
    cases canonicalFingerprintHex payload with
    | error e => rfl
    | ok fingerprint =>
      simp only
      split_ifs
      · rfl
      · exact hdropped
      · obtain ⟨d, r, heq⟩ := appendRecord_eq
          { kind, payload, id, deps, provenance, fingerprint, generation := nextGeneration (some hist) }
          (removeDependency id (deactivateAll id s))
        rw [heq]
        exact hdropped

theorem invalidateProfile_decisions (id : Uuid) (reason : Bytes) (s : Registry) :
    (invalidateProfile id reason s).2.decisions = s.decisions := by
  unfold invalidateProfile
  obtain ⟨p, i, heq⟩ := invalidateWith_eq id reason s
  cases s.profiles.lookup id with
  | none => rfl
  | some hist =>
    rw [heq]

theorem propagateInvalidation_decisions (id : Uuid) (s : Registry) :
    (propagateInvalidation id s).2.decisions = s.decisions := by
  unfold propagateInvalidation
  obtain ⟨p, i, heq⟩ := propagateLoop_eq s.reverse [id] [] s
  rw [heq]

theorem Call.cached {log : List Evaluation} {s : Registry} (h : Cached log s) (c : Call) :
    Cached (log ++ c.evaluations s) (c.run s) := by
  have hkeep : ∀ {t : Registry}, t.decisions = s.decisions → Cached (log ++ []) t := by
    intro t ht
    unfold Cached
    rw [List.append_nil, ht]
    exact h
  cases c with
  | operation op =>
    cases op with
    | registerProfile genseed kind payload deps provenance =>
      exact hkeep (registerProfile_decisions genseed kind payload deps provenance s)
    | registerRecord p => exact hkeep (registerRecord_decisions p s)
    | supersedeProfile kind id payload deps provenance =>
      exact hkeep (supersedeProfile_decisions kind id payload deps provenance s)
    | invalidateProfile id reason => exact hkeep (invalidateProfile_decisions id reason s)
    | propagateInvalidation id => exact hkeep (propagateInvalidation_decisions id s)
    | registerRule rule => exact hkeep rfl
    | supersedeRule id rule =>
      apply hkeep
      simp only [Call.run, Op.run, supersedeRule]
      cases s.rules.lookup id <;> rfl
    | disableRule id =>
      apply hkeep
      simp only [Call.run, Op.run, disableRule]
      cases s.rules.lookup id <;> rfl
    | registerEvidence ev => exact hkeep rfl
    | setPolicy policy => exact hkeep rfl
    | evaluatePair left right => exact cached_evaluateWith h left right false
    | evaluateRequirement candidate requirement => exact cached_evaluateWith h candidate requirement true
  | matrix lefts rights => exact hkeep rfl
  | counterfactualPair left right edits => exact hkeep rfl

theorem Run.cached {n : ℕ} {log : List Evaluation} {s : Registry} (h : Run n log s) : Cached log s := by
  induction h with
  | empty => exact KeyedCache.Fills.empty
  | call c hc _ ih => exact Call.cached ih c
  | reorder _ hst ih => exact KeyedCache.Fills.congr ih fun k => (hst.decisions.lookup k).symm

/-- Every decision that was returned is found by its identity, as it was returned. -/
def AllReplayed (log : List Evaluation) (s : Registry) : Prop :=
  ∀ e ∈ log, s.findDecision e.decision.decisionId = some e.decision ∧
    s.replayDecision e.decision.decisionId = some e.decision

theorem allReplayed_iff_shared {log : List Evaluation} {s : Registry} (h : Cached log s) :
    AllReplayed log s ↔ ∀ e ∈ log, ∀ e' ∈ log,
      e.decision.decisionId = e'.decision.decisionId ∨ e.decision.digest = e'.decision.digest →
        e.decision = e'.decision := by
  have hfound : (∀ d ∈ log.map Evaluation.decision, s.findDecision d.decisionId = some d) ↔ _ :=
    KeyedCache.Fills.all_found_iff h
  simp only [List.forall_mem_map] at hfound
  rw [← hfound]
  exact ⟨fun hall e he => (hall e he).1, fun hall e he => ⟨hall e he, hall e he⟩⟩

/-- In a run of fewer than `2^64` calls all decisions are found again exactly when no
two of the evaluations disturb each other. -/
theorem allReplayed_iff_undisturbed {n : ℕ} {log : List Evaluation} {s : Registry} (h : Run n log s)
    (hn : n < 2 ^ 64) (hcoll : ∀ e ∈ log, ∀ e' ∈ log, CollisionFree e e') :
    AllReplayed log s ↔ ∀ e ∈ log, ∀ e' ∈ log, Undisturbed e e' := by
  rw [allReplayed_iff_shared h.cached]
  refine forall₂_congr fun e he => forall₂_congr fun e' he' => ?_
  exact shared_imp_eq_iff (h.state_reachable he).inv (h.state_reachable he').inv (hcoll e he e' he')
    (h.settled hn e he e' he')

/-! ### Lists of calls -/

def runCalls : List Call → Registry → Registry
  | [], s => s
  | c :: cs, s => runCalls cs (c.run s)

def logOf : List Call → Registry → List Evaluation
  | [], _ => []
  | c :: cs, s => c.evaluations s ++ logOf cs (c.run s)

theorem Run.append {n : ℕ} {log : List Evaluation} {s : Registry} (h : Run n log s) {cs : List Call}
    (hcs : ∀ c ∈ cs, c.WF) : Run (n + cs.length) (log ++ logOf cs s) (runCalls cs s) := by
  induction cs generalizing n log s with
  | nil =>
    rw [logOf, List.append_nil]
    exact h
  | cons c cs ih =>
    obtain ⟨hc, hcs⟩ := List.forall_mem_cons.mp hcs
    have hrun := ih (h.call c hc) hcs
    rw [List.append_assoc, Nat.add_right_comm] at hrun
    exact hrun

theorem run_logOf {cs : List Call} (hcs : ∀ c ∈ cs, c.WF) :
    Run cs.length (logOf cs {}) (runCalls cs {}) := by
  have hrun := Run.empty.append hcs
  rwa [Nat.zero_add, List.nil_append] at hrun

/-- Evaluations that come to the rules at different generations. -/
theorem undisturbed_of_nodup {log : List Evaluation} (hlate : ∀ e ∈ log, ¬ e.Early)
    (hgenerations : (log.map fun e => e.state.registryGen).Nodup) : ∀ e ∈ log, ∀ e' ∈ log, Undisturbed e e' := by
  intro e he e' he'
  refine ⟨fun hearly => absurd hearly (hlate e he), fun hsame _ _ => ?_⟩
  obtain rfl := List.inj_on_of_nodup_map hgenerations he he' hsame.registryGen.symm
  exact ⟨Iff.rfl, fun _ => rfl⟩

/-- Two different profiles under a rule, evaluated before and after one of them is superseded. -/
def twiceCalls : List Call := [
  .operation (.registerProfile (uuidOf 1) (.declared .model) (.record []) [] []),
  .operation (.registerProfile (uuidOf 2) (.declared .model) (.record [(1, .uint 1)]) [] []),
  .operation (.registerRule { ruleId := uuidOf 3, scope := ascii "pair" }),
  .operation (.evaluatePair (uuidOf 1) (uuidOf 2)),
  .operation (.supersedeProfile (.declared .model) (uuidOf 1) (.record [(2, .uint 7)]) [] []),
  .operation (.evaluatePair (uuidOf 1) (uuidOf 2))]

theorem allReplayed_twice :
    (logOf twiceCalls {}).length = 2 ∧ AllReplayed (logOf twiceCalls {}) (runCalls twiceCalls {}) := by
  have hwf : ∀ c ∈ twiceCalls, c.WF := by
    simp only [twiceCalls, List.forall_mem_cons, List.not_mem_nil, false_imp_iff, implies_true, and_true]
    refine ⟨?_, ?_, ⟨?_, ?_, ?_, ?_⟩, ?_, ?_, ?_⟩ <;> simp [Call.WF, Op.WF, WF, WFRecord, SortedMap.Sorted]
  have hpairs : (logOf twiceCalls {}).all (fun e => (e.state.newestActive e.left).any fun l =>
      (e.state.newestActive e.right).any fun r => l.fingerprint != r.fingerprint) = true := by
    decide +kernel
  have hlate : ∀ e ∈ logOf twiceCalls {}, ¬ e.Early := by
    intro e he hearly
    obtain ⟨l, hl, hright⟩ := (Option.any_eq_true ..).mp (List.all_eq_true.mp hpairs e he)
    obtain ⟨r, hr, hne⟩ := (Option.any_eq_true ..).mp hright
    exact (bne_iff_ne.mp hne) (hearly l r hl hr)
  have hshort : twiceCalls.length < 2 ^ 64 := by
    have hsix : twiceCalls.length = 6 := rfl
    omega
  exact ⟨by decide +kernel, (allReplayed_iff_undisturbed (run_logOf hwf) hshort
    (collisionFree_of_nodup (by decide +kernel))).mpr (undisturbed_of_nodup hlate (by decide +kernel))⟩

/-- Two pairs of which no profile is registered. -/
def absentCalls : List Call := [
  .operation (.evaluatePair (uuidOf 1) (uuidOf 2)),
  .operation (.evaluatePair (uuidOf 1) (uuidOf 3))]

theorem not_allReplayed_absent :
    Run 2 (logOf absentCalls {}) (runCalls absentCalls {}) ∧
    (∀ e ∈ logOf absentCalls {}, ∀ e' ∈ logOf absentCalls {}, CollisionFree e e') ∧
    ¬ AllReplayed (logOf absentCalls {}) (runCalls absentCalls {}) := by
  have hwf : ∀ c ∈ absentCalls, c.WF := by simp [absentCalls, Call.WF, Op.WF]
  have hshared : ∃ e ∈ logOf absentCalls {}, ∃ e' ∈ logOf absentCalls {},
      e.decision.decisionId = e'.decision.decisionId ∧ e.decision.right ≠ e'.decision.right := by
    decide +kernel
  have hcoll : ∀ e ∈ logOf absentCalls {}, ∀ e' ∈ logOf absentCalls {}, CollisionFree e e' :=
    collisionFree_of_nodup (by decide +kernel)
  refine ⟨run_logOf hwf, hcoll, fun h => ?_⟩
  obtain ⟨e, he, e', he', hid, hright⟩ := hshared
  have heq := (allReplayed_iff_shared (run_logOf hwf).cached).mp h e he e' he' (.inl hid)
  exact hright (congrArg CompatibilityDecision.right heq)

end Registry

end CompatRegistry
