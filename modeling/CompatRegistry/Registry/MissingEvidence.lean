import CompatRegistry.Foundation.Splits
import CompatRegistry.Registry.PairSpec
import CompatRegistry.RuleEvidence

/-! The missing evidence of a decision `InsufficientEvidence`. A decision that a rule
governs takes over what the evaluation of the rule noted; one that no rule concludes has
the outcome from the flags of all candidates, and lists nothing. -/

namespace CompatRegistry

open Foundation Canon

namespace Registry

section Decision

variable (s : Registry) (requirement : Bool) (l r : ProfileRecord)

/-- The first candidate whose outcome is not `Unknown`. -/
structure Governs (rule : CompatibilityRule) (o : Enum8 Outcome) : Prop where
  outcome : Evaluates l.toSubject r.toSubject rule o
  conclusive : o ≠ .declared .unknown
  first : ∃ before after, candidates s (scopeOf requirement) l r = before ++ rule :: after ∧
    ∀ x ∈ before, Evaluates l.toSubject r.toSubject x (.declared .unknown)

/-- No candidate concludes. -/
def Undecided : Prop :=
  ∀ rule ∈ candidates s (scopeOf requirement) l r,
    Evaluates l.toSubject r.toSubject rule (.declared .unknown)

variable (left right : Uuid)

/-- The decision, if it is `InsufficientEvidence`, lists what the rule that it names lacks. -/
def Explained (d : CompatibilityDecision) : Prop :=
  d.outcome = .declared .insufficientEvidence →
    ∃ l r rule, s.newestActive left = some l ∧ s.newestActive right = some r ∧
      rule ∈ candidates s (scopeOf requirement) l r ∧ rule.ruleId = d.ruleId ∧
      EvidenceListed l.toSubject r.toSubject rule d.missingEvidence

/-- Two different profiles that the rules are evaluated on. -/
structure Differ (l r : ProfileRecord) : Prop where
  left : s.newestActive left = some l
  right : s.newestActive right = some r
  fingerprint : l.fingerprint ≠ r.fingerprint

/-- Where no candidate concludes, no gate of one lacks evidence, and where the governing
rule concludes `InsufficientEvidence`, what it notes suffices. -/
structure EvidenceCovered : Prop where
  undecided : ∀ l r, Differ s left right l r → Undecided s requirement l r →
    ∀ rule ∈ candidates s (scopeOf requirement) l r, ∀ c ∈ rule.gates, Known l.toSubject r.toSubject c
  governed : ∀ l r rule, Differ s left right l r →
    Governs s requirement l r rule (.declared .insufficientEvidence) →
    NotedSuffices l.toSubject r.toSubject rule

variable {s requirement l r left right}

theorem Differ.unique {l' r' : ProfileRecord} (h : Differ s left right l r) (h' : Differ s left right l' r') :
    l' = l ∧ r' = r :=
  ⟨Option.some.inj (h'.left.symm.trans h.left), Option.some.inj (h'.right.symm.trans h.right)⟩

theorem Governs.unique {rule rule' : CompatibilityRule} {o o' : Enum8 Outcome}
    (h : Governs s requirement l r rule o) (h' : Governs s requirement l r rule' o') : rule' = rule := by
  obtain ⟨before, after, hsplit, hbefore⟩ := h.first
  obtain ⟨before', after', hsplit', hbefore'⟩ := h'.first
  exact Splits.first_unique (hsplit'.symm.trans hsplit) hbefore' hbefore
    (fun hunknown => h'.conclusive (h'.outcome.unique hunknown))
    fun hunknown => h.conclusive (h.outcome.unique hunknown)

theorem Governs.mem {rule : CompatibilityRule} {o : Enum8 Outcome} (h : Governs s requirement l r rule o) :
    rule ∈ candidates s (scopeOf requirement) l r := by
  obtain ⟨before, after, hsplit, -⟩ := h.first
  rw [hsplit]
  simp

theorem Governs.not_undecided {rule : CompatibilityRule} {o : Enum8 Outcome}
    (h : Governs s requirement l r rule o) : ¬ Undecided s requirement l r :=
  fun hundecided => h.conclusive (h.outcome.unique (hundecided rule h.mem))

/-- A decision that no rule concludes lists nothing. -/
theorem resolveRules_missingEvidence {d d' : CompatibilityDecision} {cand : List CompatibilityRule}
    {evals : List RuleEval} (h : resolveRules d cand evals = .ok d')
    (hevals : ∀ e ∈ evals, e.conclusive = false) : d'.missingEvidence = d.missingEvidence := by
  have hnone : evals.filter (·.conclusive) = [] := by simpa [List.filter_eq_nil_iff] using hevals
  unfold resolveRules at h
  rw [hnone] at h
  simp only [Except.ok.injEq] at h
  subst h
  cases cand <;> split <;> rfl

variable (s requirement l r) in
/-- How the rules have come to a decision: it is taken over from the first rule that concludes, or
none concludes and it depends on whether all gates could be read. -/
inductive Decides (d : CompatibilityDecision) : Prop
  | governed {rule : CompatibilityRule} {e : RuleEval} {conflicts : List Bytes}
      (eval : evalRule l.toSubject r.toSubject rule = .ok e) (governs : Governs s requirement l r rule e.outcome)
      (outcome : d.outcome = e.outcome) (ruleId : d.ruleId = rule.ruleId)
      (ruleGeneration : d.ruleGeneration = rule.generation) (satisfied : d.satisfied = e.satisfied)
      (failed : d.failed = e.failed) (adaptations : d.adaptations = e.adaptations)
      (missingEvidence : d.missingEvidence = e.missingEvidence)
      (provenance : d.provenance = [ascii "deterministic rule resolution", ruleLine rule] ++ conflicts)
      (lines : ∀ line ∈ conflicts, ∃ e, IsConflictLine e line)
  | unread (undecided : Undecided s requirement l r) {rule : CompatibilityRule}
      (mem : rule ∈ candidates s (scopeOf requirement) l r) {c : Constraint} (gate : c ∈ rule.gates)
      (unknown : ¬ Known l.toSubject r.toSubject c) (outcome : d.outcome = .declared .insufficientEvidence)
      (missingEvidence : d.missingEvidence = [])
  | unknown (undecided : Undecided s requirement l r)
      (known : ∀ rule ∈ candidates s (scopeOf requirement) l r, ∀ c ∈ rule.gates, Known l.toSubject r.toSubject c)
      (outcome : d.outcome = .declared .unknown) (missingEvidence : d.missingEvidence = [])

theorem outcome_of_inconclusive {l r : Subject} {rule : CompatibilityRule} {e : RuleEval}
    (h : evalRule l r rule = .ok e) (hfalse : e.conclusive = false) : e.outcome = .declared .unknown := by
  by_contra hne
  exact Bool.false_ne_true (hfalse.symm.trans ((conclusive_iff h).mpr hne))

theorem evaluates_of_inconclusive {l r : Subject} {rule : CompatibilityRule} {e : RuleEval}
    (h : evalRule l r rule = .ok e) (hfalse : e.conclusive = false) : Evaluates l r rule (.declared .unknown) :=
  (evalRule_outcome_iff rule _).mp ⟨e, h, outcome_of_inconclusive h hfalse⟩

theorem ruleDecision_decides {d : CompatibilityDecision} (hd : ruleDecision s l r requirement = .ok d) :
    Decides s requirement l r d := by
  obtain ⟨evals, d₁, text, hevals, hd₁, rfl⟩ := ruleDecision_eq_ok hd
  have hforall := Result.mapM_eq_ok.mp hevals
  cases resolveRules_resolution hd₁ with
  | concluded before best after conflicts split inconclusive conclusive outcome ruleId ruleGeneration
      satisfied failed adaptations missingEvidence provenance lines =>
    rw [split] at hforall
    obtain ⟨firsts, rule, rest, hcand, hfirsts, hbest, -⟩ := Result.forall₂_split_right hforall
    rw [evalRule_rule hbest] at ruleId ruleGeneration provenance
    have hgoverns : Governs s requirement l r rule best.outcome := by
      refine ⟨(evalRule_outcome_iff rule _).mp ⟨best, hbest, rfl⟩, (conclusive_iff hbest).mp conclusive, firsts, rest,
        hcand, fun x hx => ?_⟩
      obtain ⟨e, he, heval⟩ := Result.forall₂_mem_left hfirsts hx
      exact evaluates_of_inconclusive heval (inconclusive e he)
    refine .governed hbest hgoverns outcome ruleId ruleGeneration satisfied failed adaptations missingEvidence
      provenance fun line hline => ?_
    obtain ⟨e, -, he⟩ := Result.forall₂_mem_left lines.flip hline
    exact ⟨e, he⟩
  | undecided inconclusive named outcome =>
    have hundecided : Undecided s requirement l r := by
      intro rule hrule
      obtain ⟨e, he, heval⟩ := Result.forall₂_mem_left hforall hrule
      exact evaluates_of_inconclusive heval (inconclusive e he)
    have hlisted := resolveRules_missingEvidence hd₁ inconclusive
    have hmissing : ∀ {rule : CompatibilityRule} {e : RuleEval}, e ∈ evals →
        evalRule l.toSubject r.toSubject rule = .ok e →
        (e.missing = true ↔ ∃ c ∈ rule.gates, ¬ Known l.toSubject r.toSubject c) := by
      intro rule e he heval
      have hout := outcome_of_inconclusive heval (inconclusive e he)
      exact (evalRule_noted heval (.inr hout)).2 hout
    by_cases hflag : evals.any (·.missing) = true
    · rw [if_pos hflag] at outcome
      obtain ⟨e, he, hflag⟩ := List.any_eq_true.mp hflag
      obtain ⟨rule, hrule, heval⟩ := Result.forall₂_mem_left hforall.flip he
      obtain ⟨c, hc, hne⟩ := (hmissing he heval).mp hflag
      exact .unread hundecided hrule hc hne outcome hlisted
    · rw [if_neg hflag] at outcome
      refine .unknown hundecided (fun rule hrule c hc => ?_) outcome hlisted
      by_contra hne
      obtain ⟨e, he, heval⟩ := Result.forall₂_mem_left hforall hrule
      exact hflag (List.any_eq_true.mpr ⟨e, he, (hmissing he heval).mpr ⟨c, hc, hne⟩⟩)

/-- Without two different profiles nothing is evaluated, and nothing is missing. -/
theorem explained_of_not_differ {d : CompatibilityDecision} (hnone : ∀ l r, ¬ Differ s left right l r)
    (houtcome : d.outcome ≠ .declared .insufficientEvidence) :
    Explained s requirement left right d ↔ EvidenceCovered s requirement left right :=
  iff_of_true (fun hinsufficient => absurd hinsufficient houtcome)
    ⟨fun l r hd => absurd hd (hnone l r), fun l r _ hd => absurd hd (hnone l r)⟩

/-- What a decision by rules says, where a rule governs it. -/
theorem explained_of_governs (h : Inv s) (hdiffer : Differ s left right l r) {rule : CompatibilityRule}
    {e : RuleEval} (heval : evalRule l.toSubject r.toSubject rule = .ok e)
    (hgoverns : Governs s requirement l r rule e.outcome) {d : CompatibilityDecision}
    (houtcome : d.outcome = e.outcome) (hid : d.ruleId = rule.ruleId)
    (hlisted : d.missingEvidence = e.missingEvidence) :
    Explained s requirement left right d ↔ EvidenceCovered s requirement left right := by
  constructor
  · intro hexplained
    refine ⟨fun l' r' hd' hundecided => ?_, fun l' r' rule' hd' hgoverns' => ?_⟩
    · obtain ⟨rfl, rfl⟩ := hdiffer.unique hd'
      exact absurd hundecided hgoverns.not_undecided
    · obtain ⟨rfl, rfl⟩ := hdiffer.unique hd'
      obtain rfl := hgoverns.unique hgoverns'
      have hinsufficient := hgoverns.outcome.unique hgoverns'.outcome
      obtain ⟨l₁, r₁, named, hl₁, hr₁, hmem, hnamed, hevidence⟩ := hexplained (houtcome.trans hinsufficient)
      obtain rfl : l₁ = l' := Option.some.inj (hl₁.symm.trans hd'.left)
      obtain rfl : r₁ = r' := Option.some.inj (hr₁.symm.trans hd'.right)
      have hsame : named = rule' := List.inj_on_of_nodup_map (candidates_ruleId_nodup h _ l₁ r₁) hmem
        hgoverns.mem (hnamed.trans hid)
      rw [hsame, hlisted, (evalRule_noted heval (.inl hinsufficient)).1] at hevidence
      exact evidenceListed_iff.mp hevidence
  · intro hcovered hinsufficient
    have hout : e.outcome = .declared .insufficientEvidence := houtcome.symm.trans hinsufficient
    refine ⟨l, r, rule, hdiffer.left, hdiffer.right, hgoverns.mem, hid.symm, ?_⟩
    rw [hlisted, (evalRule_noted heval (.inl hout)).1]
    exact evidenceListed_iff.mpr (hcovered.governed l r rule hdiffer (hout ▸ hgoverns))

/-- The same, where no rule concludes. -/
theorem explained_of_undecided (hdiffer : Differ s left right l r) (hundecided : Undecided s requirement l r)
    {d : CompatibilityDecision} (hlisted : d.missingEvidence = [])
    (houtcome : d.outcome = .declared .insufficientEvidence ↔
      ∃ rule ∈ candidates s (scopeOf requirement) l r, ∃ c ∈ rule.gates, ¬ Known l.toSubject r.toSubject c) :
    Explained s requirement left right d ↔ EvidenceCovered s requirement left right := by
  constructor
  · intro hexplained
    refine ⟨fun l' r' hd' _ rule hrule c hc => ?_, fun l' r' rule hd' hgoverns => ?_⟩
    · obtain ⟨rfl, rfl⟩ := hdiffer.unique hd'
      by_contra hnot
      obtain ⟨_, _, _, -, -, -, -, hevidence⟩ := hexplained (houtcome.mpr ⟨rule, hrule, c, hc, hnot⟩)
      exact hevidence.nonempty hlisted
    · obtain ⟨rfl, rfl⟩ := hdiffer.unique hd'
      exact absurd hundecided hgoverns.not_undecided
  · intro hcovered hinsufficient
    obtain ⟨rule, hrule, c, hc, hnot⟩ := houtcome.mp hinsufficient
    exact absurd (hcovered.undecided l r hdiffer hundecided rule hrule c hc) hnot

/-- What a decision by rules says: a candidate governs it, or none concludes. -/
theorem Decides.explained_iff (h : Inv s) (hdiffer : Differ s left right l r) {d : CompatibilityDecision}
    (hd : Decides s requirement l r d) :
    Explained s requirement left right d ↔ EvidenceCovered s requirement left right := by
  cases hd with
  | governed eval governs outcome ruleId _ _ _ _ missingEvidence =>
    exact explained_of_governs h hdiffer eval governs outcome ruleId missingEvidence
  | unread undecided mem gate unknown outcome missingEvidence =>
    exact explained_of_undecided hdiffer undecided missingEvidence
      (iff_of_true outcome ⟨_, mem, _, gate, unknown⟩)
  | unknown undecided known outcome missingEvidence =>
    refine explained_of_undecided hdiffer undecided missingEvidence (iff_of_false (by rw [outcome]; decide) ?_)
    rintro ⟨rule, hrule, c, hc, hnot⟩
    exact hnot (known rule hrule c hc)

end Decision

/-- An evaluation lists the missing evidence exactly when the pair is covered. -/
theorem explained_iff_covered {s : Registry} (h : Reachable s) {requirement : Bool} {left right : Uuid}
    {d : CompatibilityDecision} (hd : (evaluateWith requirement left right s).1 = .ok d) :
    Explained s requirement left right d ↔ EvidenceCovered s requirement left right := by
  rw [evaluateWith_fst] at hd
  cases evaluateLocked_returned hd with
  | absent missing decided =>
    obtain ⟨digest, heq⟩ := absentDecision_eq s left right
    rw [heq] at decided
    cases decided
    refine explained_of_not_differ ?_ (by simp)
    rintro l r ⟨hl, hr, -⟩
    rcases missing with hm | hm
    · rw [hl] at hm
      cases hm
    · rw [hr] at hm
      cases hm
  | identical l r left_active right_active same decided =>
    obtain ⟨digest, heq⟩ := exactDecision_eq s l r
    rw [heq] at decided
    cases decided
    refine explained_of_not_differ ?_ (by simp)
    rintro l' r' ⟨hl, hr, hne⟩
    rw [left_active] at hl
    rw [right_active] at hr
    cases hl
    cases hr
    exact hne same
  | ruled l r left_active right_active differ decided =>
    exact (ruleDecision_decides decided).explained_iff h.inv ⟨left_active, right_active, differ⟩

/-- Two different model profiles without a weight format, and a rule about it. -/
def weightFormatOps (rule : Constraint → CompatibilityRule) : List Op := [
  .registerProfile (uuidOf 1) (.declared .model) (.record []) [] [],
  .registerProfile (uuidOf 2) (.declared .model) (.record [(1, .uint 1)]) [] [],
  .registerRule { rule { field := ascii "weight_format" } with ruleId := uuidOf 3, scope := ascii "pair" }]

theorem weightFormatOps_reachable {rule : Constraint → CompatibilityRule}
    (h : (rule { field := ascii "weight_format" }).WF) : Reachable (runOps (weightFormatOps rule) {}) := by
  refine runOps_reachable ?_ Reachable.empty
  simp only [weightFormatOps, List.forall_mem_cons, List.not_mem_nil, false_imp_iff, implies_true, and_true]
  exact ⟨by simp [Op.WF, WF, WFRecord, SortedMap.Sorted], by simp [Op.WF, WF, WFRecord, SortedMap.Sorted],
    ⟨h.required, h.anyOf, h.incompatibleWith, h.conditions⟩⟩

/-- A requirement is noted by its field. -/
theorem explained_iff_covered_required :
    ∃ d, (evaluateWith false (uuidOf 1) (uuidOf 2)
        (runOps (weightFormatOps fun c => { required := [c] }) {})).1 = .ok d ∧
      (Explained (runOps (weightFormatOps fun c => { required := [c] }) {}) false (uuidOf 1) (uuidOf 2) d ↔
        EvidenceCovered (runOps (weightFormatOps fun c => { required := [c] }) {}) false (uuidOf 1) (uuidOf 2)) := by
  have hok : (evaluateWith false (uuidOf 1) (uuidOf 2)
      (runOps (weightFormatOps fun c => { required := [c] }) {})).1.isOk = true := by
    decide +kernel
  cases hd : (evaluateWith false (uuidOf 1) (uuidOf 2)
      (runOps (weightFormatOps fun c => { required := [c] }) {})).1 with
  | error e =>
    rw [hd] at hok
    cases hok
  | ok d =>
    refine ⟨d, rfl, explained_iff_covered (weightFormatOps_reachable ?_) hd⟩
    constructor <;> simp [Constraint.WF, WF, WFSeq]

/-- An alternative is not noted, so that nothing is listed. -/
theorem evaluatePair_alternative_unlisted :
    Reachable (runOps (weightFormatOps fun c => { anyOf := [c] }) {}) ∧
    ∃ d, (evaluatePair (uuidOf 1) (uuidOf 2) (runOps (weightFormatOps fun c => { anyOf := [c] }) {})).1 = .ok d ∧
      d.outcome = .declared .insufficientEvidence ∧ d.ruleId = uuidOf 3 ∧ d.missingEvidence = [] ∧
      ¬ Explained (runOps (weightFormatOps fun c => { anyOf := [c] }) {}) false (uuidOf 1) (uuidOf 2) d := by
  have hok : ((evaluatePair (uuidOf 1) (uuidOf 2)
      (runOps (weightFormatOps fun c => { anyOf := [c] }) {})).1.toOption.map fun d =>
        (d.outcome, d.ruleId, d.missingEvidence)) =
      some (.declared .insufficientEvidence, uuidOf 3, []) := by
    decide +kernel
  constructor
  · apply weightFormatOps_reachable
    constructor <;> simp [Constraint.WF, WF, WFSeq]
  · cases hd : (evaluatePair (uuidOf 1) (uuidOf 2) (runOps (weightFormatOps fun c => { anyOf := [c] }) {})).1 with
    | error e =>
      rw [hd] at hok
      cases hok
    | ok d =>
      rw [hd] at hok
      obtain ⟨houtcome, hrule, hlisted⟩ : d.outcome = .declared .insufficientEvidence ∧ d.ruleId = uuidOf 3 ∧
        d.missingEvidence = [] := by simpa [Except.toOption] using hok
      refine ⟨d, rfl, houtcome, hrule, hlisted, fun hexplained => ?_⟩
      obtain ⟨_, _, _, -, -, -, -, hevidence⟩ := hexplained houtcome
      exact hevidence.nonempty hlisted

end Registry

end CompatRegistry
