import CompatRegistry.Registry.MoreEvidence

/-! Rules that come later. While a rule governs a pair, storing, replacing or disabling rules that
are tried after it changes nothing but the conflict lines: every evaluation that returns says
what the governing rule says. -/

namespace CompatRegistry

open Foundation Canon

/-- A ruling without its provenance. -/
def CompatibilityDecision.verdict (d : CompatibilityDecision) : Ruling := { d.ruling with provenance := [] }

def RuleEval.verdict (e : RuleEval) : Ruling where
  outcome := e.outcome
  ruleId := e.rule.ruleId
  ruleGeneration := e.rule.generation
  satisfied := e.satisfied
  failed := e.failed
  adaptations := e.adaptations
  missingEvidence := e.missingEvidence
  provenance := []

namespace Registry

/-- The provenance names the rule, and then only rules that disagree with it. -/
def Names (rule : CompatibilityRule) (d : CompatibilityDecision) : Prop :=
  ∃ conflicts, d.provenance = [ascii "deterministic rule resolution", ruleLine rule] ++ conflicts ∧
    ∀ line ∈ conflicts, ∃ e, IsConflictLine e line

/-- What a decision takes from the rule that governs it. -/
theorem verdict_of_governs {s : Registry} {requirement : Bool} {l r : ProfileRecord} {rule : CompatibilityRule}
    {o : Enum8 Outcome} (h : Governs s requirement l r rule o) {d : CompatibilityDecision}
    (hd : ruleDecision s l r requirement = .ok d) :
    ∃ e, evalRule l.toSubject r.toSubject rule = .ok e ∧ d.verdict = e.verdict ∧ Names rule d := by
  cases ruleDecision_decides hd with
  | @governed rule' e conflicts eval governs outcome ruleId ruleGeneration satisfied failed adaptations
      missingEvidence provenance lines =>
    obtain rfl := h.unique governs
    refine ⟨e, eval, ?_, conflicts, provenance, lines⟩
    simp only [CompatibilityDecision.verdict, CompatibilityDecision.ruling, RuleEval.verdict, evalRule_rule eval,
      outcome, ruleId, ruleGeneration, satisfied, failed, adaptations, missingEvidence]
  | unread undecided => exact absurd undecided h.not_undecided
  | unknown undecided => exact absurd undecided h.not_undecided

/-- The same two records, and the same rules up to the rule. -/
structure SameAbove (rule : CompatibilityRule) (scope : Bytes) (left right : Uuid) (s t : Registry) : Prop where
  leftActive : t.newestActive left = s.newestActive left
  rightActive : t.newestActive right = s.newestActive right
  rules : ∀ l r, s.newestActive left = some l → s.newestActive right = some r → ∀ id rr,
    applicable scope l r rr = true → ¬ RuleBefore rule rr.rule →
      (t.rules.lookup id = some rr ↔ s.rules.lookup id = some rr)

section Above
variable {rule : CompatibilityRule} {scope : Bytes} {left right : Uuid} {s t u : Registry}

theorem SamePair.above (h : SamePair scope left right s t) : SameAbove rule scope left right s t :=
  ⟨h.leftActive, h.rightActive, fun l r hl hr id rr happ _ => h.rules l r hl hr id rr happ⟩

theorem SameAbove.trans (h₁ : SameAbove rule scope left right s t) (h₂ : SameAbove rule scope left right t u) :
    SameAbove rule scope left right s u where
  leftActive := h₂.leftActive.trans h₁.leftActive
  rightActive := h₂.rightActive.trans h₁.rightActive
  rules l r hl hr id rr happ hnot :=
    (h₂.rules l r (h₁.leftActive.trans hl) (h₁.rightActive.trans hr) id rr happ hnot).trans
      (h₁.rules l r hl hr id rr happ hnot)

/-- The rule goes on governing. -/
theorem Governs.above {requirement : Bool} {l r : ProfileRecord} {o : Enum8 Outcome} (hs : Inv s) (ht : Inv t)
    (hl : s.newestActive left = some l) (hr : s.newestActive right = some r)
    (h : SameAbove rule (scopeOf requirement) left right s t) (hgoverns : Governs s requirement l r rule o) :
    Governs t requirement l r rule o := by
  have hcand := candidates_sorted hs (scopeOf requirement) l r
  have hcand' := candidates_sorted ht (scopeOf requirement) l r
  have hirrefl : Std.Irrefl RuleBefore := ⟨RuleBefore.irrefl⟩
  have hantisymm : Std.Antisymm RuleBefore := ⟨fun a b hab hba => absurd hba hab.asymm⟩
  have hfilter : (candidates t (scopeOf requirement) l r).filter (fun x => ¬ RuleBefore rule x) =
      (candidates s (scopeOf requirement) l r).filter (fun x => ¬ RuleBefore rule x) := by
    apply (hcand'.sorted.filter _).eq_of_mem_iff (hcand.sorted.filter _)
    intro x
    simp only [List.mem_filter, decide_eq_true_eq]
    refine and_congr_left fun hnot => ?_
    rw [hcand'.mem, hcand.mem]
    constructor
    · rintro ⟨id, rr, hlook, happ, rfl⟩
      exact ⟨id, rr, (h.rules l r hl hr id rr happ hnot).mp hlook, happ, rfl⟩
    · rintro ⟨id, rr, hlook, happ, rfl⟩
      exact ⟨id, rr, (h.rules l r hl hr id rr happ hnot).mpr hlook, happ, rfl⟩
  obtain ⟨first, rest, hsplit, hfirst⟩ := hgoverns.first
  have hsorted := hcand.sorted
  rw [hsplit] at hfilter hsorted
  rw [Splits.filter_not_after (fun _ _ => RuleBefore.asymm) hsorted] at hfilter
  obtain ⟨rest', hsplit'⟩ := Splits.exists_split_of_filter (fun _ _ => RuleBefore.asymm) hcand'.sorted hfilter
  exact ⟨hgoverns.outcome, hgoverns.conclusive, first, rest', hsplit', hfirst⟩

/-- A rule that is tried later, or not at all, takes the place of another one. -/
theorem SameAbove.of_rule (hprofiles : t.profiles = s.profiles) {id : Uuid} {rr : RuleRecord}
    (hrules : t.rules = s.rules.insert id rr) (hnew : AppliesTo scope left right s rr → RuleBefore rule rr.rule)
    (hold : ∀ rr' ∈ s.rules.lookup id, AppliesTo scope left right s rr' → RuleBefore rule rr'.rule) :
    SameAbove rule scope left right s t where
  leftActive := newestActive_of_lookup (by rw [hprofiles])
  rightActive := newestActive_of_lookup (by rw [hprofiles])
  rules l r hl hr id' rr' happ hnot := by
    rw [hrules]
    refine UMap.lookup_insert_of_not (P := fun rr => AppliesTo scope left right s rr ∧ ¬ RuleBefore rule rr.rule)
      (fun h => h.2 (hnew h.1)) (fun v hv h => h.2 (hold v hv h.1)) id' ⟨⟨l, r, hl, hr, happ⟩, hnot⟩

end Above

/-- The call does not touch the pair, or stores or replaces rules that are tried after the rule. -/
def Op.Yields (rule : CompatibilityRule) (requirement : Bool) (left right : Uuid) (s : Registry) : Op → Prop
  | .registerRule new =>
    (AppliesTo (scopeOf requirement) left right s { rule := new } → RuleBefore rule new) ∧
      ∀ rr ∈ s.rules.lookup new.ruleId, AppliesTo (scopeOf requirement) left right s rr → RuleBefore rule rr.rule
  | .supersedeRule id new =>
    (AppliesTo (scopeOf requirement) left right s { rule := new } → RuleBefore rule { new with ruleId := id }) ∧
      ∀ rr ∈ s.rules.lookup id, AppliesTo (scopeOf requirement) left right s rr → RuleBefore rule rr.rule
  | .disableRule id =>
    ∀ rr ∈ s.rules.lookup id, AppliesTo (scopeOf requirement) left right s rr → RuleBefore rule rr.rule
  | op => ¬ op.Touches requirement left right s

theorem sameAbove_of_yields {rule : CompatibilityRule} {requirement : Bool} {left right : Uuid} {s : Registry}
    (hs : Reachable s) {op : Op} (h : op.Yields rule requirement left right s) :
    SameAbove rule (scopeOf requirement) left right s (op.run s) := by
  cases op with
  | registerRule new => exact .of_rule rfl rfl h.1 h.2
  | supersedeRule id new =>
    simp only [Op.run, supersedeRule]
    cases hl : s.rules.lookup id with
    | none => exact (SamePair.refl _ _ _ s).above
    | some old => exact .of_rule rfl rfl h.1 h.2
  | disableRule id =>
    simp only [Op.run, disableRule]
    cases hl : s.rules.lookup id with
    | none => exact (SamePair.refl _ _ _ s).above
    | some old =>
      refine .of_rule rfl rfl (fun happlies => ?_) h
      obtain ⟨l, r, -, -, happ⟩ := happlies
      simp [applicable] at happ
  | _ => exact (samePair_of_untouched hs h).above

/-- Later rules show as conflicts only: after every run of calls that yield to the governing rule it
goes on governing the same two profiles, and an evaluation that returns gives the verdict that it
gave before, and names the rule. -/
theorem verdict_yields {s : Registry} (h : Reachable s) {requirement : Bool} {left right : Uuid}
    {l r : ProfileRecord} (hdiffer : Differ s left right l r) {rule : CompatibilityRule} {o : Enum8 Outcome}
    (hgoverns : Governs s requirement l r rule o) {ops : List Op}
    (hops : EachCall (fun op s => op.Yields rule requirement left right s) ops s) :
    Differ (runOps ops s) left right l r ∧ Governs (runOps ops s) requirement l r rule o ∧
      ∀ d d', (evaluateWith requirement left right s).1 = .ok d →
        (evaluateWith requirement left right (runOps ops s)).1 = .ok d' →
          d'.verdict = d.verdict ∧ Names rule d ∧ Names rule d' := by
  obtain ⟨hreach, habove⟩ := EachCall.related (fun s => (SamePair.refl (scopeOf requirement) left right s).above)
    (fun _ _ _ => SameAbove.trans) (fun _ _ hs hop => sameAbove_of_yields hs hop) h hops
  have hstill := hgoverns.above h.inv hreach.inv hdiffer.left hdiffer.right habove
  have hleft := habove.leftActive.trans hdiffer.left
  have hright := habove.rightActive.trans hdiffer.right
  refine ⟨⟨hleft, hright, hdiffer.fingerprint⟩, hstill, fun d d' hd hd' => ?_⟩
  rw [evaluateWith_fst, evaluateLocked_of_active hdiffer.left hdiffer.right, if_neg hdiffer.fingerprint] at hd
  rw [evaluateWith_fst, evaluateLocked_of_active hleft hright, if_neg hdiffer.fingerprint] at hd'
  obtain ⟨e, heval, hverdict, hnames⟩ := verdict_of_governs hgoverns hd
  obtain ⟨e', heval', hverdict', hnames'⟩ := verdict_of_governs hstill hd'
  obtain rfl : e = e' := Except.ok.inj (heval.symm.trans heval')
  exact ⟨hverdict'.trans hverdict.symm, hnames, hnames'⟩

/-- A rule of the same priority and a higher identity that says the opposite. -/
def laterOps : List Op := [
  .registerRule { ruleId := uuidOf 4, scope := ascii "pair", outcome := .declared .incompatible }]

/-- All rules of the two models come before it. -/
theorem yields_laterOps {s : Registry} {rule : CompatibilityRule}
    (hrules : (s.rules.values.all fun rr => decide (rr.rule.priority = 0 ∧ rr.rule.ruleId < uuidOf 4)) = true)
    (hnone : (s.rules.lookup (uuidOf 4)).isNone = true) {id : Uuid} {rr : RuleRecord}
    (hlook : s.rules.lookup id = some rr) (hrule : rr.rule = rule) :
    EachCall (fun op s => op.Yields rule false (uuidOf 1) (uuidOf 2) s) laterOps s := by
  have hlater := List.all_eq_true.mp hrules rr (UMap.mem_values_iff.mpr ⟨id, hlook⟩)
  rw [decide_eq_true_eq, hrule] at hlater
  refine ⟨⟨⟨?_, ?_, ?_, ?_⟩, fun _ => .inr hlater, fun rr hrr => ?_⟩, trivial⟩
  · simp
  · simp
  · simp
  · simp
  · rw [Option.isNone_iff_eq_none.mp hnone] at hrr
    cases hrr

theorem verdict_yields_later : ∃ l r rule d d',
    (evaluateWith false (uuidOf 1) (uuidOf 2) (runOps (weightFormatOps fun _ => {}) {})).1 = .ok d ∧
    (evaluateWith false (uuidOf 1) (uuidOf 2)
      (runOps laterOps (runOps (weightFormatOps fun _ => {}) {}))).1 = .ok d' ∧
    Governs (runOps laterOps (runOps (weightFormatOps fun _ => {}) {})) false l r rule (.declared .compatible) ∧
    d'.verdict = d.verdict ∧ Names rule d ∧ Names rule d' := by
  obtain ⟨l, r, d, hreach, hdiffer, -, -, hd, hcompatible⟩ := weightFormat_compatible
  obtain ⟨d', hd'⟩ : ∃ d', (evaluateWith false (uuidOf 1) (uuidOf 2)
      (runOps laterOps (runOps (weightFormatOps fun _ => {}) {}))).1 = .ok d' :=
    Result.exists_of_isOk (by decide +kernel)
  have hruled := hd
  rw [evaluateWith_fst, evaluateLocked_of_active hdiffer.left hdiffer.right, if_neg hdiffer.fingerprint] at hruled
  have hruling := ruled_of_ruleDecision hruled
  rw [hcompatible] at hruling
  cases hruling with
  | @governed rule _ governs =>
    obtain ⟨id, rr, hlook, -, hrule⟩ := mem_candidates.mp governs.mem
    have hops := yields_laterOps (by decide +kernel) (by decide +kernel) hlook hrule
    obtain ⟨-, hstill, hsame⟩ := verdict_yields hreach hdiffer governs hops
    exact ⟨l, r, rule, d, d', hd, hd', hstill, hsame d d' hd hd'⟩

end Registry

end CompatRegistry
