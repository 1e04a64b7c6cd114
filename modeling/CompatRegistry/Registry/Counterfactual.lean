import CompatRegistry.Registry.CycleExact
import CompatRegistry.Registry.Derived
import CompatRegistry.Registry.PairSpec

/-! The counterfactual decision against the evaluation of the edited state. Both try the
same rules in the same order. The counterfactual decision has no short cut for equal
fingerprints, names no rule where none concludes, and does not look at the outcomes of
the rules after the first conclusive one. -/

namespace CompatRegistry

open Foundation Canon

/-! ### What both decisions say -/

/-- What a decision says about the pair. -/
structure Finding where
  outcome : Enum8 Outcome
  ruleId : Uuid
  satisfied : List ConstraintItem
  failed : List ConstraintItem
  adaptations : List Bytes
  missingEvidence : List Bytes

def CompatibilityDecision.finding (d : CompatibilityDecision) : Finding where
  outcome := d.outcome
  ruleId := d.ruleId
  satisfied := d.satisfied
  failed := d.failed
  adaptations := d.adaptations
  missingEvidence := d.missingEvidence

/-- What the first conclusive rule says. -/
def RuleEval.finding (e : RuleEval) : Finding where
  outcome := e.outcome
  ruleId := e.rule.ruleId
  satisfied := e.satisfied
  failed := e.failed
  adaptations := e.adaptations
  missingEvidence := e.missingEvidence

/-- The newest active record of a history, replaced. -/
def History.editNewest (h : History) (p : ProfileRecord) : History where
  records := (h.records.reverse.replaceF fun q => if q.active then some p else none).reverse
  nonempty := by
    have hne := h.nonempty
    simpa [← List.length_pos_iff] using hne

theorem find?_replaceF {α : Type} {p : α → Bool} {a : α} (ha : p a = true) (l : List α) :
    (l.replaceF fun x => if p x then some a else none).find? p = (l.find? p).map fun _ => a := by
  induction l with
  | nil => rfl
  | cons x l ih =>
    by_cases hx : p x = true
    · simp [hx, ha]
    · simp [hx, ih]

theorem History.newestActive_editNewest {p : ProfileRecord} (hp : p.active = true) (h : History) :
    (h.editNewest p).newestActive = h.newestActive.map fun _ => p := by
  unfold History.newestActive History.editNewest
  rw [List.reverse_reverse]
  exact find?_replaceF hp h.records.reverse

namespace Registry

/-! ### The edited state -/

/-- The state in which the newest active record of the profile is another one. -/
def editNewest (id : Uuid) (p : ProfileRecord) (s : Registry) : Registry :=
  { s with profiles := s.profiles.modify id fun h => h.editNewest p }

theorem newestActive_editNewest {p : ProfileRecord} (hp : p.active = true) (id id' : Uuid) (s : Registry) :
    (editNewest id p s).newestActive id' =
      if id' = id then (s.newestActive id).map fun _ => p else s.newestActive id' := by
  unfold editNewest newestActive
  simp only [UMap.lookup_modify]
  split_ifs with hid
  · cases s.profiles.lookup id with
    | none => rfl
    | some h =>
      exact h.newestActive_editNewest hp
  · rfl

/-- The state whose two newest active records are the edited ones. -/
def editedState (left right : Uuid) (sides : ProfileRecord × ProfileRecord) (s : Registry) : Registry :=
  editNewest right sides.2 (editNewest left sides.1 s)

theorem newestActive_editedState {s : Registry} {left right : Uuid} (hne : left ≠ right) {l r : ProfileRecord}
    (hl : s.newestActive left = some l) (hr : s.newestActive right = some r)
    {sides : ProfileRecord × ProfileRecord} (h₁ : sides.1.active = true) (h₂ : sides.2.active = true) :
    (editedState left right sides s).newestActive left = some sides.1 ∧
      (editedState left right sides s).newestActive right = some sides.2 := by
  unfold editedState
  constructor
  · rw [newestActive_editNewest h₂, if_neg hne, newestActive_editNewest h₁, if_pos rfl, hl]
    rfl
  · rw [newestActive_editNewest h₂, if_pos rfl, newestActive_editNewest h₁, if_neg hne.symm, hr]
    rfl

/-! ### Where no rule concludes -/

/-- What is said where no rule concludes. -/
def undecidedFinding (evals : List RuleEval) (ruleId : Uuid) : Finding where
  outcome := if evals.any (·.missing) then .declared .insufficientEvidence else .declared .unknown
  ruleId := ruleId
  satisfied := []
  failed := []
  adaptations := []
  missingEvidence := []

/-- The first candidate, or zero. -/
def firstId (cand : List CompatibilityRule) : Uuid := (cand.head?.map CompatibilityRule.ruleId).getD Uuid.zero

theorem map_finding_explainText (d : CompatibilityDecision) :
    Except.map CompatibilityDecision.finding (d.explainText >>= fun text => .ok { d with explanation := text }) =
      outcomeName d.outcome >>= fun _ => .ok d.finding := by
  unfold CompatibilityDecision.explainText
  cases outcomeName d.outcome <;> rfl

/-- What the counterfactual decision says of the evaluated rules. -/
def counterfactualFinding (evals : List RuleEval) : Result Finding :=
  match evals.filter (·.conclusive) with
  | best :: _ => outcomeName best.outcome >>= fun _ => .ok best.finding
  | [] => .ok (undecidedFinding evals Uuid.zero)

/-- What an evaluation says of them. -/
def evaluatedFinding (cand : List CompatibilityRule) (evals : List RuleEval) : Result Finding :=
  match evals.filter (·.conclusive) with
  | best :: others =>
    conflictLines best.outcome others >>= fun _ => outcomeName best.outcome >>= fun _ => .ok best.finding
  | [] => .ok (undecidedFinding evals (firstId cand))

theorem outcomeName_undecided (evals : List RuleEval) (ruleId : Uuid) :
    (outcomeName (undecidedFinding evals ruleId).outcome >>= fun _ => .ok (undecidedFinding evals ruleId)) =
      (.ok (undecidedFinding evals ruleId) : Result Finding) := by
  have hnamed : (undecidedFinding evals ruleId).outcome.isDeclared = true := by
    unfold undecidedFinding
    split_ifs <;> rfl
  obtain ⟨name, hname⟩ := outcomeName_isOk.mpr hnamed
  rw [hname]
  rfl

theorem map_finding_counterfactual {s : Registry} {left right : Uuid} {l r : ProfileRecord}
    (hl : s.newestActive left = some l) (hr : s.newestActive right = some r)
    {edits : List CounterfactualEdit} {sides : ProfileRecord × ProfileRecord}
    (hedits : edits.foldlM (applyEdit r) (l, r) = .ok sides) :
    Except.map CompatibilityDecision.finding (counterfactualPair left right edits s).1 =
      (counterfactualCandidates s sides.1 sides.2).mapM (evalRule sides.1.toSubject sides.2.toSubject) >>=
        counterfactualFinding := by
  unfold counterfactualPair
  simp only [hl, hr, hedits, Result.ok_bind, CompatibilityDecision.computeDigest_eq]
  rw [Result.map_bind]
  congr 1
  funext evals
  refine (map_finding_explainText _).trans ?_
  unfold counterfactualFinding resolveCounterfactual
  cases evals.filter (·.conclusive) with
  | cons best others => rfl
  | nil => exact outcomeName_undecided evals Uuid.zero

theorem map_finding_ruleDecision (s : Registry) (l r : ProfileRecord) (requirement : Bool) :
    Except.map CompatibilityDecision.finding (ruleDecision s l r requirement) =
      (candidates s (scopeOf requirement) l r).mapM (evalRule l.toSubject r.toSubject) >>=
        evaluatedFinding (candidates s (scopeOf requirement) l r) := by
  have hseal : ∀ d, Except.map CompatibilityDecision.finding (sealDecision s requirement d) =
      outcomeName d.outcome >>= fun _ => .ok d.finding := fun d => by
    rw [sealDecision_eq]
    exact map_finding_explainText (identified s requirement d)
  unfold ruleDecision
  rw [Result.map_bind]
  congr 1
  funext evals
  rw [Result.map_bind]
  simp only [hseal]
  unfold evaluatedFinding resolveRules
  cases evals.filter (·.conclusive) with
  | cons best others =>
    simp only
    cases conflictLines best.outcome others <;> rfl
  | nil =>
    cases candidates s (scopeOf requirement) l r with
    | nil =>
      refine Eq.trans ?_ (outcomeName_undecided evals Uuid.zero)
      unfold undecidedFinding
      cases evals.any (·.missing) <;> rfl
    | cons first rest =>
      refine Eq.trans ?_ (outcomeName_undecided evals first.ruleId)
      unfold undecidedFinding
      cases evals.any (·.missing) <;> rfl

/-! ### The same rules -/

/-- The first conclusive rule has no name for its outcome, or the later ones have names for
theirs; and where none concludes, there is no candidate with an identity to name. -/
structure SameSaid (cand : List CompatibilityRule) (evals : List RuleEval) : Prop where
  declared : ∀ best others, evals.filter (·.conclusive) = best :: others → best.outcome.isDeclared = true →
    ∀ e ∈ others, e.outcome.isDeclared = true
  unnamed : (∀ e ∈ evals, e.conclusive = false) → firstId cand = Uuid.zero

theorem outcomeName_error {o : Enum8 Outcome} {e : Fault} (h : outcomeName o = .error e) :
    e = .runtimeError (ascii "outcome_name: unknown outcome") := by
  cases o with
  | declared o => cases o <;> cases h
  | undeclared raw hraw =>
    cases h
    rfl

/-- The conflict lines and the explanation fail for the same reason. -/
theorem conflictLines_error {best : Enum8 Outcome} {others : List RuleEval} {e : Fault}
    (h : conflictLines best others = .error e) :
    e = .runtimeError (ascii "outcome_name: unknown outcome") := by
  obtain ⟨other, -, hother⟩ := Result.mapM_eq_error h
  rcases Result.bind_eq_error.mp hother with hname | ⟨name, -, hline⟩
  · exact outcomeName_error hname
  · cases hline

/-- Where a rule concludes, only the outcomes of the later ones matter. -/
theorem sameSaid_iff_of_conclusive {cand : List CompatibilityRule} {evals others : List RuleEval} {best : RuleEval}
    (hfilter : evals.filter (·.conclusive) = best :: others) :
    SameSaid cand evals ↔ (best.outcome.isDeclared = true → ∀ e ∈ others, e.outcome.isDeclared = true) := by
  constructor
  · exact fun hsame => hsame.declared best others hfilter
  · intro hdeclared
    refine ⟨fun best' others' h => ?_, fun hnone => ?_⟩
    · cases hfilter.symm.trans h
      exact hdeclared
    · rw [List.filter_eq_nil_iff.mpr fun e he => by simp [hnone e he]] at hfilter
      cases hfilter

theorem conflictLines_isOk_of_declared {best : Enum8 Outcome} (hdeclared : best.isDeclared = true)
    {others : List RuleEval} :
    (∃ lines, conflictLines best others = .ok lines) ↔ ∀ e ∈ others, e.outcome.isDeclared = true := by
  rw [conflictLines_isOk]
  refine forall₂_congr fun e he => ⟨fun h => ?_, fun h _ => h⟩
  by_cases heq : e.outcome = best
  · rw [heq]
    exact hdeclared
  · exact h heq

theorem finding_eq_iff {cand : List CompatibilityRule} {evals : List RuleEval} :
    counterfactualFinding evals = evaluatedFinding cand evals ↔ SameSaid cand evals := by
  unfold counterfactualFinding evaluatedFinding
  cases hfilter : evals.filter (·.conclusive) with
  | nil =>
    have hnone : ∀ e ∈ evals, e.conclusive = false := by
      simpa [List.filter_eq_nil_iff] using hfilter
    simp only [Except.ok.injEq, undecidedFinding, Finding.mk.injEq, true_and, and_true]
    constructor
    · refine fun hid => ⟨fun best others h => ?_, fun _ => hid.symm⟩
      cases hfilter.symm.trans h
    · exact fun hsame => (hsame.unnamed hnone).symm
  | cons best others =>
    rw [sameSaid_iff_of_conclusive hfilter]
    simp only
    cases hname : outcomeName best.outcome with
    | error e =>
      have hundeclared : ¬ best.outcome.isDeclared = true := by
        rw [← outcomeName_isOk, hname]
        rintro ⟨_, h⟩
        cases h
      refine iff_of_true ?_ fun h => absurd h hundeclared
      rw [outcomeName_error hname]
      cases hlines : conflictLines best.outcome others with
      | error e' =>
        rw [conflictLines_error hlines]
        rfl
      | ok lines => rfl
    | ok name =>
      have hdeclared : best.outcome.isDeclared = true := outcomeName_isOk.mp ⟨name, hname⟩
      rw [forall_prop_of_true hdeclared, ← conflictLines_isOk_of_declared hdeclared]
      cases conflictLines best.outcome others with
      | error e => simp
      | ok lines => simp

theorem counterfactualCandidates_eq {s : Registry} (hscope : ∀ id rr, s.rules.lookup id = some rr →
    rr.active = true → rr.rule.scope ≠ ascii "counterfactual") (l r : ProfileRecord) :
    counterfactualCandidates s l r = candidates s (scopeOf false) l r := by
  unfold counterfactualCandidates candidates
  congr 2
  apply List.filter_congr
  intro rr hrr
  obtain ⟨id, hl⟩ := UMap.mem_values_iff.mp hrr
  have hother := hscope id rr hl
  unfold applicable
  cases hactive : rr.active with
  | false => simp
  | true =>
    have hne : (rr.rule.scope == ascii "counterfactual") = false := beq_eq_false_iff_ne.mpr (hother hactive)
    rw [hne, Bool.or_false]
    rfl

/-! ### Equal fingerprints -/

/-- The note of an item repeats its left text. -/
def Echoed (items : List ConstraintItem) : Prop := ∀ i ∈ items, i.note = i.left

/-- Every constraint that a rule notes as satisfied has its left text for a note. -/
theorem evalRule_echoed {l r : Subject} {rule : CompatibilityRule} {e : RuleEval}
    (h : evalRule l r rule = .ok e) : Echoed e.satisfied := by
  have hkept : Kept fun e => Echoed e.satisfied := by
    refine ⟨fun e c v he i hi => ?_, fun _ _ _ _ _ _ _ _ he => he⟩
    rcases List.mem_append.mp hi with hi | hi
    · exact he i hi
    · rw [List.mem_singleton.mp hi]
      rfl
  exact hkept.evalRule h fun _ hi => absurd hi List.not_mem_nil

theorem fingerprint_length {c : Canon} {fingerprint : Bytes}
    (h : canonicalFingerprintHex c = .ok fingerprint) : fingerprint.length = 64 := by
  obtain ⟨digest, -, h⟩ := Result.bind_eq_ok.mp h
  cases h
  exact Sha256.hex_length digest

/-- The item of the short cut is none that a rule notes. -/
theorem counterfactualFinding_ne_exact {l r : Subject} {cand : List CompatibilityRule} {evals : List RuleEval}
    (hevals : cand.mapM (evalRule l r) = .ok evals) {finding : Finding}
    (hfinding : counterfactualFinding evals = .ok finding) {fingerprint : Bytes}
    (hlength : fingerprint.length = 64) (other : Bytes) : finding.satisfied ≠
      [⟨ascii "canonical_fingerprint", fingerprint, other, true, ascii "identical"⟩] := by
  intro hexact
  unfold counterfactualFinding at hfinding
  cases hfilter : evals.filter (·.conclusive) with
  | nil =>
    rw [hfilter] at hfinding
    cases hfinding
    cases hexact
  | cons best others =>
    rw [hfilter] at hfinding
    obtain ⟨name, -, hfinding⟩ := Result.bind_eq_ok.mp hfinding
    cases hfinding
    have hbest : best ∈ evals :=
      (List.mem_filter.mp (hfilter ▸ List.mem_cons_self : best ∈ evals.filter (·.conclusive))).1
    obtain ⟨rule, -, hrule⟩ := Result.mapM_mem_right hevals hbest
    have hechoed := evalRule_echoed hrule
    change best.satisfied = _ at hexact
    rw [hexact] at hechoed
    have hnote := hechoed _ (List.mem_singleton_self _)
    change ascii "identical" = fingerprint at hnote
    rw [← hnote] at hlength
    revert hlength
    decide

/-! ### Edits -/

/-- What the edits keep of a side: it is active, and its fingerprint is one. -/
def Sided (p : ProfileRecord) : Prop := p.active = true ∧ p.fingerprint.length = 64

theorem applyEdit_sided {r : ProfileRecord} {sides sides' : ProfileRecord × ProfileRecord}
    {ed : CounterfactualEdit} (h : applyEdit r sides ed = .ok sides') (h₁ : Sided sides.1)
    (h₂ : Sided sides.2) : Sided sides'.1 ∧ Sided sides'.2 := by
  unfold applyEdit at h
  simp only at h
  split_ifs at h
  · obtain ⟨payload, -, h⟩ := Result.bind_eq_ok.mp h
    obtain ⟨fingerprint, hf, h⟩ := Result.bind_eq_ok.mp h
    cases h
    exact ⟨h₁, h₂.1, fingerprint_length hf⟩
  · cases h
    exact ⟨h₁, h₂⟩
  · obtain ⟨payload, -, h⟩ := Result.bind_eq_ok.mp h
    obtain ⟨fingerprint, hf, h⟩ := Result.bind_eq_ok.mp h
    cases h
    exact ⟨⟨h₁.1, fingerprint_length hf⟩, h₂⟩
  · cases h
    exact ⟨h₁, h₂⟩

theorem foldlM_applyEdit_sided {r : ProfileRecord} {edits : List CounterfactualEdit}
    {sides sides' : ProfileRecord × ProfileRecord} (h : edits.foldlM (applyEdit r) sides = .ok sides')
    (h₁ : Sided sides.1) (h₂ : Sided sides.2) : Sided sides'.1 ∧ Sided sides'.2 := by
  induction edits generalizing sides with
  | nil =>
    cases h
    exact ⟨h₁, h₂⟩
  | cons ed edits ih =>
    rw [List.foldlM_cons] at h
    obtain ⟨next, hnext, h⟩ := Result.bind_eq_ok.mp h
    obtain ⟨hn₁, hn₂⟩ := applyEdit_sided hnext h₁ h₂
    exact ih h hn₁ hn₂

/-! ### Agreement -/

/-- The counterfactual decision says what the evaluation of the edited state says, and
without edits what the evaluation of the state itself says; or both throw the same. -/
structure Agrees (s : Registry) (left right : Uuid) (edits : List CounterfactualEdit)
    (sides : ProfileRecord × ProfileRecord) : Prop where
  edited : Except.map CompatibilityDecision.finding (counterfactualPair left right edits s).1 =
    Except.map CompatibilityDecision.finding (evaluatePair left right (editedState left right sides s)).1
  unedited : edits = [] →
    Except.map CompatibilityDecision.finding (counterfactualPair left right edits s).1 =
      Except.map CompatibilityDecision.finding (evaluatePair left right s).1

/-- The edited fingerprints differ, and the rules say the same without the conflicts and
without the first candidate. -/
structure Faithful (s : Registry) (l r : ProfileRecord) : Prop where
  differ : l.fingerprint ≠ r.fingerprint
  rules : ∀ evals, (candidates s (scopeOf false) l r).mapM (evalRule l.toSubject r.toSubject) = .ok evals →
    SameSaid (candidates s (scopeOf false) l r) evals

/-- The evaluation of two records that are the newest active ones. -/
theorem evaluatePair_of_newest {s t : Registry} {left right : Uuid} {l r : ProfileRecord}
    (hl : t.newestActive left = some l) (hr : t.newestActive right = some r) (hrules : t.rules = s.rules)
    (hgen : t.registryGen = s.registryGen) (hpolicy : t.policyId = s.policyId) :
    (evaluatePair left right t).1 =
      if l.fingerprint = r.fingerprint then exactDecision s l r else ruleDecision s l r false := by
  rw [evaluatePair_fst, evaluateLocked_of_active hl hr]
  simp only [exactDecision, ruleDecision, sealDecision, openDecision, identityRecord, candidates,
    hrules, hgen, hpolicy]

theorem map_finding_exactDecision (s : Registry) (l r : ProfileRecord) :
    Except.map CompatibilityDecision.finding (exactDecision s l r) = .ok {
      outcome := .declared .exact, ruleId := Uuid.zero
      satisfied := [⟨ascii "canonical_fingerprint", l.fingerprint, r.fingerprint, true, ascii "identical"⟩]
      failed := [], adaptations := [], missingEvidence := [] } := by
  obtain ⟨digest, heq⟩ := exactDecision_eq s l r
  rw [heq]
  rfl

theorem edited_eq_iff_faithful {s : Registry} (hscope : ∀ id rr, s.rules.lookup id = some rr →
    rr.active = true → rr.rule.scope ≠ ascii "counterfactual") {left right : Uuid} {l r : ProfileRecord}
    (hl : s.newestActive left = some l) (hr : s.newestActive right = some r)
    {edits : List CounterfactualEdit} {sides : ProfileRecord × ProfileRecord}
    (hedits : edits.foldlM (applyEdit r) (l, r) = .ok sides) (hlength : sides.1.fingerprint.length = 64) :
    Except.map CompatibilityDecision.finding (counterfactualPair left right edits s).1 =
      Except.map CompatibilityDecision.finding (if sides.1.fingerprint = sides.2.fingerprint then
        exactDecision s sides.1 sides.2 else ruleDecision s sides.1 sides.2 false) ↔
      Faithful s sides.1 sides.2 := by
  rw [map_finding_counterfactual hl hr hedits, counterfactualCandidates_eq hscope]
  by_cases hsame : sides.1.fingerprint = sides.2.fingerprint
  · rw [if_pos hsame, map_finding_exactDecision]
    refine iff_of_false (fun heq => ?_) fun hfaithful => hfaithful.differ hsame
    obtain ⟨evals, hevals, hfinding⟩ := Result.bind_eq_ok.mp heq
    exact counterfactualFinding_ne_exact hevals hfinding hlength sides.2.fingerprint rfl
  · rw [if_neg hsame, map_finding_ruleDecision]
    cases hevals : (candidates s (scopeOf false) sides.1 sides.2).mapM
        (evalRule sides.1.toSubject sides.2.toSubject) with
    | error e =>
      refine iff_of_true rfl ⟨hsame, fun evals h => ?_⟩
      rw [hevals] at h
      cases h
    | ok evals =>
      rw [Result.ok_bind, Result.ok_bind, finding_eq_iff]
      constructor
      · intro hsaid
        refine ⟨hsame, fun evals' h => ?_⟩
        rw [hevals] at h
        cases h
        exact hsaid
      · exact fun hfaithful => hfaithful.rules evals hevals

/-- Without active rules of its own scope, the counterfactual decision on two profiles
agrees with the evaluation exactly when it is faithful on the edited records. -/
theorem agrees_iff_faithful {s : Registry} (h : Reachable s) (hscope : ∀ id rr, s.rules.lookup id = some rr →
    rr.active = true → rr.rule.scope ≠ ascii "counterfactual") {left right : Uuid} (hne : left ≠ right)
    {l r : ProfileRecord} (hl : s.newestActive left = some l) (hr : s.newestActive right = some r)
    {edits : List CounterfactualEdit} {sides : ProfileRecord × ProfileRecord}
    (hedits : edits.foldlM (applyEdit r) (l, r) = .ok sides) :
    Agrees s left right edits sides ↔ Faithful s sides.1 sides.2 := by
  have hsided : ∀ {id p}, s.newestActive id = some p → Sided p := by
    intro id p hp
    obtain ⟨hist, hlookup, hfound⟩ := Option.bind_eq_some_iff.mp hp
    refine ⟨(History.newestActive_eq_some hfound).2, ?_⟩
    rw [(h.inv.newestActive hp).fingerprint]
    exact Sha256.hex_length _
  obtain ⟨h₁, h₂⟩ := foldlM_applyEdit_sided hedits (hsided hl) (hsided hr)
  obtain ⟨hleft, hright⟩ := newestActive_editedState hne hl hr h₁.1 h₂.1
  have hevaluated := evaluatePair_of_newest (s := s) hleft hright rfl rfl rfl
  have hiff := edited_eq_iff_faithful hscope hl hr hedits h₁.2
  rw [← hevaluated] at hiff
  constructor
  · exact fun hagrees => hiff.mp hagrees.edited
  · intro hfaithful
    refine ⟨hiff.mpr hfaithful, ?_⟩
    rintro rfl
    rw [hiff.mpr hfaithful, hevaluated, evaluatePair_of_newest hl hr rfl rfl rfl]
    cases hedits
    rfl

/-- Two models of different families, and a rule that requires one family. -/
def familyOps : List Op := [
  .registerProfile (uuidOf 1) (.declared .model) (.record [(4, .str (ascii "llama"))]) [] [],
  .registerProfile (uuidOf 2) (.declared .model)
    (.record [(4, .str (ascii "qwen")), (5, .str (ascii "q4"))]) [] [],
  .registerRule {
    ruleId := uuidOf 3, scope := ascii "pair"
    required := [{ field := ascii "family", rightField := ascii "family" }] }]

def sameFamilyEdits : List CounterfactualEdit := [⟨ascii "family", .str (ascii "llama")⟩]

/-- The rule and nothing else concludes on the sides. -/
def concludesOnce (s : Registry) (sides : ProfileRecord × ProfileRecord) : Bool :=
  sides.1.fingerprint != sides.2.fingerprint &&
    ((candidates s (scopeOf false) sides.1 sides.2).mapM (evalRule sides.1.toSubject sides.2.toSubject)).toOption.any
      fun evals => (evals.map (·.conclusive)) == [true]

theorem faithful_of_concludesOnce {s : Registry} {sides : ProfileRecord × ProfileRecord}
    (h : concludesOnce s sides = true) : Faithful s sides.1 sides.2 := by
  obtain ⟨hdiffer, hrules⟩ := Bool.and_eq_true_iff.mp h
  obtain ⟨evals, hevals, honce⟩ := Result.exists_of_any hrules
  refine ⟨bne_iff_ne.mp hdiffer, fun evals' hevals' => ?_⟩
  obtain rfl := Except.ok.inj (hevals.symm.trans hevals')
  obtain ⟨best, rfl, hbest⟩ := List.map_eq_singleton_iff.mp (beq_iff_eq.mp honce)
  exact (sameSaid_iff_of_conclusive (List.filter_cons_of_pos hbest)).mpr fun _ => List.forall_mem_nil _

/-- The edit of the right family makes the rule conclude as it would on the edited models. -/
theorem agrees_sameFamily : ∃ l r sides, sameFamilyEdits.foldlM (applyEdit r) (l, r) = .ok sides ∧
    sides.2.fingerprint ≠ r.fingerprint ∧
    Agrees (runOps familyOps {}) (uuidOf 1) (uuidOf 2) sameFamilyEdits sides := by
  have hwf : ∀ op ∈ familyOps, op.WF := by
    simp only [familyOps, List.forall_mem_cons, List.not_mem_nil, false_imp_iff, implies_true, and_true]
    refine ⟨?_, ?_, ?_, ?_, ?_, ?_⟩ <;> simp [Op.WF, WF, WFRecord, WFSeq, SortedMap.Sorted, Constraint.WF]
  have hpair : ((runOps familyOps {}).newestActive (uuidOf 1)).any (fun l =>
      ((runOps familyOps {}).newestActive (uuidOf 2)).any fun r =>
        (sameFamilyEdits.foldlM (applyEdit r) (l, r)).toOption.any fun sides =>
          sides.2.fingerprint != r.fingerprint && concludesOnce (runOps familyOps {}) sides) = true := by
    decide +kernel
  have hscopes : ((runOps familyOps {}).rules.values.all fun rr => rr.rule.scope != ascii "counterfactual") = true := by
    decide +kernel
  obtain ⟨l, hl, hright⟩ := (Option.any_eq_true ..).mp hpair
  obtain ⟨r, hr, hedited⟩ := (Option.any_eq_true ..).mp hright
  obtain ⟨sides, hsides, hfacts⟩ := Result.exists_of_any hedited
  obtain ⟨hchanged, honce⟩ := Bool.and_eq_true_iff.mp hfacts
  refine ⟨l, r, sides, hsides, bne_iff_ne.mp hchanged, ?_⟩
  apply (agrees_iff_faithful (runOps_reachable hwf .empty) ?_ (by decide) hl hr hsides).mpr
  · exact faithful_of_concludesOnce honce
  · intro id rr hlookup _
    exact bne_iff_ne.mp (List.all_eq_true.mp hscopes rr (UMap.mem_values_iff.mpr ⟨id, hlookup⟩))

/-- Two profiles of one payload are exactly compatible, and counterfactually not even
without an edit. -/
theorem not_agrees_baseAndUser : Reachable baseAndUser ∧ baseAndUser.rules.values = [] ∧
    ∃ l ∈ baseAndUser.newestActive base, ∃ r ∈ baseAndUser.newestActive user,
      ¬ Agrees baseAndUser base user [] (l, r) := by
  have hrules : baseAndUser.rules.values = [] := by decide +kernel
  have hpair : ∃ l ∈ baseAndUser.newestActive base, ∃ r ∈ baseAndUser.newestActive user,
      l.fingerprint = r.fingerprint ∧ l.fingerprint.length = 64 := by
    decide +kernel
  refine ⟨ProfileCall.baseAndUser_reachable, hrules, ?_⟩
  obtain ⟨l, hl, r, hr, hsame, hlength⟩ := hpair
  refine ⟨l, hl, r, hr, fun hagrees => ?_⟩
  have hequal := hagrees.unedited rfl
  rw [evaluatePair_of_newest hl hr rfl rfl rfl] at hequal
  have hscope : ∀ id rr, baseAndUser.rules.lookup id = some rr → rr.active = true →
      rr.rule.scope ≠ ascii "counterfactual" := by
    intro id rr hlookup
    have hmem := UMap.mem_values_iff.mpr ⟨id, hlookup⟩
    rw [hrules] at hmem
    cases hmem
  have hedits : ([] : List CounterfactualEdit).foldlM (applyEdit r) (l, r) = .ok (l, r) := rfl
  exact ((edited_eq_iff_faithful hscope hl hr hedits hlength).mp hequal).differ hsame

end Registry

end CompatRegistry
