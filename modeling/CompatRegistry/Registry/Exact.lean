import CompatRegistry.Registry.PairSpec

/-! When a pair is `Exact`. The short cut compares fingerprints, which cover the
payload and not the kind, and a rule that states `Exact` and passes gives it to
two different payloads. -/

namespace CompatRegistry

open Foundation Canon

namespace Registry

/-- The two newest active records, where there are both. -/
def NewestPair (s : Registry) (left right : Uuid) (l r : ProfileRecord) : Prop :=
  s.newestActive left = some l ∧ s.newestActive right = some r

/-- Equal digests of the two payloads come from equal encodings. -/
def NoCollision (s : Registry) (left right : Uuid) : Prop :=
  ∀ l r, NewestPair s left right l r → ∀ bl br, canonicalEncode l.payload = .ok bl →
    canonicalEncode r.payload = .ok br → Sha256.compute bl = Sha256.compute br → bl = br

theorem fingerprint_eq_iff {s : Registry} (h : Inv s) {left right : Uuid} (hcoll : NoCollision s left right)
    {l r : ProfileRecord} (hlr : NewestPair s left right l r) :
    l.fingerprint = r.fingerprint ↔ canonicalEncode l.payload = canonicalEncode r.payload := by
  have hl := h.newestActive hlr.1
  have hr := h.newestActive hlr.2
  have hel := canonicalEncode_of_wf hl.wf
  have her := canonicalEncode_of_wf hr.wf
  rw [hl.fingerprint, hr.fingerprint, Sha256.hex_injective.eq_iff, hel, her, Except.ok.injEq]
  exact ⟨hcoll l r hlr _ _ hel her, congrArg Sha256.compute⟩

/-- An applicable rule of the pair. -/
def Applies (s : Registry) (l r : ProfileRecord) (rule : CompatibilityRule) : Prop :=
  ∃ id rr, s.rules.lookup id = some rr ∧ applicable (ascii "pair") l r rr = true ∧ rr.rule = rule

/-- The rule passes, states `Exact` and is no adaptation. -/
structure GrantsExact (l r : ProfileRecord) (rule : CompatibilityRule) : Prop where
  affirms : Affirms l.toSubject r.toSubject rule
  kind : rule.kind ≠ .declared .adaptation
  outcome : rule.outcome = .declared .exact

/-- The evaluation of the pair returns, and the first of its conclusive rules grants `Exact`. -/
def RuledExact (s : Registry) (left right : Uuid) (l r : ProfileRecord) : Prop :=
  ApplicableEvaluate s left right ∧ ∃ rule, Applies s l r rule ∧ GrantsExact l r rule ∧
    ∀ earlier, Applies s l r earlier → RuleBefore earlier rule →
      ∀ e, evalRule l.toSubject r.toSubject earlier = .ok e → e.conclusive = false

theorem grantsExact_iff {l r : ProfileRecord} {rule : CompatibilityRule} :
    GrantsExact l r rule ↔ ∃ e, evalRule l.toSubject r.toSubject rule = .ok e ∧
      e.conclusive = true ∧ e.outcome = .declared .exact := by
  have hconclusive : ∀ e : RuleEval, e.outcome = .declared .exact →
      (e.conclusive = true ↔ e.definite = true) := by
    intro e he
    unfold RuleEval.conclusive
    simp [he]
  constructor
  · rintro ⟨haff, hkind, hout⟩
    obtain ⟨e, h, hdef, hexact⟩ := (evalRule_exact_iff rule).mpr ⟨haff, hkind, hout⟩
    exact ⟨e, h, (hconclusive e hexact).mpr hdef, hexact⟩
  · rintro ⟨e, h, hcon, hexact⟩
    obtain ⟨haff, hkind, hout⟩ :=
      (evalRule_exact_iff rule).mp ⟨e, h, (hconclusive e hexact).mp hcon, hexact⟩
    exact ⟨haff, hkind, hout⟩

/-- The position of the first conclusive evaluation among sorted candidates. -/
theorem best_first {l r : ProfileRecord} {cand : List CompatibilityRule} {before after : List RuleEval}
    {best : RuleEval} (hsorted : cand.Pairwise RuleBefore)
    (heval : List.Forall₂ (fun rule e => evalRule l.toSubject r.toSubject rule = .ok e ∧ e.rule = rule)
      cand (before ++ best :: after)) :
    best.rule ∈ cand ∧ evalRule l.toSubject r.toSubject best.rule = .ok best ∧
    ∀ rule ∈ cand, rule ≠ best.rule → (RuleBefore rule best.rule ∧
      ∃ e ∈ before, evalRule l.toSubject r.toSubject rule = .ok e) ∨ RuleBefore best.rule rule := by
  obtain ⟨cb, rule, ca, rfl, hcb, ⟨hbest, hrule⟩, -⟩ := Result.forall₂_split_right heval
  subst hrule
  obtain ⟨-, htail, hcross⟩ := List.pairwise_append.mp hsorted
  refine ⟨by simp, hbest, fun rule hmem hne => ?_⟩
  rcases List.mem_append.mp hmem with hmem | hmem
  · obtain ⟨e, he, heq, -⟩ := Result.forall₂_mem_left hcb hmem
    exact .inl ⟨hcross rule hmem _ List.mem_cons_self, e, he, heq⟩
  · rcases List.mem_cons.mp hmem with rfl | hmem
    · exact absurd rfl hne
    · exact .inr ((List.pairwise_cons.mp htail).1 rule hmem)

/-- With different payloads the decision is resolved from the rules. -/
theorem evaluatePair_byRules {s : Registry} (h : Inv s) {left right : Uuid} {l r : ProfileRecord}
    (hlr : NewestPair s left right l r) (hf : l.fingerprint ≠ r.fingerprint) {d : CompatibilityDecision}
    (hd : (evaluatePair left right s).1 = .ok d) :
    ∃ cand evals, SortedCandidates s (ascii "pair") l r cand ∧
      List.Forall₂ (fun rule e => evalRule l.toSubject r.toSubject rule = .ok e ∧ e.rule = rule)
        cand evals ∧ Resolution cand evals d := by
  rw [evaluatePair_fst] at hd
  cases evaluateLocked_spec h hd with
  | absent missing outcome => simp [hlr.1, hlr.2] at missing
  | identical l' r' hl hr same outcome =>
    rw [hlr.1, Option.some.injEq] at hl
    rw [hlr.2, Option.some.injEq] at hr
    subst hl hr
    exact absurd same hf
  | byRules l' r' cand evals hl hr differ candidates evaluated resolution =>
    rw [hlr.1, Option.some.injEq] at hl
    rw [hlr.2, Option.some.injEq] at hr
    subst hl hr
    exact ⟨cand, evals, candidates, evaluated, resolution⟩

theorem ruledExact_of_exact {s : Registry} (h : Inv s) {left right : Uuid} {l r : ProfileRecord}
    (hlr : NewestPair s left right l r) (hf : l.fingerprint ≠ r.fingerprint) {d : CompatibilityDecision}
    (hd : (evaluatePair left right s).1 = .ok d) (hexact : d.outcome = .declared .exact) :
    RuledExact s left right l r := by
  obtain ⟨cand, evals, hcand, heval, hres⟩ := evaluatePair_byRules h hlr hf hd
  refine ⟨evaluatePair_isOk.mp ⟨d, hd⟩, ?_⟩
  cases hres with
  | undecided inconclusive named outcome =>
    rw [hexact] at outcome
    split at outcome <;> simp at outcome
  | concluded before best after conflicts split inconclusive conclusive outcome =>
    subst split
    obtain ⟨hmem, hbest, hothers⟩ := best_first hcand.sorted heval
    refine ⟨best.rule, (hcand.mem _).mp hmem,
      grantsExact_iff.mpr ⟨best, hbest, conclusive, outcome ▸ hexact⟩, ?_⟩
    intro earlier happ hbefore e he
    have hne : earlier ≠ best.rule := fun heq => RuleBefore.irrefl _ (heq ▸ hbefore)
    rcases hothers earlier ((hcand.mem _).mpr happ) hne with ⟨-, e', he', heq⟩ | hafter
    · rw [he, Except.ok.injEq] at heq
      exact heq ▸ inconclusive e' he'
    · exact absurd hbefore hafter.asymm

theorem exact_of_ruledExact {s : Registry} (h : Inv s) {left right : Uuid} {l r : ProfileRecord}
    (hlr : NewestPair s left right l r) (hf : l.fingerprint ≠ r.fingerprint)
    (hruled : RuledExact s left right l r) :
    ∃ d, (evaluatePair left right s).1 = .ok d ∧ d.outcome = .declared .exact := by
  obtain ⟨heach, rule, happ, hgrants, hearlier⟩ := hruled
  obtain ⟨d, hd⟩ := evaluatePair_isOk.mpr heach
  refine ⟨d, hd, ?_⟩
  obtain ⟨cand, evals, hcand, heval, hres⟩ := evaluatePair_byRules h hlr hf hd
  obtain ⟨e, he, hcon, hexact⟩ := grantsExact_iff.mp hgrants
  have hmem := (hcand.mem rule).mpr happ
  cases hres with
  | undecided inconclusive named outcome =>
    obtain ⟨e', he', heq, -⟩ := Result.forall₂_mem_left heval hmem
    rw [he, Except.ok.injEq] at heq
    rw [heq, inconclusive e' he'] at hcon
    cases hcon
  | concluded before best after conflicts split inconclusive conclusive outcome =>
    subst split
    obtain ⟨hbmem, hbest, hothers⟩ := best_first hcand.sorted heval
    -- the rule is the first conclusive one itself
    have hsame : rule = best.rule := by
      by_contra hne
      rcases hothers rule hmem hne with ⟨-, e', he', heq⟩ | hafter
      · rw [he, Except.ok.injEq] at heq
        rw [heq, inconclusive e' he'] at hcon
        cases hcon
      · have := hearlier best.rule ((hcand.mem _).mp hbmem) hafter best hbest
        rw [conclusive] at this
        cases this
    rw [hsame, hbest, Except.ok.injEq] at he
    rw [outcome, he, hexact]

/-- With different payloads the outcome is `Exact` exactly when a rule says so. -/
theorem exact_by_rules_iff {s : Registry} (h : Inv s) {left right : Uuid} {l r : ProfileRecord}
    (hlr : NewestPair s left right l r) (hf : l.fingerprint ≠ r.fingerprint) :
    (∃ d, (evaluatePair left right s).1 = .ok d ∧ d.outcome = .declared .exact) ↔
      RuledExact s left right l r := by
  constructor
  · rintro ⟨d, hd, hexact⟩
    exact ruledExact_of_exact h hlr hf hd hexact
  · exact exact_of_ruledExact h hlr hf

/-- `Exact` means two active records of one kind with canonically identical payloads. -/
def ExactMeansSame (s : Registry) (left right : Uuid) : Prop :=
  (∃ d, (evaluatePair left right s).1 = .ok d ∧ d.outcome = .declared .exact) ↔
    ∃ l r, NewestPair s left right l r ∧ l.kind = r.kind ∧
      canonicalEncode l.payload = canonicalEncode r.payload

/-- Without two active records the outcome is not `Exact`. -/
theorem not_exact_of_absent {s : Registry} (h : Inv s) {left right : Uuid}
    (hnone : ∀ l r, ¬ NewestPair s left right l r) :
    ¬ ∃ d, (evaluatePair left right s).1 = .ok d ∧ d.outcome = .declared .exact := by
  rintro ⟨d, hd, hexact⟩
  rw [evaluatePair_fst] at hd
  cases evaluateLocked_spec h hd with
  | absent missing outcome =>
    rw [hexact] at outcome
    simp at outcome
  | identical l r hl hr same outcome => exact hnone l r ⟨hl, hr⟩
  | byRules l r cand evals hl hr differ candidates evaluated resolution => exact hnone l r ⟨hl, hr⟩

/-- The short cut. -/
theorem exact_of_fingerprint {s : Registry} {left right : Uuid} {l r : ProfileRecord}
    (hlr : NewestPair s left right l r) (hf : l.fingerprint = r.fingerprint) :
    ∃ d, (evaluatePair left right s).1 = .ok d ∧ d.outcome = .declared .exact := by
  obtain ⟨digest, heq⟩ := exactDecision_eq s l r
  rw [evaluatePair_fst, evaluateLocked_of_active hlr.1 hlr.2, if_pos hf, heq]
  exact ⟨_, rfl, rfl⟩

/-- In a reachable state `Exact` means the same kind and payload exactly when equal
payloads are of one kind and no rule grants `Exact` to different ones. -/
theorem exactMeansSame_iff {s : Registry} (h : Reachable s) {left right : Uuid}
    (hcoll : NoCollision s left right) :
    ExactMeansSame s left right ↔ ∀ l r, NewestPair s left right l r →
      (canonicalEncode l.payload = canonicalEncode r.payload → l.kind = r.kind) ∧
      (canonicalEncode l.payload ≠ canonicalEncode r.payload → ¬ RuledExact s left right l r) := by
  by_cases hpair : ∃ l r, NewestPair s left right l r
  · obtain ⟨l, r, hlr⟩ := hpair
    have hunique : ∀ {P : ProfileRecord → ProfileRecord → Prop},
        (∀ l' r', NewestPair s left right l' r' → P l' r') ↔ P l r := by
      intro P
      refine ⟨fun hP => hP l r hlr, fun hP l' r' hlr' => ?_⟩
      obtain rfl : l = l' := Option.some.inj (hlr.1.symm.trans hlr'.1)
      obtain rfl : r = r' := Option.some.inj (hlr.2.symm.trans hlr'.2)
      exact hP
    have hsame : (∃ l' r', NewestPair s left right l' r' ∧ l'.kind = r'.kind ∧
        canonicalEncode l'.payload = canonicalEncode r'.payload) ↔
        l.kind = r.kind ∧ canonicalEncode l.payload = canonicalEncode r.payload := by
      constructor
      · rintro ⟨l', r', hlr', hboth⟩
        obtain rfl : l = l' := Option.some.inj (hlr.1.symm.trans hlr'.1)
        obtain rfl : r = r' := Option.some.inj (hlr.2.symm.trans hlr'.2)
        exact hboth
      · intro hboth
        exact ⟨l, r, hlr, hboth⟩
    rw [hunique, ExactMeansSame, hsame]
    have hfp := fingerprint_eq_iff h.inv hcoll hlr
    by_cases henc : canonicalEncode l.payload = canonicalEncode r.payload
    · have hexact := exact_of_fingerprint hlr (hfp.mpr henc)
      simp only [hexact, henc, true_iff, and_true, ne_eq, not_true_eq_false, false_imp_iff, true_imp_iff]
    · have hrules := exact_by_rules_iff h.inv hlr (mt hfp.mp henc)
      simp only [hrules, henc, and_false, iff_false, false_imp_iff, ne_eq, not_false_eq_true,
        true_imp_iff, true_and]
  · have hnone : ∀ l r, ¬ NewestPair s left right l r := fun l r hlr => hpair ⟨l, r, hlr⟩
    have hnot := not_exact_of_absent h.inv hnone
    have hleft : ExactMeansSame s left right :=
      ⟨fun hd => absurd hd hnot, fun ⟨l, r, hlr, _⟩ => absurd hlr (hnone l r)⟩
    exact ⟨fun _ l r hlr => absurd hlr (hnone l r), fun _ => hleft⟩

/-- Two profiles with the empty record as their payload. -/
def twinOps (kind : ProfileKind) : List Op := [
  .registerProfile (uuidOf 1) (.declared .model) (.record []) [] [],
  .registerProfile (uuidOf 2) (.declared kind) (.record []) [] []]

theorem twinOps_reachable (kind : ProfileKind) : Reachable (runOps (twinOps kind) {}) := by
  refine runOps_reachable ?_ Reachable.empty
  simp [twinOps, Op.WF, WF, WFRecord, SortedMap.Sorted]

theorem twin_encoding {s : Registry} {left right : Uuid}
    (hs : (s.newestActive left).map (fun p => canonicalEncode p.payload) =
      (s.newestActive right).map fun p => canonicalEncode p.payload) {l r : ProfileRecord}
    (hlr : NewestPair s left right l r) : canonicalEncode l.payload = canonicalEncode r.payload := by
  rw [hlr.1, hlr.2] at hs
  exact Option.some.inj hs

theorem NoCollision.of_twin {s : Registry} {left right : Uuid}
    (hs : (s.newestActive left).map (fun p => canonicalEncode p.payload) =
      (s.newestActive right).map fun p => canonicalEncode p.payload) : NoCollision s left right := by
  intro l r hlr bl br hl hr _
  rw [twin_encoding hs hlr, hr, Except.ok.injEq] at hl
  exact hl.symm

theorem exactMeansSame_twin : ExactMeansSame (runOps (twinOps .model) {}) (uuidOf 1) (uuidOf 2) := by
  have henc : ((runOps (twinOps .model) {}).newestActive (uuidOf 1)).map (fun p => canonicalEncode p.payload) =
      ((runOps (twinOps .model) {}).newestActive (uuidOf 2)).map fun p => canonicalEncode p.payload := by
    decide +kernel
  apply (exactMeansSame_iff (twinOps_reachable .model) (NoCollision.of_twin henc)).mpr
  intro l r hlr
  have hkind : ((runOps (twinOps .model) {}).newestActive (uuidOf 1)).map (fun p => p.kind) =
      ((runOps (twinOps .model) {}).newestActive (uuidOf 2)).map fun p => p.kind := by
    decide +kernel
  rw [hlr.1, hlr.2] at hkind
  exact ⟨fun _ => Option.some.inj hkind, fun hne => absurd (twin_encoding henc hlr) hne⟩

/-- A model and a tokenizer with the same payload are `Exact`. -/
theorem not_exactMeansSame_kinds :
    Reachable (runOps (twinOps .tokenizer) {}) ∧
    NoCollision (runOps (twinOps .tokenizer) {}) (uuidOf 1) (uuidOf 2) ∧
    ¬ ExactMeansSame (runOps (twinOps .tokenizer) {}) (uuidOf 1) (uuidOf 2) := by
  have henc : ((runOps (twinOps .tokenizer) {}).newestActive (uuidOf 1)).map
        (fun p => canonicalEncode p.payload) =
      ((runOps (twinOps .tokenizer) {}).newestActive (uuidOf 2)).map
        fun p => canonicalEncode p.payload := by
    decide +kernel
  refine ⟨twinOps_reachable .tokenizer, NoCollision.of_twin henc, fun h => ?_⟩
  have hexact : (evaluatePair (uuidOf 1) (uuidOf 2) (runOps (twinOps .tokenizer) {})).1.map (·.outcome) =
      .ok (.declared .exact) := by
    decide +kernel
  have hreturns : ∃ d, (evaluatePair (uuidOf 1) (uuidOf 2) (runOps (twinOps .tokenizer) {})).1 = .ok d ∧
      d.outcome = .declared .exact := by
    cases hd : (evaluatePair (uuidOf 1) (uuidOf 2) (runOps (twinOps .tokenizer) {})).1 with
    | error e =>
      rw [hd] at hexact
      cases hexact
    | ok d =>
      rw [hd] at hexact
      exact ⟨d, rfl, Except.ok.inj hexact⟩
  obtain ⟨l, r, ⟨hl, hr⟩, hkind, -⟩ := h.mp hreturns
  have hne : ((runOps (twinOps .tokenizer) {}).newestActive (uuidOf 1)).map (fun p => p.kind) ≠
      ((runOps (twinOps .tokenizer) {}).newestActive (uuidOf 2)).map fun p => p.kind := by
    decide +kernel
  rw [hl, hr] at hne
  exact hne (congrArg some hkind)

end Registry

end CompatRegistry
