import CompatRegistry.Registry.Interference
import CompatRegistry.Registry.MissingEvidence

/-! Profiles with more fields. What a rule has concluded from the fields that it could read stands
when further fields become known, unless a veto clause that could not be read before now holds. A
decision is revoked by more evidence only in favour of `Incompatible`. -/

namespace CompatRegistry

open Foundation Canon

/-- Every field of the first subject is one of the second, with the same value. -/
structure Subject.Extends (l l' : Subject) : Prop where
  kind : l'.kind = l.kind
  fields : ∀ field v, resolveProfileField l.kind l.payload field = some v →
    resolveProfileField l'.kind l'.payload field = some v

theorem Subject.Extends.refl (l : Subject) : l.Extends l := ⟨rfl, fun _ _ h => h⟩

theorem Subject.Extends.trans {l l' l'' : Subject} (h : l.Extends l') (h' : l'.Extends l'') : l.Extends l'' :=
  ⟨h'.kind.trans h.kind, fun field v hv => h'.fields field v (h.fields field v hv)⟩

section Extends
variable {l l' r r' : Subject} (hl : l.Extends l') (hr : r.Extends r')
include hl hr

/-! ### Constraints -/

theorem Known.extends {c : Constraint} (h : Known l r c) : Known l' r' c := by
  obtain ⟨hleft, hright⟩ := known_iff.mp h
  refine known_iff.mpr ⟨?_, fun hnamed => ?_⟩
  · obtain ⟨v, hv⟩ := Option.ne_none_iff_exists'.mp hleft
    rw [hl.fields _ v hv]
    exact Option.some_ne_none v
  · obtain ⟨v, hv⟩ := Option.ne_none_iff_exists'.mp (hright hnamed)
    rw [hr.fields _ v hv]
    exact Option.some_ne_none v

/-- A constraint that is known is evaluated as before. -/
theorem Known.on_extends {c : Constraint} (h : Known l r c) : c.on l' r' = c.on l r := by
  obtain ⟨hleft, hright⟩ := known_iff.mp h
  obtain ⟨lv, hlv⟩ := Option.ne_none_iff_exists'.mp hleft
  have hlv' := hl.fields _ lv hlv
  unfold Constraint.on Constraint.evaluate
  cases c.op with
  | undeclared raw hraw => rfl
  | declared op =>
    simp only [hlv, hlv']
    by_cases hreads : c.rightField ≠ [] ∧ Constraint.readsRight op = true
    · obtain ⟨rv, hrv⟩ := Option.ne_none_iff_exists'.mp (hright hreads.1)
      simp only [if_pos hreads, hrv, hr.fields _ rv hrv]
    · simp only [if_neg hreads]

theorem Met.extends {c : Constraint} (h : Met l r c) : Met l' r' c := by
  obtain ⟨hknown, hholds⟩ := h
  refine ⟨hknown.extends hl hr, ?_⟩
  unfold Holds
  rw [hknown.on_extends hl hr]
  exact hholds

theorem fails_extends {c : Constraint} (hknown : Known l r c) (h : Fails l r c) : Fails l' r' c := by
  unfold Fails
  rw [hknown.on_extends hl hr]
  exact h

/-- A clause that has ended the evaluation still does, when the evaluation returns. -/
theorem FirstHolds.not_clear_extends {cs : List Constraint} (h : FirstHolds l r cs) :
    ¬ ∀ c ∈ cs, Unmet l' r' c := by
  obtain ⟨p, c, s, rfl, -, hknown, hholds⟩ := h
  obtain ⟨hknown', hholds'⟩ := Met.extends hl hr ⟨hknown, hholds⟩
  intro hclear
  exact (hclear c (by simp) hknown').not_holds hholds'

/-! ### Rules -/

/-- What further fields make of an outcome. -/
inductive Sharpens (rule : CompatibilityRule) (o : Enum8 Outcome) : Enum8 Outcome → Prop
  | stands : Sharpens rule o o
  | vetoed : Sharpens rule o (.declared .incompatible)
  | decided (kind : rule.kind = .declared .conditional) (open_before : o = .declared .conditional) :
      Sharpens rule o rule.outcome

theorem KindYields.sharpens {rule : CompatibilityRule} {o o' : Enum8 Outcome} (h : KindYields l r rule o)
    (h' : KindYields l' r' rule o') : Sharpens rule o o' := by
  cases h with
  | conditionsMet kind met =>
    cases h' with
    | conditionsMet => exact .stands
    | conditional _ _ unmet =>
      obtain ⟨c, hc, hne⟩ := unmet
      exact absurd ((met c hc).extends hl hr) hne
    | adaptation kind' => cases kind.symm.trans kind'
    | explicitIncompat kind' => cases kind.symm.trans kind'
    | stated hc => exact absurd kind hc
  | conditional kind settled unmet =>
    cases h' with
    | conditionsMet => exact .decided kind rfl
    | conditional => exact .stands
    | adaptation kind' => cases kind.symm.trans kind'
    | explicitIncompat kind' => cases kind.symm.trans kind'
    | stated hc => exact absurd kind hc
  | adaptation kind =>
    cases h' with
    | conditionsMet kind' => cases kind.symm.trans kind'
    | conditional kind' => cases kind.symm.trans kind'
    | adaptation => exact .stands
    | explicitIncompat kind' => cases kind.symm.trans kind'
    | stated _ ha => exact absurd kind ha
  | explicitIncompat kind =>
    cases h' with
    | conditionsMet kind' => cases kind.symm.trans kind'
    | conditional kind' => cases kind.symm.trans kind'
    | adaptation kind' => cases kind.symm.trans kind'
    | explicitIncompat => exact .stands
    | stated _ _ hx => exact absurd kind hx
  | stated hc ha hx =>
    cases h' with
    | conditionsMet kind => exact absurd kind hc
    | conditional kind => exact absurd kind hc
    | adaptation kind => exact absurd kind ha
    | explicitIncompat kind => exact absurd kind hx
    | stated => exact .stands

theorem Concludes.sharpens {rule : CompatibilityRule} {o o' : Enum8 Outcome} (h : Concludes l r rule o)
    (h' : Concludes l' r' rule o') (hout : o ≠ .declared .insufficientEvidence) : Sharpens rule o o' := by
  cases h with
  | noneHolds some fail =>
    cases h' with
    | noneHolds => exact .stands
    | noneKnownHolds _ missing =>
      obtain ⟨c, hc, hunknown⟩ := missing
      exact absurd ((fail c hc).1.extends hl hr) hunknown
    | byKind any =>
      refine absurd (fun c hc _ => ?_) (any.resolve_left some).not_clear
      exact fails_extends hl hr (fail c hc).1 (fail c hc).2
  | noneKnownHolds => exact absurd rfl hout
  | byKind any kind =>
    cases h' with
    | noneHolds some fail =>
      exact absurd (fun c hc _ => (fail c hc).2) ((any.resolve_left some).not_clear_extends hl hr)
    | noneKnownHolds fail missing =>
      obtain ⟨c, hc, -⟩ := missing
      have hsome : rule.anyOf ≠ [] := List.ne_nil_of_mem hc
      exact absurd fail ((any.resolve_left hsome).not_clear_extends hl hr)
    | byKind _ kind' => exact kind.sharpens hl hr kind'

/-- An outcome other than `InsufficientEvidence` stands or is vetoed; a `Conditional` one may also
be decided. -/
theorem Evaluates.sharpens {rule : CompatibilityRule} {o o' : Enum8 Outcome} (h : Evaluates l r rule o)
    (h' : Evaluates l' r' rule o') (hout : o ≠ .declared .insufficientEvidence) : Sharpens rule o o' := by
  have hunmet : ∀ c ∈ rule.required, Known l r c → Settled l r c → ¬ Met l r c → ¬ Met l' r' c := by
    intro c _ hknown hsettled hne hmet
    obtain ⟨v, hv⟩ := hsettled hknown
    obtain ⟨-, w, hw, hholds⟩ := hmet
    rw [hknown.on_extends hl hr, hv] at hw
    obtain rfl := Except.ok.inj hw
    exact hne ⟨hknown, v, hv, hholds⟩
  cases h with
  | vetoed veto =>
    cases h' with
    | vetoed => exact .stands
    | short clear => exact absurd clear (veto.not_clear_extends hl hr)
    | unmet clear => exact absurd clear (veto.not_clear_extends hl hr)
    | concluded clear => exact absurd clear (veto.not_clear_extends hl hr)
  | short => exact absurd rfl hout
  | unmet clear settled unmet known =>
    cases h' with
    | vetoed => exact .vetoed
    | short _ _ _ missing =>
      obtain ⟨c, hc, hunknown⟩ := missing
      exact absurd ((known c hc).extends hl hr) hunknown
    | unmet => exact .stands
    | concluded _ met =>
      obtain ⟨c, hc, hne⟩ := unmet
      exact absurd (met c hc) (hunmet c hc (known c (List.mem_append_right _ hc)) (settled c hc) hne)
  | concluded clear met conclusion =>
    cases h' with
    | vetoed => exact .vetoed
    | short _ _ unmet =>
      obtain ⟨c, hc, hne⟩ := unmet
      exact absurd ((met c hc).extends hl hr) hne
    | unmet _ _ unmet =>
      obtain ⟨c, hc, hne⟩ := unmet
      exact absurd ((met c hc).extends hl hr) hne
    | concluded _ _ conclusion' => exact conclusion.sharpens hl hr conclusion' hout

/-- What is unknown stays so or is vetoed. -/
theorem Evaluates.sharpens_unknown {rule : CompatibilityRule} {o : Enum8 Outcome}
    (h : Evaluates l r rule (.declared .unknown)) (h' : Evaluates l' r' rule o) :
    o = .declared .unknown ∨ o = .declared .incompatible := by
  cases h.sharpens hl hr h' (by decide) with
  | stands => exact .inl rfl
  | vetoed => exact .inr rfl
  | decided _ hopen => cases hopen

end Extends

/-! ### Decisions -/

namespace Registry

/-- What rules have made of a pair: the first one that concludes governs, or none does. -/
inductive Ruled (s : Registry) (requirement : Bool) (l r : ProfileRecord) : Enum8 Outcome → Prop
  | governed {rule : CompatibilityRule} {o : Enum8 Outcome} (governs : Governs s requirement l r rule o) :
      Ruled s requirement l r o
  | unread (undecided : Undecided s requirement l r) {rule : CompatibilityRule}
      (mem : rule ∈ candidates s (scopeOf requirement) l r) {c : Constraint} (gate : c ∈ rule.gates)
      (unknown : ¬ Known l.toSubject r.toSubject c) : Ruled s requirement l r (.declared .insufficientEvidence)
  | unknown (undecided : Undecided s requirement l r)
      (known : ∀ rule ∈ candidates s (scopeOf requirement) l r, ∀ c ∈ rule.gates, Known l.toSubject r.toSubject c) :
      Ruled s requirement l r (.declared .unknown)

theorem ruled_of_ruleDecision {s : Registry} {requirement : Bool} {l r : ProfileRecord} {d : CompatibilityDecision}
    (hd : ruleDecision s l r requirement = .ok d) : Ruled s requirement l r d.outcome := by
  cases ruleDecision_decides hd with
  | governed eval governs outcome =>
    rw [outcome]
    exact .governed governs
  | unread undecided mem gate unknown outcome =>
    rw [outcome]
    exact .unread undecided mem gate unknown
  | unknown undecided known outcome =>
    rw [outcome]
    exact .unknown undecided known

/-- Where the same rules apply, a decision other than `InsufficientEvidence` and `Conditional` stands
for profiles with more fields, or it is vetoed. -/
theorem Ruled.sharpens {s s' : Registry} {requirement : Bool} {l r l' r' : ProfileRecord} {o o' : Enum8 Outcome}
    (hl : l.toSubject.Extends l'.toSubject) (hr : r.toSubject.Extends r'.toSubject)
    (hcand : candidates s' (scopeOf requirement) l' r' = candidates s (scopeOf requirement) l r)
    (h : Ruled s requirement l r o) (h' : Ruled s' requirement l' r' o')
    (hout : o ≠ .declared .insufficientEvidence) (hopen : o ≠ .declared .conditional) :
    o' = o ∨ o' = .declared .incompatible := by
  cases h with
  | @governed rule o governs =>
    obtain ⟨before, after, hsplit, hbefore⟩ := governs.first
    have hstands : ∀ {o'}, Evaluates l'.toSubject r'.toSubject rule o' → o' = o ∨ o' = .declared .incompatible := by
      intro o' ho
      cases governs.outcome.sharpens hl hr ho hout with
      | stands => exact .inl rfl
      | vetoed => exact .inr rfl
      | decided _ hconditional => exact absurd hconditional hopen
    have hconcludes : ¬ Evaluates l'.toSubject r'.toSubject rule (.declared .unknown) := by
      intro hunknown
      rcases hstands hunknown with heq | heq
      · exact governs.conclusive heq.symm
      · cases heq
    have hundecided : ¬ Undecided s' requirement l' r' := by
      intro hundecided
      exact hconcludes (hundecided rule (hcand ▸ governs.mem))
    cases h' with
    | @governed rule' _ governs' =>
      obtain ⟨before', after', hsplit', hbefore'⟩ := governs'.first
      -- the rule that now governs is the same, or one in front of it
      obtain ⟨-, heq⟩ | hmem | hmem := Splits.compare (hsplit.symm.trans (hcand.symm.trans hsplit'))
      · subst heq
        exact hstands governs'.outcome
      · exact absurd (hbefore' rule hmem) hconcludes
      · rcases (hbefore rule' hmem).sharpens_unknown hl hr governs'.outcome with heq | heq
        · exact absurd heq governs'.conclusive
        · exact .inr heq
    | unread undecided => exact absurd undecided hundecided
    | unknown undecided => exact absurd undecided hundecided
  | unread => exact absurd rfl hout
  | unknown undecided known =>
    cases h' with
    | @governed rule' _ governs' =>
      have hmem := governs'.mem
      rw [hcand] at hmem
      exact (undecided rule' hmem).sharpens_unknown hl hr governs'.outcome
    | unread _ mem gate unknown =>
      rw [hcand] at mem
      exact absurd ((known _ mem _ gate).extends hl hr) unknown
    | unknown => exact .inl rfl

/-! ### Runs -/

/-- A pair of which the same rules apply to profiles that may have more fields. -/
structure Richer (scope : Bytes) (left right : Uuid) (s t : Registry) : Prop where
  leftExtends : ∀ l, s.newestActive left = some l →
    ∃ l', t.newestActive left = some l' ∧ l.toSubject.Extends l'.toSubject
  rightExtends : ∀ r, s.newestActive right = some r →
    ∃ r', t.newestActive right = some r' ∧ r.toSubject.Extends r'.toSubject
  rules : ∀ l r, s.newestActive left = some l → s.newestActive right = some r → ∀ id rr,
    applicable scope l r rr = true → (t.rules.lookup id = some rr ↔ s.rules.lookup id = some rr)

/-- Whether a rule applies depends on the kinds of the pair. -/
theorem applicable_extends {l l' r r' : ProfileRecord} (hl : l.toSubject.Extends l'.toSubject)
    (hr : r.toSubject.Extends r'.toSubject) (scope : Bytes) (rr : RuleRecord) :
    applicable scope l' r' rr = applicable scope l r rr := by
  have hleft : l'.kind = l.kind := hl.kind
  have hright : r'.kind = r.kind := hr.kind
  unfold applicable
  rw [hleft, hright]

section Richer
variable {scope : Bytes} {left right : Uuid} {s t u : Registry}

theorem Richer.trans (h₁ : Richer scope left right s t) (h₂ : Richer scope left right t u) :
    Richer scope left right s u where
  leftExtends l hl := by
    obtain ⟨l', hl', hext⟩ := h₁.leftExtends l hl
    obtain ⟨l'', hl'', hext'⟩ := h₂.leftExtends l' hl'
    exact ⟨l'', hl'', hext.trans hext'⟩
  rightExtends r hr := by
    obtain ⟨r', hr', hext⟩ := h₁.rightExtends r hr
    obtain ⟨r'', hr'', hext'⟩ := h₂.rightExtends r' hr'
    exact ⟨r'', hr'', hext.trans hext'⟩
  rules l r hl hr id rr happ := by
    obtain ⟨l', hl', hext⟩ := h₁.leftExtends l hl
    obtain ⟨r', hr', hext'⟩ := h₁.rightExtends r hr
    have happ' := (applicable_extends hext hext' scope rr).trans happ
    exact (h₂.rules l' r' hl' hr' id rr happ').trans (h₁.rules l r hl hr id rr happ)

theorem Richer.candidates {requirement : Bool} (h : Richer (scopeOf requirement) left right s t)
    (hs : Inv s) (ht : Inv t)
    {l r l' r' : ProfileRecord} (hl : s.newestActive left = some l) (hr : s.newestActive right = some r)
    (hext : l.toSubject.Extends l'.toSubject) (hext' : r.toSubject.Extends r'.toSubject) :
    candidates t (scopeOf requirement) l' r' = candidates s (scopeOf requirement) l r := by
  have hirrefl : Std.Irrefl RuleBefore := ⟨RuleBefore.irrefl⟩
  have hantisymm : Std.Antisymm RuleBefore := ⟨fun a b hab hba => absurd hba hab.asymm⟩
  have hcand := candidates_sorted hs (scopeOf requirement) l r
  have hcand' := candidates_sorted ht (scopeOf requirement) l' r'
  apply hcand'.sorted.eq_of_mem_iff hcand.sorted
  intro rule
  rw [hcand'.mem, hcand.mem]
  constructor
  · rintro ⟨id, rr, hlook, happ, hrule⟩
    rw [applicable_extends hext hext'] at happ
    exact ⟨id, rr, (h.rules l r hl hr id rr happ).mp hlook, happ, hrule⟩
  · rintro ⟨id, rr, hlook, happ, hrule⟩
    refine ⟨id, rr, (h.rules l r hl hr id rr happ).mpr hlook, ?_, hrule⟩
    rwa [applicable_extends hext hext']

end Richer

/-- The call publishes a record in force that has every field of the newest one. -/
structure ProfileCall.Adds (c : ProfileCall) (s : Registry) : Prop where
  active : c.active = true
  extends_newest : ∀ p, s.newestActive c.id = some p → p.toSubject.Extends ⟨c.kind, c.payload⟩

/-- The two models without a weight format, which a rule without constraints makes compatible. -/
theorem weightFormat_compatible : ∃ l r d, Reachable (runOps (weightFormatOps fun _ => {}) {}) ∧
    Differ (runOps (weightFormatOps fun _ => {}) {}) (uuidOf 1) (uuidOf 2) l r ∧
    l.kind = .declared .model ∧ l.payload.asRecord = [] ∧
    (evaluateWith false (uuidOf 1) (uuidOf 2) (runOps (weightFormatOps fun _ => {}) {})).1 = .ok d ∧
    d.outcome = .declared .compatible := by
  have hreach : Reachable (runOps (weightFormatOps fun _ => {}) {}) := by
    apply weightFormatOps_reachable
    constructor <;> simp
  generalize hs : runOps (weightFormatOps fun _ => {}) {} = s at hreach
  have hstart : (s.newestActive (uuidOf 1)).any (fun l =>
      decide (l.kind = .declared .model) && l.payload.asRecord.isEmpty &&
        (s.newestActive (uuidOf 2)).any fun r => l.fingerprint != r.fingerprint) = true := by
    rw [← hs]
    decide +kernel
  have hdecided : (evaluateWith false (uuidOf 1) (uuidOf 2) s).1.toOption.any
      (fun d => decide (d.outcome = .declared .compatible)) = true := by
    rw [← hs]
    decide +kernel
  obtain ⟨l, hl, hfacts⟩ := (Option.any_eq_true ..).mp hstart
  simp only [Bool.and_eq_true, decide_eq_true_eq, List.isEmpty_iff] at hfacts
  obtain ⟨⟨hmodel, hempty⟩, hright⟩ := hfacts
  obtain ⟨r, hr, hne⟩ := (Option.any_eq_true ..).mp hright
  obtain ⟨d, hd, hcompatible⟩ := Result.exists_of_any hdecided
  exact ⟨l, r, d, hreach, ⟨hl, hr, by simpa using hne⟩, hmodel, hempty, hd, of_decide_eq_true hcompatible⟩

end Registry

end CompatRegistry
