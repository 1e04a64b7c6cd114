import CompatRegistry.Net.Scope
import CompatRegistry.RuleOutcome
import CompatRegistry.RuleReturns

/-! A rule on the way from a client to the registry. The request carries the two
groups of constraints that its encoder writes, without their sets, and neither the kind
of the rule nor its alternatives and conditions. What is missing takes its default. -/

namespace CompatRegistry

open Foundation Canon

/-! ### The request -/

def encConstraintWire (c : Constraint) : Canon :=
  ofEntries [(1, .uint c.op.toUInt64), (2, .str c.field), (3, .str c.rightField), (4, c.expected)]

def wireRuleEntries (source : Bytes) (bootId : Uuid) (sourceGen epoch : UInt64)
    (rule : CompatibilityRule) : Record :=
  [(1, .str source), (2, .uuid bootId), (3, .uint sourceGen), (4, .uuid rule.ruleId),
    (5, .uint rule.generation), (6, .str rule.scope), (7, .str rule.domain),
    (8, .int rule.priority.toInt64), (9, .uint rule.outcome.toUInt64),
    (10, .sequence (rule.required.map encConstraintWire)),
    (11, .sequence (rule.incompatibleWith.map encConstraintWire))] ++
  kindEntry 12 rule.leftKind ++ kindEntry 13 rule.rightKind ++ [(kEpochTag, .uint epoch)]

theorem wireRuleEntries_isChain (source : Bytes) (bootId : Uuid) (sourceGen epoch : UInt64)
    (rule : CompatibilityRule) :
    ((wireRuleEntries source bootId sourceGen epoch rule).map Prod.fst).IsChain (· < ·) := by
  unfold wireRuleEntries
  cases rule.leftKind <;> cases rule.rightKind <;> simp [kindEntry, kEpochTag]

/-- `RegistryClient::register_rule`. -/
def registerRuleRequest (source : Bytes) (bootId : Uuid) (sourceGen epoch : UInt64)
    (rule : CompatibilityRule) : NetMessage where
  type := .declared .registerRule
  payload := ofEntries (wireRuleEntries source bootId sourceGen epoch rule)
    (wireRuleEntries_isChain source bootId sourceGen epoch rule)

/-- The part of a constraint that arrives. -/
def Constraint.wired (c : Constraint) : Constraint where
  op := c.op
  field := c.field
  rightField := c.rightField
  expected := c.expected

/-- The part of a rule that arrives. -/
def CompatibilityRule.wired (rule : CompatibilityRule) : CompatibilityRule where
  ruleId := rule.ruleId
  scope := rule.scope
  domain := rule.domain
  priority := rule.priority
  outcome := rule.outcome
  required := rule.required.map Constraint.wired
  incompatibleWith := rule.incompatibleWith.map Constraint.wired
  leftKind := rule.leftKind
  rightKind := rule.rightKind

theorem decConstraintWire_enc (c : Constraint) : decConstraintWire (encConstraintWire c) = c.wired := by
  unfold decConstraintWire
  rw [castField_of rfl]
  rfl

section Request
variable (source : Bytes) (bootId : Uuid) (sourceGen epoch : UInt64) (rule : CompatibilityRule)

theorem field_request_of_mem {tag : UInt32} {v : Canon}
    (h : (tag, v) ∈ wireRuleEntries source bootId sourceGen epoch rule) :
    (registerRuleRequest source bootId sourceGen epoch rule).payload.field tag = some v :=
  (SortedMap.find_eq_some_iff (List.isChain_iff_pairwise.mp
    (wireRuleEntries_isChain source bootId sourceGen epoch rule))).mpr h

theorem field_request_kinds :
    (registerRuleRequest source bootId sourceGen epoch rule).payload.field 12 =
        rule.leftKind.map (fun k => .uint k.toUInt64) ∧
      (registerRuleRequest source bootId sourceGen epoch rule).payload.field 13 =
        rule.rightKind.map fun k => .uint k.toUInt64 := by
  change SortedMap.find 12 (wireRuleEntries source bootId sourceGen epoch rule) = _ ∧
    SortedMap.find 13 (wireRuleEntries source bootId sourceGen epoch rule) = _
  unfold wireRuleEntries
  cases rule.leftKind <;> cases rule.rightKind <;> exact ⟨rfl, rfl⟩

/-- The handler reads the part of the rule that the encoder writes. -/
theorem wireRule_request :
    Coordinator.wireRule (registerRuleRequest source bootId sourceGen epoch rule) = rule.wired := by
  obtain ⟨hl, hr⟩ := field_request_kinds source bootId sourceGen epoch rule
  have hfield : ∀ {tag v}, (tag, v) ∈ wireRuleEntries source bootId sourceGen epoch rule →
      (registerRuleRequest source bootId sourceGen epoch rule).payload.field tag = some v :=
    field_request_of_mem source bootId sourceGen epoch rule
  have hkinds : ∀ o : Option (Enum8 ProfileKind),
      ((o.map fun k => Canon.uint k.toUInt64).bind uint?).map Enum8.cast = o := by
    intro o
    cases o <;> simp [uint?]
  have hcon : ∀ tag (cs : List Constraint), (tag, Canon.sequence (cs.map encConstraintWire)) ∈
        wireRuleEntries source bootId sourceGen epoch rule →
      (fieldOr seq? (registerRuleRequest source bootId sourceGen epoch rule).payload tag []).map
        decConstraintWire = cs.map Constraint.wired := by
    intro tag cs h
    have hseq : fieldOr seq? (registerRuleRequest source bootId sourceGen epoch rule).payload tag [] =
        cs.map encConstraintWire := fieldOr_of rfl (hfield h)
    rw [hseq, List.map_map]
    exact List.map_congr_left fun c _ => decConstraintWire_enc c
  have hout : castField (registerRuleRequest source bootId sourceGen epoch rule).payload 9
      Outcome.compatible = rule.outcome := castField_of (hfield (by simp [wireRuleEntries]))
  have hprio : (fieldOr int? (registerRuleRequest source bootId sourceGen epoch rule).payload 8 0).toInt32 =
      rule.priority := Int32.toInt32_toInt64 _
  unfold Coordinator.wireRule
  rw [hl, hr, hkinds, hkinds, hout, hcon 10 rule.required (by simp [wireRuleEntries]),
    hcon 11 rule.incompatibleWith (by simp [wireRuleEntries]), hprio]
  rfl

end Request

/-! ### What the missing sets do -/

/-- The operators that read the set of the constraint. -/
def Constraint.BySet (c : Constraint) : Prop := c.op = .declared .inSet ∨ c.op = .declared .archFamily

instance (c : Constraint) : Decidable c.BySet := inferInstanceAs (Decidable (_ ∨ _))

section Wired
variable {l r : Subject} {c : Constraint}

/-- Apart from its set, a constraint arrives with all that its evaluation reads. -/
theorem on_wired (h : ¬ c.BySet) : c.wired.on l r = c.on l r := by
  have hcompare : ∀ op, c.op = .declared op → ∀ lv rhs, c.wired.compare op lv rhs = c.compare op lv rhs := by
    intro op hop lv rhs
    cases op with
    | inSet => exact absurd (.inl hop) h
    | archFamily => exact absurd (.inr hop) h
    | _ => rfl
  have hop : c.wired.op = c.op := rfl
  unfold Constraint.on Constraint.evaluate
  rw [hop]
  cases hc : c.op with
  | undeclared raw hraw => rfl
  | declared op =>
    simp only [hcompare op hc]
    rfl

/-- Without its set such a constraint fails. -/
theorem fails_wired (h : c.BySet) : Fails l r c.wired := by
  have hop : c.wired.op = c.op := rfl
  unfold Fails Constraint.on Constraint.evaluate
  rw [hop]
  have hreads : ∀ {op}, Constraint.readsRight op = false →
      ¬ (c.wired.rightField ≠ [] ∧ Constraint.readsRight op = true) := by
    intro op hno hyes
    rw [hno] at hyes
    exact Bool.false_ne_true hyes.2
  obtain hc | hc := h
  · rw [hc]
    cases resolveProfileField l.kind l.payload c.wired.field with
    | none => exact ⟨.no _, rfl, rfl⟩
    | some lv => exact ⟨.no _, (if_neg (hreads rfl)).trans rfl, rfl⟩
  · rw [hc]
    cases resolveProfileField l.kind l.payload c.wired.field with
    | none => exact ⟨.no _, rfl, rfl⟩
    | some lv => cases lv <;> exact ⟨.no _, (if_neg (hreads rfl)).trans rfl, rfl⟩

theorem known_wired : Known l r c.wired ↔ Known l r c := Iff.rfl

theorem met_wired : Met l r c.wired ↔ Met l r c ∧ ¬ c.BySet := by
  by_cases h : c.BySet
  · exact iff_of_false (fun hmet => (fails_wired h).not_holds hmet.2) fun hmet => hmet.2 h
  · unfold Met Holds
    rw [on_wired h, known_wired]
    exact (and_iff_left h).symm

theorem unmet_wired : Unmet l r c.wired ↔ c.BySet ∨ Unmet l r c := by
  by_cases h : c.BySet
  · exact iff_of_true (fun _ => fails_wired h) (.inl h)
  · unfold Unmet Fails
    rw [on_wired h, known_wired]
    exact (or_iff_right h).symm

/-- A constraint with a set is evaluated without an exception. -/
theorem settled_of_bySet (h : c.BySet) (hc : c.WF) (hl : l.payload.WF) (hr : r.payload.WF) :
    Settled l r c := by
  intro _
  apply (on_isOk hl hr hc).mpr
  unfold Readable Constraint.evaluable
  obtain hop | hop := h
  · rw [hop]
    cases resolveProfileField l.kind l.payload c.field <;> simp [Constraint.readsRight, Constraint.comparable]
  · rw [hop]
    cases resolveProfileField l.kind l.payload c.field <;> simp [Constraint.readsRight, Constraint.comparable]

theorem settled_wired (hc : c.WF) (hl : l.payload.WF) (hr : r.payload.WF) :
    Settled l r c.wired ↔ Settled l r c := by
  by_cases h : c.BySet
  · obtain ⟨v, hv, -⟩ : Fails l r c.wired := fails_wired h
    exact iff_of_true (fun _ => ⟨v, hv⟩) (settled_of_bySet h hc hl hr)
  · unfold Settled
    rw [on_wired h, known_wired]

/-- What is known either holds or fails, unless it throws. -/
theorem Settled.met_or_unmet (h : Settled l r c) : Met l r c ∨ Unmet l r c := by
  by_cases hk : Known l r c
  · obtain ⟨v, hv⟩ := h hk
    cases hh : v.holds with
    | true => exact .inl ⟨hk, v, hv, hh⟩
    | false => exact .inr fun _ => ⟨v, hv, hh⟩
  · exact .inr fun hk' => absurd hk' hk

/-! ### The veto clauses -/

variable (l r) in
/-- The first clause that is known and does not fail holds by its set. -/
def DecidedBySet (cs : List Constraint) : Prop :=
  ∃ p c s, cs = p ++ c :: s ∧ (∀ x ∈ p, Unmet l r x) ∧ Met l r c ∧ c.BySet

theorem DecidedBySet.firstHolds {cs : List Constraint} (h : DecidedBySet l r cs) : FirstHolds l r cs := by
  obtain ⟨p, c, s, heq, hp, hc, -⟩ := h
  exact ⟨p, c, s, heq, hp, hc⟩

theorem firstHolds_wired_or {cs : List Constraint} (h : FirstHolds l r cs) :
    DecidedBySet l r cs ∨ FirstHolds l r (cs.map Constraint.wired) := by
  obtain ⟨p, c, s, rfl, hp, hc⟩ := h
  by_cases hset : c.BySet
  · exact .inl ⟨p, c, s, rfl, hp, hc, hset⟩
  · refine .inr ⟨p.map Constraint.wired, c.wired, s.map Constraint.wired, by simp, ?_, met_wired.mpr ⟨hc, hset⟩⟩
    intro x hx
    obtain ⟨y, hy, rfl⟩ := List.mem_map.mp hx
    exact unmet_wired.mpr (.inr (hp y hy))

/-- The clauses that can still veto are those without a set. -/
theorem firstHolds_wired {cs : List Constraint} :
    FirstHolds l r (cs.map Constraint.wired) ↔ FirstHolds l r (cs.filter fun c => ¬ c.BySet) := by
  induction cs with
  | nil => rfl
  | cons c cs ih =>
    have hmet := met_wired (l := l) (r := r) (c := c)
    have hunmet := unmet_wired (l := l) (r := r) (c := c)
    unfold Met Known at hmet
    unfold Unmet Known at hunmet
    rw [List.map_cons, firstHolds_cons, hmet, hunmet, ih]
    by_cases hset : c.BySet
    · rw [List.filter_cons_of_neg (by simpa using hset)]
      simp [hset]
    · rw [List.filter_cons_of_pos (by simpa using hset), firstHolds_cons]
      simp [hset]

section Clauses
variable (hl : l.payload.WF) (hr : r.payload.WF)
include hl hr

/-- Where nothing is left to veto, a clause with a set may have vetoed. -/
theorem clear_or_decidedBySet {cs : List Constraint} (hcs : ∀ c ∈ cs, c.WF)
    (h : ∀ c ∈ cs, Unmet l r c.wired) : (∀ c ∈ cs, Unmet l r c) ∨ DecidedBySet l r cs := by
  induction cs with
  | nil => exact .inl (List.forall_mem_nil _)
  | cons c cs ih =>
    obtain ⟨hc, hcs⟩ := List.forall_mem_cons.mp hcs
    obtain ⟨hwired, hrest⟩ := List.forall_mem_cons.mp h
    have hdecided : Unmet l r c ∨ Met l r c ∧ c.BySet := by
      obtain hset | hunmet := unmet_wired.mp hwired
      · exact (settled_of_bySet hset hc hl hr).met_or_unmet.symm.imp_right fun hmet => ⟨hmet, hset⟩
      · exact .inl hunmet
    obtain hunmet | ⟨hmet, hset⟩ := hdecided
    · obtain hclear | ⟨p, c', s, rfl, hp, hdecider⟩ := ih hcs hrest
      · exact .inl (List.forall_mem_cons.mpr ⟨hunmet, hclear⟩)
      · exact .inr ⟨c :: p, c', s, rfl, List.forall_mem_cons.mpr ⟨hunmet, hp⟩, hdecider⟩
    · exact .inr ⟨[], c, cs, rfl, List.forall_mem_nil _, hmet, hset⟩

/-- A veto that arrives was one before. -/
theorem firstHolds_of_wired {cs : List Constraint} (hcs : ∀ c ∈ cs, c.WF)
    (h : FirstHolds l r (cs.map Constraint.wired)) : FirstHolds l r cs := by
  obtain ⟨p', c', s', heq, hp, hc⟩ := h
  obtain ⟨p, rest, rfl, rfl, hrest⟩ := List.map_eq_append_iff.mp heq
  obtain ⟨c, s, rfl, rfl, rfl⟩ := List.map_eq_cons_iff.mp hrest
  have hwf : ∀ x ∈ p, x.WF := fun x hx => hcs x (List.mem_append_left _ hx)
  obtain hclear | ⟨q, x, t, rfl, hq, hx, -⟩ := clear_or_decidedBySet hl hr hwf
    fun x hx => hp x.wired (List.mem_map_of_mem hx)
  · exact ⟨p, c, s, rfl, hclear, (met_wired.mp hc).1⟩
  · exact ⟨q, x, t ++ c :: s, by simp, hq, hx⟩

end Clauses

/-! ### The outcome of the rule that arrives -/

/-- Both evaluations return the same outcome, or both throw. -/
def SameOutcome (l r : Subject) (rule rule' : CompatibilityRule) : Prop :=
  ∀ o, (∃ e, evalRule l r rule = .ok e ∧ e.outcome = o) ↔ ∃ e, evalRule l r rule' = .ok e ∧ e.outcome = o

/-- What the pair has to make of the rule. A clause that vetoes by its set needs
another reason for the veto, a requirement with a set has to come to the same end as
when it fails, and else the alternatives and the kind have to give the outcome that
the rule states. -/
structure Carried (l r : Subject) (rule : CompatibilityRule) : Prop where
  veto : DecidedBySet l r rule.incompatibleWith →
    FirstHolds l r (rule.incompatibleWith.filter fun c => ¬ c.BySet) ∨
      (∀ c ∈ rule.incompatibleWith, c.BySet ∨ Unmet l r c) ∧
        (∀ c ∈ rule.required, Met l r c ∧ ¬ c.BySet) ∧ rule.outcome = .declared .incompatible
  required : (∀ c ∈ rule.incompatibleWith, Unmet l r c) → (∀ c ∈ rule.required, Met l r c) →
    (∃ c ∈ rule.required, c.BySet) →
    Concludes l r rule (if ∃ c ∈ rule.incompatibleWith, ¬ Known l r c then .declared .insufficientEvidence
      else .declared .unknown)
  rest : (∀ c ∈ rule.incompatibleWith, Unmet l r c) → (∀ c ∈ rule.required, Met l r c) →
    (∀ c ∈ rule.required, ¬ c.BySet) → Concludes l r rule rule.outcome

/-- A rule that has arrived, stored under some generation. -/
abbrev arrived (rule : CompatibilityRule) (generation : Generation) : CompatibilityRule :=
  { rule.wired with generation }

section Arrived
variable {rule : CompatibilityRule} {generation : Generation}

theorem forall_wired {P : Constraint → Prop} {cs : List Constraint} :
    (∀ c ∈ cs.map Constraint.wired, P c) ↔ ∀ c ∈ cs, P c.wired := List.forall_mem_map

theorem exists_wired {P : Constraint → Prop} {cs : List Constraint} :
    (∃ c ∈ cs.map Constraint.wired, P c) ↔ ∃ c ∈ cs, P c.wired := by
  simp

theorem concludes_arrived {o : Enum8 Outcome} : Concludes l r (arrived rule generation) o ↔ o = rule.outcome := by
  constructor
  · intro h
    cases h with
    | noneHolds hsome => exact absurd rfl hsome
    | noneKnownHolds _ hmissing =>
      obtain ⟨c, hc, -⟩ := hmissing
      cases hc
    | byKind _ kind =>
      cases kind with
      | conditionsMet hkind => cases hkind
      | conditional hkind => cases hkind
      | adaptation hkind => cases hkind
      | explicitIncompat hkind => cases hkind
      | stated => rfl
  · rintro rfl
    have hkind : rule.wired.kind = .declared .equality := rfl
    exact .byKind (.inl rfl) (.stated (by simp [hkind]) (by simp [hkind]) (by simp [hkind]))

/-- The requirements and the evidence for them look the same, except for the sets. -/
theorem missing_arrived :
    (∃ c ∈ (arrived rule generation).incompatibleWith ++ (arrived rule generation).required, ¬ Known l r c) ↔
      ∃ c ∈ rule.incompatibleWith ++ rule.required, ¬ Known l r c := by
  show (∃ c ∈ rule.incompatibleWith.map Constraint.wired ++ rule.required.map Constraint.wired,
    ¬ Known l r c) ↔ _
  rw [← List.map_append, exists_wired]
  rfl

section Agreement
variable (hrule : rule.WF) (hl : l.payload.WF) (hr : r.payload.WF)
include hrule hl hr

/-- A requirement with a set, which was met, is not met any more. -/
theorem evaluates_arrived_of_set (clear : ∀ c ∈ rule.incompatibleWith, Unmet l r c)
    (met : ∀ c ∈ rule.required, Met l r c) (hset : ∃ c ∈ rule.required, c.BySet) :
    Evaluates l r (arrived rule generation) (if ∃ c ∈ rule.incompatibleWith, ¬ Known l r c
      then .declared .insufficientEvidence else .declared .unknown) := by
  obtain ⟨c, hc, hcset⟩ := hset
  have hclear : ∀ c ∈ (arrived rule generation).incompatibleWith, Unmet l r c :=
    forall_wired.mpr fun c hmem => unmet_wired.mpr (.inr (clear c hmem))
  have hsettled : ∀ c ∈ (arrived rule generation).required, Settled l r c :=
    forall_wired.mpr fun c hmem => (settled_wired (hrule.required c hmem) hl hr).mpr (met c hmem).settled
  have hunmet : ∃ c ∈ (arrived rule generation).required, ¬ Met l r c :=
    exists_wired.mpr ⟨c, hc, fun hmet => (met_wired.mp hmet).2 hcset⟩
  have hmissing : (∃ c ∈ (arrived rule generation).incompatibleWith ++ (arrived rule generation).required,
      ¬ Known l r c) ↔ ∃ c ∈ rule.incompatibleWith, ¬ Known l r c := by
    rw [missing_arrived]
    constructor
    · rintro ⟨x, hx, hunknown⟩
      rcases List.mem_append.mp hx with hx | hx
      · exact ⟨x, hx, hunknown⟩
      · exact absurd (met x hx).1 hunknown
    · rintro ⟨x, hx, hunknown⟩
      exact ⟨x, List.mem_append_left _ hx, hunknown⟩
  have heval := evaluates_of_unmet hclear hsettled hunmet
  rwa [if_congr hmissing rfl rfl] at heval

theorem Evaluates.arrives (h : Carried l r rule) {o : Enum8 Outcome} (heval : Evaluates l r rule o) :
    Evaluates l r (arrived rule generation) o := by
  have hclear : (∀ c ∈ rule.incompatibleWith, Unmet l r c) →
      ∀ c ∈ (arrived rule generation).incompatibleWith, Unmet l r c := fun hc =>
    forall_wired.mpr fun c hmem => unmet_wired.mpr (.inr (hc c hmem))
  have hsettled : (∀ c ∈ rule.required, Settled l r c) →
      ∀ c ∈ (arrived rule generation).required, Settled l r c := fun hs =>
    forall_wired.mpr fun c hmem => (settled_wired (hrule.required c hmem) hl hr).mpr (hs c hmem)
  have hunmet : (∃ c ∈ rule.required, ¬ Met l r c) →
      ∃ c ∈ (arrived rule generation).required, ¬ Met l r c := fun ⟨c, hmem, hc⟩ =>
    exists_wired.mpr ⟨c, hmem, fun hmet => hc (met_wired.mp hmet).1⟩
  cases heval with
  | vetoed veto =>
    obtain hset | hwired := firstHolds_wired_or veto
    · obtain hother | ⟨hcl, hmet, hout⟩ := h.veto hset
      · exact .vetoed (firstHolds_wired.mpr hother)
      · rw [← hout]
        exact .concluded (forall_wired.mpr fun c hmem => unmet_wired.mpr (hcl c hmem))
          (forall_wired.mpr fun c hmem => met_wired.mpr (hmet c hmem)) (concludes_arrived.mpr rfl)
    · exact .vetoed hwired
  | short clear settled unmet missing =>
    exact .short (hclear clear) (hsettled settled) (hunmet unmet) (missing_arrived.mpr missing)
  | unmet clear settled unmet known =>
    refine .unmet (hclear clear) (hsettled settled) (hunmet unmet) ?_
    by_contra hmissing
    push Not at hmissing
    obtain ⟨c, hmem, hc⟩ := missing_arrived.mp hmissing
    exact hc (known c hmem)
  | concluded clear met conclusion =>
    have hends : ∀ {o'}, Concludes l r rule o' → o = o' := fun h' =>
      Evaluates.unique (.concluded clear met conclusion) (.concluded clear met h')
    by_cases hset : ∃ c ∈ rule.required, c.BySet
    · rw [hends (h.required clear met hset)]
      exact evaluates_arrived_of_set hrule hl hr clear met hset
    · push Not at hset
      rw [hends (h.rest clear met hset)]
      exact .concluded (hclear clear) (forall_wired.mpr fun c hmem => met_wired.mpr ⟨met c hmem, hset c hmem⟩)
        (concludes_arrived.mpr rfl)

/-- A requirement that is not met on arrival was not met before, or is one with a set. -/
theorem evaluates_of_arrived_unmet (h : Carried l r rule) {o : Enum8 Outcome}
    (heval : Evaluates l r (arrived rule generation) o) (clear : ∀ c ∈ rule.incompatibleWith, Unmet l r c)
    (settled : ∀ c ∈ (arrived rule generation).required, Settled l r c)
    (unmet : ∃ c ∈ (arrived rule generation).required, ¬ Met l r c) : Evaluates l r rule o := by
  by_cases hmet : ∀ c ∈ rule.required, Met l r c
  · have hset : ∃ c ∈ rule.required, c.BySet := by
      obtain ⟨c, hmem, hne⟩ := exists_wired.mp unmet
      exact ⟨c, hmem, by_contra fun hset => hne (met_wired.mpr ⟨hmet c hmem, hset⟩)⟩
    rw [heval.unique (evaluates_arrived_of_set hrule hl hr clear hmet hset)]
    exact .concluded clear hmet (h.required clear hmet hset)
  · push Not at hmet
    have hclear : ∀ c ∈ (arrived rule generation).incompatibleWith, Unmet l r c :=
      forall_wired.mpr fun c hmem => unmet_wired.mpr (.inr (clear c hmem))
    have hsettled : ∀ c ∈ rule.required, Settled l r c := fun c hmem =>
      (settled_wired (hrule.required c hmem) hl hr).mp (forall_wired.mp settled c hmem)
    rw [heval.unique (evaluates_of_unmet hclear settled unmet), if_congr missing_arrived rfl rfl]
    exact evaluates_of_unmet clear hsettled hmet

theorem Evaluates.of_arrived (h : Carried l r rule) {o : Enum8 Outcome}
    (heval : Evaluates l r (arrived rule generation) o) : Evaluates l r rule o := by
  have hclear : (∀ c ∈ (arrived rule generation).incompatibleWith, Unmet l r c) →
      (∀ c ∈ rule.incompatibleWith, Unmet l r c) ∨ DecidedBySet l r rule.incompatibleWith ∧
        (∀ c ∈ rule.required, Met l r c ∧ ¬ c.BySet) ∧ rule.outcome = .declared .incompatible := by
    intro hw
    apply (clear_or_decidedBySet hl hr hrule.incompatibleWith (forall_wired.mp hw)).imp_right
    intro hset
    obtain hother | ⟨-, hend⟩ := h.veto hset
    · exact absurd hw (firstHolds_wired.mpr hother).not_clear
    · exact ⟨hset, hend⟩
  have hnot : (∃ c ∈ (arrived rule generation).required, ¬ Met l r c) →
      ¬ ∀ c ∈ rule.required, Met l r c ∧ ¬ c.BySet := by
    rintro hunmet hmet
    obtain ⟨c, hmem, hne⟩ := exists_wired.mp hunmet
    exact hne (met_wired.mpr (hmet c hmem))
  cases heval with
  | vetoed veto => exact .vetoed (firstHolds_of_wired hl hr hrule.incompatibleWith veto)
  | short clear settled unmet missing =>
    obtain hc | ⟨-, hmet, -⟩ := hclear clear
    · exact evaluates_of_arrived_unmet hrule hl hr h (.short clear settled unmet missing) hc settled unmet
    · exact absurd hmet (hnot unmet)
  | unmet clear settled unmet known =>
    obtain hc | ⟨-, hmet, -⟩ := hclear clear
    · exact evaluates_of_arrived_unmet hrule hl hr h (.unmet clear settled unmet known) hc settled unmet
    · exact absurd hmet (hnot unmet)
  | concluded clear met conclusion =>
    obtain rfl := concludes_arrived.mp conclusion
    have hmet : ∀ c ∈ rule.required, Met l r c ∧ ¬ c.BySet := fun c hmem =>
      met_wired.mp (forall_wired.mp met c hmem)
    obtain hc | ⟨hset, -, hout⟩ := hclear clear
    · exact .concluded hc (fun c hmem => (hmet c hmem).1)
        (h.rest hc (fun c hmem => (hmet c hmem).1) fun c hmem => (hmet c hmem).2)
    · rw [hout]
      exact .vetoed hset.firstHolds

/-- The rule that arrives has the same outcome on the pair exactly when the pair
carries it. -/
theorem sameOutcome_arrived : SameOutcome l r rule (arrived rule generation) ↔ Carried l r rule := by
  unfold SameOutcome
  simp only [evalRule_outcome_iff]
  constructor
  · intro h
    refine ⟨fun hset => ?_, fun clear met hset => ?_, fun clear met hset => ?_⟩
    · have heval := (h _).mp (.vetoed hset.firstHolds)
      cases heval with
      | vetoed veto => exact .inl (firstHolds_wired.mp veto)
      | concluded clear met conclusion =>
        exact .inr ⟨fun c hmem => unmet_wired.mp (forall_wired.mp clear c hmem),
          fun c hmem => met_wired.mp (forall_wired.mp met c hmem), (concludes_arrived.mp conclusion).symm⟩
    · have heval := (h _).mpr (evaluates_arrived_of_set hrule hl hr clear met hset)
      exact heval.conclusion clear met
    · have heval : Evaluates l r (arrived rule generation) rule.outcome :=
        .concluded (forall_wired.mpr fun c hmem => unmet_wired.mpr (.inr (clear c hmem)))
          (forall_wired.mpr fun c hmem => met_wired.mpr ⟨met c hmem, hset c hmem⟩) (concludes_arrived.mpr rfl)
      exact ((h _).mpr heval).conclusion clear met
  · exact fun h o => ⟨fun heval => heval.arrives hrule hl hr h, fun heval => heval.of_arrived hrule hl hr h⟩

end Agreement

end Arrived

/-- Nothing is lost of a rule without alternatives and sets whose kind states its outcome. -/
theorem carried_of_plain {rule : CompatibilityRule} (hany : rule.anyOf = [])
    (hveto : ∀ c ∈ rule.incompatibleWith, ¬ c.BySet) (hrequired : ∀ c ∈ rule.required, ¬ c.BySet)
    (hconditional : rule.kind ≠ .declared .conditional) (hadaptation : rule.kind ≠ .declared .adaptation)
    (hincompat : rule.kind ≠ .declared .explicitIncompat) : Carried l r rule where
  veto := by
    rintro ⟨p, c, s, heq, -, -, hset⟩
    exact absurd hset (hveto c (by rw [heq]; simp))
  required _ _ hset := by
    obtain ⟨c, hmem, hset⟩ := hset
    exact absurd hset (hrequired c hmem)
  rest _ _ _ := .byKind (.inl hany) (.stated hconditional hadaptation hincompat)

end Wired

/-! ### Through the coordinator -/

namespace Coordinator

/-- An admitted request stores a rule that has the outcome of the original on exactly
the pairs that carry it. -/
theorem registerRule_stores_arrived {rule : CompatibilityRule} (hrule : rule.WF) {source : Bytes}
    {bootId : Uuid} {sourceGen epoch : UInt64} {s : Coordinator}
    (hadm : notAdmitted (registerRuleRequest source bootId sourceGen epoch rule) s = none) (seed : Uuid) :
    ∃ rr, (handleRequest seed (registerRuleRequest source bootId sourceGen epoch rule) s).2.registry.rules.lookup
        rule.ruleId = some rr ∧
      ∀ l r : Subject, l.payload.WF → r.payload.WF → (SameOutcome l r rule rr.rule ↔ Carried l r rule) := by
  have hregistry : (handleRequest seed (registerRuleRequest source bootId sourceGen epoch rule) s).2.registry =
      (Registry.registerRule rule.wired s.registry).2 := by
    rw [← wireRule_request source bootId sourceGen epoch rule]
    have hhandler : handleRequest seed (registerRuleRequest source bootId sourceGen epoch rule) s =
        acknowledge (Registry.registerRule _) (registerRuleRequest source bootId sourceGen epoch rule) s := rfl
    rw [hhandler, acknowledge_of_none hadm]
    rfl
  refine ⟨Registry.stored rule.wired s.registry, ?_, fun l r hl hr => sameOutcome_arrived hrule hl hr⟩
  rw [hregistry, Registry.lookup_registerRule]
  exact if_pos rfl

/-- An admitted rule that needs one field of both profiles to be equal. -/
def sameFamilyRule : CompatibilityRule where
  ruleId := uuidOf 3
  kind := .declared .conjunction
  required := [{ field := ascii "family", rightField := ascii "family" }]

theorem registerRule_stores_arrived_sameFamily :
    ∃ rr, (handleRequest (uuidOf 1) (registerRuleRequest (ascii "bench") (uuidOf 9) 1 1 sameFamilyRule)
        (after [(uuidOf 9, deviceSource)] {})).2.registry.rules.lookup (uuidOf 3) = some rr ∧
      ∀ l r : Subject, l.payload.WF → r.payload.WF → SameOutcome l r sameFamilyRule rr.rule := by
  have hrule : sameFamilyRule.WF := by
    constructor <;> simp [sameFamilyRule, Constraint.WF, WF, WFSeq]
  have hadm : notAdmitted (registerRuleRequest (ascii "bench") (uuidOf 9) 1 1 sameFamilyRule)
      (after [(uuidOf 9, deviceSource)] {}) = none := by decide
  obtain ⟨rr, hlook, hsame⟩ := registerRule_stores_arrived hrule hadm (uuidOf 1)
  refine ⟨rr, hlook, fun l r hl hr => (hsame l r hl hr).mpr ?_⟩
  exact carried_of_plain rfl (by decide) (by decide) (by decide) (by decide) (by decide)

/-- A rule that declares every pair incompatible by its kind. -/
def incompatRule : CompatibilityRule where
  ruleId := uuidOf 3
  kind := .declared .explicitIncompat

/-- The kind of a rule is not sent, and without it this rule lets every pair pass. -/
theorem registerRule_not_stores_incompat :
    ∃ rr, (handleRequest (uuidOf 1) (registerRuleRequest (ascii "bench") (uuidOf 9) 1 1 incompatRule)
        (after [(uuidOf 9, deviceSource)] {})).2.registry.rules.lookup (uuidOf 3) = some rr ∧
      ¬ SameOutcome ⟨.declared .model, .null⟩ ⟨.declared .model, .null⟩ incompatRule rr.rule := by
  refine ⟨_, rfl, fun h => ?_⟩
  obtain ⟨e, heval, hout⟩ := (h (.declared .incompatible)).mp ⟨_, rfl, rfl⟩
  obtain rfl := Except.ok.inj heval
  exact absurd hout (by decide)

end Coordinator

end CompatRegistry
