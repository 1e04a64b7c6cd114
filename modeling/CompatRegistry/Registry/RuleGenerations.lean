import CompatRegistry.Registry.Footprint

/-! The generations under which the rules of one id are stored over the life of a
registry. An assigned generation follows on the record in place if that record is
active, and on a counter of the whole registry if it is not; the counter runs behind the
records that were superseded, and starts at zero again when a snapshot is recovered. -/

namespace CompatRegistry

open Foundation Canon

namespace Registry

/-! ### Stored rules -/

/-- A rule as it is stored, and whether its generation was assigned. -/
structure StoredRule where
  rule : CompatibilityRule
  assigned : Bool

/-- The rule that an operation stores. -/
def Op.storedRule : Op → Registry → Option StoredRule
  | .registerRule rule, s =>
    some ⟨{ rule with generation := assignedGeneration rule s }, rule.generation = 0⟩
  | .supersedeRule id rule, s => (s.rules.lookup id).map fun rr =>
    ⟨{ rule with ruleId := id, generation := rr.rule.generation + 1 }, true⟩
  | _, _ => none

/-- The rule in place under an id, active or not. -/
def ruleAt (s : Registry) (id : Uuid) : Option CompatibilityRule := (s.rules.lookup id).map RuleRecord.rule

theorem ruleAt_eq_some {s : Registry} {id : Uuid} {rule : CompatibilityRule} :
    s.ruleAt id = some rule ↔ ∃ rr, s.rules.lookup id = some rr ∧ rr.rule = rule :=
  Option.map_eq_some_iff

/-- An operation puts the rule that it stores in place, and no other. -/
theorem Op.run_ruleAt (op : Op) (s : Registry) (id : Uuid) : (op.run s).ruleAt id =
    match op.storedRule s with
    | some r => if id = r.rule.ruleId then some r.rule else s.ruleAt id
    | none => s.ruleAt id := by
  have hinsert : ∀ (rr : RuleRecord) (k : Uuid), ((s.rules.insert k rr).lookup id).map RuleRecord.rule =
      if id = k then some rr.rule else s.ruleAt id := by
    intro rr k
    rw [UMap.lookup_insert_ite]
    split_ifs <;> rfl
  have hprofile : ∀ {pc}, op.profileCall = some pc → (op.run s).ruleAt id = s.ruleAt id := by
    intro pc hpc
    unfold ruleAt
    rw [(rulebook_of_profileCall hpc s).1]
  cases op with
  | registerProfile genseed kind payload deps provenance => exact hprofile rfl
  | registerRecord p => exact hprofile rfl
  | supersedeProfile kind id payload deps provenance => exact hprofile rfl
  | invalidateProfile id' reason =>
    obtain ⟨p, i, heq⟩ := invalidateWith_eq id' reason s
    simp only [run, storedRule, Registry.invalidateProfile, heq]
    cases s.profiles.lookup id' <;> rfl
  | propagateInvalidation id' =>
    obtain ⟨p, i, heq⟩ := propagateLoop_eq s.reverse [id'] [] s
    simp only [run, storedRule, Registry.propagateInvalidation, heq]
    rfl
  | registerRule rule => exact hinsert _ rule.ruleId
  | supersedeRule id' rule =>
    simp only [run, storedRule, Registry.supersedeRule]
    cases s.rules.lookup id' with
    | none => rfl
    | some rr => exact hinsert _ id'
  | disableRule id' =>
    simp only [run, storedRule, Registry.disableRule]
    cases hl : s.rules.lookup id' with
    | none => rfl
    | some rr =>
      refine (hinsert _ id').trans ?_
      split_ifs with hid
      · rw [hid, ruleAt, hl]
        rfl
      · rfl
  | registerEvidence ev => rfl
  | setPolicy policy => rfl
  | evaluatePair left right =>
    simp only [run, storedRule, Registry.evaluatePair, evaluateWith]
    cases evaluateLocked s left right false <;> rfl
  | evaluateRequirement candidate requirement =>
    simp only [run, storedRule, Registry.evaluateRequirement, evaluateWith]
    cases evaluateLocked s candidate requirement true <;> rfl

/-! ### Lives -/

inductive Event where
  | call (op : Op)
  | saved (bytes : Bytes)
  | recovered (t : Registry)

namespace Event

def storedRule : Event → Registry → Option StoredRule
  | .call op, s => op.storedRule s
  | _, _ => none

/-- An explicit generation is not behind the rule that it replaces, and no rule is lost
or falls back when a snapshot is recovered. -/
def Keeps : Event → Registry → Prop
  | .call (.registerRule rule), s => rule.generation ≠ 0 →
    ∀ rr, s.rules.lookup rule.ruleId = some rr → rr.rule.generation ≤ rule.generation
  | .recovered t, s => ∀ id rr, s.rules.lookup id = some rr →
    ∃ rr', t.rules.lookup id = some rr' ∧ rr.rule.generation ≤ rr'.rule.generation
  | _, _ => True

/-- The counter that an assigned generation follows on is not at its end, and where it is
the counter of the registry, it is not behind the disabled rule in place. -/
def Follows : Event → Registry → Prop
  | .call (.registerRule rule), s => rule.generation = 0 → ∀ rr, s.rules.lookup rule.ruleId = some rr →
    if rr.active then rr.rule.generation.toNat + 1 < 2 ^ 64
    else rr.rule.generation ≤ s.ruleGen ∧ s.ruleGen.toNat + 1 < 2 ^ 64
  | .call (.supersedeRule id _), s => ∀ rr, s.rules.lookup id = some rr →
    rr.rule.generation.toNat + 1 < 2 ^ 64
  | _, _ => True

end Event

/-- A life of a registry: calls, snapshots, and recoveries of any snapshot that was
taken before, each with the state that it met. -/
inductive Life : List (Registry × Event) → Registry → Prop
  | empty : Life [] {}
  | call {events : List (Registry × Event)} {s : Registry} (op : Op) (hop : op.WF) (h : Life events s) :
      Life (events ++ [(s, .call op)]) (op.run s)
  | save {events : List (Registry × Event)} {s : Registry} {bytes : Bytes} (h : Life events s)
      (hs : s.snapshot = .ok bytes) : Life (events ++ [(s, .saved bytes)]) s
  | recover {events : List (Registry × Event)} {r s t : Registry} {bytes : Bytes} (h : Life events s)
      (hsaved : (r, .saved bytes) ∈ events) (ht : recover bytes = .ok t) :
      Life (events ++ [(s, .recovered t)]) t
  | reorder {events : List (Registry × Event)} {s t : Registry} (h : Life events s)
      (hst : Reordered s t) : Life events t

/-- The rules stored in a life, oldest first. -/
def storedRules (events : List (Registry × Event)) : List StoredRule :=
  events.filterMap fun e => e.2.storedRule e.1

/-- Every assigned generation is greater than all generations stored under the id before. -/
def GenerationsGrow (stored : List StoredRule) : Prop :=
  stored.Pairwise fun r r' => r'.assigned = true → r.rule.ruleId = r'.rule.ruleId →
    r.rule.generation < r'.rule.generation

theorem lt_add_one_iff {x y : UInt64} : y < x + 1 ↔ y ≤ x ∧ x.toNat + 1 < 2 ^ 64 := by
  have hx := x.toNat_lt
  rw [UInt64.lt_iff_toNat_lt, UInt64.le_iff_toNat_le, UInt64.toNat_add, UInt64.toNat_one]
  constructor <;> omega

/-! ### What one event stores -/

theorem assignedGeneration_eq {rule : CompatibilityRule} (hzero : rule.generation = 0) {s : Registry}
    {rr : RuleRecord} (hl : s.rules.lookup rule.ruleId = some rr) :
    assignedGeneration rule s = (if rr.active then rr.rule.generation else s.ruleGen) + 1 := by
  unfold assignedGeneration predecessor
  rw [if_neg (not_not.mpr hzero), hl]
  cases hactive : rr.active <;> simp [Option.filter, hactive]

/-- An assigned generation is greater than that of the rule in place exactly when the
call follows. -/
theorem Op.follows_iff {op : Op} {s : Registry} {r : StoredRule} (h : op.storedRule s = some r)
    (hr : r.assigned = true) : (Event.call op).Follows s ↔
      ∀ rule ∈ s.ruleAt r.rule.ruleId, rule.generation < r.rule.generation := by
  simp only [Option.mem_def, ruleAt_eq_some, forall_exists_index, and_imp, forall_apply_eq_imp_iff₂]
  cases op with
  | registerRule rule =>
    cases h
    have hzero : rule.generation = 0 := of_decide_eq_true hr
    simp only [Event.Follows, hzero, true_imp_iff]
    refine forall₂_congr fun rr hl => ?_
    rw [assignedGeneration_eq hzero hl, lt_add_one_iff]
    split_ifs
    · exact (and_iff_right (UInt64.le_refl _)).symm
    · exact Iff.rfl
  | supersedeRule id rule =>
    obtain ⟨rr, hl, rfl⟩ := Option.map_eq_some_iff.mp h
    simp only [Event.Follows]
    refine forall₂_congr fun rr' hl' => ?_
    rw [Option.some.inj (hl.symm.trans hl'), lt_add_one_iff]
    exact (and_iff_right (UInt64.le_refl _)).symm
  | _ => cases h

/-- An explicit generation is not behind that of the rule in place exactly when the
call keeps it. -/
theorem Op.keeps_iff {op : Op} {s : Registry} {r : StoredRule} (h : op.storedRule s = some r)
    (hr : r.assigned = false) : (Event.call op).Keeps s ↔
      ∀ rule ∈ s.ruleAt r.rule.ruleId, rule.generation ≤ r.rule.generation := by
  simp only [Option.mem_def, ruleAt_eq_some, forall_exists_index, and_imp, forall_apply_eq_imp_iff₂]
  cases op with
  | registerRule rule =>
    cases h
    have hexplicit : rule.generation ≠ 0 := of_decide_eq_false hr
    have hgeneration : assignedGeneration rule s = rule.generation := if_pos hexplicit
    simp only [Event.Keeps, hgeneration, ne_eq, hexplicit, not_false_iff, true_imp_iff]
  | supersedeRule id rule =>
    obtain ⟨rr, hl, rfl⟩ := Option.map_eq_some_iff.mp h
    cases hr
  | _ => cases h

theorem Op.follows_of_explicit {op : Op} {s : Registry}
    (h : ∀ r, op.storedRule s = some r → r.assigned = false) : (Event.call op).Follows s := by
  cases op with
  | registerRule rule =>
    intro hzero
    exact absurd hzero (of_decide_eq_false (h _ rfl))
  | supersedeRule id rule =>
    intro rr hl
    have hassigned := h ⟨{ rule with ruleId := id, generation := rr.rule.generation + 1 }, true⟩
      (Option.map_eq_some_iff.mpr ⟨rr, hl, rfl⟩)
    cases hassigned
  | _ => trivial

/-! ### The rules in place -/

/-- Under every stored id there is a rule of at least that generation. -/
def Covered (stored : List StoredRule) (s : Registry) : Prop :=
  ∀ r ∈ stored, ∃ rule ∈ s.ruleAt r.rule.ruleId, r.rule.generation ≤ rule.generation

/-- Every rule in place was stored, under its generation. -/
def Backed (stored : List StoredRule) (s : Registry) : Prop :=
  ∀ id, ∀ rule ∈ s.ruleAt id, ∃ r ∈ stored, r.rule.ruleId = id ∧ r.rule.generation = rule.generation

theorem storedRules_snoc (events : List (Registry × Event)) (s : Registry) (e : Event) :
    storedRules (events ++ [(s, e)]) = storedRules events ++ (e.storedRule s).toList := by
  unfold storedRules
  rw [List.filterMap_append]
  cases h : e.storedRule s <;> simp [h]

theorem Backed.mono {stored stored' : List StoredRule} {s : Registry} (h : Backed stored s)
    (hsub : stored ⊆ stored') : Backed stored' s := by
  intro id rule hrule
  obtain ⟨r, hr, hid⟩ := h id rule hrule
  exact ⟨r, hsub hr, hid⟩

theorem Backed.call {stored : List StoredRule} {s : Registry} (h : Backed stored s) (op : Op) :
    Backed (stored ++ (op.storedRule s).toList) (op.run s) := by
  intro id rule hrule
  rw [Op.run_ruleAt] at hrule
  cases hstored : op.storedRule s with
  | none =>
    rw [hstored] at hrule
    obtain ⟨r, hr, hid⟩ := h id rule hrule
    exact ⟨r, List.mem_append_left _ hr, hid⟩
  | some r =>
    rw [hstored] at hrule
    simp only at hrule
    split_ifs at hrule with hid
    · cases hrule
      exact ⟨r, List.mem_append_right _ (List.mem_singleton_self r), hid.symm, rfl⟩
    · obtain ⟨r', hr', hid'⟩ := h id rule hrule
      exact ⟨r', List.mem_append_left _ hr', hid'⟩

theorem Covered.call {stored : List StoredRule} {s : Registry} (h : Covered stored s) {op : Op}
    (hrises : ∀ r, op.storedRule s = some r →
      ∀ rule ∈ s.ruleAt r.rule.ruleId, rule.generation ≤ r.rule.generation) :
    Covered (stored ++ (op.storedRule s).toList) (op.run s) := by
  cases hstored : op.storedRule s with
  | none =>
    intro r hr
    rw [Option.toList_none, List.append_nil] at hr
    rw [Op.run_ruleAt, hstored]
    exact h r hr
  | some r =>
    have hnew : (op.run s).ruleAt r.rule.ruleId = some r.rule := by
      rw [Op.run_ruleAt, hstored]
      exact if_pos rfl
    intro r' hr'
    rcases List.mem_append.mp hr' with hr' | hr'
    · obtain ⟨rule, hrule, hle⟩ := h r' hr'
      by_cases hid : r'.rule.ruleId = r.rule.ruleId
      · rw [hid] at hrule ⊢
        exact ⟨r.rule, hnew, UInt64.le_trans hle (hrises r hstored rule hrule)⟩
      · rw [Op.run_ruleAt, hstored]
        exact ⟨rule, (if_neg hid).trans hrule, hle⟩
    · rw [Option.toList_some, List.mem_singleton] at hr'
      rw [hr']
      exact ⟨r.rule, hnew, UInt64.le_refl _⟩

/-! ### Whole lives -/

/-- A snapshot is one of a reachable state. -/
theorem Life.reachable {events : List (Registry × Event)} {s : Registry} (h : Life events s) :
    Reachable s ∧ ∀ r bytes, (r, Event.saved bytes) ∈ events → Reachable r ∧ r.snapshot = .ok bytes := by
  have hother : ∀ {events : List (Registry × Event)} {r s : Registry} {bytes : Bytes} {e : Event},
      (r, Event.saved bytes) ∈ events ++ [(s, e)] → e ≠ .saved bytes → (r, Event.saved bytes) ∈ events := by
    intro events r s bytes e hmem hne
    rcases List.mem_append.mp hmem with hmem | hmem
    · exact hmem
    · cases List.mem_singleton.mp hmem
      exact absurd rfl hne
  induction h with
  | empty => exact ⟨.empty, by simp⟩
  | call op hop _ ih =>
    refine ⟨ih.1.step op hop, fun r bytes hmem => ih.2 r bytes (hother hmem ?_)⟩
    exact Event.noConfusion
  | save _ hs ih =>
    refine ⟨ih.1, fun r bytes hmem => ?_⟩
    rcases List.mem_append.mp hmem with hmem | hmem
    · exact ih.2 r bytes hmem
    · cases List.mem_singleton.mp hmem
      exact ⟨ih.1, hs⟩
  | @recover events r s t bytes _ hsaved ht ih =>
    obtain ⟨hreachable, hs⟩ := ih.2 r bytes hsaved
    refine ⟨hreachable.recover hs ht, fun r bytes hmem => ih.2 r bytes (hother hmem ?_)⟩
    exact Event.noConfusion
  | reorder _ hst ih => exact ⟨ih.1.reorder hst, ih.2⟩

theorem ruleAt_restored {s : Registry} (h : Inv s) (id : Uuid) :
    s.restored.ruleAt id = (s.ruleAt id).map fun rule => { rule with active := true } := by
  unfold ruleAt
  rw [rules_restored h, Option.map_map, Option.map_map]
  rfl

/-- The rules in place, and those in every snapshot, were stored under their generations. -/
theorem Life.backed {events : List (Registry × Event)} {s : Registry} (h : Life events s) :
    Backed (storedRules events) s ∧
      ∀ r bytes, (r, Event.saved bytes) ∈ events → Backed (storedRules events) r := by
  induction h with
  | empty => exact ⟨fun _ _ hrule => absurd hrule (Option.not_mem_none _), by simp⟩
  | @call events s op hop _ ih =>
    rw [storedRules_snoc]
    refine ⟨ih.1.call op, fun r bytes hmem => ?_⟩
    rcases List.mem_append.mp hmem with hmem | hmem
    · exact (ih.2 r bytes hmem).mono (List.subset_append_left _ _)
    · cases List.mem_singleton.mp hmem
  | @save events s bytes _ hs ih =>
    rw [storedRules_snoc]
    simp only [Event.storedRule, Option.toList_none, List.append_nil]
    refine ⟨ih.1, fun r bytes hmem => ?_⟩
    rcases List.mem_append.mp hmem with hmem | hmem
    · exact ih.2 r bytes hmem
    · cases List.mem_singleton.mp hmem
      exact ih.1
  | @recover events r s t bytes hlife hsaved ht ih =>
    rw [storedRules_snoc]
    simp only [Event.storedRule, Option.toList_none, List.append_nil]
    constructor
    · obtain ⟨hreachable, hs⟩ := hlife.reachable.2 r bytes hsaved
      obtain ⟨rfl, -⟩ := (recover_snapshot hreachable.inv).mp ⟨bytes, hs, ht⟩
      intro id rule hrule
      rw [ruleAt_restored hreachable.inv] at hrule
      obtain ⟨rule', hrule', rfl⟩ := Option.map_eq_some_iff.mp hrule
      exact ih.2 r bytes hsaved id rule' hrule'
    · intro r bytes hmem
      rcases List.mem_append.mp hmem with hmem | hmem
      · exact ih.2 r bytes hmem
      · cases List.mem_singleton.mp hmem
  | @reorder events s t _ hst ih =>
    refine ⟨fun id rule hrule => ih.1 id rule ?_, ih.2⟩
    unfold ruleAt at hrule ⊢
    rw [hst.rules.lookup]
    exact hrule

theorem generationsGrow_append {stored : List StoredRule} {new : Option StoredRule} :
    GenerationsGrow (stored ++ new.toList) ↔ GenerationsGrow stored ∧
      ∀ r ∈ new, r.assigned = true → ∀ r' ∈ stored, r'.rule.ruleId = r.rule.ruleId →
        r'.rule.generation < r.rule.generation := by
  unfold GenerationsGrow
  cases new with
  | none => simp
  | some r =>
    simp only [Option.toList_some, List.pairwise_append, List.pairwise_singleton, true_and,
      List.mem_singleton, forall_eq, Option.mem_def, Option.some.injEq, forall_eq']
    exact and_congr_right fun _ => ⟨fun h ha r' hr' => h r' hr' ha, fun h r' hr' ha => h ha r' hr'⟩

/-- A generation is greater than all that were stored under its id exactly when it is
greater than that of the rule in place. -/
theorem forall_stored_lt_iff {stored : List StoredRule} {s : Registry} (hc : Covered stored s)
    (hb : Backed stored s) {id : Uuid} {generation : Generation} :
    (∀ r ∈ stored, r.rule.ruleId = id → r.rule.generation < generation) ↔
      ∀ rule ∈ s.ruleAt id, rule.generation < generation := by
  constructor
  · intro hall rule hrule
    obtain ⟨r, hr, hid, hgeneration⟩ := hb id rule hrule
    rw [← hgeneration]
    exact hall r hr hid
  · intro hplace r hr hid
    obtain ⟨rule, hrule, hle⟩ := hc r hr
    rw [hid] at hrule
    exact UInt64.lt_of_le_of_lt hle (hplace rule hrule)

/-- A call that stores a rule over the rules in place stores it under a greater generation
exactly when it follows. -/
theorem Op.grows_iff {stored : List StoredRule} {s : Registry} (hc : Covered stored s) (hb : Backed stored s)
    (op : Op) : (∀ r ∈ op.storedRule s, r.assigned = true → ∀ r' ∈ stored,
        r'.rule.ruleId = r.rule.ruleId → r'.rule.generation < r.rule.generation) ↔
      (Event.call op).Follows s := by
  by_cases hassigned : ∃ r, op.storedRule s = some r ∧ r.assigned = true
  · obtain ⟨r, hstored, hr⟩ := hassigned
    rw [Op.follows_iff hstored hr, ← forall_stored_lt_iff hc hb, hstored]
    simp only [Option.mem_def, Option.some.injEq, forall_eq', hr, true_imp_iff]
  · have hexplicit : ∀ r, op.storedRule s = some r → r.assigned = false := fun r hr =>
      Bool.eq_false_iff.mpr fun ha => hassigned ⟨r, hr, ha⟩
    refine iff_of_true (fun r hr ha => ?_) (Op.follows_of_explicit hexplicit)
    exact absurd ⟨r, hr, ha⟩ hassigned

/-- What is stored is never behind the rule in place. -/
theorem Op.rises {op : Op} {s : Registry} (hkeeps : (Event.call op).Keeps s)
    (hfollows : (Event.call op).Follows s) : ∀ r, op.storedRule s = some r →
      ∀ rule ∈ s.ruleAt r.rule.ruleId, rule.generation ≤ r.rule.generation := by
  intro r hr
  cases ha : r.assigned with
  | false => exact (Op.keeps_iff hr ha).mp hkeeps
  | true => exact fun rule hrule => UInt64.le_of_lt ((Op.follows_iff hr ha).mp hfollows rule hrule)

/-- While explicit generations and recoveries keep what is in place, the assigned
generations grow exactly as long as they follow it, and then nothing stored is ahead of it. -/
theorem Life.grow_iff {events : List (Registry × Event)} {s : Registry} (h : Life events s)
    (hkeeps : ∀ e ∈ events, e.2.Keeps e.1) :
    (GenerationsGrow (storedRules events) ↔ ∀ e ∈ events, e.2.Follows e.1) ∧
      ((∀ e ∈ events, e.2.Follows e.1) → Covered (storedRules events) s) := by
  induction h with
  | empty => exact ⟨iff_of_true List.Pairwise.nil (by simp), fun _ _ hr => absurd hr List.not_mem_nil⟩
  | @call events s op hop hlife ih =>
    simp only [List.forall_mem_append, List.forall_mem_singleton] at hkeeps ⊢
    obtain ⟨hgrow, hcovered⟩ := ih hkeeps.1
    rw [storedRules_snoc]
    constructor
    · refine generationsGrow_append.trans ?_
      rw [hgrow]
      exact and_congr_right fun hfollows => Op.grows_iff (hcovered hfollows) hlife.backed.1 op
    · rintro ⟨hfollows, hlast⟩
      exact (hcovered hfollows).call (Op.rises hkeeps.2 hlast)
  | @save events s bytes hlife hs ih =>
    simp only [List.forall_mem_append, List.forall_mem_singleton] at hkeeps ⊢
    obtain ⟨hgrow, hcovered⟩ := ih hkeeps.1
    rw [storedRules_snoc]
    simp only [Event.storedRule, Option.toList_none, List.append_nil, Event.Follows, and_true]
    exact ⟨hgrow, hcovered⟩
  | @recover events r s t bytes hlife hsaved ht ih =>
    simp only [List.forall_mem_append, List.forall_mem_singleton] at hkeeps ⊢
    obtain ⟨hgrow, hcovered⟩ := ih hkeeps.1
    rw [storedRules_snoc]
    simp only [Event.storedRule, Option.toList_none, List.append_nil, Event.Follows, and_true]
    refine ⟨hgrow, fun hfollows r' hr' => ?_⟩
    obtain ⟨rule, hrule, hle⟩ := hcovered hfollows r' hr'
    obtain ⟨rr, hl, rfl⟩ := ruleAt_eq_some.mp hrule
    obtain ⟨rr', hl', hle'⟩ := hkeeps.2 _ rr hl
    exact ⟨rr'.rule, ruleAt_eq_some.mpr ⟨rr', hl', rfl⟩, UInt64.le_trans hle hle'⟩
  | @reorder events s t hlife hst ih =>
    obtain ⟨hgrow, hcovered⟩ := ih hkeeps
    refine ⟨hgrow, fun hfollows r hr => ?_⟩
    obtain ⟨rule, hrule, hle⟩ := hcovered hfollows r hr
    refine ⟨rule, ?_, hle⟩
    unfold ruleAt at hrule ⊢
    rw [← hst.rules.lookup]
    exact hrule

/-- In every life of a registry in which explicit generations and recoveries keep what is
in place, the generations that are assigned grow exactly when every call follows it. -/
theorem generationsGrow_iff {events : List (Registry × Event)} {s : Registry} (h : Life events s) :
    GenerationsGrow (storedRules events) ∧ (∀ e ∈ events, e.2.Keeps e.1) ↔
      ∀ e ∈ events, e.2.Keeps e.1 ∧ e.2.Follows e.1 := by
  constructor
  · rintro ⟨hgrow, hkeeps⟩
    have hfollows := (h.grow_iff hkeeps).1.mp hgrow
    exact fun e he => ⟨hkeeps e he, hfollows e he⟩
  · intro hboth
    have hkeeps : ∀ e ∈ events, e.2.Keeps e.1 := fun e he => (hboth e he).1
    exact ⟨(h.grow_iff hkeeps).1.mpr fun e he => (hboth e he).2, hkeeps⟩

/-- A list of calls from the empty registry, each with the state that it meets. -/
def eventsOf : List Op → Registry → List (Registry × Event)
  | [], _ => []
  | op :: ops, s => (s, .call op) :: eventsOf ops (op.run s)

theorem Life.append {events : List (Registry × Event)} {s : Registry} (h : Life events s) {ops : List Op}
    (hops : ∀ op ∈ ops, op.WF) : Life (events ++ eventsOf ops s) (runOps ops s) := by
  induction ops generalizing events s with
  | nil =>
    rw [eventsOf, List.append_nil]
    exact h
  | cons op ops ih =>
    obtain ⟨hop, hops⟩ := List.forall_mem_cons.mp hops
    have hlife := ih (h.call op hop) hops
    rw [List.append_assoc, List.singleton_append] at hlife
    exact hlife

/-- A rule without an explicit generation. -/
def plainRule : CompatibilityRule := { ruleId := uuidOf 1, scope := ascii "pair" }

theorem plainRule_wf : plainRule.WF := by
  refine ⟨?_, ?_, ?_, ?_⟩ <;> simp [plainRule]

def supersedingOps : List Op := [.registerRule plainRule, .supersedeRule (uuidOf 1) plainRule]

theorem generationsGrow_superseding : GenerationsGrow (storedRules (eventsOf supersedingOps {})) := by
  have hwf : ∀ op ∈ supersedingOps, op.WF := by simp [supersedingOps, Op.WF, plainRule_wf]
  have hplace : ((registerRule plainRule {}).2.rules.lookup (uuidOf 1)).all
      (fun rr => rr.rule.generation.toNat + 1 < 2 ^ 64) = true := by
    decide +kernel
  refine ((generationsGrow_iff (Life.empty.append hwf)).mpr ?_).1
  simp only [List.nil_append, supersedingOps, eventsOf, List.forall_mem_cons, List.not_mem_nil,
    false_imp_iff, implies_true, and_true]
  refine ⟨⟨fun hexplicit => absurd rfl hexplicit, fun _ rr hl => ?_⟩, trivial, fun rr hl => ?_⟩
  · cases hl
  · change (registerRule plainRule {}).2.rules.lookup (uuidOf 1) = some rr at hl
    rw [hl, Option.all_some] at hplace
    exact of_decide_eq_true hplace

/-- The rule is superseded twice and disabled, and another one is registered under its id. -/
def disabledOps : List Op := [.registerRule plainRule, .supersedeRule (uuidOf 1) plainRule,
  .supersedeRule (uuidOf 1) plainRule, .disableRule (uuidOf 1), .registerRule { plainRule with priority := 1 }]

/-- The other rule is stored under the second generation again. -/
theorem not_generationsGrow_disabled : Life (eventsOf disabledOps {}) (runOps disabledOps {}) ∧
    ¬ GenerationsGrow (storedRules (eventsOf disabledOps {})) ∧
    ∃ r ∈ storedRules (eventsOf disabledOps {}), ∃ r' ∈ storedRules (eventsOf disabledOps {}),
      r'.rule.ruleId = r.rule.ruleId ∧ r'.rule.generation = r.rule.generation ∧
        r'.rule.priority ≠ r.rule.priority := by
  have hwf : ∀ op ∈ disabledOps, op.WF := by
    simp only [disabledOps, List.forall_mem_cons, List.not_mem_nil, false_imp_iff, implies_true, and_true]
    exact ⟨plainRule_wf, plainRule_wf, plainRule_wf, trivial, plainRule_wf.required, plainRule_wf.anyOf,
      plainRule_wf.incompatibleWith, plainRule_wf.conditions⟩
  refine ⟨Life.empty.append hwf, ?_, ?_⟩
  · unfold GenerationsGrow
    decide +kernel
  · decide +kernel

end Registry

end CompatRegistry
