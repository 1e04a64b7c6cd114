import CompatRegistry.Rule

/-! The evaluation of one rule on a pair of profiles: the veto clauses, the
required conjunction, the allowed disjunction and the result of the rule's kind,
one loop each. A veto clause without evidence only sets `missing`, so a positive
outcome does not prove that the veto clauses were known. -/

namespace CompatRegistry

open Foundation Canon

structure ConstraintItem where
  dimension : Bytes := []
  left : Bytes := []
  right : Bytes := []
  satisfied : Bool := false
  note : Bytes := []
  deriving DecidableEq

structure RuleEval where
  rule : CompatibilityRule
  definite : Bool := false
  incompat : Bool := false
  missing : Bool := false
  outcome : Enum8 Outcome := .declared .unknown
  satisfied : List ConstraintItem := []
  failed : List ConstraintItem := []
  adaptations : List Bytes := []
  missingEvidence : List Bytes := []

/-- Definite and not `Unknown`. -/
def RuleEval.conclusive (e : RuleEval) : Bool := e.definite && e.outcome != .declared .unknown

/-- What rules read of a profile record: its kind and its payload. -/
structure Subject where
  kind : Enum8 ProfileKind
  payload : Canon

section EvalRule

variable (l r : Subject)

def constraintKnown (c : Constraint) : Bool :=
  (resolveProfileField l.kind l.payload c.field).isSome &&
    (c.rightField == [] || (resolveProfileField r.kind r.payload c.rightField).isSome)

def Constraint.on (c : Constraint) : Result Verdict := c.evaluate l.payload r.payload l.kind r.kind

def satisfiedItem (c : Constraint) (v : Verdict) : ConstraintItem :=
  ⟨c.field, v.whyOk, v.whyNot, true, v.whyOk⟩

def failedItem (c : Constraint) (v : Verdict) : ConstraintItem :=
  ⟨c.field, v.whyOk, v.whyNot, false, v.whyNot⟩

/-- The veto clauses; the flag says that one of them ended the evaluation. -/
def vetoLoop : List Constraint → RuleEval → Result (RuleEval × Bool)
  | [], e => .ok (e, false)
  | c :: cs, e =>
    if constraintKnown l r c then do
      let v ← c.on l r
      if v.holds then
        .ok ({ e with
          definite := true, incompat := true, outcome := .declared .incompatible
          failed := e.failed ++ [failedItem c v] }, true)
      else vetoLoop cs { e with satisfied := e.satisfied ++ [satisfiedItem c v] }
    else vetoLoop cs { e with missing := true, missingEvidence := e.missingEvidence ++ [c.field] }

/-- The required conjunction; the flag is `all`. -/
def requiredLoop : List Constraint → RuleEval → Result (RuleEval × Bool)
  | [], e => .ok (e, true)
  | c :: cs, e =>
    if constraintKnown l r c then do
      let v ← c.on l r
      if v.holds then requiredLoop cs { e with satisfied := e.satisfied ++ [satisfiedItem c v] }
      else do
        let (e, _) ← requiredLoop cs { e with failed := e.failed ++ [failedItem c v] }
        .ok (e, false)
    else do
      let (e, _) ← requiredLoop cs { e with
        missing := true
        missingEvidence := e.missingEvidence ++ [c.field]
        failed := e.failed ++ [⟨c.field, [], [], false, ascii "missing evidence"⟩] }
      .ok (e, false)

/-- The allowed disjunction up to the first constraint that holds; the flags are
`any` and `any_missing`. -/
def anyLoop : List Constraint → Bool → RuleEval → Result (RuleEval × Bool × Bool)
  | [], anyMissing, e => .ok (e, false, anyMissing)
  | c :: cs, anyMissing, e =>
    if constraintKnown l r c then do
      let v ← c.on l r
      if v.holds then
        .ok ({ e with satisfied := e.satisfied ++ [satisfiedItem c v] }, true, anyMissing)
      else anyLoop cs anyMissing { e with failed := e.failed ++ [failedItem c v] }
    else anyLoop cs true e

/-- The conditions of a conditional rule; the flag is `cond`. -/
def conditionLoop : List Constraint → RuleEval → Result (RuleEval × Bool)
  | [], e => .ok (e, true)
  | c :: cs, e =>
    if constraintKnown l r c then do
      let v ← c.on l r
      if v.holds then conditionLoop cs e
      else do
        let (e, _) ← conditionLoop cs { e with failed := e.failed ++ [failedItem c v] }
        .ok (e, false)
    else do
      let (e, _) ← conditionLoop cs { e with
        missing := true, missingEvidence := e.missingEvidence ++ [c.field] }
      .ok (e, false)

/-- The result of the kind of the rule, once the constraints have passed. -/
def kindResult (rule : CompatibilityRule) (e : RuleEval) : Result RuleEval :=
  match rule.kind with
  | .declared .conditional => do
    let (e, cond) ← conditionLoop l r rule.conditions e
    .ok { e with
      definite := true
      outcome := if cond then rule.outcome else .declared .conditional
      adaptations := rule.adaptations }
  | .declared .adaptation =>
    .ok { e with
      definite := true, outcome := .declared .compatibleWithAdaptation
      adaptations := rule.adaptations }
  | .declared .explicitIncompat =>
    .ok { e with
      definite := true, outcome := .declared .incompatible, adaptations := rule.adaptations }
  | _ => .ok { e with definite := true, outcome := rule.outcome, adaptations := rule.adaptations }

def evalRule (rule : CompatibilityRule) : Result RuleEval := do
  let (e, vetoed) ← vetoLoop l r rule.incompatibleWith { rule }
  if vetoed then .ok e else do
  let (e, all) ← requiredLoop l r rule.required e
  if all = false then
    .ok (if e.missing then { e with definite := true, outcome := .declared .insufficientEvidence }
      else { e with definite := false, outcome := .declared .unknown })
  else if rule.anyOf = [] then kindResult l r rule e
  else do
    let (e, any, anyMissing) ← anyLoop l r rule.anyOf false e
    if any then kindResult l r rule e
    else
      .ok (if anyMissing
        then { e with missing := true, definite := true, outcome := .declared .insufficientEvidence }
        else { e with definite := false, outcome := .declared .unknown })

/-- The ways in which the evaluation of a rule returns. -/
inductive Ended (rule : CompatibilityRule) (e : RuleEval) : Prop
  | vetoed (veto : vetoLoop l r rule.incompatibleWith { rule } = .ok (e, true))
  | short (e₁ e₂ : RuleEval) (veto : vetoLoop l r rule.incompatibleWith { rule } = .ok (e₁, false))
      (required : requiredLoop l r rule.required e₁ = .ok (e₂, false))
      (result : e = if e₂.missing
        then { e₂ with definite := true, outcome := .declared .insufficientEvidence }
        else { e₂ with definite := false, outcome := .declared .unknown })
  | noAlternative (e₁ e₂ e₃ : RuleEval) (anyMissing : Bool)
      (veto : vetoLoop l r rule.incompatibleWith { rule } = .ok (e₁, false))
      (required : requiredLoop l r rule.required e₁ = .ok (e₂, true)) (some : rule.anyOf ≠ [])
      (any : anyLoop l r rule.anyOf false e₂ = .ok (e₃, false, anyMissing))
      (result : e = if anyMissing
        then { e₃ with missing := true, definite := true, outcome := .declared .insufficientEvidence }
        else { e₃ with definite := false, outcome := .declared .unknown })
  | byKind (e₁ e₂ e₃ : RuleEval) (veto : vetoLoop l r rule.incompatibleWith { rule } = .ok (e₁, false))
      (required : requiredLoop l r rule.required e₁ = .ok (e₂, true))
      (any : rule.anyOf = [] ∧ e₃ = e₂ ∨
        ∃ anyMissing, anyLoop l r rule.anyOf false e₂ = .ok (e₃, true, anyMissing))
      (kind : kindResult l r rule e₃ = .ok e)

theorem evalRule_ended {rule : CompatibilityRule} {e : RuleEval} (h : evalRule l r rule = .ok e) :
    Ended l r rule e := by
  rw [evalRule] at h
  obtain ⟨⟨e₁, vetoed⟩, hveto, h⟩ := Result.bind_eq_ok.mp h
  cases vetoed with
  | true =>
    cases h
    exact .vetoed hveto
  | false =>
    obtain ⟨⟨e₂, all⟩, hrequired, h⟩ := Result.bind_eq_ok.mp h
    cases all with
    | false => exact .short e₁ e₂ hveto hrequired (Except.ok.inj h).symm
    | true =>
      simp only [Bool.true_eq_false, if_false] at h
      by_cases hnil : rule.anyOf = []
      · rw [if_pos hnil] at h
        exact .byKind e₁ e₂ e₂ hveto hrequired (.inl ⟨hnil, rfl⟩) h
      · rw [if_neg hnil] at h
        obtain ⟨⟨e₃, any, m⟩, hany, h⟩ := Result.bind_eq_ok.mp h
        cases any with
        | false => exact .noAlternative e₁ e₂ e₃ m hveto hrequired hnil hany (Except.ok.inj h).symm
        | true => exact .byKind e₁ e₂ e₃ hveto hrequired (.inr ⟨m, hany⟩) h

/-! ### What the loops let through -/

/-- The constraint is evaluated and holds. -/
def Holds (c : Constraint) : Prop := ∃ v, c.on l r = .ok v ∧ v.holds = true

/-- The constraint is evaluated and does not hold. -/
def Fails (c : Constraint) : Prop := ∃ v, c.on l r = .ok v ∧ v.holds = false

variable {l r}

theorem Fails.not_holds {c : Constraint} (h : Fails l r c) : ¬ Holds l r c := by
  obtain ⟨v, hv, hf⟩ := h
  rintro ⟨w, hw, ht⟩
  rw [hv] at hw
  cases hw
  simp [hf] at ht

/-- What other code decides by. -/
structure Conclusion where
  outcome : Enum8 Outcome
  definite : Bool
  incompat : Bool

def RuleEval.conclusion (e : RuleEval) : Conclusion := ⟨e.outcome, e.definite, e.incompat⟩

variable (l r) in
/-- A loop that goes through its whole group, with what it notes on a constraint that holds,
on one that fails and on one that is not known. The flag is cleared by the last two. -/
structure Gathers (pass fail : Constraint → Verdict → RuleEval → RuleEval)
    (unknown : Constraint → RuleEval → RuleEval) (loop : List Constraint → RuleEval → Result (RuleEval × Bool)) : Prop where
  nil : ∀ e, loop [] e = .ok (e, true)
  cons : ∀ c cs e, loop (c :: cs) e =
    if constraintKnown l r c = true then
      c.on l r >>= fun v => if v.holds = true then loop cs (pass c v e)
        else loop cs (fail c v e) >>= fun result => .ok (result.1, false)
    else loop cs (unknown c e) >>= fun result => .ok (result.1, false)

theorem requiredLoop_gathers : Gathers l r
    (fun c v e => { e with satisfied := e.satisfied ++ [satisfiedItem c v] })
    (fun c v e => { e with failed := e.failed ++ [failedItem c v] })
    (fun c e => { e with
      missing := true, missingEvidence := e.missingEvidence ++ [c.field]
      failed := e.failed ++ [⟨c.field, [], [], false, ascii "missing evidence"⟩] }) (requiredLoop l r) where
  nil _ := rfl
  cons _ _ _ := rfl

theorem conditionLoop_gathers : Gathers l r (fun _ _ e => e)
    (fun c v e => { e with failed := e.failed ++ [failedItem c v] })
    (fun c e => { e with missing := true, missingEvidence := e.missingEvidence ++ [c.field] })
    (conditionLoop l r) where
  nil _ := rfl
  cons _ _ _ := rfl

section Gathers
variable {pass fail : Constraint → Verdict → RuleEval → RuleEval} {unknown : Constraint → RuleEval → RuleEval}
  {loop : List Constraint → RuleEval → Result (RuleEval × Bool)} (hloop : Gathers l r pass fail unknown loop)
include hloop

theorem Gathers.passes_iff {cs : List Constraint} (e : RuleEval) :
    (∃ e', loop cs e = .ok (e', true)) ↔ ∀ c ∈ cs, constraintKnown l r c = true ∧ Holds l r c := by
  induction cs generalizing e with
  | nil => simp [hloop.nil]
  | cons c cs ih =>
    rw [hloop.cons, List.forall_mem_cons]
    split_ifs with hk
    · simp only [Result.bind_eq_ok, hk, true_and]
      constructor
      · rintro ⟨e', v, hv, h⟩
        split_ifs at h with hh
        · exact ⟨⟨v, hv, hh⟩, (ih _).mp ⟨e', h⟩⟩
        · simp [Result.bind_eq_ok] at h
      · rintro ⟨⟨v, hv, hh⟩, hcs⟩
        obtain ⟨e', he'⟩ := (ih (pass c v e)).mpr hcs
        exact ⟨e', v, hv, by rw [if_pos hh, he']⟩
    · simp [hk, Result.bind_eq_ok]

/-- The loop returns when each known constraint is evaluated without an exception. -/
theorem Gathers.isOk_iff {cs : List Constraint} (e : RuleEval) :
    (∃ result, loop cs e = .ok result) ↔
      ∀ c ∈ cs, constraintKnown l r c = true → ∃ v, c.on l r = .ok v := by
  induction cs generalizing e with
  | nil => simp [hloop.nil]
  | cons c cs ih =>
    rw [hloop.cons, List.forall_mem_cons]
    by_cases hk : constraintKnown l r c = true
    · rw [if_pos hk]
      simp only [hk, true_imp_iff, Result.bind_eq_ok]
      constructor
      · rintro ⟨result, v, hv, h⟩
        refine ⟨⟨v, hv⟩, ?_⟩
        split_ifs at h
        · exact (ih _).mp ⟨result, h⟩
        · obtain ⟨result', h', -⟩ := Result.bind_eq_ok.mp h
          exact (ih _).mp ⟨result', h'⟩
      · rintro ⟨⟨v, hv⟩, hrest⟩
        by_cases hh : v.holds = true
        · obtain ⟨result, h⟩ := (ih (pass c v e)).mpr hrest
          exact ⟨result, v, hv, (if_pos hh).trans h⟩
        · obtain ⟨result, h⟩ := (ih (fail c v e)).mpr hrest
          exact ⟨_, v, hv, by rw [if_neg hh, h]; rfl⟩
    · rw [if_neg hk]
      simp only [hk, Bool.false_eq_true, false_imp_iff, true_and, Result.bind_eq_ok]
      constructor
      · rintro ⟨result, result', h', -⟩
        exact (ih _).mp ⟨result', h'⟩
      · intro hrest
        obtain ⟨result, h⟩ := (ih (unknown c e)).mpr hrest
        exact ⟨_, result, h, rfl⟩

/-- What holds over the empty group, and over a group as soon as it holds behind the note on the first
constraint, holds of the evaluation that the loop leaves. -/
theorem Gathers.leaves {R : List Constraint → RuleEval → RuleEval → Prop} (hnil : ∀ e, R [] e e)
    (hknown : ∀ c cs v e e', constraintKnown l r c = true →
      R cs (pass c v e) e' ∨ R cs (fail c v e) e' → R (c :: cs) e e')
    (hunknown : ∀ c cs e e', ¬ constraintKnown l r c = true → R cs (unknown c e) e' → R (c :: cs) e e')
    {cs : List Constraint} {e : RuleEval} {result : RuleEval × Bool} (h : loop cs e = .ok result) :
    R cs e result.1 := by
  induction cs generalizing e result with
  | nil =>
    obtain rfl := Except.ok.inj ((hloop.nil e).symm.trans h)
    exact hnil e
  | cons c cs ih =>
    rw [hloop.cons] at h
    split_ifs at h with hk
    · obtain ⟨v, -, h⟩ := Result.bind_eq_ok.mp h
      split_ifs at h
      · exact hknown c cs v e _ hk (.inl (ih h))
      · obtain ⟨result', h', h⟩ := Result.bind_eq_ok.mp h
        cases h
        have hrest : R cs (fail c v e) result'.1 := ih h'
        exact hknown c cs v e _ hk (.inr hrest)
    · obtain ⟨result', h', h⟩ := Result.bind_eq_ok.mp h
      cases h
      have hrest : R cs (unknown c e) result'.1 := ih h'
      exact hunknown c cs e _ hk hrest

end Gathers

theorem requiredLoop_passes {cs : List Constraint} (e : RuleEval) :
    (∃ e', requiredLoop l r cs e = .ok (e', true)) ↔
      ∀ c ∈ cs, constraintKnown l r c = true ∧ Holds l r c := requiredLoop_gathers.passes_iff e

theorem conditionLoop_passes {cs : List Constraint} (e : RuleEval) :
    (∃ e', conditionLoop l r cs e = .ok (e', true)) ↔
      ∀ c ∈ cs, constraintKnown l r c = true ∧ Holds l r c := conditionLoop_gathers.passes_iff e

variable (l r)

/-- Some alternative is known and holds, and the known ones before it fail. -/
def FirstHolds (cs : List Constraint) : Prop :=
  ∃ p c s, cs = p ++ c :: s ∧ (∀ x ∈ p, constraintKnown l r x = true → Fails l r x) ∧
    constraintKnown l r c = true ∧ Holds l r c

variable {l r}

theorem firstHolds_cons {c : Constraint} {cs : List Constraint} :
    FirstHolds l r (c :: cs) ↔ (constraintKnown l r c = true ∧ Holds l r c) ∨
      (constraintKnown l r c = true → Fails l r c) ∧ FirstHolds l r cs := by
  constructor
  · rintro ⟨p, x, s, heq, hp, hx⟩
    cases p with
    | nil =>
      obtain ⟨rfl, rfl⟩ := List.cons.inj heq
      exact .inl hx
    | cons y p =>
      obtain ⟨rfl, rfl⟩ := List.cons.inj heq
      obtain ⟨hy, hp⟩ := List.forall_mem_cons.mp hp
      exact .inr ⟨hy, p, x, s, rfl, hp, hx⟩
  · rintro (hx | ⟨hc, p, x, s, rfl, hp, hx⟩)
    · exact ⟨[], c, cs, rfl, by simp, hx⟩
    · exact ⟨c :: p, x, s, rfl, List.forall_mem_cons.mpr ⟨hc, hp⟩, hx⟩

variable (l r) in
/-- A loop that ends at the first constraint that holds, which sets the flag: what becomes of its
state there, behind a constraint that fails and behind one that is not known. -/
structure Stops {σ : Type} (found fail : Constraint → Verdict → σ → σ) (unknown : Constraint → σ → σ)
    (loop : List Constraint → σ → Result (σ × Bool)) : Prop where
  nil : ∀ s, loop [] s = .ok (s, false)
  cons : ∀ c cs s, loop (c :: cs) s =
    if constraintKnown l r c = true then
      c.on l r >>= fun v => if v.holds = true then .ok (found c v s, true) else loop cs (fail c v s)
    else loop cs (unknown c s)

theorem vetoLoop_stops : Stops l r
    (fun c v e => { e with
      definite := true, incompat := true, outcome := .declared .incompatible
      failed := e.failed ++ [failedItem c v] })
    (fun c v e => { e with satisfied := e.satisfied ++ [satisfiedItem c v] })
    (fun c e => { e with missing := true, missingEvidence := e.missingEvidence ++ [c.field] }) (vetoLoop l r) where
  nil _ := rfl
  cons _ _ _ := rfl

variable (l r) in
/-- The disjunction with `any_missing` as a part of its state. -/
def anyState (cs : List Constraint) (s : RuleEval × Bool) : Result ((RuleEval × Bool) × Bool) :=
  (fun out => ((out.1, out.2.2), out.2.1)) <$> anyLoop l r cs s.2 s.1

theorem anyLoop_eq (cs : List Constraint) (m : Bool) (e : RuleEval) :
    anyLoop l r cs m e = (fun out => (out.1.1, out.2, out.1.2)) <$> anyState l r cs (e, m) := by
  rw [anyState, Functor.map_map]
  exact (id_map' _).symm

theorem anyLoop_eq_ok {cs : List Constraint} {m m' any : Bool} {e e' : RuleEval} :
    anyLoop l r cs m e = .ok (e', any, m') ↔ anyState l r cs (e, m) = .ok ((e', m'), any) := by
  unfold anyState
  cases anyLoop l r cs m e with
  | error err => simp
  | ok out =>
    obtain ⟨e₁, any₁, m₁⟩ := out
    simp only [Except.map_ok, Except.ok.injEq, Prod.mk.injEq]
    tauto

theorem anyLoop_stops : Stops l r
    (fun c v s => ({ s.1 with satisfied := s.1.satisfied ++ [satisfiedItem c v] }, s.2))
    (fun c v s => ({ s.1 with failed := s.1.failed ++ [failedItem c v] }, s.2))
    (fun _ s => (s.1, true)) (anyState l r) where
  nil _ := rfl
  cons c cs s := by
    rw [anyState, anyLoop]
    split_ifs
    · rw [map_bind]
      congr 1
      funext v
      split_ifs <;> rfl
    · rfl

section Stops
variable {σ : Type} {found fail : Constraint → Verdict → σ → σ} {unknown : Constraint → σ → σ}
  {loop : List Constraint → σ → Result (σ × Bool)} (hloop : Stops l r found fail unknown loop)
include hloop

theorem Stops.ends_iff {cs : List Constraint} (s : σ) :
    (∃ s', loop cs s = .ok (s', true)) ↔ FirstHolds l r cs := by
  induction cs generalizing s with
  | nil => simp [hloop.nil, FirstHolds]
  | cons c cs ih =>
    rw [hloop.cons, firstHolds_cons]
    split_ifs with hk
    · simp only [Result.bind_eq_ok, hk, true_and, true_imp_iff]
      constructor
      · rintro ⟨s', v, hv, h⟩
        split_ifs at h with hh
        · exact .inl ⟨v, hv, hh⟩
        · exact .inr ⟨⟨v, hv, by simpa using hh⟩, (ih _).mp ⟨s', h⟩⟩
      · rintro (⟨v, hv, hh⟩ | ⟨⟨v, hv, hf⟩, hcs⟩)
        · exact ⟨_, v, hv, if_pos hh⟩
        · obtain ⟨s', hs'⟩ := (ih _).mpr hcs
          exact ⟨s', v, hv, (if_neg (by simp [hf])).trans hs'⟩
    · rw [ih]
      simp [hk]

/-- It comes to the end of the group when every known constraint fails. -/
theorem Stops.passes_iff {cs : List Constraint} (s : σ) :
    (∃ s', loop cs s = .ok (s', false)) ↔ ∀ c ∈ cs, constraintKnown l r c = true → Fails l r c := by
  induction cs generalizing s with
  | nil => simp [hloop.nil]
  | cons c cs ih =>
    rw [hloop.cons, List.forall_mem_cons]
    split_ifs with hk
    · simp only [Result.bind_eq_ok, hk, true_imp_iff]
      constructor
      · rintro ⟨s', v, hv, h⟩
        split_ifs at h with hh
        · simp at h
        · exact ⟨⟨v, hv, by simpa using hh⟩, (ih _).mp ⟨s', h⟩⟩
      · rintro ⟨⟨v, hv, hf⟩, hcs⟩
        obtain ⟨s', hs'⟩ := (ih _).mpr hcs
        exact ⟨s', v, hv, (if_neg (by simp [hf])).trans hs'⟩
    · rw [ih]
      simp [hk]

theorem Stops.isOk_iff {cs : List Constraint} (s : σ) : (∃ out, loop cs s = .ok out) ↔
    FirstHolds l r cs ∨ ∀ c ∈ cs, constraintKnown l r c = true → Fails l r c := by
  rw [← hloop.ends_iff s, ← hloop.passes_iff s]
  constructor
  · rintro ⟨⟨s', flag⟩, h⟩
    cases flag with
    | true => exact .inl ⟨s', h⟩
    | false => exact .inr ⟨s', h⟩
  · rintro (⟨s', h⟩ | ⟨s', h⟩)
    · exact ⟨_, h⟩
    · exact ⟨_, h⟩

/-- What holds over the empty group and at a constraint that ends the loop, and over a group as soon as
it holds behind the first constraint, holds of what the loop comes out with. -/
theorem Stops.leaves {R : List Constraint → σ → σ × Bool → Prop} (hnil : ∀ s, R [] s (s, false))
    (hfound : ∀ c cs v s, constraintKnown l r c = true → R (c :: cs) s (found c v s, true))
    (hfail : ∀ c cs v s out, constraintKnown l r c = true → R cs (fail c v s) out → R (c :: cs) s out)
    (hunknown : ∀ c cs s out, ¬ constraintKnown l r c = true → R cs (unknown c s) out → R (c :: cs) s out)
    {cs : List Constraint} {s : σ} {out : σ × Bool} (h : loop cs s = .ok out) : R cs s out := by
  induction cs generalizing s with
  | nil =>
    obtain rfl := Except.ok.inj ((hloop.nil s).symm.trans h)
    exact hnil s
  | cons c cs ih =>
    rw [hloop.cons] at h
    split_ifs at h with hk
    · obtain ⟨v, -, h⟩ := Result.bind_eq_ok.mp h
      split_ifs at h
      · cases h
        exact hfound c cs v s hk
      · exact hfail c cs v s out hk (ih h)
    · exact hunknown c cs s out hk (ih h)

end Stops

/-- Nothing vetoes: every clause with evidence fails. -/
theorem vetoLoop_passes {cs : List Constraint} (e : RuleEval) :
    (∃ e', vetoLoop l r cs e = .ok (e', false)) ↔
      ∀ c ∈ cs, constraintKnown l r c = true → Fails l r c := vetoLoop_stops.passes_iff e

/-- A clause that vetoes concludes the evaluation. -/
theorem vetoLoop_conclusion {cs : List Constraint} {e e' : RuleEval}
    (h : vetoLoop l r cs e = .ok (e', true)) : e'.conclusion = ⟨.declared .incompatible, true, true⟩ := by
  refine vetoLoop_stops.leaves
    (R := fun _ _ out => out.2 = true → out.1.conclusion = ⟨.declared .incompatible, true, true⟩)
    (fun _ => Bool.noConfusion) ?_ ?_ ?_ h rfl
  · intro c cs v e _ _
    rfl
  · intro c cs v e out _ hrest
    exact hrest
  · intro c cs e out _ hrest
    exact hrest

theorem vetoLoop_vetoed {cs : List Constraint} {e e' : RuleEval} (h : vetoLoop l r cs e = .ok (e', true)) :
    e'.outcome = .declared .incompatible := congrArg Conclusion.outcome (vetoLoop_conclusion h)

theorem anyLoop_passes {cs : List Constraint} (m : Bool) (e : RuleEval) :
    (∃ e' m', anyLoop l r cs m e = .ok (e', true, m')) ↔ FirstHolds l r cs := by
  rw [← anyLoop_stops.ends_iff (e, m)]
  simp only [anyLoop_eq_ok, Prod.exists]

variable (l r)

/-- The constraints let the kind of the rule decide. Nothing is asked of a veto
clause without evidence. -/
structure Passes (rule : CompatibilityRule) : Prop where
  veto : ∀ c ∈ rule.incompatibleWith, constraintKnown l r c = true → Fails l r c
  required : ∀ c ∈ rule.required, constraintKnown l r c = true ∧ Holds l r c
  anyOf : rule.anyOf = [] ∨ FirstHolds l r rule.anyOf

variable {l r}

/-- An outcome other than those of a failed stage has passed all of them. -/
theorem evalRule_passes {rule : CompatibilityRule} {e : RuleEval} (h : evalRule l r rule = .ok e)
    (hincompatible : e.outcome ≠ .declared .incompatible) (hunknown : e.outcome ≠ .declared .unknown)
    (hmissing : e.outcome ≠ .declared .insufficientEvidence) :
    Passes l r rule ∧ ∃ e₀, kindResult l r rule e₀ = .ok e := by
  cases evalRule_ended l r h with
  | vetoed veto => exact absurd (vetoLoop_vetoed veto) hincompatible
  | short e₁ e₂ veto required result =>
    subst result
    split_ifs at hmissing hunknown
    · exact absurd rfl hmissing
    · exact absurd rfl hunknown
  | noAlternative e₁ e₂ e₃ anyMissing veto required some any result =>
    subst result
    split_ifs at hmissing hunknown
    · exact absurd rfl hmissing
    · exact absurd rfl hunknown
  | byKind e₁ e₂ e₃ veto required any kind =>
    refine ⟨⟨(vetoLoop_passes _).mp ⟨e₁, veto⟩, (requiredLoop_passes _).mp ⟨e₂, required⟩, ?_⟩, e₃, kind⟩
    rcases any with ⟨hnil, -⟩ | ⟨anyMissing, hany⟩
    · exact .inl hnil
    · exact .inr ((anyLoop_passes _ _).mp ⟨e₃, anyMissing, hany⟩)

/-- Once the constraints have passed, the kind of the rule decides. -/
theorem evalRule_of_passes {rule : CompatibilityRule} (h : Passes l r rule) :
    ∃ e₀, evalRule l r rule = kindResult l r rule e₀ := by
  obtain ⟨e₁, hveto⟩ := (vetoLoop_passes { rule }).mpr h.veto
  obtain ⟨e₂, hreq⟩ := (requiredLoop_passes e₁).mpr h.required
  rw [evalRule, hveto, Result.ok_bind]
  simp only [Bool.false_eq_true, if_false]
  rw [hreq, Result.ok_bind]
  simp only [Bool.true_eq_false, if_false]
  by_cases hnil : rule.anyOf = []
  · rw [if_pos hnil]
    exact ⟨e₂, rfl⟩
  · obtain ⟨e₃, m, hloop⟩ := (anyLoop_passes false e₂).mpr (h.anyOf.resolve_left hnil)
    rw [if_neg hnil, hloop, Result.ok_bind]
    exact ⟨e₃, rfl⟩

/-! ### Affirmative outcomes -/

/-- `Exact`, `Compatible` and `CompatibleWithAdaptation`. -/
def Affirmative (o : Enum8 Outcome) : Prop :=
  o = .declared .exact ∨ o = .declared .compatible ∨ o = .declared .compatibleWithAdaptation

variable (l r)

/-- The kind of the rule turns passed constraints into an affirmative outcome. -/
def KindAffirms (rule : CompatibilityRule) : Prop :=
  match rule.kind with
  | .declared .conditional =>
    (∀ c ∈ rule.conditions, constraintKnown l r c = true ∧ Holds l r c) ∧ Affirmative rule.outcome
  | .declared .adaptation => True
  | .declared .explicitIncompat => False
  | _ => Affirmative rule.outcome

/-- A rule affirms the pair when its constraints pass and its kind makes an
affirmative outcome of that. -/
structure Affirms (rule : CompatibilityRule) : Prop extends Passes l r rule where
  kind : KindAffirms l r rule

variable {l r}

@[simp] theorem affirmative_incompatible : ¬ Affirmative (.declared .incompatible) := by
  simp [Affirmative]

@[simp] theorem affirmative_conditional : ¬ Affirmative (.declared .conditional) := by
  simp [Affirmative]

@[simp] theorem affirmative_unknown : ¬ Affirmative (.declared .unknown) := by
  simp [Affirmative]

@[simp] theorem affirmative_insufficientEvidence : ¬ Affirmative (.declared .insufficientEvidence) := by
  simp [Affirmative]

theorem kindResult_affirmative_iff (rule : CompatibilityRule) (e : RuleEval) :
    (∃ e', kindResult l r rule e = .ok e' ∧ e'.definite = true ∧ Affirmative e'.outcome) ↔
      KindAffirms l r rule := by
  unfold kindResult KindAffirms
  split
  · rw [← conditionLoop_passes e]
    simp only [Result.bind_eq_ok]
    constructor
    · rintro ⟨e', ⟨⟨e₁, cond⟩, hloop, h⟩, -, haff⟩
      cases h
      cases cond with
      | false => exact absurd haff (by simp)
      | true => exact ⟨⟨e₁, hloop⟩, haff⟩
    · rintro ⟨⟨e₁, hloop⟩, haff⟩
      exact ⟨_, ⟨(e₁, true), hloop, rfl⟩, rfl, haff⟩
  · simp [Affirmative]
  · simp
  · simp

theorem evalRule_affirmative {rule : CompatibilityRule} {e : RuleEval} (h : evalRule l r rule = .ok e)
    (haff : Affirmative e.outcome) : Passes l r rule ∧ ∃ e₀, kindResult l r rule e₀ = .ok e := by
  refine evalRule_passes h ?_ ?_ ?_ <;>
    · intro heq
      rw [heq] at haff
      simp at haff

/-- A rule affirms a pair exactly when its constraints and its kind do. -/
theorem evalRule_affirmative_iff (rule : CompatibilityRule) :
    (∃ e, evalRule l r rule = .ok e ∧ e.definite = true ∧ Affirmative e.outcome) ↔
      Affirms l r rule := by
  constructor
  · rintro ⟨e, h, hdef, haff⟩
    obtain ⟨hpasses, e₀, hkind⟩ := evalRule_affirmative h haff
    exact ⟨hpasses, (kindResult_affirmative_iff rule e₀).mp ⟨e, hkind, hdef, haff⟩⟩
  · rintro ⟨hpasses, hkind⟩
    obtain ⟨e₀, heq⟩ := evalRule_of_passes hpasses
    rw [heq]
    exact (kindResult_affirmative_iff rule e₀).mpr hkind

/-- Apart from adaptations, an affirmative outcome is the one the rule states. -/
theorem kindResult_outcome {rule : CompatibilityRule} {e e' : RuleEval}
    (h : kindResult l r rule e = .ok e') (haff : Affirmative e'.outcome) :
    e'.outcome = if rule.kind = .declared .adaptation then .declared .compatibleWithAdaptation
      else rule.outcome := by
  unfold kindResult at h
  split at h
  next hkind =>
    obtain ⟨⟨e₁, cond⟩, -, h⟩ := Result.bind_eq_ok.mp h
    cases h
    cases cond with
    | false => exact absurd haff (by simp)
    | true => exact (if_neg (by simp [hkind])).symm
  next hkind =>
    cases h
    rw [if_pos hkind]
  next =>
    cases h
    exact absurd haff (by simp)
  next hne _ =>
    cases h
    rw [if_neg hne]

/-- Only a rule that states `Exact` and is no adaptation evaluates to it. -/
theorem evalRule_exact_iff (rule : CompatibilityRule) :
    (∃ e, evalRule l r rule = .ok e ∧ e.definite = true ∧ e.outcome = .declared .exact) ↔
      Affirms l r rule ∧ rule.kind ≠ .declared .adaptation ∧ rule.outcome = .declared .exact := by
  have hstated : ∀ e, evalRule l r rule = .ok e → Affirmative e.outcome →
      e.outcome = if rule.kind = .declared .adaptation then .declared .compatibleWithAdaptation
        else rule.outcome := by
    intro e h haff
    obtain ⟨-, e₀, hkind⟩ := evalRule_affirmative h haff
    exact kindResult_outcome hkind haff
  constructor
  · rintro ⟨e, h, hdef, hexact⟩
    have haff : Affirmative e.outcome := .inl hexact
    have hout := hstated e h haff
    rw [hexact] at hout
    refine ⟨(evalRule_affirmative_iff rule).mp ⟨e, h, hdef, haff⟩, ?_⟩
    by_cases hadapt : rule.kind = .declared .adaptation
    · simp [hadapt] at hout
    · rw [if_neg hadapt] at hout
      exact ⟨hadapt, hout.symm⟩
  · rintro ⟨haffirms, hadapt, hexact⟩
    obtain ⟨e, h, hdef, haff⟩ := (evalRule_affirmative_iff rule).mpr haffirms
    refine ⟨e, h, hdef, ?_⟩
    rw [hstated e h haff, if_neg hadapt, hexact]

/-! ### What an evaluation keeps -/

/-- A property that does not depend on what an evaluation comes to, and that a constraint
noted as satisfied does not break. -/
structure Kept (P : RuleEval → Prop) : Prop where
  satisfied : ∀ e c v, P e → P { e with satisfied := e.satisfied ++ [satisfiedItem c v] }
  other : ∀ e definite incompat missing outcome failed adaptations missingEvidence, P e →
    P { e with definite, incompat, missing, outcome, failed, adaptations, missingEvidence }

section Kept
variable {P : RuleEval → Prop} (hP : Kept P)
include hP

theorem Kept.vetoLoop {cs : List Constraint} {e : RuleEval} {result : RuleEval × Bool}
    (h : vetoLoop l r cs e = .ok result) : P e → P result.1 := by
  refine vetoLoop_stops.leaves (R := fun _ e out => P e → P out.1) (fun _ he => he) ?_ ?_ ?_ h
  · intro c cs v e _ he
    exact hP.other e _ _ _ _ _ _ _ he
  · intro c cs v e out _ hrest he
    exact hrest (hP.satisfied e c v he)
  · intro c cs e out _ hrest he
    exact hrest (hP.other e _ _ _ _ _ _ _ he)

theorem Kept.requiredLoop {cs : List Constraint} {e : RuleEval} {result : RuleEval × Bool}
    (h : requiredLoop l r cs e = .ok result) : P e → P result.1 := by
  refine requiredLoop_gathers.leaves (R := fun _ e e' => P e → P e') (fun _ he => he) ?_ ?_ h
  · intro c cs v e e' _ hrest he
    exact hrest.elim (· (hP.satisfied e c v he)) (· (hP.other e _ _ _ _ _ _ _ he))
  · intro c cs e e' _ hrest he
    exact hrest (hP.other e _ _ _ _ _ _ _ he)

theorem Kept.conditionLoop {cs : List Constraint} {e : RuleEval} {result : RuleEval × Bool}
    (h : conditionLoop l r cs e = .ok result) : P e → P result.1 := by
  refine conditionLoop_gathers.leaves (R := fun _ e e' => P e → P e') (fun _ he => he) ?_ ?_ h
  · intro c cs v e e' _ hrest he
    exact hrest.elim (· he) (· (hP.other e _ _ _ _ _ _ _ he))
  · intro c cs e e' _ hrest he
    exact hrest (hP.other e _ _ _ _ _ _ _ he)

theorem Kept.anyLoop {cs : List Constraint} {m : Bool} {e : RuleEval} {result : RuleEval × Bool × Bool}
    (h : anyLoop l r cs m e = .ok result) : P e → P result.1 := by
  refine anyLoop_stops.leaves (R := fun _ s out => P s.1 → P out.1.1) (fun _ he => he) ?_ ?_ ?_
    (anyLoop_eq_ok.mp h)
  · intro c cs v s _ he
    exact hP.satisfied s.1 c v he
  · intro c cs v s out _ hrest he
    exact hrest (hP.other s.1 _ _ _ _ _ _ _ he)
  · intro c cs s out _ hrest
    exact hrest

theorem Kept.kindResult {rule : CompatibilityRule} {e e' : RuleEval} (h : kindResult l r rule e = .ok e')
    (he : P e) : P e' := by
  unfold CompatRegistry.kindResult at h
  split at h
  · obtain ⟨⟨e₁, cond⟩, hloop, h⟩ := Result.bind_eq_ok.mp h
    cases h
    exact hP.other e₁ _ _ _ _ _ _ _ (hP.conditionLoop hloop he)
  all_goals
    cases h
    exact hP.other e _ _ _ _ _ _ _ he

theorem Kept.evalRule {rule : CompatibilityRule} {e : RuleEval} (h : evalRule l r rule = .ok e)
    (hrule : P { rule }) : P e := by
  cases evalRule_ended l r h with
  | vetoed veto => exact (hP.vetoLoop veto hrule :)
  | short e₁ e₂ veto required result =>
    have h₂ : P e₂ := hP.requiredLoop required (hP.vetoLoop veto hrule :)
    subst result
    split <;> exact hP.other e₂ _ _ _ _ _ _ _ h₂
  | noAlternative e₁ e₂ e₃ anyMissing veto required some any result =>
    have h₂ : P e₂ := hP.requiredLoop required (hP.vetoLoop veto hrule :)
    have h₃ : P e₃ := hP.anyLoop any h₂
    subst result
    split <;> exact hP.other e₃ _ _ _ _ _ _ _ h₃
  | byKind e₁ e₂ e₃ veto required any kind =>
    have h₂ : P e₂ := hP.requiredLoop required (hP.vetoLoop veto hrule :)
    have h₃ : P e₃ := by
      rcases any with ⟨-, rfl⟩ | ⟨anyMissing, hany⟩
      · exact h₂
      · exact hP.anyLoop hany h₂
    exact hP.kindResult kind h₃

end Kept

/-- An evaluation names the rule that was evaluated. -/
theorem evalRule_rule {rule : CompatibilityRule} {e : RuleEval} (h : evalRule l r rule = .ok e) :
    e.rule = rule :=
  Kept.evalRule (P := fun e => e.rule = rule) ⟨fun _ _ _ he => he, fun _ _ _ _ _ _ _ _ he => he⟩ h rfl

variable (l r)

/-- A definite affirmative outcome rests on evidence: the veto clauses and the
required constraints were known, no veto held, the required ones did, and so did
an alternative, where there are any. -/
def EvidenceBacked (rule : CompatibilityRule) : Prop :=
  ∀ e, evalRule l r rule = .ok e → e.definite = true → Affirmative e.outcome →
    (∀ c ∈ rule.incompatibleWith, constraintKnown l r c = true ∧ ¬ Holds l r c) ∧
    (∀ c ∈ rule.required, constraintKnown l r c = true ∧ Holds l r c) ∧
    (rule.anyOf = [] ∨ ∃ c ∈ rule.anyOf, constraintKnown l r c = true ∧ Holds l r c)

/-- Outcomes rest on evidence exactly for the rules whose veto clauses are all
known, and for those that do not affirm the pair. -/
theorem evidenceBacked_iff (rule : CompatibilityRule) :
    EvidenceBacked l r rule ↔
      (∀ c ∈ rule.incompatibleWith, constraintKnown l r c = true) ∨ ¬ Affirms l r rule := by
  constructor
  · intro h
    by_cases haff : Affirms l r rule
    · obtain ⟨e, he, hdef, hpos⟩ := (evalRule_affirmative_iff rule).mpr haff
      exact .inl fun c hc => ((h e he hdef hpos).1 c hc).1
    · exact .inr haff
  · intro h e he hdef hpos
    have haff : Affirms l r rule := (evalRule_affirmative_iff rule).mp ⟨e, he, hdef, hpos⟩
    have hknown := h.resolve_right (not_not.mpr haff)
    refine ⟨fun c hc => ⟨hknown c hc, (haff.veto c hc (hknown c hc)).not_holds⟩, haff.required, ?_⟩
    rcases haff.anyOf with hnil | ⟨p, c, s, heq, -, hc⟩
    · exact .inl hnil
    · exact .inr ⟨c, heq ▸ by simp, hc⟩

end EvalRule

/-- A rule whose only clause vetoes a field that neither profile has. -/
def unseenVeto : CompatibilityRule :=
  { incompatibleWith := [{ field := ascii "family", expected := .str (ascii "llama") }] }

theorem not_evidenceBacked_unseenVeto :
    ¬ EvidenceBacked ⟨.declared .model, .record []⟩ ⟨.declared .model, .record []⟩ unseenVeto := by
  intro h
  let e : RuleEval :=
    { rule := unseenVeto, definite := true, missing := true, outcome := .declared .compatible
      missingEvidence := [ascii "family"] }
  obtain ⟨hveto, -⟩ := h e rfl rfl (.inr (.inl rfl))
  have hknown := (hveto _ List.mem_cons_self).1
  revert hknown
  decide

end CompatRegistry
