import CompatRegistry.Rule

/-! The operators of a constraint on the operands that an evaluation comes to. Some
operators answer a kind that they cannot compare with a reason, others throw. `Min` and
`Max` compare integers as doubles, after a conversion of both signs to one word. -/

namespace CompatRegistry

open Foundation Canon

namespace Constraint

section Operands

variable (c : Constraint) (left right : Canon) (lk rk : Enum8 ProfileKind)

/-- What an evaluation compares: the value of the field, with that of the right field or
the expected one. -/
structure Operands (op : PredOp) (lv rhs : Canon) : Prop where
  operator : c.op = .declared op
  left : resolveProfileField lk left c.field = some lv
  right : if c.rightField ≠ [] ∧ readsRight op = true
    then resolveProfileField rk right c.rightField = some rhs else rhs = c.expected

variable {c left right lk rk}

theorem evaluate_of_operands {op : PredOp} {lv rhs : Canon} (h : c.Operands left right lk rk op lv rhs) :
    c.evaluate left right lk rk = c.compare op lv rhs := by
  have hright := h.right
  unfold evaluate
  rw [h.operator, h.left]
  simp only
  split_ifs with hr
  · rw [if_pos hr] at hright
    rw [hright]
  · rw [if_neg hr] at hright
    rw [hright]

/-! ### Kinds -/

/-- The operands are of kinds that the operator compares. -/
def suits (c : Constraint) (op : PredOp) (lv rhs : Canon) : Bool :=
  match op with
  | .min | .max => isNumeric lv && isNumeric c.expected
  | .versionLt | .versionLe | .versionGt | .versionGe => isVersion lv && isVersion rhs
  | .archFamily => lv.kind == .str
  | .featureReq | .truthy => lv.kind == .bool || lv.kind == .uint
  | .eq | .ne | .inSet => true

variable (c left right lk rk) in
/-- The evaluation returns, and operands that do not suit the operator make it fail with
a reason. -/
def Answers : Prop :=
  ∃ v, c.evaluate left right lk rk = .ok v ∧
    ∀ op lv rhs, c.Operands left right lk rk op lv rhs → c.suits op lv rhs = false →
      v.holds = false ∧ v.whyNot ≠ []

/-- A comparison of unsuitable operands that returns fails with a reason. -/
theorem compare_of_unsuited {op : PredOp} {lv rhs : Canon} {v : Verdict}
    (hcomparable : c.comparable op lv rhs = true) (hsuits : c.suits op lv rhs = false)
    (h : c.compare op lv rhs = .ok v) : v.holds = false ∧ v.whyNot ≠ [] := by
  cases op with
  | eq | ne | inSet => cases hsuits
  | min | max | versionLt | versionLe | versionGt | versionGe =>
    exact absurd hcomparable (ne_true_of_eq_false hsuits)
  | archFamily =>
    have hreason : ascii "architecture not a string" ≠ [] := by decide
    cases lv <;> cases hsuits <;> cases h <;> exact ⟨rfl, hreason⟩
  | featureReq | truthy =>
    have hreason : ascii "feature absent/unsupported" ≠ [] := by decide
    cases lv <;> cases hsuits <;> cases h <;> exact ⟨rfl, hreason⟩

theorem evaluable_of_operands {op : PredOp} {lv rhs : Canon} (h : c.Operands left right lk rk op lv rhs) :
    c.evaluable left right lk rk = c.comparable op lv rhs := by
  have hright := h.right
  unfold evaluable
  rw [h.operator, h.left]
  simp only
  split_ifs with hr
  · rw [if_pos hr] at hright
    rw [hright]
    rfl
  · rw [if_neg hr] at hright
    rw [hright]

/-- On well-formed values a constraint answers exactly when each operand that `Min`, `Max`
or a version operator comes to can be read. -/
theorem answers_iff_evaluable (hc : c.WF) (hl : left.WF) (hr : right.WF) :
    c.Answers left right lk rk ↔ c.evaluable left right lk rk = true := by
  rw [← evaluate_isOk hc hl hr lk rk]
  constructor
  · rintro ⟨v, hv, -⟩
    exact ⟨v, hv⟩
  · rintro ⟨v, hv⟩
    refine ⟨v, hv, fun op lv rhs hoperands hsuits => ?_⟩
    have hevaluable := (evaluate_isOk hc hl hr lk rk).mp ⟨v, hv⟩
    rw [evaluable_of_operands hoperands] at hevaluable
    rw [evaluate_of_operands hoperands] at hv
    exact compare_of_unsuited hevaluable hsuits hv

/-! ### Ranges -/

/-- An integer operand: its value, and the 64-bit word that is converted to a double. -/
inductive Integral : Canon → ℤ → ℕ → Prop
  | uint (v : UInt64) : Integral (.uint v) v.toNat v.toNat
  | int (v : Int64) : Integral (.int v) v.toInt v.toUInt64.toNat

variable (c left right lk rk) in
/-- The constraint under another operator returns, and holds. -/
def HoldsUnder (op : PredOp) : Prop :=
  ∃ v, { c with op := .declared op }.evaluate left right lk rk = .ok v ∧ v.holds = true

variable (c left right lk rk) in
/-- `Min` and `Max` hold as the integers `a` of the field and `b` of the expected value say. -/
def DecidesRange (a b : ℤ) : Prop :=
  (c.HoldsUnder left right lk rk .min ↔ b ≤ a) ∧ (c.HoldsUnder left right lk rk .max ↔ a ≤ b)

theorem Integral.numericValue {v : Canon} {a : ℤ} {x : ℕ} (h : Integral v a x) :
    numericValue v = .ok (Binary64.scaledOfNat x) := by
  cases h <;> rfl

/-- The word is the integer modulo `2 ^ 64`, so equal integers have one word. -/
theorem Integral.word_eq_emod {v : Canon} {a : ℤ} {x : ℕ} (h : Integral v a x) : (x : ℤ) = a % 2 ^ 64 := by
  cases h with
  | uint v =>
    have hlt := v.toNat_lt
    omega
  | int v =>
    have hsigned : v.toInt = if 2 * v.toUInt64.toNat < 2 ^ 64 then (v.toUInt64.toNat : ℤ)
        else (v.toUInt64.toNat : ℤ) - (2 ^ 64 : ℕ) := BitVec.toInt_eq_toNat_cond v.toBitVec
    have hlt := v.toUInt64.toNat_lt
    split_ifs at hsigned <;> omega

theorem holdsUnder_min_iff {lv : Canon} {a b : ℤ} {x y : ℕ}
    (hfield : resolveProfileField lk left c.field = some lv) (hl : Integral lv a x)
    (he : Integral c.expected b y) :
    c.HoldsUnder left right lk rk .min ↔ Binary64.roundNat y ≤ Binary64.roundNat x := by
  have hoperands : { c with op := .declared .min }.Operands left right lk rk .min lv c.expected :=
    ⟨rfl, hfield, by simp [readsRight]⟩
  unfold HoldsUnder
  rw [evaluate_of_operands hoperands, ← Binary64.scaledOfNat_le_iff]
  simp only [compare, hl.numericValue, he.numericValue, Result.ok_bind, Except.ok.injEq, exists_eq_left']
  split_ifs with h <;> simp [Verdict.yes, Verdict.no, h]

theorem holdsUnder_max_iff {lv : Canon} {a b : ℤ} {x y : ℕ}
    (hfield : resolveProfileField lk left c.field = some lv) (hl : Integral lv a x)
    (he : Integral c.expected b y) :
    c.HoldsUnder left right lk rk .max ↔ Binary64.roundNat x ≤ Binary64.roundNat y := by
  have hoperands : { c with op := .declared .max }.Operands left right lk rk .max lv c.expected :=
    ⟨rfl, hfield, by simp [readsRight]⟩
  unfold HoldsUnder
  rw [evaluate_of_operands hoperands, ← Binary64.scaledOfNat_le_iff]
  simp only [compare, hl.numericValue, he.numericValue, Result.ok_bind, Except.ok.injEq, exists_eq_left']
  split_ifs with h <;> simp [Verdict.yes, Verdict.no, h]

/-- A range is decided by the integers exactly when these are equal, or their words round to
different doubles and are in the order of the integers. -/
theorem decidesRange_iff {lv : Canon} {a b : ℤ} {x y : ℕ}
    (hfield : resolveProfileField lk left c.field = some lv) (hl : Integral lv a x)
    (he : Integral c.expected b y) :
    c.DecidesRange left right lk rk a b ↔
      a = b ∨ (Binary64.roundNat x ≠ Binary64.roundNat y ∧ (x < y ↔ a < b)) := by
  have hword : a = b → x = y := by
    rintro rfl
    have hx := hl.word_eq_emod
    have hy := he.word_eq_emod
    omega
  have hle : x ≤ y → Binary64.roundNat x ≤ Binary64.roundNat y := fun h => Binary64.roundNat_mono h
  have hge : y ≤ x → Binary64.roundNat y ≤ Binary64.roundNat x := fun h => Binary64.roundNat_mono h
  unfold DecidesRange
  rw [holdsUnder_min_iff hfield hl he, holdsUnder_max_iff hfield hl he]
  generalize Binary64.roundNat x = rx at *
  generalize Binary64.roundNat y = ry at *
  omega

end Operands

end Constraint

/-- A model of a data type, and nothing else. -/
def dtypePayload : Canon := .record [(10, .str (ascii "bf16"))]

/-- An architecture that is no string has a reason. -/
theorem answers_archFamily :
    Constraint.Answers { op := .declared .archFamily, field := ascii "parameter_count" }
      (.record [(8, .uint 7)]) .null (.declared .model) (.declared .model) := by
  apply (Constraint.answers_iff_evaluable ?_ ?_ ?_).mpr
  · decide
  · simp [Constraint.WF, Canon.WF, WFSeq]
  · simp [Canon.WF, WFRecord, SortedMap.Sorted]
  · simp [Canon.WF]

/-- A minimum for a string is an exception. -/
theorem not_answers_min :
    ¬ Constraint.Answers { op := .declared .min, field := ascii "dtype", expected := .uint 8 } dtypePayload
      .null (.declared .model) (.declared .model) := by
  rintro ⟨v, hv, -⟩
  have hthrows : Constraint.evaluate { op := .declared .min, field := ascii "dtype", expected := .uint 8 }
      dtypePayload .null (.declared .model) (.declared .model) =
        .error (.canonError "Canon::as_int: not Int") := by
    decide
  rw [hthrows] at hv
  cases hv

/-- The memory of a device, and a bound for it. -/
def memoryBound (bound : Canon) : Constraint := { field := ascii "total_memory", expected := bound }

theorem decidesRange_memory :
    (memoryBound (.uint 25769803776)).DecidesRange (.record [(6, .uint 34359738368)]) .null
      (.declared .device) (.declared .kernel) 34359738368 25769803776 :=
  (Constraint.decidesRange_iff rfl (.uint 34359738368) (.uint 25769803776)).mpr (.inr (by decide +kernel))

/-- A negative integer meets every minimum that it is cast above, and so does a number
that rounds up to the minimum. -/
theorem not_decidesRange_memory :
    ¬ (memoryBound (.uint 0)).DecidesRange (.record [(6, .int (-1))]) .null (.declared .device)
        (.declared .kernel) (-1) 0 ∧
      ¬ (memoryBound (.uint 9007199254740993)).DecidesRange (.record [(6, .uint 9007199254740992)]) .null
        (.declared .device) (.declared .kernel) 9007199254740992 9007199254740993 := by
  constructor
  · rintro ⟨hmin, -⟩
    have hholds : (memoryBound (.uint 0)).HoldsUnder (.record [(6, .int (-1))]) .null (.declared .device)
        (.declared .kernel) .min :=
      (Constraint.holdsUnder_min_iff rfl (.int (-1)) (.uint 0)).mpr (by decide +kernel)
    exact absurd (hmin.mp hholds) (by decide)
  · rintro ⟨hmin, -⟩
    have hholds : (memoryBound (.uint 9007199254740993)).HoldsUnder (.record [(6, .uint 9007199254740992)])
        .null (.declared .device) (.declared .kernel) .min :=
      (Constraint.holdsUnder_min_iff rfl (.uint 9007199254740992) (.uint 9007199254740993)).mpr
        (by decide +kernel)
    exact absurd (hmin.mp hholds) (by decide)

end CompatRegistry
