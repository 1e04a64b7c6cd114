import CompatRegistry.Profile
import CompatRegistry.Canon.Encode

/-! Outcomes, constraints and rules, and the evaluation of one constraint on two
profiles. The numeric and version operators read their operands with accessors
that throw on the wrong kind. -/

namespace CompatRegistry

open Foundation Canon

/-! ### Outcomes -/

inductive Outcome where
  | exact | compatible | compatibleWithAdaptation | conditional | incompatible | unknown
  | insufficientEvidence
  deriving DecidableEq, Repr

instance : Enumerated Outcome where
  code k := UInt8.ofNat k.ctorIdx
  enumerators := [.exact, .compatible, .compatibleWithAdaptation, .conditional, .incompatible,
    .unknown, .insufficientEvidence]
  complete k := by cases k <;> decide
  code_injective := by decide

def outcomeName : Enum8 Outcome → Result Bytes
  | .declared .exact => .ok "EXACT"
  | .declared .compatible => .ok "COMPATIBLE"
  | .declared .compatibleWithAdaptation => .ok "COMPATIBLE_WITH_ADAPTATION"
  | .declared .conditional => .ok "CONDITIONAL"
  | .declared .incompatible => .ok "INCOMPATIBLE"
  | .declared .unknown => .ok "UNKNOWN"
  | .declared .insufficientEvidence => .ok "INSUFFICIENT_EVIDENCE"
  | .undeclared _ _ => .error (.runtimeError "outcome_name: unknown outcome")

/-- Only a value that is no enumerator has no name. -/
theorem outcomeName_isOk {o : Enum8 Outcome} : (∃ name, outcomeName o = .ok name) ↔ o.isDeclared = true := by
  cases o with
  | declared o => cases o <;> simp [outcomeName, Enum8.isDeclared]
  | undeclared raw h => simp [outcomeName, Enum8.isDeclared]

/-! ### Rules -/

inductive RuleKind where
  | equality | exactIdentity | setMembership | numericRange | minCapability | maxCapability
  | versionRelation | semVerRelation | archFamily | featureRequirement | conjunction | disjunction
  | explicitIncompat | adaptation | conditional | dependency | policyOverride
  deriving DecidableEq, Repr

instance : Enumerated RuleKind where
  code k := UInt8.ofNat k.ctorIdx
  enumerators := [.equality, .exactIdentity, .setMembership, .numericRange, .minCapability,
    .maxCapability, .versionRelation, .semVerRelation, .archFamily, .featureRequirement, .conjunction,
    .disjunction, .explicitIncompat, .adaptation, .conditional, .dependency, .policyOverride]
  complete k := by cases k <;> decide
  code_injective := by decide

inductive PredOp where
  | eq | ne | inSet | min | max | versionLt | versionLe | versionGt | versionGe | archFamily
  | featureReq | truthy
  deriving DecidableEq, Repr

instance : Enumerated PredOp where
  code k := UInt8.ofNat k.ctorIdx
  enumerators := [.eq, .ne, .inSet, .min, .max, .versionLt, .versionLe, .versionGt, .versionGe,
    .archFamily, .featureReq, .truthy]
  complete k := by cases k <;> decide
  code_injective := by decide

structure Constraint where
  op : Enum8 PredOp := .declared .eq
  field : Bytes := []
  rightField : Bytes := []
  expected : Canon := .null
  expected2 : Canon := .null
  set : Seq := []
  note : Bytes := []

structure CompatibilityRule where
  ruleId : Uuid := Uuid.zero
  generation : Generation := 0
  domain : Bytes := []
  scope : Bytes := []
  priority : Int32 := 0
  active : Bool := true
  kind : Enum8 RuleKind := .declared .equality
  leftKind : Option (Enum8 ProfileKind) := none
  rightKind : Option (Enum8 ProfileKind) := none
  required : List Constraint := []
  anyOf : List Constraint := []
  incompatibleWith : List Constraint := []
  conditions : List Constraint := []
  adaptations : List Bytes := []
  outcome : Enum8 Outcome := .declared .compatible
  provenance : Bytes := []

/-- The values a constraint carries are well formed. -/
def Constraint.WF (c : Constraint) : Prop := c.expected.WF ∧ c.expected2.WF ∧ WFSeq c.set

structure CompatibilityRule.WF (rule : CompatibilityRule) : Prop where
  required : ∀ c ∈ rule.required, c.WF
  anyOf : ∀ c ∈ rule.anyOf, c.WF
  incompatibleWith : ∀ c ∈ rule.incompatibleWith, c.WF
  conditions : ∀ c ∈ rule.conditions, c.WF

/-! ### Versions -/

def isDigit (c : UInt8) : Bool := 0x30 ≤ c && c ≤ 0x39

/-- `std::from_chars` into a zero: the digits in front, unless there are none or
their value does not fit. -/
def parseNum (s : Bytes) : UInt64 :=
  let n := (s.takeWhile isDigit).foldl (fun n c => 10 * n + (c.toNat - 48)) 0
  if n < 2 ^ 64 then UInt64.ofNat n else 0

structure Ver where
  major : UInt64 := 0
  minor : UInt64 := 0
  deriving DecidableEq

/-- Digits and dots only; the part before the first dot and the part behind it. -/
def parseVer (s : Bytes) : Ver :=
  let t := s.filter fun c => isDigit c || c == dot
  { major := parseNum (headOf t), minor := parseNum (tailOf t) }

def verOf (a : Canon) : Result Ver :=
  match a with
  | .uint v => .ok { major := v }
  | _ => do
    let s ← a.asString
    .ok (parseVer s)

def cmpVer (a b : Canon) : Result ℤ := do
  let av ← verOf a
  let bv ← verOf b
  .ok (if av.major ≠ bv.major then (if av.major < bv.major then -1 else 1)
    else if av.minor ≠ bv.minor then (if av.minor < bv.minor then -1 else 1)
    else 0)

/-! ### Comparisons -/

/-- Values of one kind are compared by content; `-0.0` equals `0.0`. -/
def canonEqual (a b : Canon) : Result Bool :=
  match a, b with
  | .null, .null => .ok true
  | .uint v, .uint w => .ok (v == w)
  | .int v, .int w => .ok (v == w)
  | .bool v, .bool w => .ok (v == w)
  | .str v, .str w => .ok (v == w)
  | .bytes v, .bytes w => .ok (v == w)
  | .uuid v, .uuid w => .ok (v == w)
  | .float v, .float w => .ok (v.scaled == w.scaled)
  | .record v, .record w => do
    let fa ← canonicalFingerprint (.record v)
    let fb ← canonicalFingerprint (.record w)
    .ok (fa == fb)
  | .sequence v, .sequence w => do
    let fa ← canonicalFingerprint (.sequence v)
    let fb ← canonicalFingerprint (.sequence w)
    .ok (fa == fb)
  | _, _ => .ok false

/-- An operand of `Min` and `Max` as a double, in units of `2 ^ -1074`. The
conditional expression of the source has the type `uint64`, so an Int is cast
to it first. -/
def numericValue (a : Canon) : Result ℤ :=
  match a with
  | .float x => .ok x.scaled
  | .uint v => .ok (Binary64.scaledOfNat v.toNat)
  | _ => do
    let i ← a.asInt
    .ok (Binary64.scaledOfNat i.toUInt64.toNat)

/-- The value of a feature: a Bool, or a Uint other than zero. -/
def featureValue : Canon → Bool
  | .bool v => v
  | .uint v => v != 0
  | _ => false

/-- An allowed family is the architecture or a proper prefix of it. -/
def inFamily (val : Bytes) : Canon → Bool
  | .str fam => val == fam || (fam.length < val.length && val.take fam.length == fam)
  | _ => false

/-- The result of a constraint with the reasons it leaves in `why_ok` and `why_not`. -/
structure Verdict where
  holds : Bool
  whyOk : Bytes := []
  whyNot : Bytes := []
  deriving DecidableEq

def Verdict.yes (why : Bytes) : Verdict := { holds := true, whyOk := why }

def Verdict.no (why : Bytes) : Verdict := { holds := false, whyNot := why }

/-- `field '...' unknown on left`, and the like. -/
def quoted (before field after : Bytes) : Bytes := before ++ ascii " '" ++ field ++ ascii "' " ++ after

/-- Whether one of the values of the set is equal to `v`; the first one decides. -/
def anyEqual (v : Canon) : Seq → Result Bool
  | [] => .ok false
  | s :: q => do
    let e ← canonEqual v s
    if e then .ok true else anyEqual v q

namespace Constraint

/-- The operators from a value on the left and the value to compare it with. -/
def compare (c : Constraint) (op : PredOp) (lv rhs : Canon) : Result Verdict :=
  match op with
  | .eq => do
    let e ← canonEqual lv rhs
    .ok (if e then .yes (if c.rightField = [] then "field equals expected" else "field values equal")
      else .no (if c.rightField = [] then "field differs from expected" else "field values differ"))
  | .ne => do
    let e ← canonEqual lv rhs
    .ok (if e then .no (if c.rightField = [] then "field equals expected" else "field values equal")
      else .yes (if c.rightField = [] then "field differs from expected" else "field values differ"))
  | .inSet => do
    let e ← anyEqual lv c.set
    .ok (if e then .yes "value in allowed set" else .no "value not in allowed set")
  | .min => do
    let a ← numericValue lv
    let b ← numericValue c.expected
    .ok (if b ≤ a then .yes "meets minimum" else .no "below minimum")
  | .max => do
    let a ← numericValue lv
    let b ← numericValue c.expected
    .ok (if a ≤ b then .yes "within maximum" else .no "exceeds maximum")
  | .versionLt => do
    let r ← cmpVer lv rhs
    .ok (if r < 0 then .yes "version relation holds" else .no "version relation fails")
  | .versionLe => do
    let r ← cmpVer lv rhs
    .ok (if r ≤ 0 then .yes "version relation holds" else .no "version relation fails")
  | .versionGt => do
    let r ← cmpVer lv rhs
    .ok (if 0 < r then .yes "version relation holds" else .no "version relation fails")
  | .versionGe => do
    let r ← cmpVer lv rhs
    .ok (if 0 ≤ r then .yes "version relation holds" else .no "version relation fails")
  | .archFamily =>
    match lv with
    | .str val =>
      .ok (if c.set.any (inFamily val) then .yes "architecture in family"
        else .no "architecture not in family")
    | _ => .ok (.no "architecture not a string")
  | .featureReq | .truthy =>
    .ok (if featureValue lv then .yes "feature present" else .no "feature absent/unsupported")

/-- The operators that read the right field when the constraint names one. -/
def readsRight : PredOp → Bool
  | .eq | .ne | .versionLt | .versionLe | .versionGt | .versionGe => true
  | _ => false

def evaluate (c : Constraint) (left right : Canon) (lk rk : Enum8 ProfileKind) : Result Verdict :=
  match c.op with
  | .undeclared _ _ => .ok (.no "unknown predicate")
  | .declared op =>
    match resolveProfileField lk left c.field with
    | none =>
      .ok (.no (if op = .featureReq ∨ op = .truthy
        then quoted "feature" c.field "unknown/not observed"
        else quoted "field" c.field "unknown on left"))
    | some lv =>
      if c.rightField ≠ [] ∧ readsRight op = true then
        match resolveProfileField rk right c.rightField with
        | none => .ok (.no (quoted "field" c.rightField "unknown on right"))
        | some rv => c.compare op lv rv
      else c.compare op lv c.expected

/-! ### When an evaluation returns -/

/-- `Min` and `Max` read a Float, a Uint or an Int. -/
def isNumeric (a : Canon) : Bool := a.kind == .float || a.kind == .uint || a.kind == .int

/-- The version operators read a Uint, a Str or a Bytes. -/
def isVersion (a : Canon) : Bool := a.kind == .uint || a.kind == .str || a.kind == .bytes

/-- The operator can read its operands. -/
def comparable (c : Constraint) (op : PredOp) (lv rhs : Canon) : Bool :=
  match op with
  | .min | .max => isNumeric lv && isNumeric c.expected
  | .versionLt | .versionLe | .versionGt | .versionGe => isVersion lv && isVersion rhs
  | _ => true

/-- Every operand that an evaluation comes to can be read. -/
def evaluable (c : Constraint) (left right : Canon) (lk rk : Enum8 ProfileKind) : Bool :=
  match c.op, resolveProfileField lk left c.field with
  | .declared op, some lv =>
    if c.rightField ≠ [] ∧ readsRight op = true then
      (resolveProfileField rk right c.rightField).all (c.comparable op lv)
    else c.comparable op lv c.expected
  | _, _ => true

end Constraint

theorem canonEqual_isOk {a b : Canon} (ha : a.WF) (hb : b.WF) : ∃ e, canonEqual a b = .ok e := by
  cases a <;> cases b <;> first
    | exact ⟨_, rfl⟩
    | (rw [canonEqual, canonicalFingerprint_of_wf ha, canonicalFingerprint_of_wf hb]
       exact ⟨_, rfl⟩)

theorem anyEqual_isOk {v : Canon} {q : Seq} (hv : v.WF) (hq : WFSeq q) :
    ∃ e, anyEqual v q = .ok e := by
  induction q with
  | nil => exact ⟨_, rfl⟩
  | cons s q ih =>
    obtain ⟨e, he⟩ := canonEqual_isOk hv hq.1
    rw [anyEqual, he, Result.ok_bind]
    split_ifs
    · exact ⟨_, rfl⟩
    · exact ih hq.2

theorem numericValue_isOk {a : Canon} : (∃ n, numericValue a = .ok n) ↔ Constraint.isNumeric a = true := by
  cases a <;> simp [numericValue, Constraint.isNumeric, kind, asInt]

theorem verOf_isOk {a : Canon} : (∃ v, verOf a = .ok v) ↔ Constraint.isVersion a = true := by
  cases a <;> simp [verOf, Constraint.isVersion, kind, asString]

theorem cmpVer_isOk {a b : Canon} :
    (∃ r, cmpVer a b = .ok r) ↔ Constraint.isVersion a = true ∧ Constraint.isVersion b = true := by
  rw [← verOf_isOk, ← verOf_isOk]
  simp only [cmpVer, Result.bind_eq_ok, Except.ok.injEq]
  constructor
  · rintro ⟨r, v, hv, w, hw, -⟩
    exact ⟨⟨v, hv⟩, w, hw⟩
  · rintro ⟨⟨v, hv⟩, w, hw⟩
    exact ⟨_, v, hv, w, hw, rfl⟩

namespace Constraint

theorem compare_isOk {c : Constraint} {lv rhs : Canon} (hc : c.WF) (hl : lv.WF) (hr : rhs.WF)
    (op : PredOp) : (∃ v, c.compare op lv rhs = .ok v) ↔ c.comparable op lv rhs = true := by
  have hversion : ∀ f : ℤ → Verdict, (∃ v, (do let r ← cmpVer lv rhs; .ok (f r)) = Except.ok (ε := Fault) v) ↔
      (isVersion lv && isVersion rhs) = true := by
    intro f
    rw [Bool.and_eq_true, ← cmpVer_isOk]
    simp only [Result.bind_eq_ok, Except.ok.injEq]
    constructor
    · rintro ⟨_, r, hr, -⟩
      exact ⟨r, hr⟩
    · rintro ⟨r, hr⟩
      exact ⟨_, r, hr, rfl⟩
  have hnumeric : ∀ f : ℤ → ℤ → Verdict, (∃ v, (do
      let a ← numericValue lv
      let b ← numericValue c.expected
      .ok (f a b)) = Except.ok (ε := Fault) v) ↔ (isNumeric lv && isNumeric c.expected) = true := by
    intro f
    rw [Bool.and_eq_true, ← numericValue_isOk, ← numericValue_isOk]
    simp only [Result.bind_eq_ok, Except.ok.injEq]
    constructor
    · rintro ⟨_, a, ha, b, hb, -⟩
      exact ⟨⟨a, ha⟩, b, hb⟩
    · rintro ⟨⟨a, ha⟩, b, hb⟩
      exact ⟨_, a, ha, b, hb, rfl⟩
  cases op with
  | eq =>
    obtain ⟨e, he⟩ := canonEqual_isOk hl hr
    simp [compare, comparable, he]
  | ne =>
    obtain ⟨e, he⟩ := canonEqual_isOk hl hr
    simp [compare, comparable, he]
  | inSet =>
    obtain ⟨e, he⟩ := anyEqual_isOk hl hc.2.2
    simp [compare, comparable, he]
  | min => exact hnumeric _
  | max => exact hnumeric _
  | versionLt => exact hversion _
  | versionLe => exact hversion _
  | versionGt => exact hversion _
  | versionGe => exact hversion _
  | archFamily => cases lv <;> simp [compare, comparable]
  | featureReq => simp [compare, comparable]
  | truthy => simp [compare, comparable]

/-- On well-formed values an evaluation returns unless it comes to an operand
that its operator cannot read. -/
theorem evaluate_isOk {c : Constraint} {left right : Canon} (hc : c.WF) (hl : left.WF)
    (hr : right.WF) (lk rk : Enum8 ProfileKind) :
    (∃ v, c.evaluate left right lk rk = .ok v) ↔ c.evaluable left right lk rk = true := by
  unfold evaluate evaluable
  cases c.op with
  | undeclared raw h => simp
  | declared op =>
    cases hlv : resolveProfileField lk left c.field with
    | none => simp
    | some lv =>
      have hlwf := resolveProfileField_wf hl hlv
      simp only
      split_ifs
      · cases hrv : resolveProfileField rk right c.rightField with
        | none => simp
        | some rv =>
          simpa using compare_isOk hc hlwf (resolveProfileField_wf hr hrv) op
      · exact compare_isOk hc hlwf hc.1 op

end Constraint

end CompatRegistry
