import CompatRegistry.Operators
import CompatRegistry.Foundation.OrderKey
import Mathlib.Data.Nat.Digits.Defs

/-! Version strings of any number of components, and what the version operators make of
them. The code splits at the first dot and reads the digits in front of each part, so
that it compares the first two components and drops the rest. -/

namespace CompatRegistry

open Foundation Canon

/-! ### Version strings -/

/-- The number that a list of digits denotes. -/
def decimalValue (p : Bytes) : ℕ := Nat.ofDigits 10 (p.map fun c => c.toNat - 48).reverse

/-- A decimal component below `2 ^ 64`. -/
structure IsComponent (p : Bytes) : Prop where
  nonempty : p ≠ []
  digits : ∀ c ∈ p, isDigit c = true
  fits : decimalValue p < 2 ^ 64

instance decidableIsComponent (p : Bytes) : Decidable (IsComponent p) :=
  decidable_of_iff (p ≠ [] ∧ p.all isDigit = true ∧ decimalValue p < 2 ^ 64)
    ⟨fun ⟨h₁, h₂, h₃⟩ => ⟨h₁, List.all_eq_true.mp h₂, h₃⟩,
      fun h => ⟨h.nonempty, List.all_eq_true.mpr h.digits, h.fits⟩⟩

/-- One or more decimal components. -/
structure VersionList where
  components : List Bytes
  nonempty : components ≠ []
  decimal : ∀ p ∈ components, IsComponent p

namespace VersionList

/-- The components joined by dots. -/
def text (v : VersionList) : Bytes := [dot].intercalate v.components

/-- The numbers of the components, and zero behind the last, in lexicographic order. -/
def version (v : VersionList) : Lex (ℕ → ℕ) := toLex fun i => (v.components.map decimalValue).getD i 0

end VersionList

/-! ### The parser on a version string -/

theorem isDigit_dot : isDigit dot = false := by decide

theorem IsComponent.dot_not_mem {p : Bytes} (h : IsComponent p) : dot ∉ p := by
  intro hmem
  exact absurd (h.digits dot hmem) (by decide)

/-- The accumulator loop over the digits. -/
theorem decimalValue_eq_foldl (p : Bytes) :
    decimalValue p = p.foldl (fun n c => 10 * n + (c.toNat - 48)) 0 := by
  rw [decimalValue, Nat.ofDigits_eq_foldr, List.foldr_reverse, List.foldl_map]
  simp only [Nat.cast_id, add_comm]

/-- Nothing, or a dot with what follows it. -/
def rest (ps : List Bytes) : Bytes := if ps = [] then [] else dot :: [dot].intercalate ps

theorem intercalate_cons_rest (p : Bytes) (ps : List Bytes) :
    [dot].intercalate (p :: ps) = p ++ rest ps := by
  cases ps with
  | nil => simp [rest]
  | cons q ps => simp [rest]

/-- Digits end where a rest begins. -/
theorem takeWhile_rest {f : UInt8 → Bool} (hdot : f dot = false) {p : Bytes} (hp : ∀ c ∈ p, f c = true)
    (ps : List Bytes) : (p ++ rest ps).takeWhile f = p := by
  rw [List.takeWhile_append_of_pos hp]
  cases ps with
  | nil => simp [rest]
  | cons q ps => simp [rest, hdot]

theorem headOf_rest {p : Bytes} (hp : IsComponent p) (ps : List Bytes) : headOf (p ++ rest ps) = p :=
  takeWhile_rest (by decide) (fun c hc => by simpa using ne_of_mem_of_not_mem hc hp.dot_not_mem) ps

theorem tailOf_rest {p : Bytes} (hp : IsComponent p) (ps : List Bytes) :
    tailOf (p ++ rest ps) = [dot].intercalate ps := by
  rw [tailOf, List.dropWhile_append_of_pos fun c hc => by simpa using ne_of_mem_of_not_mem hc hp.dot_not_mem]
  cases ps with
  | nil => simp [rest]
  | cons q ps => simp [rest]

theorem parseNum_rest {p : Bytes} (hp : IsComponent p) (ps : List Bytes) :
    (parseNum (p ++ rest ps)).toNat = decimalValue p := by
  have hfits := hp.fits
  rw [parseNum, takeWhile_rest isDigit_dot hp.digits, ← decimalValue_eq_foldl]
  simp only [if_pos hfits]
  exact UInt64.toNat_ofNat_of_lt' hfits

/-- Nothing is filtered out of a version string. -/
theorem filter_intercalate {ps : List Bytes} (hps : ∀ p ∈ ps, IsComponent p) :
    ([dot].intercalate ps).filter (fun c => isDigit c || c == dot) = [dot].intercalate ps := by
  rw [List.filter_eq_self]
  induction ps with
  | nil => simp
  | cons p ps ih =>
    obtain ⟨hp, hps⟩ := List.forall_mem_cons.mp hps
    intro c hc
    rw [intercalate_cons_rest, List.mem_append] at hc
    rcases hc with hc | hc
    · simp [hp.digits c hc]
    · unfold rest at hc
      split_ifs at hc
      · cases hc
      · rcases List.mem_cons.mp hc with rfl | hc
        · simp
        · exact ih hps c hc

/-- The parser finds the first component, and the second. -/
theorem parseVer_text (v : VersionList) :
    ((parseVer v.text).major.toNat, (parseVer v.text).minor.toNat) = ofLex (OrderKey.firstTwo v.version) := by
  obtain ⟨components, hne, hdecimal⟩ := v
  simp only [parseVer, VersionList.text, VersionList.version, filter_intercalate hdecimal]
  cases components with
  | nil => exact absurd rfl hne
  | cons p ps =>
    obtain ⟨hp, hps⟩ := List.forall_mem_cons.mp hdecimal
    have hmajor : (parseNum p).toNat = decimalValue p := by simpa [rest] using parseNum_rest hp []
    rw [intercalate_cons_rest, headOf_rest hp, tailOf_rest hp, hmajor]
    cases ps with
    | nil => rfl
    | cons q qs =>
      rw [intercalate_cons_rest, parseNum_rest (hps q List.mem_cons_self)]
      rfl

/-! ### The operators -/

namespace Constraint

/-- A text of either kind. -/
inductive Textual : Canon → Bytes → Prop
  | str (s : Bytes) : Textual (.str s) s
  | bytes (s : Bytes) : Textual (.bytes s) s

theorem Textual.verOf {a : Canon} {s : Bytes} (h : Textual a s) : verOf a = .ok (parseVer s) := by
  cases h <;> rfl

section Versions
variable {c : Constraint} {left right : Canon} {lk rk : Enum8 ProfileKind} {v w : VersionList}

/-- The sign of the comparison is that of the first two components. -/
theorem cmpVer_texts {a b : Canon} (ha : Textual a v.text) (hb : Textual b w.text) :
    ∃ r, cmpVer a b = .ok r ∧ (r < 0 ↔ OrderKey.firstTwo v.version < OrderKey.firstTwo w.version) ∧
      (0 < r ↔ OrderKey.firstTwo w.version < OrderKey.firstTwo v.version) := by
  have hv := parseVer_text v
  have hw := parseVer_text w
  generalize OrderKey.firstTwo v.version = x at hv ⊢
  generalize OrderKey.firstTwo w.version = y at hw ⊢
  obtain ⟨hv₀, hv₁⟩ := Prod.ext_iff.mp hv
  obtain ⟨hw₀, hw₁⟩ := Prod.ext_iff.mp hw
  refine ⟨_, by rw [cmpVer, ha.verOf, hb.verOf]; rfl, ?_⟩
  rw [Prod.Lex.lt_iff, Prod.Lex.lt_iff, ← hv₀, ← hv₁, ← hw₀, ← hw₁]
  simp only [ne_eq, ← UInt64.toNat_inj, UInt64.lt_iff_toNat_lt]
  split_ifs <;> omega

variable (c left right lk rk) in
/-- The version operators hold as the lists compare. -/
structure DecidesVersions (v w : VersionList) : Prop where
  lt : c.HoldsUnder left right lk rk .versionLt ↔ v.version < w.version
  le : c.HoldsUnder left right lk rk .versionLe ↔ v.version ≤ w.version
  gt : c.HoldsUnder left right lk rk .versionGt ↔ w.version < v.version
  ge : c.HoldsUnder left right lk rk .versionGe ↔ w.version ≤ v.version

variable (c left right lk rk) in
/-- The value of the field, and what a version operator compares it with. -/
structure Compares (lv rhs : Canon) : Prop where
  left : resolveProfileField lk left c.field = some lv
  right : if c.rightField ≠ [] then resolveProfileField rk right c.rightField = some rhs
    else rhs = c.expected

theorem Compares.operands {lv rhs : Canon} (h : c.Compares left right lk rk lv rhs) {op : PredOp}
    (hop : readsRight op = true) :
    { c with op := .declared op }.Operands left right lk rk op lv rhs where
  operator := rfl
  left := h.left
  right := by simpa [hop] using h.right

/-- Under each operator the constraint holds as the first two components compare. -/
theorem holdsUnder_version {lv rhs : Canon} (h : c.Compares left right lk rk lv rhs)
    (hl : Textual lv v.text) (hr : Textual rhs w.text) :
    (c.HoldsUnder left right lk rk .versionLt ↔
        OrderKey.firstTwo v.version < OrderKey.firstTwo w.version) ∧
      (c.HoldsUnder left right lk rk .versionLe ↔
        OrderKey.firstTwo v.version ≤ OrderKey.firstTwo w.version) ∧
      (c.HoldsUnder left right lk rk .versionGt ↔
        OrderKey.firstTwo w.version < OrderKey.firstTwo v.version) ∧
      (c.HoldsUnder left right lk rk .versionGe ↔
        OrderKey.firstTwo w.version ≤ OrderKey.firstTwo v.version) := by
  obtain ⟨r, hr, hlt, hgt⟩ := cmpVer_texts hl hr
  unfold HoldsUnder
  rw [evaluate_of_operands (h.operands rfl), evaluate_of_operands (h.operands rfl),
    evaluate_of_operands (h.operands rfl), evaluate_of_operands (h.operands rfl), ← hlt, ← hgt,
    ← not_lt, ← not_lt, ← hlt, ← hgt]
  simp only [compare, hr, Result.ok_bind, Except.ok.injEq, exists_eq_left', Verdict.yes, Verdict.no]
  refine ⟨?_, ?_, ?_, ?_⟩ <;> split_ifs <;> simp <;> omega

/-- The operators compare the lists exactly when these differ in one of their first two
components, or nowhere. -/
theorem decidesVersions_iff {lv rhs : Canon} (h : c.Compares left right lk rk lv rhs)
    (hl : Textual lv v.text) (hr : Textual rhs w.text) :
    c.DecidesVersions left right lk rk v w ↔
      v.version 0 ≠ w.version 0 ∨ v.version 1 ≠ w.version 1 ∨ v.version = w.version := by
  obtain ⟨hlt, hle, hgt, hge⟩ := holdsUnder_version h hl hr
  have hagrees := OrderKey.agrees_iff OrderKey.firstTwo_monotone (x := v.version) (y := w.version)
  have hkey : OrderKey.firstTwo v.version ≠ OrderKey.firstTwo w.version ↔
      v.version 0 ≠ w.version 0 ∨ v.version 1 ≠ w.version 1 := by
    simp [OrderKey.firstTwo, Prod.ext_iff, imp_iff_not_or]
  rw [← or_assoc, ← hkey, ← hagrees]
  constructor
  · intro hd
    exact ⟨hlt.symm.trans hd.lt, hle.symm.trans hd.le, hgt.symm.trans hd.gt, hge.symm.trans hd.ge⟩
  · intro ha
    exact ⟨hlt.trans ha.lt, hle.trans ha.le, hgt.trans ha.gt, hge.trans ha.ge⟩

end Versions

end Constraint

/-- The compute capability of a kernel against that of a device. -/
def capabilityRelation : Constraint :=
  { field := ascii "compute_capability", rightField := ascii "compute_capability" }

theorem capabilityRelation_compares (lv rhs : Canon) :
    capabilityRelation.Compares (.record [(4, lv)]) (.record [(4, rhs)]) (.declared .kernel)
      (.declared .device) lv rhs := ⟨rfl, rfl⟩

def version120 : VersionList := ⟨[ascii "12", ascii "0"], by decide, by decide⟩

def version90 : VersionList := ⟨[ascii "9", ascii "0"], by decide, by decide⟩

theorem decidesVersions_major :
    capabilityRelation.DecidesVersions (.record [(4, .str (ascii "12.0"))]) (.record [(4, .str (ascii "9.0"))])
      (.declared .kernel) (.declared .device) version120 version90 :=
  (Constraint.decidesVersions_iff (v := version120) (w := version90) (capabilityRelation_compares _ _)
    (.str _) (.str _)).mpr (.inl (by decide))

def version123 : VersionList := ⟨[ascii "1", ascii "2", ascii "3"], by decide, by decide⟩

def version124 : VersionList := ⟨[ascii "1", ascii "2", ascii "4"], by decide, by decide⟩

theorem version123_lt : version123.version < version124.version := by
  refine ⟨2, fun i hi => ?_, by decide⟩
  interval_cases i <;> decide

/-- `1.2.3` is not found to be below `1.2.4`. -/
theorem not_decidesVersions_patch :
    ¬ capabilityRelation.DecidesVersions (.record [(4, .str (ascii "1.2.3"))])
      (.record [(4, .str (ascii "1.2.4"))]) (.declared .kernel) (.declared .device) version123 version124 := by
  intro h
  have hlt := (Constraint.holdsUnder_version (v := version123) (w := version124)
    (capabilityRelation_compares _ _) (.str _) (.str _)).1.mp (h.lt.mpr version123_lt)
  exact absurd hlt (lt_irrefl (OrderKey.firstTwo version123.version))

end CompatRegistry
