import Mathlib.Tactic

/-! Double-precision numbers as bit patterns. A finite pattern is an integer
multiple of `2 ^ -1074`, so comparisons of finite doubles are comparisons of
integers, and a conversion from an integer rounds to 53 significant bits. Rounding
keeps the order of the integers, but not their difference. -/

namespace Foundation

structure Binary64 where
  bits : UInt64
  deriving DecidableEq

namespace Binary64

def negative (x : Binary64) : Bool := x.bits.toNat >>> 63 == 1

def exponent (x : Binary64) : ℕ := (x.bits.toNat >>> 52) % 2 ^ 11

def fraction (x : Binary64) : ℕ := x.bits.toNat % 2 ^ 52

/-- Neither an infinity nor a NaN. -/
def isFinite (x : Binary64) : Bool := x.exponent != 0x7FF

/-- The value of a finite pattern in units of `2 ^ -1074`. -/
def scaled (x : Binary64) : ℤ :=
  let magnitude := if x.exponent = 0 then x.fraction else (2 ^ 52 + x.fraction) <<< (x.exponent - 1)
  if x.negative then -(magnitude : ℤ) else magnitude

/-- `n` rounded to 53 significant bits, ties to even. -/
def roundNat (n : ℕ) : ℕ :=
  let k := n.log2 + 1 - 53
  let q := n >>> k
  let r := n % 2 ^ k
  (if 2 ^ k < 2 * r ∨ (2 * r = 2 ^ k ∧ q % 2 = 1) then q + 1 else q) <<< k

/-- The double nearest to an unsigned integer, in units of `2 ^ -1074`. -/
def scaledOfNat (n : ℕ) : ℤ := (roundNat n : ℤ) * 2 ^ 1074

/-! ### Rounding keeps the order -/

/-- `n` in units of `2 ^ k`, to the nearest, ties to even. -/
def nearestUnits (k n : ℕ) : ℕ :=
  if 2 ^ k < 2 * (n % 2 ^ k) ∨ (2 * (n % 2 ^ k) = 2 ^ k ∧ n / 2 ^ k % 2 = 1) then n / 2 ^ k + 1
  else n / 2 ^ k

theorem roundNat_eq (n : ℕ) :
    roundNat n = nearestUnits (n.log2 + 1 - 53) n * 2 ^ (n.log2 + 1 - 53) := by
  simp only [roundNat, nearestUnits, Nat.shiftRight_eq_div_pow, Nat.shiftLeft_eq]

theorem nearestUnits_bounds (k n : ℕ) :
    n / 2 ^ k ≤ nearestUnits k n ∧ nearestUnits k n ≤ n / 2 ^ k + 1 := by
  unfold nearestUnits
  split_ifs <;> omega

theorem nearestUnits_mono (k : ℕ) : Monotone (nearestUnits k) := by
  intro m n hmn
  rcases (Nat.div_le_div_right (c := 2 ^ k) hmn).lt_or_eq with hlt | heq
  · have hm := (nearestUnits_bounds k m).2
    have hn := (nearestUnits_bounds k n).1
    omega
  · -- with one quotient the remainders are in order
    have hm := Nat.div_add_mod m (2 ^ k)
    have hn := Nat.div_add_mod n (2 ^ k)
    rw [heq] at hm
    unfold nearestUnits
    rw [heq]
    generalize n / 2 ^ k = q at hm hn ⊢
    generalize 2 ^ k * q = base at hm hn
    split_ifs <;> omega

/-- A number is rounded within the powers of two around it. -/
theorem roundNat_bounds {n : ℕ} (hn : n ≠ 0) : 2 ^ n.log2 ≤ roundNat n ∧ roundNat n ≤ 2 ^ (n.log2 + 1) := by
  have hlow := Nat.log2_self_le hn
  have hhigh := Nat.lt_log2_self (n := n)
  obtain ⟨hq, hq'⟩ := nearestUnits_bounds (n.log2 + 1 - 53) n
  rw [roundNat_eq]
  generalize hk : n.log2 + 1 - 53 = k at hq hq' ⊢
  have hlowUnits : 2 ^ (n.log2 - k) ≤ n / 2 ^ k := by
    rw [Nat.le_div_iff_mul_le (by positivity), ← pow_add, Nat.sub_add_cancel (by omega)]
    exact hlow
  have hhighUnits : n / 2 ^ k < 2 ^ (n.log2 + 1 - k) := by
    rw [Nat.div_lt_iff_lt_mul (by positivity), ← pow_add, Nat.sub_add_cancel (by omega)]
    exact hhigh
  constructor
  · calc 2 ^ n.log2 = 2 ^ (n.log2 - k) * 2 ^ k := by rw [← pow_add, Nat.sub_add_cancel (by omega)]
      _ ≤ nearestUnits k n * 2 ^ k := Nat.mul_le_mul_right _ (hlowUnits.trans hq)
  · calc nearestUnits k n * 2 ^ k ≤ 2 ^ (n.log2 + 1 - k) * 2 ^ k :=
          Nat.mul_le_mul_right _ (by omega)
      _ = 2 ^ (n.log2 + 1) := by rw [← pow_add, Nat.sub_add_cancel (by omega)]

theorem log2_mono {m n : ℕ} (h : m ≤ n) : m.log2 ≤ n.log2 := by
  by_cases hm : m = 0
  · simp [hm]
  · exact (Nat.le_log2 (by omega)).mpr ((Nat.log2_self_le hm).trans h)

theorem roundNat_mono : Monotone roundNat := by
  intro m n hmn
  rcases (log2_mono hmn).lt_or_eq with hlt | heq
  · have hn : n ≠ 0 := by
      rintro rfl
      simp at hlt
    by_cases hm : m = 0
    · subst hm
      exact Nat.zero_le _
    · calc roundNat m ≤ 2 ^ (m.log2 + 1) := (roundNat_bounds hm).2
        _ ≤ 2 ^ n.log2 := Nat.pow_le_pow_right (by omega) hlt
        _ ≤ roundNat n := (roundNat_bounds hn).1
  · rw [roundNat_eq, roundNat_eq, heq]
    exact Nat.mul_le_mul_right _ (nearestUnits_mono _ hmn)

theorem scaledOfNat_le_iff {m n : ℕ} : scaledOfNat m ≤ scaledOfNat n ↔ roundNat m ≤ roundNat n := by
  unfold scaledOfNat
  rw [mul_le_mul_iff_left₀ (by positivity)]
  exact Nat.cast_le

end Binary64

/-- A double that is neither an infinity nor a NaN. -/
structure FiniteDouble extends Binary64 where
  finite : toBinary64.isFinite = true
  deriving DecidableEq

end Foundation
