import CompatRegistry.Foundation.Bytes
import CompatRegistry.Foundation.Binary64

/-! A finite double as an output stream of precision 17 writes it: the value rounded to
17 significant decimal digits, in fixed notation where the leading digit stands between
`10 ^ -4` and `10 ^ 16`, with an exponent elsewhere, and without trailing zeros. -/

namespace Foundation.DoubleText

/-- The exponent of the leading decimal digit of `num / den`. -/
def leadingExponent (num den : ℕ) : ℤ :=
  if den ≤ num then (Nat.log 10 (num / den) : ℤ) else -(Nat.clog 10 ((den + num - 1) / num) : ℤ)

/-- `num / den * 10 ^ (16 - e)` rounded to an integer, ties to even. -/
def roundedDigits (num den : ℕ) (e : ℤ) : ℕ :=
  let n := num * 10 ^ (16 - e).toNat
  let d := den * 10 ^ (e - 16).toNat
  let q := n / d
  let r := n % d
  if d < 2 * r ∨ (2 * r = d ∧ q % 2 = 1) then q + 1 else q

/-- Seventeen digits, and the exponent of the first of them. -/
def significand (num den : ℕ) : ℕ × ℤ :=
  let e := leadingExponent num den
  let q := roundedDigits num den e
  if q = 10 ^ 17 then (10 ^ 16, e + 1) else (q, e)

/-- The low `width` decimal digits of `n`. -/
def paddedDecimal (width n : ℕ) : Bytes :=
  (List.range width).map fun i => UInt8.ofNat (48 + n / 10 ^ (width - 1 - i) % 10)

/-- The digits behind the point, with the point, without trailing zeros. -/
def fractionText (digits : Bytes) : Bytes :=
  let kept := (digits.reverse.dropWhile (· = 48)).reverse
  if kept = [] then [] else 46 :: kept

/-- `e`, the sign, and at least two digits. -/
def exponentText (e : ℤ) : Bytes :=
  101 :: ((if e < 0 then [45] else [43]) ++ (if e.natAbs < 10 then paddedDecimal 2 e.natAbs else decimal e.natAbs))

/-- The digits `q` with `width` of them behind the point. -/
def pointText (width q : ℕ) : Bytes :=
  decimal (q / 10 ^ width) ++ fractionText (paddedDecimal width (q % 10 ^ width))

def magnitudeText (num den : ℕ) : Bytes :=
  if num = 0 then decimal 0
  else
    let (q, e) := significand num den
    if -4 ≤ e ∧ e < 17 then pointText (16 - e).toNat q else pointText 16 q ++ exponentText e

/-- `ss << std::setprecision(17) << x`. -/
def doubleText (x : Binary64) : Bytes :=
  (if x.negative then [45] else []) ++ magnitudeText x.scaled.natAbs (2 ^ 1074)

/-- The double nearest to 0.1. -/
example : doubleText ⟨0x3FB999999999999A⟩ = ascii "0.10000000000000001" := by decide +kernel

end Foundation.DoubleText
