import Mathlib.Tactic
import Mathlib.Analysis.SpecialFunctions.Pow.Real
import Mathlib.NumberTheory.PrimeCounting

/-! SHA-256 as the standard FIPS 180-4 defines it: on bit strings, with the constants
said by the roots of the primes, the padding by the equation that it solves, and the
message schedule by its recurrence. -/

namespace Foundation.Fips180

abbrev Word := BitVec 32

/-! ### Bit strings -/

/-- The `n` low bits of `v`, most significant bit first. -/
def natBits (n v : ℕ) : List Bool := (List.range n).map fun i => v.testBit (n - 1 - i)

def bitsToNat (bs : List Bool) : ℕ := bs.foldl (fun v b => 2 * v + b.toNat) 0

/-! ### Functions -/

def rotr (n : ℕ) (x : Word) : Word := x >>> n ||| x <<< (32 - n)

def ch (x y z : Word) : Word := (x &&& y) ^^^ (~~~x &&& z)

def maj (x y z : Word) : Word := (x &&& y) ^^^ (x &&& z) ^^^ (y &&& z)

def bigSigma₀ (x : Word) : Word := rotr 2 x ^^^ rotr 13 x ^^^ rotr 22 x

def bigSigma₁ (x : Word) : Word := rotr 6 x ^^^ rotr 11 x ^^^ rotr 25 x

def sigma₀ (x : Word) : Word := rotr 7 x ^^^ rotr 18 x ^^^ x >>> 3

def sigma₁ (x : Word) : Word := rotr 17 x ^^^ rotr 19 x ^^^ x >>> 10

/-! ### Constants -/

/-- The first 32 bits of the fractional part of the `d`-th root of `p`. -/
noncomputable def rootBits (d p : ℕ) : Word := BitVec.ofNat 32 ⌊Int.fract ((p : ℝ) ^ ((d : ℝ)⁻¹)) * 2 ^ 32⌋₊

/-- The cube roots of the first 64 primes. -/
noncomputable def K (t : ℕ) : Word := rootBits 3 (Nat.nth Nat.Prime t)

/-- The hash value after a block, and the working variables. -/
structure State where
  (a b c d e f g h : Word)

/-- The square roots of the first eight primes. -/
noncomputable def initial : State :=
  let H := fun i => rootBits 2 (Nat.nth Nat.Prime i)
  ⟨H 0, H 1, H 2, H 3, H 4, H 5, H 6, H 7⟩

/-! ### Padding -/

theorem exists_zeros (l : ℕ) : ∃ k, (l + 1 + k) % 512 = 448 := ⟨(959 - l % 512) % 512, by omega⟩

/-- The least number of zero bits that leaves 64 bits of the last block. -/
def zeros (l : ℕ) : ℕ := Nat.find (exists_zeros l)

/-- A one bit, the zero bits, and the length of the message in 64 bits. -/
def pad (m : List Bool) : List Bool :=
  m ++ [true] ++ List.replicate (zeros m.length) false ++ natBits 64 m.length

/-! ### Blocks -/

/-- The `i`-th block of 512 bits. -/
def block (m : List Bool) (i : ℕ) : List Bool := (m.drop (512 * i)).take 512

/-- The `t`-th word of a block. -/
def word (b : List Bool) (t : ℕ) : Word := BitVec.ofNat 32 (bitsToNat ((b.drop (32 * t)).take 32))

/-- The message schedule of a block. -/
def schedule (b : List Bool) (t : ℕ) : Word :=
  if t < 16 then word b t
  else sigma₁ (schedule b (t - 2)) + schedule b (t - 7) + sigma₀ (schedule b (t - 15)) + schedule b (t - 16)

/-- One round with its constant and its word of the schedule. -/
def round (k w : Word) (s : State) : State :=
  let T₁ := s.h + bigSigma₁ s.e + ch s.e s.f s.g + k + w
  let T₂ := bigSigma₀ s.a + maj s.a s.b s.c
  ⟨T₁ + T₂, s.a, s.b, s.c, s.d + T₁, s.e, s.f, s.g⟩

/-- The hash value `H` after the block `b`. -/
noncomputable def compress (H : State) (b : List Bool) : State :=
  let s := (List.range 64).foldl (fun s t => round (K t) (schedule b t) s) H
  ⟨s.a + H.a, s.b + H.b, s.c + H.c, s.d + H.d, s.e + H.e, s.f + H.f, s.g + H.g, s.h + H.h⟩

def State.bits (s : State) : List Bool :=
  [s.a, s.b, s.c, s.d, s.e, s.f, s.g, s.h].flatMap fun w => natBits 32 w.toNat

/-- The digest of a message of fewer than `2^64` bits. -/
noncomputable def sha256 (m : List Bool) : List Bool :=
  let p := pad m
  ((List.range (p.length / 512)).foldl (fun H i => compress H (block p i)) initial).bits

/-! ### Bits and numbers -/

@[simp] theorem natBits_length (n v : ℕ) : (natBits n v).length = n := by simp [natBits]

theorem natBits_add (m n v : ℕ) : natBits (m + n) v = natBits m (v >>> n) ++ natBits n v := by
  simp only [natBits, List.range_add, List.map_append, List.map_map]
  congr 1
  · apply List.map_congr_left
    intro i hi
    have hlt := List.mem_range.mp hi
    rw [Nat.testBit_shiftRight]
    congr 1
    omega
  · apply List.map_congr_left
    intro i hi
    simp only [Function.comp]
    congr 1
    omega

theorem natBits_mod {n : ℕ} (v : ℕ) {k : ℕ} (h : n ≤ k) : natBits n (v % 2 ^ k) = natBits n v := by
  apply List.map_congr_left
  intro i hi
  have hlt := List.mem_range.mp hi
  rw [Nat.testBit_mod_two_pow]
  simp [show n - 1 - i < k by omega]

theorem foldl_bits (bs : List Bool) (v : ℕ) :
    bs.foldl (fun v b => 2 * v + b.toNat) v = v * 2 ^ bs.length + bitsToNat bs := by
  induction bs generalizing v with
  | nil => simp [bitsToNat]
  | cons b bs ih =>
    rw [bitsToNat, List.foldl_cons, List.foldl_cons, ih, ih (2 * 0 + b.toNat), List.length_cons, pow_succ]
    ring

theorem bitsToNat_append (bs cs : List Bool) :
    bitsToNat (bs ++ cs) = bitsToNat bs * 2 ^ cs.length + bitsToNat cs := by
  rw [bitsToNat, List.foldl_append, foldl_bits]
  rfl

theorem bitsToNat_natBits (n v : ℕ) : bitsToNat (natBits n v) = v % 2 ^ n := by
  induction n with
  | zero => simp [natBits, bitsToNat, Nat.mod_one]
  | succ n ih =>
    have hbit : bitsToNat (natBits 1 (v >>> n)) = v / 2 ^ n % 2 := by
      rw [Nat.shiftRight_eq_div_pow]
      simp [natBits, bitsToNat, Nat.testBit_zero]
      rcases Nat.mod_two_eq_zero_or_one (v / 2 ^ n) with h | h <;> simp [h]
    rw [Nat.add_comm n 1, natBits_add, bitsToNat_append, ih, hbit, natBits_length, Nat.add_comm 1 n,
      Nat.pow_succ, Nat.mod_mul]
    ring

/-! ### The constants in integers -/

/-- Bounds on a scaled integer power give the bits of a root. -/
theorem rootBits_eq {d p i n : ℕ} (hd : d ≠ 0) (hn : n < 2 ^ 32) (hlo : (2 ^ 32 * i + n) ^ d ≤ p * 2 ^ (32 * d))
    (hhi : p * 2 ^ (32 * d) < (2 ^ 32 * i + n + 1) ^ d) : rootBits d p = BitVec.ofNat 32 n := by
  set x : ℝ := (p : ℝ) ^ ((d : ℝ)⁻¹) with hx
  have hx0 : 0 ≤ x := by positivity
  have hpow : (x * 2 ^ 32) ^ d = ((p * 2 ^ (32 * d) : ℕ) : ℝ) := by
    rw [mul_pow, hx, Real.rpow_inv_natCast_pow (Nat.cast_nonneg p) hd, ← pow_mul]
    push_cast
    ring
  have hle : ((2 ^ 32 * i + n : ℕ) : ℝ) ≤ x * 2 ^ 32 := by
    rw [← pow_le_pow_iff_left₀ (by positivity) (by positivity) hd, hpow]
    exact_mod_cast hlo
  have hlt : x * 2 ^ 32 < ((2 ^ 32 * i + n + 1 : ℕ) : ℝ) := by
    rw [← pow_lt_pow_iff_left₀ (by positivity) (by positivity) hd, hpow]
    exact_mod_cast hhi
  push_cast at hle hlt
  have hfloor : ⌊x⌋ = (i : ℤ) := by
    rw [Int.floor_eq_iff]
    have hn' : (n : ℝ) + 1 ≤ 2 ^ 32 := by exact_mod_cast hn
    have hn0 : (0 : ℝ) ≤ n := Nat.cast_nonneg n
    constructor
    · push_cast
      nlinarith
    · push_cast
      nlinarith
  have hbits : ⌊Int.fract x * 2 ^ 32⌋₊ = n := by
    rw [Int.fract, hfloor, Nat.floor_eq_iff (by push_cast; nlinarith)]
    push_cast
    constructor <;> linarith
  rw [rootBits, ← hx, hbits]

/-- The numbers below a bound that satisfy `P`, in order, are the first that do. -/
theorem nth_of_filter_range {P : ℕ → Prop} [DecidablePred P] {N t : ℕ}
    (ht : t < ((List.range N).filter P).length) : Nat.nth P t = ((List.range N).filter P)[t] := by
  induction N generalizing t with
  | zero => simp at ht
  | succ N ih =>
    have hcount : ((List.range N).filter P).length = Nat.count P N := List.countP_eq_length_filter.symm
    by_cases hold : t < ((List.range N).filter P).length
    · rw [ih hold]
      simp only [List.range_succ, List.filter_append]
      rw [List.getElem_append_left hold]
    · by_cases hN : P N
      · simp only [List.range_succ, List.filter_append, hN, List.filter_cons_of_pos, List.filter_nil, decide_true,
          List.length_append, List.length_cons, List.length_nil] at ht ⊢
        obtain rfl : t = Nat.count P N := by omega
        rw [Nat.nth_count hN, List.getElem_append_right (by omega)]
        simp
      · simp only [List.range_succ, List.filter_append, hN, List.length_append, decide_false, Bool.false_eq_true,
          not_false_eq_true, List.filter_cons_of_neg, List.filter_nil, List.length_nil] at ht
        omega

def firstPrimes : List ℕ :=
  [2, 3, 5, 7, 11, 13, 17, 19, 23, 29, 31, 37, 41, 43, 47, 53, 59, 61, 67, 71, 73, 79, 83, 89, 97, 101, 103, 107,
   109, 113, 127, 131, 137, 139, 149, 151, 157, 163, 167, 173, 179, 181, 191, 193, 197, 199, 211, 223, 227, 229,
   233, 239, 241, 251, 257, 263, 269, 271, 277, 281, 283, 293, 307, 311]

theorem nth_prime {t : ℕ} (ht : t < firstPrimes.length) : Nat.nth Nat.Prime t = firstPrimes[t] := by
  have hprime : Nat.Prime = fun n => 2 ≤ n ∧ ∀ m < n, m ∣ n → m = 1 := funext fun n => propext Nat.prime_def_lt
  have hfilter : (List.range 312).filter (fun n => 2 ≤ n ∧ ∀ m < n, m ∣ n → m = 1) = firstPrimes := by
    decide +kernel
  rw [hprime, nth_of_filter_range (N := 312) (by rw [hfilter]; exact ht)]
  simp only [hfilter]

/-! ### Padding -/

/-- The message and its end fill whole blocks. -/
theorem zeros_spec (l : ℕ) : (l + 1 + zeros l) % 512 = 448 := Nat.find_spec (exists_zeros l)

theorem zeros_eq {l k : ℕ} (hk : k < 512) (h : (l + 1 + k) % 512 = 448) : zeros l = k := by
  have hle : zeros l ≤ k := Nat.find_min' (exists_zeros l) h
  have hspec := zeros_spec l
  omega

end Foundation.Fips180
