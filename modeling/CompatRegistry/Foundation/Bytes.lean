import Mathlib.Tactic
import Mathlib.Data.List.Lex

/-! Byte strings, big-endian words, and byte arrays of a fixed size. A byte
string is a list of octets; every integer on the wire is big-endian. -/

namespace Foundation

abbrev Bytes := List UInt8

/-- The bytes of an ASCII literal. -/
def ascii (s : String) : Bytes := s.toList.map fun c => UInt8.ofNat c.toNat

instance : Coe String Bytes := ⟨ascii⟩

/-- The decimal digits of a natural number, `std::to_string` of an unsigned integer. -/
def decimal (n : ℕ) : Bytes := ascii (Nat.repr n)

/-! ### Machine words as ordered types -/

instance linearOrderUInt8 : LinearOrder UInt8 where
  le_refl a := UInt8.le_refl a
  le_trans _ _ _ := UInt8.le_trans
  le_antisymm _ _ := UInt8.le_antisymm
  le_total := UInt8.le_total
  lt_iff_le_not_ge a b := by simp only [UInt8.lt_iff_toNat_lt, UInt8.le_iff_toNat_le]; omega
  toDecidableLE := inferInstance
  toDecidableLT := inferInstance

instance linearOrderUInt32 : LinearOrder UInt32 where
  le_refl a := UInt32.le_refl a
  le_trans _ _ _ := UInt32.le_trans
  le_antisymm _ _ := UInt32.le_antisymm
  le_total := UInt32.le_total
  lt_iff_le_not_ge a b := by simp only [UInt32.lt_iff_toNat_lt, UInt32.le_iff_toNat_le]; omega
  toDecidableLE := inferInstance
  toDecidableLT := inferInstance

/-! ### Big-endian words -/

/-- The low `8 * n` bits of `v`, most significant byte first. -/
def toBE : ℕ → ℕ → Bytes
  | 0, _ => []
  | n + 1, v => UInt8.ofNat (v >>> (8 * n)) :: toBE n v

/-- The accumulator loop `v = (v << 8) | b`. -/
def ofBE (bs : Bytes) : ℕ := bs.foldl (fun v b => v <<< 8 ||| b.toNat) 0

@[simp] theorem toBE_length (n v : ℕ) : (toBE n v).length = n := by
  induction n with
  | zero => rfl
  | succ n ih => simp [toBE, ih]

theorem two_pow_eight_mul (n : ℕ) : 2 ^ (8 * n) = 256 ^ n := by
  rw [pow_mul]; norm_num

theorem shift_or (v : ℕ) (b : UInt8) : v <<< 8 ||| b.toNat = v * 256 + b.toNat := by
  rw [← Nat.shiftLeft_add_eq_or_of_lt (UInt8.toNat_lt b), Nat.shiftLeft_eq]

private theorem foldl_shift (bs : Bytes) (v : ℕ) :
    bs.foldl (fun v b => v <<< 8 ||| b.toNat) v = v * 256 ^ bs.length + ofBE bs := by
  induction bs generalizing v with
  | nil => simp [ofBE]
  | cons b bs ih =>
    have h₁ := ih (v <<< 8 ||| b.toNat)
    have h₂ := ih (0 <<< 8 ||| b.toNat)
    simp only [ofBE, List.foldl_cons, List.length_cons] at h₁ h₂ ⊢
    rw [h₁, h₂, shift_or, shift_or]
    ring

@[simp] theorem ofBE_nil : ofBE [] = 0 := rfl

theorem ofBE_cons (b : UInt8) (bs : Bytes) :
    ofBE (b :: bs) = b.toNat * 256 ^ bs.length + ofBE bs := by
  rw [ofBE, List.foldl_cons, foldl_shift, shift_or]
  simp

theorem ofBE_lt (bs : Bytes) : ofBE bs < 256 ^ bs.length := by
  induction bs with
  | nil => simp
  | cons b bs ih =>
    have hb := UInt8.toNat_lt b
    rw [ofBE_cons, List.length_cons, pow_succ]
    nlinarith

theorem ofBE_toBE (n v : ℕ) : ofBE (toBE n v) = v % 256 ^ n := by
  induction n with
  | zero => simp [toBE, Nat.mod_one]
  | succ n ih =>
    rw [toBE, ofBE_cons, toBE_length, ih, UInt8.toNat_ofNat', Nat.shiftRight_eq_div_pow,
      two_pow_eight_mul, pow_succ 256 n]
    have hsplit : v % (256 ^ n * 256) = v % 256 ^ n + 256 ^ n * (v / 256 ^ n % 2 ^ 8) := Nat.mod_mul
    rw [hsplit, mul_comm (256 ^ n), add_comm]

theorem toBE_mod (n v : ℕ) : toBE n (v % 256 ^ n) = toBE n v := by
  suffices ∀ m, n ≤ m → toBE n (v % 256 ^ m) = toBE n v from this n le_rfl
  induction n with
  | zero => intros; rfl
  | succ n ih =>
    intro m hm
    rw [toBE, toBE, ih m (by omega)]
    congr 1
    obtain ⟨k, rfl⟩ : ∃ k, m = n + 1 + k := ⟨m - (n + 1), by omega⟩
    rw [← UInt8.toNat_inj, UInt8.toNat_ofNat', UInt8.toNat_ofNat', Nat.shiftRight_eq_div_pow,
      Nat.shiftRight_eq_div_pow, two_pow_eight_mul,
      show (256 : ℕ) ^ (n + 1 + k) = 256 ^ n * (256 * 256 ^ k) by ring, Nat.mod_mul_right_div_self,
      Nat.mod_mul_right_mod]

theorem toBE_ofBE (bs : Bytes) : toBE bs.length (ofBE bs) = bs := by
  induction bs with
  | nil => rfl
  | cons b bs ih =>
    have hlt := ofBE_lt bs
    have hb := UInt8.toNat_lt b
    rw [List.length_cons, toBE, ofBE_cons]
    congr 1
    · rw [← UInt8.toNat_inj, UInt8.toNat_ofNat', Nat.shiftRight_eq_div_pow,
        two_pow_eight_mul, mul_comm, Nat.mul_add_div (by positivity), Nat.div_eq_of_lt hlt]
      simp
    · rw [← toBE_mod, mul_comm, Nat.mul_add_mod, Nat.mod_eq_of_lt hlt, ih]

/-! ### Fixed-size arrays -/

/-- `std::array<unsigned char, n>`. -/
structure FixedBytes (n : ℕ) where
  bytes : Bytes
  size : bytes.length = n
  deriving DecidableEq

namespace FixedBytes

variable {n : ℕ}

@[ext] theorem ext {u v : FixedBytes n} (h : u.bytes = v.bytes) : u = v := by
  cases u; cases v; congr

def zero (n : ℕ) : FixedBytes n := ⟨List.replicate n 0, List.length_replicate⟩

/-- Byte-lexicographic comparison, as `std::array` compares. -/
instance : LinearOrder (FixedBytes n) :=
  LinearOrder.lift' FixedBytes.bytes fun _ _ => FixedBytes.ext

def isZero (u : FixedBytes n) : Bool := u.bytes.all (· == 0)

end FixedBytes

end Foundation
