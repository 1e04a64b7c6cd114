import CompatRegistry.Identity

/-! SHA-256 as the registry computes it: padding, the message schedule, the
compression of each 64-byte block and the hexadecimal form of a digest. -/

namespace CompatRegistry

open Foundation

abbrev Digest := FixedBytes 32

namespace Sha256

structure Regs where
  (a b c d e f g h : UInt32)
  deriving DecidableEq

/-- The initial hash value. -/
def init : Regs :=
  ⟨0x6a09e667, 0xbb67ae85, 0x3c6ef372, 0xa54ff53a, 0x510e527f, 0x9b05688c, 0x1f83d9ab, 0x5be0cd19⟩

/-- The round constants. -/
def K : List UInt32 :=
  [0x428a2f98, 0x71374491, 0xb5c0fbcf, 0xe9b5dba5, 0x3956c25b, 0x59f111f1, 0x923f82a4, 0xab1c5ed5,
   0xd807aa98, 0x12835b01, 0x243185be, 0x550c7dc3, 0x72be5d74, 0x80deb1fe, 0x9bdc06a7, 0xc19bf174,
   0xe49b69c1, 0xefbe4786, 0x0fc19dc6, 0x240ca1cc, 0x2de92c6f, 0x4a7484aa, 0x5cb0a9dc, 0x76f988da,
   0x983e5152, 0xa831c66d, 0xb00327c8, 0xbf597fc7, 0xc6e00bf3, 0xd5a79147, 0x06ca6351, 0x14292967,
   0x27b70a85, 0x2e1b2138, 0x4d2c6dfc, 0x53380d13, 0x650a7354, 0x766a0abb, 0x81c2c92e, 0x92722c85,
   0xa2bfe8a1, 0xa81a664b, 0xc24b8b70, 0xc76c51a3, 0xd192e819, 0xd6990624, 0xf40e3585, 0x106aa070,
   0x19a4c116, 0x1e376c08, 0x2748774c, 0x34b0bcb5, 0x391c0cb3, 0x4ed8aa4a, 0x5b9cca4f, 0x682e6ff3,
   0x748f82ee, 0x78a5636f, 0x84c87814, 0x8cc70208, 0x90befffa, 0xa4506ceb, 0xbef9a3f7, 0xc67178f2]

def rotr (x n : UInt32) : UInt32 := (x >>> n) ||| (x <<< (32 - n))

/-- `while (msg.size() % 64 != 56) msg.push_back(0)`. -/
def padLoop : ℕ → Bytes → Bytes
  | 0, msg => msg
  | fuel + 1, msg => if msg.length % 64 = 56 then msg else padLoop fuel (msg ++ [0])

/-- The padded message: a one bit, zero bits, and the bit length as 64 bits. -/
def pad (data : Bytes) : Bytes :=
  padLoop 64 (data ++ [0x80]) ++ toBE 8 (data.length * 8)

/-- The big-endian words of a block. -/
def words : Bytes → List UInt32
  | a :: b :: c :: d :: rest =>
    ((a.toUInt32 <<< 24) ||| (b.toUInt32 <<< 16) ||| (c.toUInt32 <<< 8) ||| d.toUInt32) :: words rest
  | _ => []

/-- `w[i]` for `i = w.length`, at least 16. -/
def nextWord (w : List UInt32) : UInt32 :=
  let i := w.length
  let w15 := w.getD (i - 15) 0
  let w2 := w.getD (i - 2) 0
  let s0 := rotr w15 7 ^^^ rotr w15 18 ^^^ (w15 >>> 3)
  let s1 := rotr w2 17 ^^^ rotr w2 19 ^^^ (w2 >>> 10)
  w.getD (i - 16) 0 + s0 + w.getD (i - 7) 0 + s1

def schedule (w : List UInt32) : ℕ → List UInt32
  | 0 => w
  | n + 1 => let w' := schedule w n; w' ++ [nextWord w']

/-- One round with its constant and its schedule word. -/
def round (r : Regs) (kw : UInt32 × UInt32) : Regs :=
  let S1 := rotr r.e 6 ^^^ rotr r.e 11 ^^^ rotr r.e 25
  let ch := (r.e &&& r.f) ^^^ (~~~r.e &&& r.g)
  let t1 := r.h + S1 + ch + kw.1 + kw.2
  let S0 := rotr r.a 2 ^^^ rotr r.a 13 ^^^ rotr r.a 22
  let maj := (r.a &&& r.b) ^^^ (r.a &&& r.c) ^^^ (r.b &&& r.c)
  let t2 := S0 + maj
  ⟨t1 + t2, r.a, r.b, r.c, r.d + t1, r.e, r.f, r.g⟩

def Regs.add (x y : Regs) : Regs :=
  ⟨x.a + y.a, x.b + y.b, x.c + y.c, x.d + y.d, x.e + y.e, x.f + y.f, x.g + y.g, x.h + y.h⟩

def compress (h : Regs) (block : Bytes) : Regs :=
  h.add ((K.zip (schedule (words block) 48)).foldl round h)

/-- The first `n` blocks of a message. -/
def compressBlocks : ℕ → Bytes → Regs → Regs
  | 0, _, h => h
  | n + 1, msg, h => compressBlocks n (msg.drop 64) (compress h (msg.take 64))

def Regs.bytes (r : Regs) : Bytes :=
  [r.a, r.b, r.c, r.d, r.e, r.f, r.g, r.h].flatMap fun w => toBE 4 w.toNat

theorem Regs.bytes_length (r : Regs) : r.bytes.length = 32 := by
  simp [Regs.bytes]

def compute (data : Bytes) : Digest :=
  let msg := pad data
  let h := compressBlocks (msg.length / 64) msg init
  ⟨h.bytes, h.bytes_length⟩

def hexTable : Bytes := ascii "0123456789abcdef"

def hexBytes (bs : Bytes) : Bytes :=
  bs.flatMap fun c => [hexTable.getD (c.toNat >>> 4) 0, hexTable.getD (c.toNat &&& 0x0F) 0]

def hex (d : Digest) : Bytes := hexBytes d.bytes

/-! ### The hexadecimal form determines the digest -/

theorem hexTable_injective : ∀ i < 16, ∀ j < 16, hexTable.getD i 0 = hexTable.getD j 0 → i = j := by
  decide

theorem hexBytes_injective {xs ys : Bytes} (h : hexBytes xs = hexBytes ys) : xs = ys := by
  induction xs generalizing ys with
  | nil =>
    cases ys with
    | nil => rfl
    | cons y ys => simp [hexBytes] at h
  | cons x xs ih =>
    cases ys with
    | nil => simp [hexBytes] at h
    | cons y ys =>
      have hx := UInt8.toNat_lt x
      have hy := UInt8.toNat_lt y
      simp only [hexBytes, List.flatMap_cons, List.cons_append, List.nil_append, List.cons.injEq] at h
      obtain ⟨hhi, hlo, htl⟩ := h
      have hhi := hexTable_injective _ (by rw [Nat.shiftRight_eq_div_pow]; omega) _
        (by rw [Nat.shiftRight_eq_div_pow]; omega) hhi
      have hlo := hexTable_injective _ (Nat.lt_of_le_of_lt Nat.and_le_right (by decide)) _
        (Nat.lt_of_le_of_lt Nat.and_le_right (by decide)) hlo
      rw [Nat.shiftRight_eq_div_pow, Nat.shiftRight_eq_div_pow] at hhi
      rw [show (0x0F : ℕ) = 2 ^ 4 - 1 by rfl, Nat.and_two_pow_sub_one_eq_mod,
        Nat.and_two_pow_sub_one_eq_mod] at hlo
      have hxy : x = y := UInt8.toNat_inj.mp (by omega)
      rw [hxy, ih htl]

theorem hex_injective : Function.Injective hex := fun _ _ h =>
  FixedBytes.ext (hexBytes_injective h)

theorem hex_length (d : Digest) : (hex d).length = 64 := by
  unfold hex hexBytes
  rw [List.length_flatMap]
  simp [d.size]

theorem hex_ne_nil (d : Digest) : hex d ≠ [] := by
  intro h
  have hlength := hex_length d
  rw [h] at hlength
  cases hlength

example : hex (compute (ascii "abc")) =
    ascii "ba7816bf8f01cfea414140de5dae2223b00361a396177a9cb410ff61f20015ad" := by
  decide +kernel

end Sha256

end CompatRegistry
