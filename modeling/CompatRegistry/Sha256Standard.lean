import CompatRegistry.Foundation.Fips180
import CompatRegistry.Sha256

/-! The hash of the registry against the standard: the padding loop writes the padding
of the standard, the words of a block and the schedule are those of the standard, the
table holds its constants, and so the digests are equal. -/

namespace CompatRegistry

open Foundation

namespace Sha256

/-! ### Byte strings as bit strings -/

/-- The bits of a byte string, most significant bit of each byte first. -/
def bits (bs : Bytes) : List Bool := bs.flatMap fun b => Fips180.natBits 8 b.toNat

@[simp] theorem bits_nil : bits [] = [] := rfl

theorem bits_cons (b : UInt8) (bs : Bytes) : bits (b :: bs) = Fips180.natBits 8 b.toNat ++ bits bs := rfl

@[simp] theorem bits_append (bs cs : Bytes) : bits (bs ++ cs) = bits bs ++ bits cs := List.flatMap_append

@[simp] theorem bits_length (bs : Bytes) : (bits bs).length = 8 * bs.length := by
  induction bs with
  | nil => rfl
  | cons b bs ih =>
    rw [bits_cons, List.length_append, Fips180.natBits_length, ih, List.length_cons]
    omega

theorem bits_take {n : ℕ} {bs : Bytes} (h : n ≤ bs.length) : (bits bs).take (8 * n) = bits (bs.take n) := by
  conv_lhs => rw [← List.take_append_drop n bs, bits_append]
  rw [List.take_append_of_le_length (by simp [h]), List.take_of_length_le (by simp)]

theorem bits_drop {n : ℕ} {bs : Bytes} (h : n ≤ bs.length) : (bits bs).drop (8 * n) = bits (bs.drop n) := by
  have hsplit := List.take_append_drop (8 * n) (bits bs)
  conv_rhs at hsplit => rw [← List.take_append_drop n bs, bits_append]
  rw [bits_take h] at hsplit
  exact List.append_cancel_left hsplit

/-- A big-endian number has its own bits. -/
theorem bits_toBE (n v : ℕ) : bits (toBE n v) = Fips180.natBits (8 * n) v := by
  induction n with
  | zero => rfl
  | succ n ih =>
    rw [toBE, bits_cons, ih, UInt8.toNat_ofNat', Fips180.natBits_mod _ le_rfl, Nat.mul_succ, Nat.add_comm (8 * n),
      Fips180.natBits_add]

theorem bitsToNat_bits (bs : Bytes) : Fips180.bitsToNat (bits bs) = ofBE bs := by
  induction bs with
  | nil => rfl
  | cons b bs ih =>
    rw [bits_cons, Fips180.bitsToNat_append, Fips180.bitsToNat_natBits, ih, bits_length, ofBE_cons,
      Nat.mod_eq_of_lt b.toNat_lt, two_pow_eight_mul]

/-! ### Padding -/

/-- The number of zero bytes that the loop writes behind a message of `len` bytes and `0x80`. -/
def zeroBytes (len : ℕ) : ℕ := (119 - len % 64) % 64

theorem zeroBytes_lt (len : ℕ) : zeroBytes len < 64 := Nat.mod_lt _ (by norm_num)

/-- The loop stops at the first length that leaves eight bytes of a block. -/
theorem padLoop_eq {msg : Bytes} {z fuel : ℕ} (hz : (msg.length + z) % 64 = 56)
    (hmin : ∀ z' < z, (msg.length + z') % 64 ≠ 56) (hfuel : z ≤ fuel) :
    padLoop fuel msg = msg ++ List.replicate z 0 := by
  induction z generalizing msg fuel with
  | zero =>
    rw [List.replicate_zero, List.append_nil]
    cases fuel with
    | zero => rfl
    | succ fuel => exact if_pos hz
  | succ z ih =>
    obtain ⟨fuel, rfl⟩ : ∃ n, fuel = n + 1 := ⟨fuel - 1, by omega⟩
    have hnow : msg.length % 64 ≠ 56 := hmin 0 (Nat.succ_pos z)
    rw [padLoop, if_neg hnow, ih (by simpa [Nat.add_assoc, Nat.add_comm 1] using hz) ?_ (by omega),
      List.append_assoc, List.replicate_succ, List.singleton_append]
    intro z' hz'
    have := hmin (z' + 1) (by omega)
    simpa [Nat.add_assoc, Nat.add_comm 1] using this

/-- Sixty-four turns are enough for every message, and more change nothing. -/
theorem padLoop_message (data : Bytes) {fuel : ℕ} (hfuel : 64 ≤ fuel) :
    padLoop fuel (data ++ [0x80]) = data ++ [0x80] ++ List.replicate (zeroBytes data.length) 0 := by
  have hlt := zeroBytes_lt data.length
  apply padLoop_eq
  · simp only [List.length_append, List.length_cons, List.length_nil, zeroBytes]
    omega
  · intro z' hz'
    simp only [List.length_append, List.length_cons, List.length_nil]
    simp only [zeroBytes] at hz'
    omega
  · omega

theorem pad_eq (data : Bytes) :
    pad data = data ++ [0x80] ++ List.replicate (zeroBytes data.length) 0 ++ toBE 8 (data.length * 8) := by
  rw [pad, padLoop_message data le_rfl]

/-- The loop and the length field write the padding of the standard. -/
theorem bits_pad (data : Bytes) : bits (pad data) = Fips180.pad (bits data) := by
  have hzeros : Fips180.zeros (bits data).length = 7 + 8 * zeroBytes data.length := by
    have hlt := zeroBytes_lt data.length
    apply Fips180.zeros_eq
    · omega
    · rw [bits_length]
      simp only [zeroBytes]
      omega
  have hzero : ∀ n, bits (List.replicate n 0) = List.replicate (8 * n) false := by
    intro n
    induction n with
    | zero => rfl
    | succ n ih =>
      rw [List.replicate_succ, bits_cons, ih, Nat.mul_succ, Nat.add_comm (8 * n), List.replicate_add]
      rfl
  have hmark : bits [0x80] = [true] ++ List.replicate 7 false := by decide
  rw [pad_eq, Fips180.pad, hzeros, List.replicate_add, bits_append, bits_append, bits_append, hmark, hzero,
    bits_toBE, bits_length, Nat.mul_comm 8 data.length]
  simp only [List.append_assoc]

theorem pad_length (data : Bytes) : (pad data).length = data.length + 9 + zeroBytes data.length := by
  rw [pad_eq]
  simp only [List.length_append, List.length_cons, List.length_nil, List.length_replicate, toBE_length]
  omega

/-- The length field tells padded messages of different lengths apart. -/
theorem pad_injective {data data' : Bytes} (h : data.length < 2 ^ 61) (h' : data'.length < 2 ^ 61)
    (heq : pad data = pad data') : data = data' := by
  have htotal := congrArg List.length heq
  rw [pad_eq, pad_eq] at heq
  obtain ⟨hfront, hlength⟩ := List.append_inj' heq (by simp)
  have hlen : data.length = data'.length := by
    have := congrArg ofBE hlength
    rw [ofBE_toBE, ofBE_toBE] at this
    omega
  rw [List.append_assoc, List.append_assoc] at hfront
  exact (List.append_inj hfront hlen).1

/-! ### Words -/

/-- The four bytes of a word. -/
theorem word_toNat (a b c d : UInt8) :
    ((a.toUInt32 <<< 24) ||| (b.toUInt32 <<< 16) ||| (c.toUInt32 <<< 8) ||| d.toUInt32).toNat = ofBE [a, b, c, d] := by
  have hshift : ∀ (x : UInt8) (n : UInt32), n.toNat ≤ 24 → (x.toUInt32 <<< n).toNat = x.toNat <<< n.toNat := by
    intro x n hn
    have hx := x.toNat_lt
    have hpow : 2 ^ n.toNat ≤ 2 ^ 24 := Nat.pow_le_pow_right (by norm_num) hn
    rw [UInt32.toNat_shiftLeft, UInt8.toNat_toUInt32, Nat.mod_eq_of_lt (a := n.toNat) (by omega), Nat.shiftLeft_eq,
      Nat.mod_eq_of_lt]
    nlinarith
  simp only [UInt32.toNat_or, hshift _ 24 (by decide), hshift _ 16 (by decide), hshift _ 8 (by decide),
    UInt8.toNat_toUInt32, UInt32.reduceToNat]
  simp only [ofBE, List.foldl_cons, List.foldl_nil, Nat.zero_shiftLeft, Nat.zero_or, Nat.shiftLeft_or_distrib,
    ← Nat.shiftLeft_add]

/-- The words of a string of whole words. -/
theorem words_eq {n : ℕ} {bs : Bytes} (h : bs.length = 4 * n) :
    words bs = (List.range n).map fun t => UInt32.ofNat (ofBE ((bs.drop (4 * t)).take 4)) := by
  induction n generalizing bs with
  | zero =>
    obtain rfl := List.length_eq_zero_iff.mp h
    rfl
  | succ n ih =>
    rcases bs with _ | ⟨a, _ | ⟨b, _ | ⟨c, _ | ⟨d, rest⟩⟩⟩⟩
    · simp only [List.length_nil] at h
      omega
    · simp only [List.length_cons, List.length_nil] at h
      omega
    · simp only [List.length_cons, List.length_nil] at h
      omega
    · simp only [List.length_cons, List.length_nil] at h
      omega
    have hrest : rest.length = 4 * n := by
      simp only [List.length_cons] at h
      omega
    rw [words, ih hrest, List.range_succ_eq_map, List.map_cons, List.map_map, List.cons.injEq]
    constructor
    · show _ = UInt32.ofNat (ofBE [a, b, c, d])
      rw [← word_toNat, UInt32.ofNat_toNat]
    · apply List.map_congr_left
      intro t _
      rw [Function.comp, Nat.mul_succ, show 4 * t + 4 = 4 * t + 1 + 1 + 1 + 1 by ring]
      rfl

theorem words_block {block : Bytes} (h : block.length = 64) {t : ℕ} (ht : t < 16) :
    (UInt32.ofNat (ofBE ((block.drop (4 * t)).take 4))).toBitVec = Fips180.word (bits block) t := by
  have hfour : 4 ≤ (block.drop (4 * t)).length := by
    rw [List.length_drop]
    omega
  have htake : (bits (block.drop (4 * t))).take 32 = bits ((block.drop (4 * t)).take 4) := bits_take hfour
  have hle : 4 * t ≤ block.length := by omega
  rw [Fips180.word, show 32 * t = 8 * (4 * t) by ring, bits_drop hle, htake, bitsToNat_bits]
  rfl

/-! ### The compression function -/

/-- The working variables as words of the standard. -/
def Regs.state (r : Regs) : Fips180.State :=
  ⟨r.a.toBitVec, r.b.toBitVec, r.c.toBitVec, r.d.toBitVec, r.e.toBitVec, r.f.toBitVec, r.g.toBitVec, r.h.toBitVec⟩

theorem round_state (r : Regs) (kw : UInt32 × UInt32) :
    (round r kw).state = Fips180.round kw.1.toBitVec kw.2.toBitVec r.state := rfl

/-- The schedule is extended by the recurrence of the standard. -/
theorem schedule_eq {block : Bytes} (h : block.length = 64) (n : ℕ) :
    schedule (words block) n =
      (List.range (16 + n)).map fun t => UInt32.ofBitVec (Fips180.schedule (bits block) t) := by
  induction n with
  | zero =>
    rw [schedule, words_eq (n := 16) h]
    apply List.map_congr_left
    intro t ht
    have hlt := List.mem_range.mp ht
    rw [Fips180.schedule, if_pos hlt, ← words_block h hlt]
  | succ n ih =>
    rw [schedule, ih, ← Nat.add_assoc, List.range_succ, List.map_append, List.map_singleton]
    congr 2
    have hget : ∀ k, 1 ≤ k → k ≤ 16 →
        ((List.range (16 + n)).map fun t => UInt32.ofBitVec (Fips180.schedule (bits block) t)).getD (16 + n - k) 0 =
          UInt32.ofBitVec (Fips180.schedule (bits block) (16 + n - k)) := by
      intro k hk hk'
      rw [List.getD_eq_getElem _ _ (by simp; omega), List.getElem_map, List.getElem_range]
    simp only [nextWord, List.length_map, List.length_range]
    rw [hget 15 (by omega) (by omega), hget 2 (by omega) (by omega), hget 16 (by omega) (by omega),
      hget 7 (by omega) (by omega)]
    conv_rhs => rw [Fips180.schedule, if_neg (by omega)]
    apply UInt32.toBitVec_inj.mp
    show Fips180.schedule (bits block) (16 + n - 16) + Fips180.sigma₀ (Fips180.schedule (bits block) (16 + n - 15)) +
      Fips180.schedule (bits block) (16 + n - 7) + Fips180.sigma₁ (Fips180.schedule (bits block) (16 + n - 2)) =
      Fips180.sigma₁ (Fips180.schedule (bits block) (16 + n - 2)) + Fips180.schedule (bits block) (16 + n - 7) +
      Fips180.sigma₀ (Fips180.schedule (bits block) (16 + n - 15)) + Fips180.schedule (bits block) (16 + n - 16)
    ac_rfl

/-! ### Constants -/

/-- The `d`-th root of `x.1` has the bits `x.2` behind the point. -/
def HasBits (d : ℕ) (x : ℕ × UInt32) : Prop :=
  ∃ i < 8, (2 ^ 32 * i + x.2.toNat) ^ d ≤ x.1 * 2 ^ (32 * d) ∧ x.1 * 2 ^ (32 * d) < (2 ^ 32 * i + x.2.toNat + 1) ^ d

instance decidableHasBits (d : ℕ) (x : ℕ × UInt32) : Decidable (HasBits d x) :=
  inferInstanceAs (Decidable (∃ i < 8, _))

theorem HasBits.rootBits {d : ℕ} (hd : d ≠ 0) {x : ℕ × UInt32} (h : HasBits d x) :
    Fips180.rootBits d x.1 = x.2.toBitVec := by
  obtain ⟨i, -, hlo, hhi⟩ := h
  rw [Fips180.rootBits_eq hd x.2.toNat_lt hlo hhi]
  exact congrArg UInt32.toBitVec UInt32.ofNat_toNat

/-- The table holds the cube roots of the first 64 primes. -/
theorem K_eq {t : ℕ} (ht : t < 64) : (K.getD t 0).toBitVec = Fips180.K t := by
  have htable : ∀ x ∈ Fips180.firstPrimes.zip K, HasBits 3 x := by decide +kernel
  have hzip : t < (Fips180.firstPrimes.zip K).length := ht
  have hbits := htable _ (List.getElem_mem hzip)
  rw [List.getElem_zip] at hbits
  rw [Fips180.K, Fips180.nth_prime ht, List.getD_eq_getElem _ _ ht]
  exact (hbits.rootBits (by norm_num)).symm

/-- The initial hash value holds the square roots of the first eight primes. -/
theorem init_eq : init.state = Fips180.initial := by
  have htable : ∀ x ∈ [(2, init.a), (3, init.b), (5, init.c), (7, init.d), (11, init.e), (13, init.f),
      (17, init.g), (19, init.h)], HasBits 2 x := by decide +kernel
  simp only [List.forall_mem_cons] at htable
  obtain ⟨ha, hb, hc, hd, he, hf, hg, hh, -⟩ := htable
  have hprime : ∀ t (ht : t < Fips180.firstPrimes.length) (v : UInt32),
      HasBits 2 (Fips180.firstPrimes[t], v) → v.toBitVec = Fips180.rootBits 2 (Nat.nth Nat.Prime t) := by
    intro t ht v hv
    rw [Fips180.nth_prime ht]
    exact (hv.rootBits (by norm_num)).symm
  simp only [Regs.state, Fips180.initial, Fips180.State.mk.injEq]
  exact ⟨hprime 0 (by decide) _ ha, hprime 1 (by decide) _ hb, hprime 2 (by decide) _ hc, hprime 3 (by decide) _ hd,
    hprime 4 (by decide) _ he, hprime 5 (by decide) _ hf, hprime 6 (by decide) _ hg, hprime 7 (by decide) _ hh⟩

/-! ### The digest -/

theorem compress_state (h : Regs) {block : Bytes} (hblock : block.length = 64) :
    (compress h block).state = Fips180.compress h.state (bits block) := by
  have hzip : K.zip (schedule (words block) 48) =
      (List.range 64).map fun t => (K.getD t 0, UInt32.ofBitVec (Fips180.schedule (bits block) t)) := by
    rw [schedule_eq hblock]
    apply List.ext_getElem
    · simp only [List.length_zip, List.length_map, List.length_range]
      rfl
    · intro t ht ht'
      have hlt : t < K.length := show t < 64 by simpa using ht'
      simp only [List.getElem_zip, List.getElem_map, List.getElem_range, List.getD_eq_getElem _ _ hlt]
  have hrounds : ∀ (l : List ℕ) (r : Regs), (∀ t ∈ l, t < 64) →
      ((l.map fun t => (K.getD t 0, UInt32.ofBitVec (Fips180.schedule (bits block) t))).foldl round r).state =
        l.foldl (fun s t => Fips180.round (Fips180.K t) (Fips180.schedule (bits block) t) s) r.state := by
    intro l
    induction l with
    | nil => intro r _; rfl
    | cons t l ih =>
      intro r hl
      rw [List.map_cons, List.foldl_cons, List.foldl_cons, ih _ fun t ht => hl t (List.mem_cons_of_mem _ ht),
        round_state, K_eq (hl t List.mem_cons_self)]
  have hfold := hrounds (List.range 64) h fun t => List.mem_range.mp
  rw [compress, hzip, Fips180.compress, ← hfold]
  simp only [Regs.state, Regs.add, UInt32.toBitVec_add, BitVec.add_comm]

theorem compressBlocks_state {n : ℕ} {msg : Bytes} (hlen : msg.length = 64 * n) (h : Regs) :
    (compressBlocks n msg h).state =
      (List.range n).foldl (fun H i => Fips180.compress H (Fips180.block (bits msg) i)) h.state := by
  induction n generalizing msg h with
  | zero => rfl
  | succ n ih =>
    have hfirst : Fips180.block (bits msg) 0 = bits (msg.take 64) := by
      have hle : 64 ≤ msg.length := by omega
      rw [Fips180.block, Nat.mul_zero, List.drop_zero]
      exact bits_take hle
    have hrest : ∀ i, Fips180.block (bits msg) (i + 1) = Fips180.block (bits (msg.drop 64)) i := by
      intro i
      have hle : 64 ≤ msg.length := by omega
      rw [Fips180.block, Fips180.block, ← bits_drop hle, List.drop_drop]
      congr 2
      ring
    rw [compressBlocks, ih (by rw [List.length_drop]; omega), compress_state _ (by rw [List.length_take]; omega),
      List.range_succ_eq_map, List.foldl_cons, List.foldl_map, hfirst]
    simp only [hrest]

theorem bits_regs (r : Regs) : bits r.bytes = r.state.bits := by
  simp only [Regs.bytes, Fips180.State.bits, Regs.state, List.flatMap_cons, List.flatMap_nil, bits_append, bits_toBE,
    bits_nil]
  rfl

/-- The digest of a byte string is the SHA-256 of its bits. -/
theorem bits_compute (data : Bytes) : bits (compute data).bytes = Fips180.sha256 (bits data) := by
  have hlen : (pad data).length = 64 * ((pad data).length / 64) := by
    rw [pad_length]
    simp only [zeroBytes]
    omega
  have hblocks : (bits (pad data)).length / 512 = (pad data).length / 64 := by
    rw [bits_length]
    omega
  show bits (compressBlocks ((pad data).length / 64) (pad data) init).bytes = _
  rw [bits_regs, compressBlocks_state hlen, init_eq, Fips180.sha256, ← bits_pad, hblocks]

/-- The hash of the registry is SHA-256. The padding loop ends after the fewest zero
bytes that leave room for the length, however often it is allowed to turn, and
different messages are padded differently. -/
theorem compute_eq_sha256 {data : Bytes} (h : data.length < 2 ^ 61) :
    bits (compute data).bytes = Fips180.sha256 (bits data) ∧
    bits (pad data) = Fips180.pad (bits data) ∧
    (∃ z, (∀ fuel, 64 ≤ fuel → padLoop fuel (data ++ [0x80]) = data ++ [0x80] ++ List.replicate z 0) ∧
      (data.length + 1 + z) % 64 = 56 ∧ ∀ z' < z, (data.length + 1 + z') % 64 ≠ 56) ∧
    ∀ data' : Bytes, data'.length < 2 ^ 61 → pad data = pad data' → data = data' := by
  refine ⟨bits_compute data, bits_pad data, ⟨zeroBytes data.length, ?_, ?_, ?_⟩, fun data' h' => pad_injective h h'⟩
  · exact fun fuel hfuel => padLoop_message data hfuel
  · simp only [zeroBytes]
    omega
  · intro z' hz'
    simp only [zeroBytes] at hz'
    omega

theorem compute_eq_sha256_abc :
    bits (compute (ascii "abc")).bytes = Fips180.sha256 (bits (ascii "abc")) :=
  (compute_eq_sha256 (by decide)).1

end Sha256

end CompatRegistry
