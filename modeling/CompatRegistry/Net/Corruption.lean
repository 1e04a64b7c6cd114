import CompatRegistry.Foundation.ShiftRegister
import CompatRegistry.Canon.Overread
import CompatRegistry.Net.Frame

/-! Frames that were altered on the way. The checksum is the shift register of the
library, so it tells apart payloads that differ within four bytes. It covers the
payload only: the type of the message is accepted whatever it is. -/

namespace CompatRegistry

open Foundation Reader Canon

/-! ### The checksum as a shift register -/

/-- The feedback word of the checksum. -/
def crcPoly : BitVec 32 := 0xEDB88320

theorem crcPoly_top : crcPoly.getLsbD (32 - 1) = true := by decide

theorem crcBit_toBitVec (c : UInt32) : (crcBit c).toBitVec = ShiftRegister.step crcPoly c.toBitVec := by
  have hlow : c &&& 1 ≠ 0 ↔ c.toBitVec.getLsbD 0 = true := by
    rw [Ne, ← UInt32.toBitVec_inj, UInt32.toBitVec_and]
    show ¬ c.toBitVec &&& 1#32 = 0#32 ↔ _
    rw [BitVec.and_one_eq_setWidth_ofBool_getLsbD]
    cases c.toBitVec.getLsbD 0 <;> simp
  rw [crcBit, ShiftRegister.step]
  by_cases h : c &&& 1 ≠ 0
  · rw [if_pos h, if_pos (hlow.mp h)]
    rfl
  · rw [if_neg h, if_neg (mt hlow.mpr h)]
    rfl

theorem crcByte_toBitVec (c : UInt32) (x : UInt8) :
    (crcByte c x).toBitVec = ShiftRegister.feed crcPoly c.toBitVec x.toBitVec := by
  have hiterate : ∀ (n : ℕ) (d : UInt32),
      (crcBit^[n] d).toBitVec = (ShiftRegister.step crcPoly)^[n] d.toBitVec := by
    intro n
    induction n with
    | zero => intro d; rfl
    | succ n ih => intro d; rw [Function.iterate_succ_apply, Function.iterate_succ_apply, ih, crcBit_toBitVec]
  exact hiterate 8 _

theorem foldl_crcByte_toBitVec (data : Bytes) (c : UInt32) : (data.foldl crcByte c).toBitVec =
    (data.map UInt8.toBitVec).foldl (ShiftRegister.feed crcPoly) c.toBitVec := by
  induction data generalizing c with
  | nil => rfl
  | cons x data ih => rw [List.foldl_cons, ih, crcByte_toBitVec, List.map_cons, List.foldl_cons]

theorem crc32Js_append_ne {xs ys : Bytes} (hlen : xs.length = ys.length) (hfour : xs.length ≤ 4)
    (hne : xs ≠ ys) (front back : Bytes) : crc32Js (front ++ xs ++ back) ≠ crc32Js (front ++ ys ++ back) := by
  intro h
  have hfold := (UInt32.xor_left_inj _).mp h
  have hregister := congrArg UInt32.toBitVec hfold
  simp only [foldl_crcByte_toBitVec, List.map_append] at hregister
  refine ShiftRegister.foldl_feed_ne crcPoly_top ?_ ?_ ?_ _ _ _ hregister
  · simpa using hlen
  · rw [List.length_map]
    omega
  · intro hmap
    exact hne (List.map_injective_iff.mpr (fun _ _ => UInt8.toBitVec_inj.mp) hmap)

/-- Two strings of one length that differ, and agree outside four consecutive positions. -/
structure Burst (a b : Bytes) : Prop where
  length : a.length = b.length
  ne : a ≠ b
  window : ∃ i, ∀ j, j < i ∨ i + 4 ≤ j → a[j]? = b[j]?

theorem crc32Js_ne_of_burst {a b : Bytes} (h : Burst a b) : crc32Js a ≠ crc32Js b := by
  obtain ⟨hlen, hne, i, hwin⟩ := h
  have hsplit : ∀ l : Bytes, l = l.take i ++ (l.drop i).take 4 ++ l.drop (i + 4) := fun l => by
    rw [List.append_assoc, ← List.drop_drop, List.take_append_drop, List.take_append_drop]
  have hfront : a.take i = b.take i := by
    apply List.ext_getElem?
    intro j
    by_cases hj : j < i
    · rw [List.getElem?_take_of_lt hj, List.getElem?_take_of_lt hj, hwin j (.inl hj)]
    · rw [List.getElem?_take_eq_none (by omega), List.getElem?_take_eq_none (by omega)]
  have hback : a.drop (i + 4) = b.drop (i + 4) := by
    apply List.ext_getElem?
    intro j
    rw [List.getElem?_drop, List.getElem?_drop, hwin _ (.inr (by omega))]
  rw [hsplit a, hsplit b, hfront, hback]
  apply crc32Js_append_ne
  · simp only [List.length_take, List.length_drop, hlen]
  · simp
  · intro hmid
    apply hne
    rw [hsplit a, hsplit b, hfront, hmid, hback]

/-! ### What is read of a buffer -/

/-- The length field. -/
def wireLength (b : Bytes) : ℕ := ofBE ((b.drop 6).take 4)

/-- As many bytes behind the header as the length field says. -/
def wirePayload (b : Bytes) : Bytes := (b.drop 10).take (wireLength b)

/-- The header is in order, the buffer holds what the length field says, the four
bytes behind the payload, at 32-bit positions, are its checksum, and the payload
does not make the decoder throw. -/
structure Unframes (b : Bytes) : Prop where
  magic : At b 0 (toBE 4 0x43524E57)
  version : At b 4 [1]
  size : wireLength b + 14 ≤ b.length
  checksum : ∀ i < 4, b[(10 + wireLength b + i) % 2 ^ 32]? = (toBE 4 (crc32Js (wirePayload b)).toNat)[i]?
  payload : ¬ Throws (canonicalDecode (wirePayload b))

theorem wireLength_lt (b : Bytes) : wireLength b < 2 ^ 32 := by
  refine (ofBE_lt _).trans_le ?_
  rw [show (2 : ℕ) ^ 32 = 256 ^ 4 by norm_num]
  exact Nat.pow_le_pow_right (by norm_num) (by simp)

theorem at_wireLength {b : Bytes} (h : 10 ≤ b.length) : At b 6 (toBE 4 (wireLength b)) := by
  have hfour : ((b.drop 6).take 4).length = 4 := by
    rw [List.length_take, List.length_drop]
    omega
  have hbytes := toBE_ofBE ((b.drop 6).take 4)
  rw [hfour] at hbytes
  rw [wireLength, hbytes]
  exact List.take_prefix 4 _

theorem wireLength_of_at {b : Bytes} {n : ℕ} (h : At b 6 (toBE 4 n)) : wireLength b = n % 2 ^ 32 := by
  have htake := List.prefix_iff_eq_take.mp h
  rw [toBE_length] at htake
  rw [wireLength, ← htake, ofBE_toBE]
  rfl

/-- The checksum is read inside the buffer, wherever its positions wrap to. -/
theorem storedChecksum_eq_ok {b : Bytes} {len : ℕ} (hsize : len + 14 ≤ b.length) :
    ∃ stored, storedChecksum b len = .ok stored ∧
      ∀ crc : UInt32, crc.toNat = stored ↔ ∀ i < 4, b[(10 + len + i) % 2 ^ 32]? = (toBE 4 crc.toNat)[i]? := by
  have hread : ∀ i, i < 4 → ∃ x, b[(10 + len + i) % 2 ^ 32]? = some x := by
    intro i hi
    have hle := Nat.mod_le (10 + len + i) (2 ^ 32)
    exact ⟨_, List.getElem?_eq_getElem (by omega)⟩
  obtain ⟨b₀, h₀⟩ := hread 0 (by norm_num)
  obtain ⟨b₁, h₁⟩ := hread 1 (by norm_num)
  obtain ⟨b₂, h₂⟩ := hread 2 (by norm_num)
  obtain ⟨b₃, h₃⟩ := hread 3 (by norm_num)
  refine ⟨ofBE [b₀, b₁, b₂, b₃], ?_, fun crc => ?_⟩
  · rw [Nat.add_zero] at h₀
    rw [storedChecksum, byteAt_eq_ok.mpr h₀, byteAt_eq_ok.mpr h₁, byteAt_eq_ok.mpr h₂, byteAt_eq_ok.mpr h₃]
    rfl
  · have hsame : crc.toNat = ofBE [b₀, b₁, b₂, b₃] ↔ [b₀, b₁, b₂, b₃] = toBE 4 crc.toNat := by
      constructor
      · intro h
        rw [h]
        exact (toBE_ofBE [b₀, b₁, b₂, b₃]).symm
      · intro h
        rw [h, lt_of_tlv crc.toNat_lt]
    rw [hsame]
    constructor
    · rintro h i hi
      rw [← h]
      interval_cases i <;> assumption
    · intro h
      apply List.ext_getElem?
      intro i
      by_cases hi : i < 4
      · rw [← h i hi]
        interval_cases i <;> [exact h₀.symm; exact h₁.symm; exact h₂.symm; exact h₃.symm]
      · rw [List.getElem?_eq_none (by simp; omega), List.getElem?_eq_none (by rw [toBE_length]; omega)]

theorem exists_word_at {b : Bytes} {p : ℕ} (h : p + 4 ≤ b.length) : ∃ n < 2 ^ 32, At b p (toBE 4 n) := by
  have hfour : ((b.drop p).take 4).length = 4 := by
    rw [List.length_take, List.length_drop]
    omega
  have hbytes := toBE_ofBE ((b.drop p).take 4)
  have hlt := ofBE_lt ((b.drop p).take 4)
  rw [hfour] at hbytes hlt
  exact ⟨_, by simpa using hlt, hbytes ▸ List.take_prefix 4 _⟩

theorem exists_byte_at {b : Bytes} {p : ℕ} (h : p < b.length) : ∃ x, At b p [x] :=
  ⟨_, at_cons.mpr ⟨List.getElem?_eq_getElem h, at_nil _ _⟩⟩

/-- Two words at one place are one. -/
theorem word_unique {b : Bytes} {p m n : ℕ} (hm : m < 2 ^ 32) (hn : n < 2 ^ 32) (h : At b p (toBE 4 m))
    (h' : At b p (toBE 4 n)) : m = n := by
  rw [← lt_of_tlv hm, h.eq h' (by simp), lt_of_tlv hn]

theorem unframeMessage_throws_iff (b : Bytes) : Throws (unframeMessage b) ↔ ¬ Unframes b := by
  by_cases hten : b.length < 10
  · rw [unframeMessage, if_pos hten]
    simp only [throws_error_iff, ne_eq, reduceCtorEq, not_false_eq_true, and_self, true_iff]
    intro h
    have := h.size
    omega
  obtain ⟨magic, hmlt, hmagic⟩ := exists_word_at (b := b) (p := 0) (by omega)
  obtain ⟨ver, hver⟩ := exists_byte_at (b := b) (p := 4) (by omega)
  obtain ⟨type, htype⟩ := exists_byte_at (b := b) (p := 5) (by omega)
  have hlen := at_wireLength (b := b) (by omega)
  by_cases hm : magic = 0x43524E57
  swap
  · rw [unframeMessage, if_neg hten, BufReader.u32be_of_at (Nat.zero_le _) hmlt hmagic, Result.ok_bind]
    simp only [ne_eq, hm, not_false_eq_true, if_true, throws_error_iff, reduceCtorEq, and_self, true_iff]
    intro h
    exact hm (word_unique hmlt (by norm_num) hmagic h.magic)
  by_cases hv : ver = 1
  swap
  · rw [unframeMessage, if_neg hten, BufReader.u32be_of_at (Nat.zero_le _) hmlt hmagic, Result.ok_bind]
    simp only [ne_eq, hm, not_true_eq_false, if_false]
    rw [BufReader.u8_of_at hver, Result.ok_bind]
    simp only [ne_eq, hv, not_false_eq_true, if_true, throws_error_iff, reduceCtorEq, and_self, true_iff]
    intro h
    exact hv (by simpa using hver.eq h.version rfl)
  subst hm hv
  rw [unframeMessage_of_header (wireLength_lt b) hmagic hver htype hlen]
  by_cases hsize : wireLength b + 14 ≤ b.length
  swap
  · have hshort : ¬ Unframes b := fun h => hsize h.size
    split_ifs with hlt hsum
    · simpa using hshort
    · simpa using hshort
    · omega
  obtain ⟨stored, hstored, hbytes⟩ := storedChecksum_eq_ok hsize
  rw [if_neg (by omega), if_neg (by omega), hstored, Result.ok_bind, ← wirePayload]
  by_cases hcrc : (crc32Js (wirePayload b)).toNat = stored
  swap
  · have hbad : ¬ Unframes b := fun h => hcrc ((hbytes _).mpr h.checksum)
    simpa [hcrc] using hbad
  have hiff : Unframes b ↔ ¬ Throws (canonicalDecode (wirePayload b)) :=
    ⟨fun h => h.payload, fun h => ⟨hmagic, hver, hsize, (hbytes _).mp hcrc, h⟩⟩
  rw [if_neg (not_not.mpr hcrc), throws_bind_iff, hiff, not_not]
  simp only [not_throws_ok, and_false, exists_false, or_false]

/-! ### Buffers that agree in places -/

theorem at_iff_getElem? {b : Bytes} {p : ℕ} {e : Bytes} :
    At b p e ↔ ∀ i < e.length, b[p + i]? = e[i]? := by
  rw [At, List.prefix_iff_getElem?]
  constructor
  · intro h i hi
    rw [← List.getElem?_drop, h i hi, List.getElem?_eq_getElem hi]
  · intro h i hi
    rw [List.getElem?_drop, h i hi, List.getElem?_eq_getElem hi]

theorem At.congr {b b' : Bytes} {p : ℕ} {e : Bytes} (h : At b p e)
    (hsame : ∀ j, p ≤ j → j < p + e.length → b[j]? = b'[j]?) : At b' p e := by
  rw [at_iff_getElem?] at h ⊢
  intro i hi
  rw [← hsame (p + i) (by omega) (by omega), h i hi]

theorem At.getElem?_eq {b b' : Bytes} {p : ℕ} {e : Bytes} (h : At b p e) (h' : At b' p e) {j : ℕ}
    (hle : p ≤ j) (hlt : j < p + e.length) : b[j]? = b'[j]? := by
  rw [at_iff_getElem?] at h h'
  obtain ⟨i, rfl⟩ := Nat.exists_eq_add_of_le hle
  rw [h i (by omega), h' i (by omega)]

theorem slice_congr {b b' : Bytes} {p n : ℕ} (hsame : ∀ j, p ≤ j → j < p + n → b[j]? = b'[j]?) :
    (b.drop p).take n = (b'.drop p).take n := by
  apply List.ext_getElem?
  intro i
  by_cases hi : i < n
  · rw [List.getElem?_take_of_lt hi, List.getElem?_take_of_lt hi, List.getElem?_drop, List.getElem?_drop,
      hsame (p + i) (by omega) (by omega)]
  · rw [List.getElem?_take_eq_none (by omega), List.getElem?_take_eq_none (by omega)]

theorem At.of_take {b : Bytes} {p n : ℕ} {e : Bytes} (h : At (b.take n) p e) : At b p e := by
  rw [At, List.drop_take] at h
  exact h.trans (List.take_prefix _ _)

/-- In a buffer of at most `2^32` bytes the positions of the checksum do not wrap. -/
theorem Unframes.checksum_at {b : Bytes} (h : Unframes b) (hshort : b.length ≤ 2 ^ 32) :
    At b (10 + wireLength b) (toBE 4 (crc32Js (wirePayload b)).toNat) := by
  rw [at_iff_getElem?, toBE_length]
  intro i hi
  have hsize := h.size
  rw [← h.checksum i hi, Nat.mod_eq_of_lt (by omega)]

/-! ### A frame and an altered copy -/

/-- The root header of an encoding. -/
theorem headerAt_encoding {c : Canon} (h : c.encoding.length < 2 ^ 32) :
    ∃ kk, HeaderAt c.encoding 5 kk (c.encoding.length - 10) := by
  obtain ⟨-, -, hat, hlen⟩ := eq_encoding_iff.mp (rfl : c.encoding = c.encoding)
  obtain ⟨kk, payload, hframe⟩ := element_eq_frame c
  rw [hframe, frame_length] at hlen
  rw [hframe] at hat
  obtain ⟨hkind, hlength, -⟩ := at_frame.mp hat
  have hsub : c.encoding.length - 10 = payload.length := by omega
  exact ⟨kk, by omega, hkind, hsub ▸ hlength⟩

/-- The decoder throws on a proper prefix of an encoding: its root does not fit. -/
theorem canonicalDecode_take_throws {c : Canon} (hc : c.encoding.length < 2 ^ 32) {n : ℕ}
    (hn : n < c.encoding.length) : Throws (canonicalDecode (c.encoding.take n)) := by
  have hlen : (c.encoding.take n).length = n := by
    rw [List.length_take]
    omega
  by_cases hhead : ContainerHeader (c.encoding.take n)
  swap
  · obtain ⟨what, hwhat⟩ := canonicalDecode_of_not_header hhead
    rw [hwhat]
    simp
  have hsix := hhead.1
  rw [canonicalDecode_of_header hhead, throws_bind_iff]
  obtain ⟨fuel, hfuel⟩ : ∃ fuel, (c.encoding.take n).length = fuel + 1 := ⟨n - 1, by omega⟩
  refine .inl ?_
  conv =>
    arg 1
    arg 2
    rw [hfuel]
  rw [parseElement, throws_bind_iff]
  refine .inl ?_
  cases hread : parseHeader (c.encoding.take n) 5 (c.encoding.take n).length with
  | error e =>
    obtain ⟨what, rfl⟩ := parseHeader_eq_error hread
    simp
  | ok r =>
    obtain ⟨hroot, -, hseg⟩ := parseHeader_eq_ok.mp hread
    obtain ⟨kk, henc⟩ := headerAt_encoding hc
    have hpos := hroot.pos_le
    obtain ⟨-, hsame⟩ := HeaderAt.unique ⟨hroot.lt, hroot.kind.of_take, hroot.length.of_take⟩ henc
    rw [sizeSub, if_pos (by omega)] at hseg
    omega

namespace NetMessage

theorem at_frame (msg : NetMessage) :
    At msg.framed 0 (toBE 4 0x43524E57) ∧ At msg.framed 4 [1] ∧ At msg.framed 5 [msg.type.toByte] ∧
      At msg.framed 6 (toBE 4 msg.payload.encoding.length) ∧ At msg.framed 10 msg.payload.encoding ∧
      At msg.framed (10 + msg.payload.encoding.length) (toBE 4 (crc32Js msg.payload.encoding).toNat) := by
  simpa only [List.append_nil] using msg.at_framed []

theorem slice_framed (msg : NetMessage) {n : ℕ} (hn : n ≤ msg.payload.encoding.length) :
    (msg.framed.drop 10).take n = msg.payload.encoding.take n := by
  obtain ⟨-, -, -, -, hpl, -⟩ := msg.at_frame
  obtain ⟨rest, hrest⟩ := hpl
  rw [← hrest, List.take_append_of_le_length hn]

end NetMessage

/-- What a copy of a frame says about its payload, where the copy agrees with the frame. -/
theorem wireLength_of_agree {msg : NetMessage} {b : Bytes} (hshort : msg.framed.length ≤ 2 ^ 32)
    (h : ∀ j, 6 ≤ j → j < 10 → msg.framed[j]? = b[j]?) : wireLength b = msg.payload.encoding.length := by
  obtain ⟨-, -, -, hlength, -, -⟩ := msg.at_frame
  have hsize := msg.framed_length
  have hcopy := hlength.congr fun j hle hlt => h j hle (by rwa [toBE_length] at hlt)
  rw [wireLength_of_at hcopy, Nat.mod_eq_of_lt (by omega)]

theorem wirePayload_of_agree {msg : NetMessage} {b : Bytes} (hshort : msg.framed.length ≤ 2 ^ 32)
    (h : ∀ j, 6 ≤ j → j < 10 + msg.payload.encoding.length → msg.framed[j]? = b[j]?) :
    wirePayload b = msg.payload.encoding := by
  have hwire := wireLength_of_agree hshort fun j hle hlt => h j hle (by omega)
  have hslice := slice_congr fun j hle hlt => h j (show 6 ≤ j by omega) hlt
  rw [wirePayload, hwire, ← hslice, msg.slice_framed le_rfl, List.take_length]

/-- A frame and a copy of it in which payload bytes within four consecutive
positions were altered, header and checksum intact. -/
structure PayloadBurst (frame b : Bytes) : Prop extends Burst frame b where
  intact : ∀ j, j < 10 ∨ frame.length ≤ j + 4 → frame[j]? = b[j]?

/-- The copy does not carry the checksum of its payload. -/
theorem PayloadBurst.not_unframes {msg : NetMessage} {b : Bytes} (hshort : msg.framed.length ≤ 2 ^ 32)
    (h : PayloadBurst msg.framed b) : ¬ Unframes b := by
  intro hb
  have hsize := msg.framed_length
  set n := msg.payload.encoding.length with hn
  obtain ⟨-, -, -, -, -, hcrc⟩ := msg.at_frame
  have hwire : wireLength b = n := wireLength_of_agree hshort fun j _ hj => h.intact j (.inl hj)
  have hstored : At b (10 + n) (toBE 4 (crc32Js msg.payload.encoding).toNat) :=
    hcrc.congr fun j hj _ => h.intact j (.inr (by omega))
  have hown := hb.checksum_at (h.length ▸ hshort)
  rw [hwire] at hown
  have hsame := word_unique (UInt32.toNat_lt _) (UInt32.toNat_lt _) hstored hown
  have hpayload : ∀ j < n, msg.payload.encoding[j]? = msg.framed[10 + j]? := by
    intro j hj
    rw [← List.take_length (l := msg.payload.encoding), ← msg.slice_framed le_rfl,
      List.getElem?_take_of_lt hj, List.getElem?_drop]
  have hcopy : ∀ j < n, (wirePayload b)[j]? = b[10 + j]? := by
    intro j hj
    rw [wirePayload, hwire, List.getElem?_take_of_lt hj, List.getElem?_drop]
  have hlen : (wirePayload b).length = n := by
    rw [wirePayload, hwire, List.length_take, List.length_drop, ← h.length]
    omega
  refine crc32Js_ne_of_burst ⟨hlen.symm, fun heq => ?_, ?_⟩ (UInt32.toNat_inj.mp hsame)
  · apply h.ne
    apply List.ext_getElem?
    intro j
    by_cases hj : j < 10 ∨ msg.framed.length ≤ j + 4
    · exact h.intact j hj
    · have hj' : 10 + (j - 10) = j := by omega
      have := hcopy (j - 10) (by omega)
      rwa [← heq, hpayload _ (by omega), hj'] at this
  · obtain ⟨i, hi⟩ := h.window
    refine ⟨i - 10, fun j hj => ?_⟩
    by_cases hjn : j < n
    · rw [hpayload j hjn, hcopy j hjn, hi (10 + j) (by omega)]
    · rw [List.getElem?_eq_none (by omega), List.getElem?_eq_none (by omega)]

/-! ### One flipped bit -/

/-- The bits of a byte are counted from the low end. -/
def flipBit (b : Bytes) (k : ℕ) : Bytes := b.modify (k / 8) (· ^^^ UInt8.ofNat (1 <<< (k % 8)))

theorem flipBit_length (b : Bytes) (k : ℕ) : (flipBit b k).length = b.length := List.length_modify _ _ _

theorem flipBit_getElem?_of_ne {b : Bytes} {j k : ℕ} (h : j ≠ k / 8) : b[j]? = (flipBit b k)[j]? := by
  rw [flipBit, List.getElem?_modify]
  simp [h.symm]

theorem flipBit_getElem?_ne {b : Bytes} {k : ℕ} (h : k < 8 * b.length) : b[k / 8]? ≠ (flipBit b k)[k / 8]? := by
  have hlt : k / 8 < b.length := by omega
  have hbit : UInt8.ofNat (1 <<< (k % 8)) ≠ 0 := by
    have := Nat.mod_lt k (show 8 > 0 by norm_num)
    interval_cases k % 8 <;> decide
  rw [flipBit, List.getElem?_modify, List.getElem?_eq_getElem hlt]
  intro h
  simp only [if_true, Option.map_eq_map, Option.map_some, Option.some.injEq] at h
  have hzero : b[k / 8] ^^^ (0 : UInt8) = b[k / 8] ^^^ UInt8.ofNat (1 <<< (k % 8)) := by
    rw [UInt8.xor_zero]
    exact h
  exact hbit ((UInt8.xor_right_inj _).mp hzero).symm

/-- A copy of the same length that differs in the byte at `i` and nowhere else. -/
structure ByteChanged (frame b : Bytes) (i : ℕ) : Prop where
  length : b.length = frame.length
  ne : frame[i]? ≠ b[i]?
  same : ∀ j, j ≠ i → frame[j]? = b[j]?

theorem byteChanged_flipBit {b : Bytes} {k : ℕ} (h : k < 8 * b.length) : ByteChanged b (flipBit b k) (k / 8) where
  length := flipBit_length b k
  ne := flipBit_getElem?_ne h
  same _ := flipBit_getElem?_of_ne

namespace ByteChanged

variable {msg : NetMessage} {b : Bytes} {i : ℕ}

/-- With another length a longer payload does not fit, and a shorter one does not decode. -/
theorem not_unframes_length (h : ByteChanged msg.framed b i) (hshort : msg.framed.length ≤ 2 ^ 32)
    (hle : 6 ≤ i) (hlt : i < 10) : ¬ Unframes b := by
  intro hb
  have hsize := msg.framed_length
  have hlen := h.length
  obtain ⟨-, -, -, hlength, -, -⟩ := msg.at_frame
  have hne : wireLength b ≠ msg.payload.encoding.length := by
    intro heq
    have hat := at_wireLength (b := b) (by omega)
    rw [heq] at hat
    exact h.ne (hlength.getElem?_eq hat hle (by simpa using hlt))
  have hwire : wireLength b < msg.payload.encoding.length := by
    have := hb.size
    omega
  have hpayload : wirePayload b = msg.payload.encoding.take (wireLength b) := by
    rw [← msg.slice_framed hwire.le]
    exact slice_congr fun j hj _ => (h.same j (by omega)).symm
  apply hb.payload
  rw [hpayload]
  exact canonicalDecode_take_throws (by omega) hwire

theorem not_unframes_payload (h : ByteChanged msg.framed b i) (hshort : msg.framed.length ≤ 2 ^ 32)
    (hle : 10 ≤ i) (hlt : i < 10 + msg.payload.encoding.length) : ¬ Unframes b := by
  have hsize := msg.framed_length
  refine PayloadBurst.not_unframes hshort ⟨⟨h.length.symm, ?_, i, fun j hj => h.same j (by omega)⟩, ?_⟩
  · intro heq
    exact h.ne (by rw [heq])
  · intro j hj
    exact h.same j (by omega)

theorem not_unframes_checksum (h : ByteChanged msg.framed b i) (hshort : msg.framed.length ≤ 2 ^ 32)
    (hle : 10 + msg.payload.encoding.length ≤ i) (hlt : i < msg.framed.length) : ¬ Unframes b := by
  intro hb
  have hsize := msg.framed_length
  have hlen := h.length
  obtain ⟨-, -, -, -, -, hcrc⟩ := msg.at_frame
  have hown := hb.checksum_at (by omega)
  rw [wireLength_of_agree hshort fun j _ hj => h.same j (by omega),
    wirePayload_of_agree hshort fun j _ hj => h.same j (by omega)] at hown
  exact h.ne (hcrc.getElem?_eq hown hle (by rw [toBE_length]; omega))

/-- Nothing is checked against the type. -/
theorem unframes_type (h : ByteChanged msg.framed b 5) (hwf : msg.payload.WF)
    (hshort : msg.framed.length ≤ 2 ^ 32) : Unframes b := by
  have hsize := msg.framed_length
  have hlen := h.length
  obtain ⟨hmagic, hver, -, -, -, hcrc⟩ := msg.at_frame
  have hwire := wireLength_of_agree hshort fun j hle _ => h.same j (by omega)
  have hpayload := wirePayload_of_agree hshort fun j hle _ => h.same j (by omega)
  have hstored := hcrc.congr fun j hle _ => h.same j (by omega)
  refine ⟨hmagic.congr fun j _ hlt => h.same j (by rw [toBE_length] at hlt; omega),
    hver.congr fun j _ hlt => h.same j (by simp at hlt; omega), by omega, fun i hi => ?_, ?_⟩
  · rw [hwire, hpayload, Nat.mod_eq_of_lt (by omega)]
    exact at_iff_getElem?.mp hstored i (by simpa using hi)
  · have hfits : msg.payload.Fits := by
      apply fits_of_length
      obtain ⟨-, -, -, hfive⟩ := eq_encoding_iff.mp (rfl : msg.payload.encoding = msg.payload.encoding)
      omega
    rw [hpayload, canonicalDecode_eq_ok.mpr ⟨hwf, hfits, rfl⟩]
    exact not_throws_ok _

/-- Every byte of a frame is guarded but the type. -/
theorem unframes_iff (h : ByteChanged msg.framed b i) (hwf : msg.payload.WF)
    (hshort : msg.framed.length ≤ 2 ^ 32) (hi : i < msg.framed.length) : Unframes b ↔ i = 5 := by
  obtain ⟨hmagic, hver, -, -, -, -⟩ := msg.at_frame
  constructor
  · intro hb
    by_contra htype
    have hfield : i < 4 ∨ i = 4 ∨ (6 ≤ i ∧ i < 10) ∨ (10 ≤ i ∧ i < 10 + msg.payload.encoding.length) ∨
        10 + msg.payload.encoding.length ≤ i := by omega
    rcases hfield with hlt | heq | ⟨hle, hlt⟩ | ⟨hle, hlt⟩ | hle
    · exact h.ne (hmagic.getElem?_eq hb.magic (Nat.zero_le _) (by simpa using hlt))
    · exact h.ne (hver.getElem?_eq hb.version (by omega) (by simp; omega))
    · exact h.not_unframes_length hshort hle hlt hb
    · exact h.not_unframes_payload hshort hle hlt hb
    · exact h.not_unframes_checksum hshort hle hi hb
  · rintro rfl
    exact h.unframes_type hwf hshort

end ByteChanged

theorem unframes_flipBit_iff {msg : NetMessage} (hwf : msg.payload.WF) (hshort : msg.framed.length ≤ 2 ^ 32)
    {k : ℕ} (hk : k < 8 * msg.framed.length) : Unframes (flipBit msg.framed k) ↔ k / 8 = 5 :=
  (byteChanged_flipBit hk).unframes_iff hwf hshort (by omega)

/-- A frame of at most `2^32` bytes with one flipped bit is refused exactly if the
bit is not in the byte of the type. On a longer frame the length field and the
positions of the checksum have wrapped, and the flipped buffer is refused exactly
if it is not in order for what they have wrapped to. -/
theorem flipBit_throws_iff {type : Enum8 MsgType} {payload : Canon} (hbuilt : Built payload) {frame : Bytes}
    (hframe : frameMessage type payload = .ok frame) {k : ℕ} (hk : k < 8 * frame.length) :
    Throws (unframeMessage (flipBit frame k)) ↔
      if frame.length ≤ 2 ^ 32 then k / 8 ≠ 5 else ¬ Unframes (flipBit frame k) := by
  have hmsg := @frameMessage_of_wf { type, payload } hbuilt.wf
  rw [hframe] at hmsg
  obtain rfl := Except.ok.inj hmsg
  rw [unframeMessage_throws_iff]
  split_ifs with hshort
  · rw [unframes_flipBit_iff hbuilt.wf hshort hk]
  · exact Iff.rfl

theorem flipBit_throws_length : ∃ frame, frameMessage (.declared .ack) .null = .ok frame ∧
    Throws (unframeMessage (flipBit frame 72)) := by
  have hframe := @frameMessage_of_wf { type := .declared .ack, payload := .null } trivial
  refine ⟨_, hframe, (flipBit_throws_iff .null hframe ?_).mpr ?_⟩
  · simp [encoding, element, kMagic]
  · simp [encoding, element, kMagic]

/-- An acknowledgement whose type has one bit flipped is an error message. -/
theorem not_flipBit_throws_type : ∃ frame, frameMessage (.declared .ack) .null = .ok frame ∧
    flipBit frame 40 = (NetMessage.mk (.declared .error) .null).framed ∧
    ¬ Throws (unframeMessage (flipBit frame 40)) := by
  refine ⟨_, @frameMessage_of_wf { type := .declared .ack, payload := .null } trivial, by decide +kernel, ?_⟩
  have hlen : (NetMessage.mk (.declared .ack) .null).framed.length = 24 := by simp [encoding, element, kMagic]
  rw [unframeMessage_throws_iff, not_not]
  exact (@unframes_flipBit_iff (NetMessage.mk (.declared .ack) .null) trivial (by omega) 40 (by omega)).mpr rfl

/-! ### A burst in the payload -/

/-- Strings that differ within four bytes have different checksums. So a frame of at
most `2^32` bytes is refused after such a change of its payload; a longer frame is
refused exactly if the copy is not in order for what the length field and the
positions of the checksum have wrapped to. -/
theorem crc32Js_burst (a b : Bytes) (type : Enum8 MsgType) (payload : Canon) (frame altered : Bytes) :
    (Burst a b → crc32Js a ≠ crc32Js b) ∧
    (Built payload → frameMessage type payload = .ok frame → PayloadBurst frame altered →
      (Throws (unframeMessage altered) ↔ frame.length ≤ 2 ^ 32 ∨ ¬ Unframes altered)) := by
  refine ⟨crc32Js_ne_of_burst, fun hbuilt hframe hburst => ?_⟩
  have hmsg := @frameMessage_of_wf { type, payload } hbuilt.wf
  rw [hframe] at hmsg
  obtain rfl := Except.ok.inj hmsg
  rw [unframeMessage_throws_iff]
  constructor
  · exact .inr
  · rintro (hshort | h)
    · exact hburst.not_unframes hshort
    · exact h

/-- A change of at most four bytes behind the header and in front of the checksum. -/
theorem payloadBurst_append {front xs ys back : Bytes} (hlen : xs.length = ys.length) (hfour : xs.length ≤ 4)
    (hne : xs ≠ ys) (hfront : 10 ≤ front.length) (hback : 4 ≤ back.length) :
    PayloadBurst (front ++ xs ++ back) (front ++ ys ++ back) := by
  have hbefore : ∀ j < front.length, (front ++ xs ++ back)[j]? = (front ++ ys ++ back)[j]? := by
    intro j hj
    rw [List.append_assoc, List.append_assoc, List.getElem?_append_left hj, List.getElem?_append_left hj]
  have hbehind : ∀ j, front.length + xs.length ≤ j → (front ++ xs ++ back)[j]? = (front ++ ys ++ back)[j]? := by
    intro j hj
    rw [List.getElem?_append_right (by simpa using hj), List.getElem?_append_right (by simpa [← hlen] using hj)]
    simp only [List.length_append, hlen]
  refine ⟨⟨by simp [hlen], fun h => ?_, front.length, ?_⟩, ?_⟩
  · exact hne (List.append_cancel_left (List.append_cancel_right h))
  · rintro j (hj | hj)
    · exact hbefore j hj
    · exact hbehind j (by omega)
  · rintro j (hj | hj)
    · exact hbefore j (by omega)
    · simp only [List.length_append] at hj
      exact hbehind j (by omega)

/-- The message with the payload "ok", and its frame in three parts. -/
def okMessage : NetMessage := { payload := .str (ascii "ok") }

def okFront : Bytes := okMessage.framed.take 20

def okBack : Bytes := okMessage.framed.drop 22

theorem crc32Js_burst_ok : crc32Js (ascii "ok") ≠ crc32Js (ascii "OK") ∧
    Throws (unframeMessage (okFront ++ ascii "OK" ++ okBack)) := by
  have hframe : frameMessage okMessage.type okMessage.payload = .ok (okFront ++ ascii "ok" ++ okBack) := by
    rw [@frameMessage_of_wf okMessage trivial]
    decide +kernel
  have hburst := crc32Js_burst (ascii "ok") (ascii "OK") okMessage.type okMessage.payload
    (okFront ++ ascii "ok" ++ okBack)
    (okFront ++ ascii "OK" ++ okBack)
  refine ⟨hburst.1 ⟨rfl, by decide, 0, ?_⟩, (hburst.2 (.str _) hframe ?_).mpr ?_⟩
  · rintro j (hj | hj)
    · omega
    · rw [List.getElem?_eq_none (by simp [ascii]; omega), List.getElem?_eq_none (by simp [ascii]; omega)]
  · exact payloadBurst_append rfl (by decide) (by decide) (by decide +kernel) (by decide +kernel)
  · exact .inl (by decide +kernel)

/-- The length of a Str of `2^32` bytes is written as zero. -/
theorem str_encoding_wraps {s : Bytes} (h : s.length = 2 ^ 32) :
    (Canon.str s).encoding = (Canon.str []).encoding ++ s := by
  have hzero : toBE 4 s.length = toBE 4 0 := toBE_four_congr (by omega)
  simp only [encoding, element, frame, hzero, List.length_nil, List.append_nil, List.append_assoc,
    List.cons_append]

/-- The header of an empty Str in a frame, and the Str. -/
def emptyFront : Bytes :=
  toBE 4 0x43524E57 ++ ([1] ++ ([Enum8.toByte (.declared MsgType.ack)] ++ (toBE 4 10 ++ (Canon.str []).encoding)))

/-- What follows the checksum of the empty Str is not looked at. -/
theorem unframes_emptyFront (rest : Bytes) :
    Unframes (emptyFront ++ toBE 4 (crc32Js (Canon.str []).encoding).toNat ++ rest) := by
  set b := emptyFront ++ toBE 4 (crc32Js (Canon.str []).encoding).toNat ++ rest with hb
  have hat : At b 0 (emptyFront ++ toBE 4 (crc32Js (Canon.str []).encoding).toNat) := ⟨rest, rfl⟩
  have hten : (Canon.str []).encoding.length = 10 := str_encoding_length []
  simp only [emptyFront, at_append, toBE_length, List.length_append, List.length_cons, List.length_nil, hten,
    Nat.zero_add] at hat
  obtain ⟨⟨hmagic, hver, -, hlength, hpl⟩, hcrc⟩ := hat
  have hwire : wireLength b = 10 := wireLength_of_at hlength
  have hpayload : wirePayload b = (Canon.str []).encoding := by
    rw [wirePayload, hwire]
    have htake := List.prefix_iff_eq_take.mp hpl
    rw [hten] at htake
    exact htake.symm
  refine ⟨hmagic, hver, ?_, fun i hi => ?_, ?_⟩
  · rw [hwire, hb]
    simp only [emptyFront, List.length_append, toBE_length, List.length_cons, List.length_nil, hten]
    omega
  · rw [hwire, hpayload, Nat.mod_eq_of_lt (by omega)]
    exact at_iff_getElem?.mp hcrc i (by simpa using hi)
  · rw [hpayload, (canonicalDecode_eq_ok (c := .str [])).mpr ⟨trivial, fits_of_length _ (by decide), rfl⟩]
    exact not_throws_ok _

/-- A Str of `2^32` bytes: both length fields wrap to those of the empty Str, whose
checksum is then looked for in the first four bytes of the string. -/
theorem not_crc32Js_burst_long : ∃ msg : NetMessage, Built msg.payload ∧
    ∃ frame b, frameMessage msg.type msg.payload = .ok frame ∧ PayloadBurst frame b ∧
      ¬ Throws (unframeMessage b) := by
  obtain ⟨rest, hrest⟩ : ∃ rest : Bytes, rest.length = 2 ^ 32 - 4 :=
    ⟨List.replicate (2 ^ 32 - 4) 0, List.length_replicate⟩
  have hslen : ([0, 0, 0, 0] ++ rest : Bytes).length = 2 ^ 32 := by
    simp only [List.length_append, List.length_cons, List.length_nil]
    omega
  have hencoding := str_encoding_wraps hslen
  let msg : NetMessage := { payload := .str ([0, 0, 0, 0] ++ rest) }
  have hframed : msg.framed = emptyFront ++ [0, 0, 0, 0] ++ (rest ++ toBE 4 (crc32Js msg.payload.encoding).toNat) := by
    have hlen : toBE 4 msg.payload.encoding.length = toBE 4 10 := by
      apply toBE_four_congr
      rw [str_encoding_length, hslen]
      omega
    rw [NetMessage.framed, hlen, hencoding, emptyFront]
    simp only [List.append_assoc]
    rfl
  refine ⟨msg, .str _, msg.framed,
    emptyFront ++ toBE 4 (crc32Js (Canon.str []).encoding).toNat ++
      (rest ++ toBE 4 (crc32Js msg.payload.encoding).toNat),
    frameMessage_of_wf trivial, ?_, ?_⟩
  · rw [hframed]
    exact payloadBurst_append (toBE_length 4 _).symm (by simp) (by decide +kernel) (by decide +kernel) (by simp)
  · rw [unframeMessage_throws_iff, not_not]
    exact unframes_emptyFront _

end CompatRegistry
