import CompatRegistry.Foundation.Stream
import CompatRegistry.Canon.RoundTrip
import CompatRegistry.Net.Coordinator

/-! Frames on the wire: a magic word, a version, the type of the message, the length
of the payload, the payload and its checksum. The reader of a frame keeps the length
in 32 bits and computes with it there, so that the position of the checksum and the
size of the frame wrap round. A stream of frames is read back exactly when none of
them is that long. -/

namespace CompatRegistry

open Foundation Reader Canon

/-! ### The checksum -/

def crcBit (c : UInt32) : UInt32 := if c &&& 1 ≠ 0 then c >>> 1 ^^^ 0xEDB88320 else c >>> 1

def crcByte (c : UInt32) (x : UInt8) : UInt32 := crcBit^[8] (c ^^^ x.toUInt32)

def crc32Js (data : Bytes) : UInt32 := data.foldl crcByte 0xFFFFFFFF ^^^ 0xFFFFFFFF

example : crc32Js (ascii "123456789") = 0xCBF43926 := by decide +kernel

/-! ### Writing and reading a frame -/

def frameMessage (type : Enum8 MsgType) (payload : Canon) : Result Bytes := do
  let pl ← canonicalEncode payload
  .ok (wU32be 0x43524E57 ++ wU8 1 ++ wU8 type.toByte ++ wU32be pl.length ++ pl ++
    wU32be (crc32Js pl).toNat)

namespace BufReader

def u8 (b : Bytes) (p : ℕ) : Result (UInt8 × ℕ) :=
  if b.length ≤ p then .error (.runtimeError "unframe: short (u8)") else do
  let x ← byteAt b p
  .ok (x, p + 1)

def u32be (b : Bytes) (p : ℕ) : Result (ℕ × ℕ) :=
  if sizeSub b.length p < 4 then .error (.runtimeError "unframe: short (u32)") else do
  let bs ← copyBytes b p 4
  .ok (ofBE bs, p + 4)

end BufReader

/-- The four bytes after a payload of `len` bytes. Their indices are 32-bit words. -/
def storedChecksum (b : Bytes) (len : ℕ) : Result ℕ := do
  let b₀ ← byteAt b ((10 + len) % 2 ^ 32)
  let b₁ ← byteAt b ((10 + len + 1) % 2 ^ 32)
  let b₂ ← byteAt b ((10 + len + 2) % 2 ^ 32)
  let b₃ ← byteAt b ((10 + len + 3) % 2 ^ 32)
  .ok (ofBE [b₀, b₁, b₂, b₃])

/-- The message at the front of a buffer, and `consumed`, which is the sum of 32-bit words. -/
def unframeMessage (b : Bytes) : Result (NetMessage × ℕ) :=
  if b.length < 10 then .error (.runtimeError "unframe: header too short") else do
  let (magic, p) ← BufReader.u32be b 0
  if magic ≠ 0x43524E57 then .error (.runtimeError "unframe: bad magic") else do
  let (ver, p) ← BufReader.u8 b p
  if ver ≠ 1 then .error (.runtimeError "unframe: bad version") else do
  let (type, p) ← BufReader.u8 b p
  let (len, _) ← BufReader.u32be b p
  if b.length - 10 < len then .error (.runtimeError "unframe: length exceeds buffer")
  else if b.length - 10 - len < 4 then .error (.runtimeError "unframe: missing checksum") else do
  let pl := (b.drop 10).take len
  let stored ← storedChecksum b len
  if (crc32Js pl).toNat ≠ stored then .error (.runtimeError "unframe: checksum mismatch") else do
  let payload ← canonicalDecode pl
  .ok ({ type := .ofByte type, payload }, (10 + len + 4) % 2 ^ 32)

/-! ### The frame of a message -/

namespace NetMessage

/-- The bytes of a message with a well-formed payload. -/
def framed (msg : NetMessage) : Bytes :=
  toBE 4 0x43524E57 ++ ([1] ++ ([msg.type.toByte] ++ (toBE 4 msg.payload.encoding.length ++
    (msg.payload.encoding ++ toBE 4 (crc32Js msg.payload.encoding).toNat))))

@[simp] theorem framed_length (msg : NetMessage) : msg.framed.length = msg.payload.encoding.length + 14 := by
  simp only [framed, List.length_append, toBE_length, List.length_cons, List.length_nil]
  omega

end NetMessage

theorem frameMessage_of_wf {msg : NetMessage} (h : msg.payload.WF) :
    frameMessage msg.type msg.payload = .ok msg.framed := by
  rw [frameMessage, canonicalEncode_of_wf h, Result.ok_bind]
  simp only [NetMessage.framed, wU32be, wU8, List.append_assoc]

theorem BufReader.u8_of_at {b : Bytes} {p : ℕ} {x : UInt8} (h : At b p [x]) :
    BufReader.u8 b p = .ok (x, p + 1) := by
  rw [BufReader.u8, if_neg (by have := h.pos_lt; omega), byteAt_eq_ok.mpr (at_cons.mp h).1]
  rfl

theorem BufReader.u32be_of_at {b : Bytes} {p n : ℕ} (hp : p ≤ b.length) (hn : n < 2 ^ 32)
    (h : At b p (toBE 4 n)) : BufReader.u32be b p = .ok (n, p + 4) := by
  have hle := h.length_le hp
  rw [toBE_length] at hle
  have hsize : ¬ sizeSub b.length p < 4 := by
    rw [sizeSub, if_pos hp]
    omega
  rw [BufReader.u32be, if_neg hsize, copyBytes_eq_ok.mpr ⟨toBE_length 4 n, h⟩, Result.ok_bind,
    lt_of_tlv hn]

/-- The parts of a frame, each at its place in front of a rest. -/
theorem NetMessage.at_framed (msg : NetMessage) (rest : Bytes) :
    At (msg.framed ++ rest) 0 (toBE 4 0x43524E57) ∧ At (msg.framed ++ rest) 4 [1] ∧
      At (msg.framed ++ rest) 5 [msg.type.toByte] ∧
      At (msg.framed ++ rest) 6 (toBE 4 msg.payload.encoding.length) ∧
      At (msg.framed ++ rest) 10 msg.payload.encoding ∧
      At (msg.framed ++ rest) (10 + msg.payload.encoding.length)
        (toBE 4 (crc32Js msg.payload.encoding).toNat) := by
  have h : At (msg.framed ++ rest) 0 msg.framed := ⟨rest, rfl⟩
  conv at h => arg 3; unfold framed
  simpa only [at_append, toBE_length, List.length_cons, List.length_nil, Nat.zero_add] using h

theorem storedChecksum_of_at {b : Bytes} {len : ℕ} {crc : UInt32} (hshort : len + 14 < 2 ^ 32)
    (h : At b (10 + len) (toBE 4 crc.toNat)) : storedChecksum b len = .ok crc.toNat := by
  obtain ⟨h₀, h⟩ := at_cons.mp h
  obtain ⟨h₁, h⟩ := at_cons.mp h
  obtain ⟨h₂, h⟩ := at_cons.mp h
  obtain ⟨h₃, -⟩ := at_cons.mp h
  have hvalue := lt_of_tlv crc.toNat_lt
  rw [storedChecksum, Nat.mod_eq_of_lt (by omega), Nat.mod_eq_of_lt (by omega), Nat.mod_eq_of_lt (by omega),
    Nat.mod_eq_of_lt (by omega), byteAt_eq_ok.mpr h₀, byteAt_eq_ok.mpr h₁, byteAt_eq_ok.mpr h₂,
    byteAt_eq_ok.mpr h₃]
  exact congrArg Except.ok hvalue

/-- Behind a header in order, the length field and the checksum decide. -/
theorem unframeMessage_of_header {b : Bytes} {type : UInt8} {len : ℕ} (hlen : len < 2 ^ 32)
    (hmagic : At b 0 (toBE 4 0x43524E57)) (hver : At b 4 [1]) (htype : At b 5 [type])
    (hat : At b 6 (toBE 4 len)) :
    unframeMessage b =
      (if b.length - 10 < len then .error (.runtimeError "unframe: length exceeds buffer")
      else if b.length - 10 - len < 4 then .error (.runtimeError "unframe: missing checksum") else do
      let stored ← storedChecksum b len
      if (crc32Js ((b.drop 10).take len)).toNat ≠ stored then .error (.runtimeError "unframe: checksum mismatch")
      else do
      let payload ← canonicalDecode ((b.drop 10).take len)
      .ok ({ type := .ofByte type, payload }, (10 + len + 4) % 2 ^ 32)) := by
  have hsix := htype.pos_lt
  have hten := hat.length_le (by omega)
  rw [toBE_length] at hten
  rw [unframeMessage, if_neg (by omega), BufReader.u32be_of_at (Nat.zero_le _) (by norm_num) hmagic]
  simp only [Result.ok_bind, ne_eq, not_true_eq_false, if_false]
  rw [BufReader.u8_of_at hver]
  simp only [Result.ok_bind, not_true_eq_false, if_false]
  rw [BufReader.u8_of_at htype]
  simp only [Result.ok_bind]
  rw [BufReader.u32be_of_at (by omega) hlen hat]
  simp only [Result.ok_bind]

/-- A frame whose size is below `2^32` is read back in front of any bytes. -/
theorem unframeMessage_framed {msg : NetMessage} (hwf : msg.payload.WF)
    (hshort : msg.payload.encoding.length + 14 < 2 ^ 32) : Stream.ReadsBack unframeMessage NetMessage.framed msg := by
  intro rest
  obtain ⟨hmagic, hver, htype, hlen, hpl, hcrc⟩ := msg.at_framed rest
  have hsize : (msg.framed ++ rest).length = msg.payload.encoding.length + 14 + rest.length := by
    rw [List.length_append, NetMessage.framed_length]
  have hslice : ((msg.framed ++ rest).drop 10).take msg.payload.encoding.length = msg.payload.encoding :=
    (List.prefix_iff_eq_take.mp hpl).symm
  have hdecode : canonicalDecode msg.payload.encoding = .ok msg.payload := by
    apply canonicalDecode_eq_ok.mpr
    refine ⟨hwf, fits_of_length _ ?_, rfl⟩
    rw [encoding, List.length_append] at hshort
    omega
  have hconsumed : (10 + msg.payload.encoding.length + 4) % 2 ^ 32 = msg.payload.encoding.length + 14 := by
    omega
  rw [unframeMessage_of_header (by omega) hmagic hver htype hlen, if_neg (by omega), if_neg (by omega),
    storedChecksum_of_at hshort hcrc]
  simp only [Result.ok_bind, hslice, ne_eq, not_true_eq_false, if_false, hdecode, Enum8.ofByte_toByte,
    NetMessage.framed_length, hconsumed]

theorem unframeMessage_consumed_lt {b : Bytes} {msg : NetMessage} {consumed : ℕ}
    (h : unframeMessage b = .ok (msg, consumed)) : consumed < 2 ^ 32 := by
  rw [unframeMessage] at h
  split_ifs at h
  obtain ⟨⟨magic, p⟩, -, h⟩ := Result.bind_eq_ok.mp h
  simp only at h
  split_ifs at h
  obtain ⟨⟨ver, p⟩, -, h⟩ := Result.bind_eq_ok.mp h
  simp only at h
  split_ifs at h
  obtain ⟨⟨type, p⟩, -, h⟩ := Result.bind_eq_ok.mp h
  obtain ⟨⟨len, p⟩, -, h⟩ := Result.bind_eq_ok.mp h
  simp only at h
  split_ifs at h
  obtain ⟨stored, -, h⟩ := Result.bind_eq_ok.mp h
  split_ifs at h
  obtain ⟨payload, -, h⟩ := Result.bind_eq_ok.mp h
  cases h
  exact Nat.mod_lt _ (by norm_num)

/-! ### A stream of frames -/

/-- A message whose payload is well formed and encodes to fewer than `2^32` bytes. -/
structure NetMessage.Sendable (msg : NetMessage) : Prop where
  wf : msg.payload.WF
  fits : msg.payload.encoding.length < 2 ^ 32

/-- Calling `unframe_message` once for every message, each time on the bytes that
are not consumed yet, gives the messages with the sizes of their frames and leaves `trailing`. -/
def StreamReadsBack (msgs : List NetMessage) (frames : List Bytes) (trailing : Bytes) : Prop :=
  Stream.readN unframeMessage msgs.length (frames.flatten ++ trailing) =
    .ok (msgs.zip (frames.map List.length), trailing)

theorem frames_eq {msgs : List NetMessage} {frames : List Bytes} (hsend : ∀ msg ∈ msgs, msg.Sendable)
    (hframes : msgs.mapM (fun msg => frameMessage msg.type msg.payload) = .ok frames) :
    frames = msgs.map NetMessage.framed := by
  rw [Result.mapM_of_ok fun msg hmsg => frameMessage_of_wf (hsend msg hmsg).wf] at hframes
  exact (Except.ok.inj hframes).symm

theorem streamReadsBack_iff_lengths {msgs : List NetMessage} (hsend : ∀ msg ∈ msgs, msg.Sendable)
    {frames : List Bytes}
    (hframes : msgs.mapM (fun msg => frameMessage msg.type msg.payload) = .ok frames) (trailing : Bytes) :
    StreamReadsBack msgs frames trailing ↔ ∀ msg ∈ msgs, msg.payload.encoding.length + 14 < 2 ^ 32 := by
  obtain rfl := frames_eq hsend hframes
  have hzip : msgs.zip ((msgs.map NetMessage.framed).map List.length) =
      msgs.map fun msg => (msg, msg.framed.length) := by
    rw [List.map_map]
    exact List.map_prod_left_eq_zip.symm
  rw [StreamReadsBack, hzip, ← List.flatMap_def]
  constructor
  · intro h msg hmsg
    have hconsumed := Stream.forall_mem_readN (fun _ _ _ => unframeMessage_consumed_lt) h
      (msg, msg.framed.length) (List.mem_map_of_mem hmsg)
    rwa [NetMessage.framed_length] at hconsumed
  · intro h
    exact Stream.readN_flatMap (fun msg hmsg => unframeMessage_framed (hsend msg hmsg).wf (h msg hmsg)) trailing

/-- Two short messages, the second with a type that is no enumerator. -/
def shortMessages : List NetMessage :=
  [{ payload := .str (ascii "ok") }, { type := .ofByte 77, payload := .sequence [.null, .bool true] }]

theorem streamReadsBack_short : ∃ frames, shortMessages.mapM (fun msg => frameMessage msg.type msg.payload) =
    .ok frames ∧ StreamReadsBack shortMessages frames [1, 2, 3] := by
  have hsend : ∀ msg ∈ shortMessages, msg.Sendable := by
    intro msg hmsg
    refine ⟨?_, ?_⟩ <;> revert msg <;> simp [shortMessages, WF, WFSeq, encoding, element, seqBody, kMagic, ascii]
  have hframes := Result.mapM_of_ok fun msg hmsg => frameMessage_of_wf (hsend msg hmsg).wf
  refine ⟨_, hframes, (streamReadsBack_iff_lengths hsend hframes _).mpr ?_⟩
  simp [shortMessages, encoding, element, seqBody, kMagic, ascii]

theorem str_encoding_length (s : Bytes) : (Canon.str s).encoding.length = s.length + 10 := by
  simp only [encoding, element, List.length_append, frame_length, kMagic, List.length_cons, List.length_nil]
  omega

/-- A string whose frame takes `2^32` bytes: `consumed` is below that. -/
theorem not_streamReadsBack_long : ∃ msg : NetMessage, msg.Sendable ∧
    ∃ frame, frameMessage msg.type msg.payload = .ok frame ∧ ¬ StreamReadsBack [msg] [frame] [] := by
  have hlen : (Canon.str (List.replicate (2 ^ 32 - 24) 0)).encoding.length = 2 ^ 32 - 14 := by
    rw [str_encoding_length, List.length_replicate]
    norm_num
  refine ⟨{ payload := .str (List.replicate (2 ^ 32 - 24) 0) }, ⟨trivial, ?_⟩, _, frameMessage_of_wf trivial, ?_⟩
  · rw [hlen]
    norm_num
  · intro h
    have hconsumed := Stream.forall_mem_readN (fun _ _ _ => unframeMessage_consumed_lt) h _ List.mem_cons_self
    rw [NetMessage.framed_length, hlen] at hconsumed
    omega

end CompatRegistry
