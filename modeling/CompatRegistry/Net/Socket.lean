import CompatRegistry.Foundation.Pieces
import CompatRegistry.Net.Corruption

/-! Frames on a socket. Bytes arrive in pieces and are accepted in pieces; the loops
around `recv` and `send` hide where the pieces end. A frame is received when its bytes
are the next to arrive, whatever the pieces, and nothing else is received. -/

namespace CompatRegistry

open Foundation Reader Canon

/-- `static_cast<int>` of a length. A socket takes a negative length for nothing. -/
def intLength (n : ℕ) : ℕ := if n % 2 ^ 32 < 2 ^ 31 then n % 2 ^ 32 else 0

theorem intLength_of_lt {n : ℕ} (h : n < 2 ^ 31) : ∀ m ≤ n, intLength m = m := by
  intro m hm
  have hmod : m % 2 ^ 32 = m := Nat.mod_eq_of_lt (by omega)
  rw [intLength, hmod, if_pos (by omega)]

/-- One end of a connection: the pieces that arrive, how much each call of `send`
gets rid of, and what has been sent. -/
structure Socket where
  incoming : List Bytes
  room : ℕ → ℕ := fun _ => 2 ^ 31
  sent : Bytes := []

/-- What `recv_frame` comes to. A read outside the buffer, which the decoder does not
guard against, leaves it undefined. -/
inductive Received where
  | message (msg : NetMessage)
  | failed (err : Bytes)
  | undefined

/-- The exceptions that `recv_frame` catches, with their texts. -/
def Received.ofResult : Result (NetMessage × ℕ) → Received
  | .ok (msg, _) => .message msg
  | .error (.canonError what) => .failed what
  | .error (.runtimeError what) => .failed what
  | .error (.invalidArgument what) => .failed what
  | .error .outOfRange => .undefined
  | .error .outOfFuel => .undefined

/-- The longest payload that is received. -/
def maxPayload : ℕ := 64 * 1024 * 1024

namespace Socket

/-- The bytes that arrive before the connection ends. -/
def arriving (s : Socket) : Bytes := Pieces.arriving s.incoming

def recvExact (n : ℕ) (s : Socket) : Option Bytes × Socket :=
  let (got, incoming) := Pieces.recvExact intLength n s.incoming
  (got, { s with incoming })

def sendAll (bytes : Bytes) (s : Socket) : Bool × Socket :=
  let (ok, written, room) := Pieces.sendAll intLength bytes s.room
  (ok, { s with room, sent := s.sent ++ written })

def recvFrame (s : Socket) : Received × Socket :=
  match s.recvExact 10 with
  | (none, s) => (.failed (ascii "recv header failed"), s)
  | (some hdr, s) =>
    let len := ofBE ((hdr.drop 6).take 4)
    if maxPayload < len then (.failed (ascii "frame too large"), s)
    else match s.recvExact (len + 4) with
      | (none, s) => (.failed (ascii "recv body failed"), s)
      | (some body, s) => (.ofResult (unframeMessage (hdr ++ body)), s)

end Socket

/-- A message that a peer receives: its payload is well formed and not too long. -/
structure NetMessage.Receivable (msg : NetMessage) : Prop where
  wf : msg.payload.WF
  short : msg.payload.encoding.length ≤ maxPayload

/-! ### One buffer with one frame -/

theorem NetMessage.Receivable.framed_lt {msg : NetMessage} (h : msg.Receivable) : msg.framed.length < 2 ^ 31 := by
  have hshort := h.short
  have hmax : maxPayload + 14 < 2 ^ 31 := by norm_num [maxPayload]
  rw [msg.framed_length]
  omega

theorem NetMessage.wireLength_framed {msg : NetMessage} (h : msg.Receivable) (rest : Bytes) :
    wireLength (msg.framed ++ rest) = msg.payload.encoding.length := by
  have hshort := h.short
  rw [wireLength_of_at (msg.at_framed rest).2.2.2.1]
  unfold maxPayload at hshort
  omega

/-- A buffer of just the length that its header gives is read when it is a frame. -/
theorem unframeMessage_eq_framed {b : Bytes} (hsize : b.length = wireLength b + 14) (hlen : wireLength b ≤ maxPayload)
    {msg : NetMessage} :
    (∃ consumed, unframeMessage b = .ok (msg, consumed)) ↔ msg.payload.WF ∧ b = msg.framed := by
  have hmax : maxPayload + 14 < 2 ^ 32 := by norm_num [maxPayload]
  constructor
  · rintro ⟨consumed, h⟩
    have hunframes : Unframes b := by
      by_contra hnot
      have hthrows := (unframeMessage_throws_iff b).mpr hnot
      rw [h] at hthrows
      exact not_throws_ok _ hthrows
    obtain ⟨type, htype⟩ := exists_byte_at (b := b) (p := 5) (by omega)
    rw [unframeMessage_of_header (wireLength_lt b) hunframes.magic hunframes.version htype
      (at_wireLength (by omega)), if_neg (by omega), if_neg (by omega)] at h
    obtain ⟨stored, -, h⟩ := Result.bind_eq_ok.mp h
    split_ifs at h with hcrc
    obtain ⟨payload, hpayload, h⟩ := Result.bind_eq_ok.mp h
    cases h
    obtain ⟨hwf, -, hwire⟩ := canonicalDecode_eq_ok.mp hpayload
    refine ⟨hwf, ?_⟩
    have hpart : At b 10 payload.encoding := by
      rw [← hwire]
      exact List.take_prefix _ _
    have hpayloadLength : payload.encoding.length = wireLength b := by
      rw [← hwire, List.length_take, List.length_drop]
      omega
    have hchecksum : At b (10 + wireLength b) (toBE 4 (crc32Js payload.encoding).toNat) := by
      have hat := hunframes.checksum_at (by omega)
      rwa [show wirePayload b = payload.encoding from hwire] at hat
    have hall : At b 0 (NetMessage.framed { type := .ofByte type, payload }) := by
      simp only [NetMessage.framed, at_append, toBE_length, List.length_cons, List.length_nil, Nat.zero_add,
        Enum8.toByte_ofByte, hpayloadLength]
      exact ⟨hunframes.magic, hunframes.version, htype, at_wireLength (by omega), hpart, hchecksum⟩
    refine (List.IsPrefix.eq_of_length hall ?_).symm
    rw [NetMessage.framed_length, hpayloadLength, List.drop_zero, hsize]
  · rintro ⟨hwf, rfl⟩
    rw [NetMessage.framed_length] at hsize
    have hread := unframeMessage_framed hwf (by omega) []
    rw [List.append_nil] at hread
    exact ⟨_, hread⟩

theorem NetMessage.framed_ne_nil (msg : NetMessage) : msg.framed ≠ [] := by
  rw [← List.length_pos_iff, msg.framed_length]
  omega

/-- A frame is no proper prefix of another one. -/
theorem NetMessage.Receivable.eq_of_prefix {m msg : NetMessage} {b : Bytes} (hm : m.Receivable) (hwf : msg.payload.WF)
    (hshort : msg.framed.length < 2 ^ 32) (hmb : m.framed <+: b) (hb : b <+: msg.framed) :
    m = msg ∧ b = msg.framed := by
  obtain ⟨rest, hrest⟩ := hmb.trans hb
  have hsize := msg.framed_length
  have hlength : m.payload.encoding.length = msg.payload.encoding.length := by
    rw [← m.wireLength_framed hm rest, hrest, ← List.append_nil msg.framed,
      wireLength_of_at (msg.at_framed []).2.2.2.1, Nat.mod_eq_of_lt (by omega)]
  have hnil : rest = [] := by
    have htotal := congrArg List.length hrest
    rw [List.length_append, m.framed_length, msg.framed_length, hlength] at htotal
    exact List.length_eq_zero_iff.mp (by omega)
  rw [hnil, List.append_nil] at hrest
  have hread := unframeMessage_framed hm.wf (by omega) []
  have hread' := unframeMessage_framed hwf (by omega) []
  rw [hrest, hread'] at hread
  refine ⟨(congrArg Prod.fst (Except.ok.inj hread)).symm, hb.eq_of_length_le ?_⟩
  rw [← hrest]
  exact hmb.length_le

/-! ### Receiving -/

namespace Socket

section Recv
variable {s : Socket} {n : ℕ}

theorem recvExact_of_le (hn : n < 2 ^ 31) (h : n ≤ s.arriving.length) :
    (s.recvExact n).1 = some (s.arriving.take n) ∧ (s.recvExact n).2.arriving = s.arriving.drop n :=
  Pieces.recvExact_of_le (intLength_of_lt hn) h

theorem recvExact_of_lt (hn : n < 2 ^ 31) (h : s.arriving.length < n) : (s.recvExact n).1 = none :=
  Pieces.recvExact_of_lt (intLength_of_lt hn) h

end Recv

/-- The front of the bytes is sent, and all of them exactly on success. Nothing is received. -/
theorem sendAll_cases (bytes : Bytes) (s : Socket) :
    ∃ written, (s.sendAll bytes).2.sent = s.sent ++ written ∧ written <+: bytes ∧
      ((s.sendAll bytes).1 = true ↔ written = bytes) ∧ (s.sendAll bytes).2.arriving = s.arriving := by
  obtain ⟨hfront, hall⟩ := Pieces.sendAll_prefix intLength bytes s.room
  exact ⟨_, rfl, hfront, hall, rfl⟩

/-- Everything is sent to a side that accepts something at every call. -/
theorem sendAll_of_pos {bytes : Bytes} (hshort : bytes.length < 2 ^ 31) (s : Socket) (hroom : ∀ i, 0 < s.room i) :
    (s.sendAll bytes).1 = true ∧ ∀ i, 0 < (s.sendAll bytes).2.room i :=
  Pieces.sendAll_of_pos (intLength_of_lt hshort) hroom

theorem recvExact_frame (n : ℕ) (s : Socket) :
    (s.recvExact n).2.room = s.room ∧ (s.recvExact n).2.sent = s.sent := ⟨rfl, rfl⟩

/-- What `recv_frame` makes of the bytes that arrive. -/
theorem recvFrame_fst (s : Socket) : (recvFrame s).1 =
    if s.arriving.length < 10 then .failed (ascii "recv header failed")
    else if maxPayload < wireLength s.arriving then .failed (ascii "frame too large")
    else if s.arriving.length < wireLength s.arriving + 14 then .failed (ascii "recv body failed")
    else .ofResult (unframeMessage (s.arriving.take (wireLength s.arriving + 14))) := by
  have hmax : maxPayload + 4 < 2 ^ 31 := by norm_num [maxPayload]
  unfold recvFrame
  by_cases hten : s.arriving.length < 10
  · rw [if_pos hten, ← Prod.mk.eta (p := s.recvExact 10), recvExact_of_lt (by norm_num) hten]
  obtain ⟨hhdr, hrest⟩ := recvExact_of_le (n := 10) (by norm_num) (Nat.le_of_not_lt hten)
  have hlen : ofBE (((s.arriving.take 10).drop 6).take 4) = wireLength s.arriving := by
    rw [List.drop_take, List.take_take]
    rfl
  rw [if_neg hten, ← Prod.mk.eta (p := s.recvExact 10), hhdr]
  generalize (s.recvExact 10).2 = s' at hrest
  simp only [hlen]
  split_ifs with hlarge hbody
  · rfl
  · have hfew : s'.arriving.length < wireLength s.arriving + 4 := by
      rw [hrest, List.length_drop]
      omega
    rw [← Prod.mk.eta (p := s'.recvExact _), recvExact_of_lt (by omega) hfew]
  · have henough : wireLength s.arriving + 4 ≤ s'.arriving.length := by
      rw [hrest, List.length_drop]
      omega
    have hjoin : s.arriving.take 10 ++ (s.arriving.drop 10).take (wireLength s.arriving + 4) =
        s.arriving.take (wireLength s.arriving + 14) := by
      rw [Nat.add_comm (wireLength s.arriving) 14, show 14 + wireLength s.arriving = 10 + (wireLength s.arriving + 4)
        by omega]
      exact List.take_add.symm
    rw [← Prod.mk.eta (p := s'.recvExact _), (recvExact_of_le (by omega) henough).1, hrest]
    simp only [hjoin]

/-- A frame that has arrived in full is taken from the front. -/
theorem recvFrame_snd {s : Socket} (hshort : wireLength s.arriving ≤ maxPayload)
    (hfull : wireLength s.arriving + 14 ≤ s.arriving.length) :
    (recvFrame s).2.arriving = s.arriving.drop (wireLength s.arriving + 14) := by
  have hmax : maxPayload + 4 < 2 ^ 31 := by norm_num [maxPayload]
  obtain ⟨hhdr, hrest⟩ := recvExact_of_le (s := s) (n := 10) (by norm_num) (by omega)
  have hlen : ofBE (((s.arriving.take 10).drop 6).take 4) = wireLength s.arriving := by
    rw [List.drop_take, List.take_take]
    rfl
  unfold recvFrame
  rw [← Prod.mk.eta (p := s.recvExact 10), hhdr]
  generalize (s.recvExact 10).2 = s' at hrest
  have henough : wireLength s.arriving + 4 ≤ s'.arriving.length := by
    rw [hrest, List.length_drop]
    omega
  obtain ⟨hbody, hnext⟩ := recvExact_of_le (by omega) henough
  simp only [hlen]
  rw [if_neg (by omega), ← Prod.mk.eta (p := s'.recvExact _), hbody]
  rw [hrest, List.drop_drop] at hnext
  rw [hnext]
  congr 1
  omega

/-- Receiving sends nothing. -/
theorem recvFrame_frame (s : Socket) : (recvFrame s).2.room = s.room ∧ (recvFrame s).2.sent = s.sent := by
  unfold recvFrame
  rw [← Prod.mk.eta (p := s.recvExact 10)]
  cases (s.recvExact 10).1 with
  | none => exact recvExact_frame 10 s
  | some hdr =>
    simp only
    split_ifs
    · exact recvExact_frame 10 s
    · rw [← Prod.mk.eta (p := (s.recvExact 10).2.recvExact _)]
      cases ((s.recvExact 10).2.recvExact _).1 <;> exact ⟨rfl, rfl⟩

theorem wireLength_take {b : Bytes} {n : ℕ} (h : 10 ≤ n) : wireLength (b.take n) = wireLength b := by
  have hfour : min 4 (n - 6) = 4 := by omega
  unfold wireLength
  rw [List.drop_take, List.take_take, hfour]

/-- A frame is received when it is the next to arrive, in whatever pieces. -/
theorem recvFrame_eq_message {s : Socket} {msg : NetMessage} :
    (recvFrame s).1 = .message msg ↔ msg.Receivable ∧ msg.framed <+: s.arriving := by
  have hframe : ∀ b : Bytes, Received.ofResult (unframeMessage b) = .message msg ↔
      ∃ consumed, unframeMessage b = .ok (msg, consumed) := by
    intro b
    rcases unframeMessage b with (e | ⟨m, consumed⟩)
    · cases e <;> simp [Received.ofResult]
    · simp [Received.ofResult]
  rw [recvFrame_fst]
  constructor
  · intro h
    split_ifs at h with hten hlarge hbody
    have hsize : (s.arriving.take (wireLength s.arriving + 14)).length = wireLength s.arriving + 14 :=
      List.length_take_of_le (by omega)
    have hwire : wireLength (s.arriving.take (wireLength s.arriving + 14)) = wireLength s.arriving :=
      wireLength_take (by omega)
    obtain ⟨hwf, heq⟩ := (unframeMessage_eq_framed (hsize.trans (congrArg (· + 14) hwire.symm))
      (by omega)).mp ((hframe _).mp h)
    refine ⟨⟨hwf, ?_⟩, heq ▸ List.take_prefix _ _⟩
    rw [heq, NetMessage.framed_length] at hsize
    omega
  · rintro ⟨hmsg, rest, hrest⟩
    have hwire := NetMessage.wireLength_framed hmsg rest
    have hshort := hmsg.short
    rw [← hrest, hwire, List.length_append, NetMessage.framed_length, if_neg (by omega), if_neg (by omega),
      if_neg (by omega), ← msg.framed_length, List.take_left, hframe]
    have hself := NetMessage.wireLength_framed hmsg []
    rw [List.append_nil] at hself
    exact (unframeMessage_eq_framed (by rw [msg.framed_length, hself]) (by omega)).mpr ⟨hmsg.wf, rfl⟩

/-- Behind a frame that was received the bytes after it arrive. -/
theorem recvFrame_rest {s : Socket} {msg : NetMessage} (hmsg : msg.Receivable) {rest : Bytes}
    (h : s.arriving = msg.framed ++ rest) : (recvFrame s).2.arriving = rest := by
  have hwire := NetMessage.wireLength_framed hmsg rest
  have hshort := hmsg.short
  have hlength : s.arriving.length = msg.payload.encoding.length + 14 + rest.length := by
    rw [h, List.length_append, msg.framed_length]
  rw [← h] at hwire
  rw [recvFrame_snd (by omega) (by omega), hwire, h, ← msg.framed_length, List.drop_left]

/-- Exactly the frames that arrive are received, and the bytes behind them stay. The pieces
in which the bytes arrive make no difference. -/
theorem recvFrame_anyPieces (s : Socket) (msg : NetMessage) (rest : Bytes) :
    ((recvFrame s).1 = .message msg ∧ (recvFrame s).2.arriving = rest ↔
        msg.Receivable ∧ s.arriving = msg.framed ++ rest) ∧
      ∀ t : Socket, t.arriving = s.arriving → (recvFrame t).1 = (recvFrame s).1 := by
  constructor
  · constructor
    · rintro ⟨hmessage, hleft⟩
      obtain ⟨hmsg, behind, hbehind⟩ := recvFrame_eq_message.mp hmessage
      rw [recvFrame_rest hmsg hbehind.symm] at hleft
      exact ⟨hmsg, hleft ▸ hbehind.symm⟩
    · rintro ⟨hmsg, harriving⟩
      exact ⟨recvFrame_eq_message.mpr ⟨hmsg, rest, harriving.symm⟩, recvFrame_rest hmsg harriving⟩
  · intro t ht
    rw [recvFrame_fst, recvFrame_fst, ht]

end Socket

end CompatRegistry
