import CompatRegistry.Canon.Lengths
import CompatRegistry.Net.Frame
import CompatRegistry.Registry.Recoverable

/-! Every 32-bit length that is written, in the elements of a value, in front of the
payload of a message and in the root record of a snapshot, is narrowed without a check.
What depends on it holds as long as the sizes stay below `2^32`. -/

namespace CompatRegistry

open Foundation Canon

/-! ### Messages -/

/-- The message is refused, or the length in its header is that of the payload behind it. -/
def FramedTruly (msg : NetMessage) : Prop :=
  Throws (frameMessage msg.type msg.payload) ∨ ∃ front len pl crc,
    canonicalEncode msg.payload = .ok pl ∧ frameMessage msg.type msg.payload = .ok (front ++ len ++ pl ++ crc) ∧
      front.length = 6 ∧ len.length = 4 ∧ crc.length = 4 ∧ ofBE len = pl.length

theorem framedTruly_iff {msg : NetMessage} (h : Built msg.payload) :
    FramedTruly msg ↔ msg.payload.payloadSize + 10 < 2 ^ 32 := by
  rw [FramedTruly, frameMessage_of_wf h.wf, canonicalEncode_of_wf h.wf]
  have hlength : msg.payload.encoding.length = msg.payload.payloadSize + 10 := by
    rw [encoding_length, Nat.add_comm]
  constructor
  · rintro (hthrows | ⟨front, len, pl, crc, hpl, -, -, hlen, -, htrue⟩)
    · exact absurd hthrows (not_throws_ok _)
    · obtain rfl := Except.ok.inj hpl
      have hlt := ofBE_lt len
      rw [hlen, htrue, hlength] at hlt
      exact hlt
  · intro hlt
    refine .inr ⟨toBE 4 0x43524E57 ++ [1] ++ [msg.type.toByte], toBE 4 msg.payload.encoding.length, _,
      toBE 4 (crc32Js msg.payload.encoding).toNat, rfl, ?_, by simp, toBE_length 4 _, toBE_length 4 _,
      lt_of_tlv (by omega)⟩
    simp only [NetMessage.framed, List.append_assoc]

/-! ### Snapshots -/

/-- A value written as a record is itself or the empty record. -/
theorem forced_cases (c : Canon) : c.kind = .record ∧ c.forced = c ∨ c.kind ≠ .record ∧ c.forced = .record [] := by
  cases c <;> simp [kind, forced, asRecord]

namespace Registry

/-- Recovery takes the snapshot of the registry. -/
def SnapshotAccepted (s : Registry) : Prop := ∀ bytes, s.snapshot = .ok bytes → ∃ t, recover bytes = .ok t

/-- The stored objects fit the length of the root record, the stored payloads have the
fingerprints of what is written for them, and the newest records list no cycle. -/
structure Rereadable (s : Registry) : Prop where
  size : s.encodedSize < 2 ^ 32
  payloads : ∀ id, ∀ p ∈ s.historyOf id, p.payload.kind = .record ∨
    Sha256.compute p.payload.encoding = Sha256.compute (Canon.record []).encoding
  acyclic : ¬ DepthFirst.Cyclic s.newestDeps

theorem forced_sound_iff {p : ProfileRecord} {id : Uuid} (h : p.Sound id) :
    p.forced.Sound id ↔ p.payload.kind = .record ∨
      Sha256.compute p.payload.encoding = Sha256.compute (Canon.record []).encoding := by
  have hdigest : p.forced.Sound id ↔
      Sha256.compute p.payload.encoding = Sha256.compute p.payload.forced.encoding := by
    constructor
    · intro hforced
      exact Sha256.hex_injective (h.fingerprint.symm.trans hforced.fingerprint)
    · intro heq
      exact ⟨h.id, forced_wf h.wf, h.fingerprint.trans (congrArg Sha256.hex heq)⟩
  rw [hdigest]
  rcases forced_cases p.payload with ⟨hkind, hforced⟩ | ⟨hkind, hforced⟩
  · simp [hkind, hforced]
  · simp [hkind, hforced]

theorem snapshotAccepted_iff {s : Registry} (h : Inv s) : s.SnapshotAccepted ↔ s.Rereadable := by
  have hrestored : s.SnapshotAccepted ↔ ∃ t bytes, s.snapshot = .ok bytes ∧ recover bytes = .ok t := by
    unfold SnapshotAccepted
    rw [snapshot_eq h]
    simp only [Except.ok.injEq, forall_eq', exists_eq_left']
  have hsound : (∀ p ∈ s.allRecords, p.forced.Sound p.id) ↔
      ∀ id, ∀ p ∈ s.historyOf id, p.payload.kind = .record ∨
        Sha256.compute p.payload.encoding = Sha256.compute (Canon.record []).encoding := by
    constructor
    · intro hall id p hp
      have hmem := mem_allRecords.mpr ⟨id, hp⟩
      exact (forced_sound_iff (h.allRecords hmem)).mp (hall p hmem)
    · intro hall p hmem
      obtain ⟨id, hp⟩ := mem_allRecords.mp hmem
      exact (forced_sound_iff (h.allRecords hmem)).mpr (hall id p hp)
  rw [hrestored]
  simp only [recover_snapshot h, hsound, exists_eq_left]
  exact ⟨fun ⟨hsize, hpayloads, hacyclic⟩ => ⟨hsize, hpayloads, hacyclic⟩,
    fun hr => ⟨hr.size, hr.payloads, hr.acyclic⟩⟩

end Registry

/-! ### All of them -/

/-- Lengths are true, encodings are no other value's and snapshots are accepted exactly
below the limits: a payload, a payload behind its two headers, a root record of fewer than
`2^32` bytes. A snapshot must also hold no payload that is written as something else, and
no cycle among the newest records. -/
theorem lengths_true_iff (c : Canon) (msg : NetMessage) (s : Registry) :
    (Built c → (c.EncodedTruly ↔ c.payloadSize < 2 ^ 32)) ∧
      (Built msg.payload → (FramedTruly msg ↔ msg.payload.payloadSize + 10 < 2 ^ 32)) ∧
      (Registry.Reachable s → (s.SnapshotAccepted ↔ s.Rereadable)) :=
  ⟨encodedTruly_iff, framedTruly_iff, fun h => Registry.snapshotAccepted_iff h.inv⟩

/-- The fields of a model profile, one of them a sequence. -/
def nestedPayload : Canon := .record [(1, .str (ascii "llama")), (3, .sequence [.str (ascii "f16"), .uint 4])]

theorem nestedPayload_built : Built nestedPayload := by
  apply WF.built
  simp [nestedPayload, WF, WFRecord, WFSeq, SortedMap.Sorted]

/-- A nested value, the message that registers a profile with it and a registry with two profiles,
a rule and a piece of evidence. -/
theorem lengths_true_small :
    nestedPayload.EncodedTruly ∧ FramedTruly { type := .declared .registerProfile, payload := nestedPayload } ∧
      (Registry.runOps Registry.smallOps {}).SnapshotAccepted := by
  have h := lengths_true_iff nestedPayload { type := .declared .registerProfile, payload := nestedPayload }
    (Registry.runOps Registry.smallOps {})
  have hsmall := Registry.smallOps_recoverable
  refine ⟨(h.1 nestedPayload_built).mpr ?_, (h.2.1 nestedPayload_built).mpr ?_,
    (h.2.2 Registry.smallOps_reachable).mpr
      ⟨hsmall.size, fun id p hp => .inl (hsmall.payloads id p hp), hsmall.acyclic⟩⟩
  · decide +kernel
  · decide +kernel

/-! ### Beyond the limits -/

/-- A sequence of one Str and of `n` null values behind it. -/
def filler (n : ℕ) : Seq := .str [0] :: List.replicate n .null

theorem seqBody_filler_length (n : ℕ) : (seqBody (filler n)).length = 6 + 5 * n := by
  have hnulls : payloadSizeItems (List.replicate n .null) = 5 * n := by
    induction n with
    | zero => rfl
    | succ n ih =>
      rw [List.replicate_succ, payloadSizeItems, ih, payloadSize]
      omega
  rw [seqBody_length, filler, payloadSizeItems, hnulls, payloadSize]
  rfl

/-- A sequence that holds only a Str of `2^32` bytes. -/
def hollow : Canon := .sequence [.str (seqBody (filler 858993458))]

/-- The bytes of that Str as values of their own, behind an empty Str. -/
def unpacked : Canon := .sequence (.str [] :: filler 858993458)

/-- A piece of evidence whose source is a text of `n` zero bytes. -/
def longEvidence (n : ℕ) : EvidenceRecord := { source := List.replicate n 0 }

theorem evidenceSize_le_encodedSize {s : Registry} {ev : EvidenceRecord} (h : ev ∈ s.evidence.values) :
    evidenceSize ev ≤ s.encodedSize := by
  have hle : evidenceSize ev ≤ (s.evidence.values.map evidenceSize).sum :=
    List.le_sum_of_mem (List.mem_map_of_mem h)
  simp only [Registry.encodedSize, entriesSize, seqSize, List.map_cons, List.map_nil, List.sum_cons, List.sum_nil]
  omega

theorem length_source_le (ev : EvidenceRecord) : ev.source.length ≤ evidenceSize ev := by
  simp only [evidenceSize, recordSize, entriesSize, textSize, List.map_cons, List.map_nil, List.sum_cons, List.sum_nil]
  omega

theorem hollow_built : Built hollow := .sequence fun c hc => by
  rw [List.mem_singleton.mp hc]
  exact .str _

theorem unpacked_built : Built unpacked := .sequence fun c hc => by
  rw [filler, List.mem_cons, List.mem_cons, List.mem_replicate] at hc
  rcases hc with rfl | rfl | ⟨-, rfl⟩
  · exact .str _
  · exact .str _
  · exact .null

theorem length_filler : (seqBody (filler 858993458)).length = 2 ^ 32 := by
  rw [seqBody_filler_length]
  norm_num

theorem hollow_payloadSize : hollow.payloadSize = 5 + 2 ^ 32 := by
  rw [hollow, payloadSize, payloadSizeItems, payloadSizeItems, payloadSize, length_filler, Nat.add_zero]

theorem unpacked_encoding : unpacked.encoding = hollow.encoding := by
  rw [encoding, encoding, unpacked, hollow, element_wrapped length_filler]

theorem longEvidence_mem (n : ℕ) :
    longEvidence n ∈ ((Registry.Op.registerEvidence (longEvidence n)).run {}).evidence.values := by
  rw [UMap.mem_values_iff]
  exact ⟨(longEvidence n).id, AList.lookup_insert _⟩

/-- A text of `2^32` bytes: inside a sequence its length wraps to zero, and the sequence
has the bytes of a longer one; in a message and in a registry it makes the length of the
payload and of the root record wrap. -/
theorem not_lengths_true :
    (Built hollow ∧ Built unpacked ∧ unpacked ≠ hollow ∧ canonicalEncode unpacked = canonicalEncode hollow ∧
      ¬ hollow.EncodedTruly) ∧
    (Built (.str (List.replicate (2 ^ 32) 0)) ∧ ¬ FramedTruly { payload := .str (List.replicate (2 ^ 32) 0) }) ∧
    Registry.Reachable ((Registry.Op.registerEvidence (longEvidence (2 ^ 32))).run {}) ∧
      ¬ ((Registry.Op.registerEvidence (longEvidence (2 ^ 32))).run {}).SnapshotAccepted := by
  refine ⟨⟨hollow_built, unpacked_built, ?_, ?_, ?_⟩, ⟨.str _, ?_⟩, .step _ trivial .empty, ?_⟩
  · intro h
    have htail := (List.cons.inj (Canon.sequence.inj h)).2
    rw [filler] at htail
    exact List.cons_ne_nil _ _ htail
  · rw [canonicalEncode_of_wf unpacked_built.wf, canonicalEncode_of_wf hollow_built.wf, unpacked_encoding]
  · rw [encodedTruly_iff hollow_built, hollow_payloadSize]
    omega
  · rw [framedTruly_iff (.str _), payloadSize, List.length_replicate]
    omega
  · have hreach : Registry.Reachable ((Registry.Op.registerEvidence (longEvidence (2 ^ 32))).run {}) :=
      .step _ trivial .empty
    rw [Registry.snapshotAccepted_iff hreach.inv]
    intro hr
    have hsource : (longEvidence (2 ^ 32)).source.length = 2 ^ 32 := List.length_replicate
    have hsize := (length_source_le _).trans (evidenceSize_le_encodedSize (longEvidence_mem (2 ^ 32)))
    have hlt := hr.size
    omega

end CompatRegistry
