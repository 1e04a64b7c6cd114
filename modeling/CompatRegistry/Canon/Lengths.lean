import CompatRegistry.Canon.RoundTrip

/-! The lengths that the encoder writes. They are narrowed to 32 bits and not checked, so
they are true exactly for values whose payload is shorter than `2^32` bytes. The encoding
of such a value is no other value's. Beyond that a length can wrap to one that makes the
payload look like something else. -/

namespace CompatRegistry

open Foundation

/-- A kind byte, four bytes that give the number of payload bytes, and the payload. -/
def TrueFrame (kk : UInt8) (payload b : Bytes) : Prop :=
  ∃ len, b = kk :: (len ++ payload) ∧ len.length = 4 ∧ ofBE len = payload.length

namespace Canon

mutual
/-- The bytes are an element of the value, and every length in it is true. -/
def Measured : Canon → Bytes → Prop
  | .null, b => TrueFrame 0x00 [] b
  | .uint v, b => TrueFrame 0x01 (toBE 8 v.toNat) b
  | .int v, b => TrueFrame 0x02 (toBE 8 v.toUInt64.toNat) b
  | .bool v, b => TrueFrame 0x03 [if v then 0x01 else 0x00] b
  | .str s, b => TrueFrame 0x04 s b
  | .bytes s, b => TrueFrame 0x05 s b
  | .uuid u, b => TrueFrame 0x06 u.bytes b
  | .float x, b => TrueFrame 0x07 (toBE 8 x.bits.toNat) b
  | .record r, b => ∃ body, MeasuredEntries r body ∧ TrueFrame 0x08 body b
  | .sequence q, b => ∃ body, MeasuredItems q body ∧ TrueFrame 0x09 body b

def MeasuredEntries : Record → Bytes → Prop
  | [], b => b = []
  | (tag, c) :: r, b => ∃ e rest, b = toBE 4 tag.toNat ++ e ++ rest ∧ c.Measured e ∧ MeasuredEntries r rest

def MeasuredItems : Seq → Bytes → Prop
  | [], b => b = []
  | c :: q, b => ∃ e rest, b = e ++ rest ∧ c.Measured e ∧ MeasuredItems q rest
end

mutual
/-- The number of bytes behind the length of a value. -/
def payloadSize : Canon → ℕ
  | .null => 0
  | .uint _ => 8
  | .int _ => 8
  | .bool _ => 1
  | .str s => s.length
  | .bytes s => s.length
  | .uuid _ => 16
  | .float _ => 8
  | .record r => payloadSizeEntries r
  | .sequence q => payloadSizeItems q

def payloadSizeEntries : Record → ℕ
  | [] => 0
  | (_, c) :: r => 9 + c.payloadSize + payloadSizeEntries r

def payloadSizeItems : Seq → ℕ
  | [] => 0
  | c :: q => 5 + c.payloadSize + payloadSizeItems q
end

mutual
theorem element_length : ∀ c : Canon, c.element.length = 5 + c.payloadSize
  | .null => by simp [element, payloadSize]
  | .uint v => by simp [element, payloadSize]
  | .int v => by simp [element, payloadSize]
  | .bool v => by simp [element, payloadSize]
  | .str s => by simp [element, payloadSize]
  | .bytes s => by simp [element, payloadSize]
  | .uuid u => by simp [element, payloadSize, u.size]
  | .float x => by simp [element, payloadSize]
  | .record r => by rw [element, payloadSize, frame_length, recordBody_length r]
  | .sequence q => by rw [element, payloadSize, frame_length, seqBody_length q]

theorem recordBody_length : ∀ r : Record, (recordBody r).length = payloadSizeEntries r
  | [] => rfl
  | (tag, c) :: r => by
    rw [recordBody, payloadSizeEntries, List.length_append, List.length_append, toBE_length, element_length c,
      recordBody_length r]
    omega

theorem seqBody_length : ∀ q : Seq, (seqBody q).length = payloadSizeItems q
  | [] => rfl
  | c :: q => by
    rw [seqBody, payloadSizeItems, List.length_append, element_length c, seqBody_length q]
end

theorem encoding_length (c : Canon) : c.encoding.length = 10 + c.payloadSize := by
  simp only [encoding, List.length_append, element_length, kMagic, List.length_cons, List.length_nil]
  omega

/-- It is the outermost payload that has to fit. -/
theorem fits_iff_payloadSize (c : Canon) : c.Fits ↔ c.payloadSize < 2 ^ 32 := by
  cases c with
  | str s => rfl
  | bytes s => rfl
  | record r =>
    rw [Fits, payloadSize, ← recordBody_length]
    exact ⟨fun h => h.1, fun h => ⟨h, fitsRecord_of_length r h⟩⟩
  | sequence q =>
    rw [Fits, payloadSize, ← seqBody_length]
    exact ⟨fun h => h.1, fun h => ⟨h, fitsSeq_of_length q h⟩⟩
  | _ => simp [Fits, payloadSize]

/-! ### True lengths -/

end Canon

theorem trueFrame_iff {kk : UInt8} {payload b : Bytes} :
    TrueFrame kk payload b ↔ b = Canon.frame kk payload ∧ payload.length < 2 ^ 32 := by
  constructor
  · rintro ⟨len, rfl, hlen, htrue⟩
    have hlt := ofBE_lt len
    have hbytes := toBE_ofBE len
    rw [htrue, hlen] at hlt hbytes
    exact ⟨by rw [Canon.frame, hbytes], by simpa using hlt⟩
  · rintro ⟨rfl, hlt⟩
    exact ⟨toBE 4 payload.length, rfl, toBE_length 4 _, lt_of_tlv hlt⟩

namespace Canon

mutual
/-- What is written is measured when everything fits, and nothing else is. -/
theorem measured_iff : ∀ (c : Canon) (b : Bytes), c.Measured b ↔ b = c.element ∧ c.Fits
  | .null, b => by simp [Measured, trueFrame_iff, element, Fits]
  | .uint v, b => by simp [Measured, trueFrame_iff, element, Fits]
  | .int v, b => by simp [Measured, trueFrame_iff, element, Fits]
  | .bool v, b => by simp [Measured, trueFrame_iff, element, Fits]
  | .str s, b => by rw [Measured, trueFrame_iff, element, Fits]
  | .bytes s, b => by rw [Measured, trueFrame_iff, element, Fits]
  | .uuid u, b => by simp [Measured, trueFrame_iff, element, Fits, u.size]
  | .float x, b => by simp [Measured, trueFrame_iff, element, Fits]
  | .record r, b => by
    simp only [Measured, trueFrame_iff, element, Fits, measuredEntries_iff r]
    constructor
    · rintro ⟨_, ⟨rfl, hfits⟩, rfl, hlt⟩
      exact ⟨rfl, hlt, hfits⟩
    · rintro ⟨rfl, hlt, hfits⟩
      exact ⟨_, ⟨rfl, hfits⟩, rfl, hlt⟩
  | .sequence q, b => by
    simp only [Measured, trueFrame_iff, element, Fits, measuredItems_iff q]
    constructor
    · rintro ⟨_, ⟨rfl, hfits⟩, rfl, hlt⟩
      exact ⟨rfl, hlt, hfits⟩
    · rintro ⟨rfl, hlt, hfits⟩
      exact ⟨_, ⟨rfl, hfits⟩, rfl, hlt⟩

theorem measuredEntries_iff : ∀ (r : Record) (b : Bytes), MeasuredEntries r b ↔ b = recordBody r ∧ FitsRecord r
  | [], b => by simp [MeasuredEntries, recordBody, FitsRecord]
  | (tag, c) :: r, b => by
    simp only [MeasuredEntries, recordBody, FitsRecord, measured_iff c, measuredEntries_iff r]
    constructor
    · rintro ⟨_, _, rfl, ⟨rfl, hc⟩, rfl, hr⟩
      exact ⟨rfl, hc, hr⟩
    · rintro ⟨rfl, hc, hr⟩
      exact ⟨_, _, rfl, ⟨rfl, hc⟩, rfl, hr⟩

theorem measuredItems_iff : ∀ (q : Seq) (b : Bytes), MeasuredItems q b ↔ b = seqBody q ∧ FitsSeq q
  | [], b => by simp [MeasuredItems, seqBody, FitsSeq]
  | c :: q, b => by
    simp only [MeasuredItems, seqBody, FitsSeq, measured_iff c, measuredItems_iff q]
    constructor
    · rintro ⟨_, _, rfl, ⟨rfl, hc⟩, rfl, hq⟩
      exact ⟨rfl, hc, hq⟩
    · rintro ⟨rfl, hc, hq⟩
      exact ⟨_, _, rfl, ⟨rfl, hc⟩, rfl, hq⟩
end

/-! ### Shared encodings -/

/-- A value that fits shares its encoding with no value of any size. -/
theorem eq_of_encoding_eq {c c' : Canon} (hc : c.WF) (hc' : c'.WF) (hfits : c.Fits)
    (h : c'.encoding = c.encoding) : c' = c := by
  have hlength := congrArg List.length h
  rw [encoding_length, encoding_length] at hlength
  have hsize := (fits_iff_payloadSize c).mp hfits
  exact encoding_injective hc' hc ((fits_iff_payloadSize c').mpr (by omega)) hfits h

/-- SHA-256 does not map the encodings of the two values to one digest. -/
def DigestsApart (c c' : Canon) : Prop :=
  Sha256.compute c.encoding = Sha256.compute c'.encoding → c.encoding = c'.encoding

/-- The value is refused, or all lengths of its encoding are true, and neither the
encoding nor the fingerprint is that of another value. -/
def EncodedTruly (c : Canon) : Prop :=
  Throws (canonicalEncode c) ∨ ∃ e, canonicalEncode c = .ok (kMagic ++ [kVersion] ++ e) ∧ c.Measured e ∧
    ∀ c', Built c' → c' ≠ c → canonicalEncode c' ≠ canonicalEncode c ∧
      (DigestsApart c' c → canonicalFingerprint c' ≠ canonicalFingerprint c)

/-- The encoder refuses nothing, so the size of the payload decides. -/
theorem encodedTruly_iff {c : Canon} (h : Built c) : c.EncodedTruly ↔ c.payloadSize < 2 ^ 32 := by
  rw [← fits_iff_payloadSize, EncodedTruly, canonicalEncode_of_wf h.wf]
  constructor
  · rintro (hthrows | ⟨e, -, hmeasured, -⟩)
    · exact absurd hthrows (not_throws_ok _)
    · exact ((measured_iff c e).mp hmeasured).2
  · intro hfits
    refine .inr ⟨c.element, rfl, (measured_iff c _).mpr ⟨rfl, hfits⟩, fun c' hc' hne => ?_⟩
    have hdistinct : c'.encoding ≠ c.encoding := fun heq => hne (eq_of_encoding_eq h.wf hc'.wf hfits heq)
    rw [canonicalEncode_of_wf hc'.wf, canonicalFingerprint_of_wf hc'.wf, canonicalFingerprint_of_wf h.wf]
    exact ⟨fun heq => hdistinct (Except.ok.inj heq),
      fun hapart heq => hdistinct (hapart (Except.ok.inj heq))⟩

/-- Behind an empty Str a sequence of `2^32` bytes is what a Str of these bytes is. -/
theorem element_wrapped {q : Seq} (h : (seqBody q).length = 2 ^ 32) :
    (Canon.sequence (.str [] :: q)).element = (Canon.sequence [.str (seqBody q)]).element := by
  have hzero : toBE 4 (seqBody q).length = toBE 4 0 := toBE_four_congr (by omega)
  have hbody : seqBody (.str [] :: q) = seqBody [.str (seqBody q)] := by
    simp only [seqBody, element, frame, hzero, List.length_nil, List.append_nil, List.cons_append]
  rw [element, element, hbody]

end Canon

end CompatRegistry
