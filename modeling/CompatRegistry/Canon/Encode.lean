import CompatRegistry.Canon.Value
import CompatRegistry.Sha256

/-! The canonical encoder. Every element is a kind byte, a 32-bit length and a
payload. `appendElement` returns the bytes that the source appends to its output
buffer. `element` is the wire format itself: the same bytes without the sorting
and the duplicate check, which a well-formed value does not need. -/

namespace CompatRegistry

open Foundation

/-- `'C','R','C','F'`. -/
def kMagic : Bytes := [0x43, 0x52, 0x43, 0x46]

def kVersion : UInt8 := 1

def wU8 (v : UInt8) : Bytes := [v]

/-- A narrowed 32-bit word. -/
def wU32be (v : ℕ) : Bytes := toBE 4 v

def wU64be (v : UInt64) : Bytes := toBE 8 v.toNat

namespace Canon

/-- The bodies of the entries of a record, once they are in tag order. -/
def appendEntries : List (UInt32 × Result Bytes) → Result Bytes
  | [] => .ok []
  | (tag, value) :: r => do
    let v ← value
    let rest ← appendEntries r
    .ok (wU32be tag.toNat ++ v ++ rest)

mutual
def appendElement : Canon → Result Bytes
  | .null => .ok (wU8 0x00 ++ wU32be 0)
  | .uint v => .ok (wU8 0x01 ++ wU32be 8 ++ wU64be v)
  | .int v => .ok (wU8 0x02 ++ wU32be 8 ++ wU64be v.toUInt64)
  | .bool v => .ok (wU8 0x03 ++ wU32be 1 ++ [if v then 0x01 else 0x00])
  | .str s => .ok (wU8 0x04 ++ wU32be s.length ++ s)
  | .bytes s => .ok (wU8 0x05 ++ wU32be s.length ++ s)
  | .uuid u => .ok (wU8 0x06 ++ wU32be 16 ++ u.bytes)
  | .float x => .ok (wU8 0x07 ++ wU32be 8 ++ wU64be x.bits)
  | .record r =>
    let entries := sortByTag (encodeEntries r)
    match adjacentDuplicate entries with
    | some _ => .error (.canonError "canonical_encode: duplicate record tag")
    | none => do
      let body ← appendEntries entries
      .ok (wU8 0x08 ++ wU32be body.length ++ body)
  | .sequence q => do
    let body ← appendAll q
    .ok (wU8 0x09 ++ wU32be body.length ++ body)

/-- Each entry with the bytes of its value; the record is sorted afterwards. -/
def encodeEntries : Record → List (UInt32 × Result Bytes)
  | [] => []
  | (tag, c) :: r => (tag, appendElement c) :: encodeEntries r

def appendAll : Seq → Result Bytes
  | [] => .ok []
  | c :: q => do
    let v ← appendElement c
    let rest ← appendAll q
    .ok (v ++ rest)
end

end Canon

def canonicalEncode (c : Canon) : Result Bytes := do
  let e ← c.appendElement
  .ok (kMagic ++ [kVersion] ++ e)

def canonicalFingerprint (c : Canon) : Result Digest := do
  let enc ← canonicalEncode c
  .ok (Sha256.compute enc)

def canonicalFingerprintHex (c : Canon) : Result Bytes := do
  let d ← canonicalFingerprint c
  .ok (Sha256.hex d)

namespace Canon

/-! ### The wire format -/

/-- A kind byte, the narrowed length of the payload, the payload. -/
def frame (kk : UInt8) (payload : Bytes) : Bytes := kk :: (toBE 4 payload.length ++ payload)

mutual
def element : Canon → Bytes
  | .null => frame 0x00 []
  | .uint v => frame 0x01 (toBE 8 v.toNat)
  | .int v => frame 0x02 (toBE 8 v.toUInt64.toNat)
  | .bool v => frame 0x03 [if v then 0x01 else 0x00]
  | .str s => frame 0x04 s
  | .bytes s => frame 0x05 s
  | .uuid u => frame 0x06 u.bytes
  | .float x => frame 0x07 (toBE 8 x.bits.toNat)
  | .record r => frame 0x08 (recordBody r)
  | .sequence q => frame 0x09 (seqBody q)

def recordBody : Record → Bytes
  | [] => []
  | (tag, c) :: r => toBE 4 tag.toNat ++ element c ++ recordBody r

def seqBody : Seq → Bytes
  | [] => []
  | c :: q => element c ++ seqBody q
end

mutual
/-- Str and Bytes payloads and the encoded bodies of records and sequences are
shorter than `2^32` bytes, at every depth. -/
def Fits : Canon → Prop
  | .str s => s.length < 2 ^ 32
  | .bytes s => s.length < 2 ^ 32
  | .record r => (recordBody r).length < 2 ^ 32 ∧ FitsRecord r
  | .sequence q => (seqBody q).length < 2 ^ 32 ∧ FitsSeq q
  | _ => True

def FitsRecord : Record → Prop
  | [] => True
  | (_, c) :: r => c.Fits ∧ FitsRecord r

def FitsSeq : Seq → Prop
  | [] => True
  | c :: q => c.Fits ∧ FitsSeq q
end

@[simp] theorem frame_length (kk : UInt8) (payload : Bytes) :
    (frame kk payload).length = 5 + payload.length := by
  simp [frame]; omega

/-- The payload of an element that has one shorter than `2^32` bytes. -/
theorem element_eq_frame (c : Canon) : ∃ kk payload, c.element = frame kk payload := by
  cases c <;> exact ⟨_, _, by rw [element]⟩

theorem five_le_element_length (c : Canon) : 5 ≤ c.element.length := by
  obtain ⟨kk, payload, h⟩ := element_eq_frame c
  rw [h, frame_length]
  omega

mutual
/-- A value whose element is shorter than `2^32` bytes fits throughout. -/
theorem fits_of_length : ∀ c : Canon, c.element.length < 2 ^ 32 → c.Fits
  | .null, _ => trivial
  | .uint _, _ => trivial
  | .int _, _ => trivial
  | .bool _, _ => trivial
  | .str s, h => by rw [element, frame_length] at h; rw [Fits]; omega
  | .bytes s, h => by rw [element, frame_length] at h; rw [Fits]; omega
  | .uuid _, _ => trivial
  | .float _, _ => trivial
  | .record r, h => by
    rw [element, frame_length] at h
    exact ⟨by omega, fitsRecord_of_length r (by omega)⟩
  | .sequence q, h => by
    rw [element, frame_length] at h
    exact ⟨by omega, fitsSeq_of_length q (by omega)⟩

theorem fitsRecord_of_length : ∀ r : Record, (recordBody r).length < 2 ^ 32 → FitsRecord r
  | [], _ => trivial
  | (_, c) :: r, h => by
    simp only [recordBody, List.length_append] at h
    exact ⟨fits_of_length c (by omega), fitsRecord_of_length r (by omega)⟩

theorem fitsSeq_of_length : ∀ q : Seq, (seqBody q).length < 2 ^ 32 → FitsSeq q
  | [], _ => trivial
  | c :: q, h => by
    simp only [seqBody, List.length_append] at h
    exact ⟨fits_of_length c (by omega), fitsSeq_of_length q (by omega)⟩
end

/-! ### The encoder writes the wire format -/

theorem encodeEntries_keys (r : Record) : (encodeEntries r).map Prod.fst = r.map Prod.fst := by
  induction r with
  | nil => rfl
  | cons e r ih => simp [encodeEntries, ih]

mutual
theorem appendElement_of_wf : ∀ c : Canon, c.WF → c.appendElement = .ok c.element
  | .null, _ => rfl
  | .uint _, _ => rfl
  | .int _, _ => rfl
  | .bool _, _ => rfl
  | .str _, _ => rfl
  | .bytes _, _ => rfl
  | .uuid u, _ => by simp [appendElement, element, frame, wU8, wU32be, u.size]
  | .float _, _ => rfl
  | .record r, h => by
    have hs : SortedMap.Sorted (encodeEntries r) := by
      rw [SortedMap.Sorted, encodeEntries_keys]; exact h.1
    rw [appendElement, sortByTag_of_sorted hs, adjacentDuplicate_of_sorted hs]
    simp only [appendEntries_of_wf r h.2, Result.ok_bind]
    rfl
  | .sequence q, h => by
    rw [appendElement, appendAll_of_wf q h]
    rfl

theorem appendEntries_of_wf : ∀ r : Record, WFRecord r →
    appendEntries (encodeEntries r) = .ok (recordBody r)
  | [], _ => rfl
  | (tag, c) :: r, h => by
    rw [encodeEntries, appendEntries, appendElement_of_wf c h.1, appendEntries_of_wf r h.2]
    rfl

theorem appendAll_of_wf : ∀ q : Seq, WFSeq q → appendAll q = .ok (seqBody q)
  | [], _ => rfl
  | c :: q, h => by
    rw [appendAll, appendElement_of_wf c h.1, appendAll_of_wf q h.2]
    rfl
end

/-- Five header bytes of the container, then the element. -/
def encoding (c : Canon) : Bytes := kMagic ++ [kVersion] ++ c.element

theorem canonicalEncode_of_wf {c : Canon} (h : c.WF) : canonicalEncode c = .ok c.encoding := by
  rw [canonicalEncode, appendElement_of_wf c h]
  rfl

theorem canonicalFingerprint_of_wf {c : Canon} (h : c.WF) :
    canonicalFingerprint c = .ok (Sha256.compute c.encoding) := by
  rw [canonicalFingerprint, canonicalEncode_of_wf h]
  rfl

theorem canonicalFingerprintHex_of_wf {c : Canon} (h : c.WF) :
    canonicalFingerprintHex c = .ok (Sha256.hex (Sha256.compute c.encoding)) := by
  rw [canonicalFingerprintHex, canonicalFingerprint_of_wf h]
  rfl

/-! ### Equal encodings -/

/-- Two values of one kind whose elements are of one length, whatever the values. -/
inductive SameSize : Canon → Canon → Prop
  | uint (v w : UInt64) : SameSize (.uint v) (.uint w)
  | bool (v w : Bool) : SameSize (.bool v) (.bool w)
  | uuid (u v : Uuid) : SameSize (.uuid u) (.uuid v)

theorem SameSize.length {c c' : Canon} (h : SameSize c c') : c.element.length = c'.element.length := by
  cases h with
  | uint v w => simp [element]
  | bool v w => simp [element]
  | uuid u v => simp [element, u.size, v.size]

theorem SameSize.eq {c c' : Canon} (h : SameSize c c') (heq : c.element = c'.element) : c = c' := by
  cases h with
  | uint v w =>
    have hbytes : toBE 8 v.toNat = toBE 8 w.toNat := by simpa [element, frame] using heq
    have hnat := congrArg ofBE hbytes
    have hv := v.toNat_lt
    have hw := w.toNat_lt
    rw [ofBE_toBE, ofBE_toBE] at hnat
    have hvw : v.toNat = w.toNat := by omega
    rw [UInt64.toNat_inj.mp hvw]
  | bool v w => cases v <;> cases w <;> simp [element, frame] at heq ⊢
  | uuid u v =>
    have hbytes : u.bytes = v.bytes := by simpa [element, frame, u.size, v.size] using heq
    rw [FixedBytes.ext hbytes]

/-- Entries of fixed sizes can be read off the front of a record, whatever follows. -/
theorem recordBody_prefix {p p' r r' : Record}
    (hp : List.Forall₂ (fun e e' => e.1 = e'.1 ∧ SameSize e.2 e'.2) p p')
    (h : recordBody (p ++ r) = recordBody (p' ++ r')) : p = p' ∧ recordBody r = recordBody r' := by
  induction hp with
  | nil => exact ⟨rfl, h⟩
  | @cons e e' p p' he _ ih =>
    obtain ⟨tag, c⟩ := e
    obtain ⟨tag', c'⟩ := e'
    obtain ⟨htag, hsize⟩ := he
    simp only at htag hsize
    subst htag
    simp only [List.cons_append, recordBody, List.append_assoc, List.append_cancel_left_eq] at h
    obtain ⟨helement, hrest⟩ := List.append_inj h hsize.length
    obtain ⟨hpp, hbody⟩ := ih hrest
    rw [hsize.eq helement, hpp]
    exact ⟨rfl, hbody⟩

/-- The bodies of two records with one encoding, which may be too long for their length field. -/
theorem recordBody_of_encoding_eq {r r' : Record}
    (h : (Canon.record r).encoding = (Canon.record r').encoding) : recordBody r = recordBody r' := by
  simp only [encoding, element, frame, List.append_cancel_left_eq, List.cons.injEq, true_and] at h
  exact (List.append_inj h (by simp)).2

/-! ### Errors of the encoder -/

theorem appendEntries_error {l : List (UInt32 × Result Bytes)} {e : Fault}
    (hl : ∀ x ∈ l, ∀ e, x.2 = .error e → ∃ what, e = .canonError what)
    (h : appendEntries l = .error e) : ∃ what, e = .canonError what := by
  induction l with
  | nil => simp [appendEntries] at h
  | cons x l ih =>
    obtain ⟨hx, hrest⟩ := List.forall_mem_cons.mp hl
    obtain ⟨tag, v⟩ := x
    rw [appendEntries, Result.bind_eq_error] at h
    rcases h with h | ⟨v', -, h⟩
    · exact hx e h
    · simp only [Result.bind_eq_error, reduceCtorEq, and_false, exists_false, or_false] at h
      exact ih hrest h

mutual
/-- Encoding fails with an error of its own. -/
theorem appendElement_error : ∀ (c : Canon) (e : Fault), c.appendElement = .error e →
    ∃ what, e = .canonError what
  | .null, _, h => by simp [appendElement] at h
  | .uint _, _, h => by simp [appendElement] at h
  | .int _, _, h => by simp [appendElement] at h
  | .bool _, _, h => by simp [appendElement] at h
  | .str _, _, h => by simp [appendElement] at h
  | .bytes _, _, h => by simp [appendElement] at h
  | .uuid _, _, h => by simp [appendElement] at h
  | .float _, _, h => by simp [appendElement] at h
  | .record r, e, h => by
    rw [appendElement] at h
    split at h
    · cases h
      exact ⟨_, rfl⟩
    · simp only [Result.bind_eq_error, reduceCtorEq, and_false, exists_false, or_false] at h
      refine appendEntries_error (fun x hx => ?_) h
      exact encodeEntries_error r x ((sortByTag_perm _).mem_iff.mp hx)
  | .sequence q, e, h => by
    rw [appendElement] at h
    simp only [Result.bind_eq_error, reduceCtorEq, and_false, exists_false, or_false] at h
    exact appendAll_error q e h

theorem encodeEntries_error : ∀ (r : Record), ∀ x ∈ encodeEntries r, ∀ e, x.2 = .error e →
    ∃ what, e = .canonError what
  | [], x, hx, _, _ => by simp [encodeEntries] at hx
  | (tag, c) :: r, x, hx, e, h => by
    rw [encodeEntries, List.mem_cons] at hx
    rcases hx with rfl | hx
    · exact appendElement_error c e h
    · exact encodeEntries_error r x hx e h

theorem appendAll_error : ∀ (q : Seq) (e : Fault), appendAll q = .error e → ∃ what, e = .canonError what
  | [], _, h => by simp [appendAll] at h
  | c :: q, e, h => by
    rw [appendAll, Result.bind_eq_error] at h
    rcases h with h | ⟨v, -, h⟩
    · exact appendElement_error c e h
    · simp only [Result.bind_eq_error, reduceCtorEq, and_false, exists_false, or_false] at h
      exact appendAll_error q e h
end

theorem canonicalFingerprintHex_error {c : Canon} {e : Fault}
    (h : canonicalFingerprintHex c = .error e) : ∃ what, e = .canonError what := by
  simp only [canonicalFingerprintHex, canonicalFingerprint, canonicalEncode, Result.bind_eq_error,
    reduceCtorEq, and_false, exists_false, or_false] at h
  exact appendElement_error c e h

end Canon

end CompatRegistry
