import CompatRegistry.Canon.RoundTrip
import Mathlib.Logic.Relation

/-! Reads outside the buffer. The segment test of a child subtracts the position
behind its header from the end of the segment. A header that straddles the end
makes the difference wrap, every length then passes, and the bulk copy of a Str
or Bytes payload, or of one nested in such a child, may leave the buffer. This
file finds the places that the decoder reaches and shows that it faults exactly
when one of them is a bulk payload that the buffer does not hold. -/

namespace CompatRegistry

open Foundation Reader Canon

/-! ### The places the decoder reaches -/

/-- The segment test on a payload of `len` bytes: the header at `pos` ends
behind the segment, or the payload ends inside it. -/
def InSegment (pos stop len : ℕ) : Prop := stop < pos + 5 ∨ pos + 5 + len ≤ stop

theorem inSegment_iff {pos stop len : ℕ} (hlen : len < 2 ^ 32) (hstop : pos ≤ stop + 4) :
    len ≤ sizeSub stop (pos + 5) ↔ InSegment pos stop len := by
  rw [sizeSub, InSegment]
  split_ifs <;> omega

/-- The entries `r` of a record whose payload runs from `start` to `stop` are
complete, and a further tag follows them. -/
structure EntriesBefore (b : Bytes) (start stop : ℕ) (last : Option UInt32) (r : Record)
    (tag : UInt32) : Prop where
  sorted : SortedMap.Sorted r
  above : ∀ t ∈ last, ∀ e ∈ r, t < e.1
  wf : WFRecord r
  fits : FitsRecord r
  body : At b start (recordBody r)
  more : start + (recordBody r).length < stop
  tagAt : At b (start + (recordBody r).length) (toBE 4 tag.toNat)
  next : ∀ t ∈ lastTag last r, t < tag

/-- The items `q` of a sequence whose payload runs from `start` to `stop` are
complete, and a further item follows them. -/
structure ItemsBefore (b : Bytes) (start stop : ℕ) (q : Seq) : Prop where
  wf : WFSeq q
  fits : FitsSeq q
  body : At b start (seqBody q)
  more : start + (seqBody q).length < stop

/-- A place is a position and the end of the segment around it. The container at
one place opens the place of the child behind its complete members. -/
inductive Opens (b : Bytes) : ℕ × ℕ → ℕ × ℕ → Prop
  | record {pos stop len : ℕ} {r : Record} {tag : UInt32} (head : HeaderAt b pos 0x08 len)
      (seg : InSegment pos stop len)
      (before : EntriesBefore b (pos + 5) (pos + 5 + len) none r tag) :
      Opens b (pos, stop) (pos + 5 + (recordBody r).length + 4, pos + 5 + len)
  | sequence {pos stop len : ℕ} {q : Seq} (head : HeaderAt b pos 0x09 len)
      (seg : InSegment pos stop len) (before : ItemsBefore b (pos + 5) (pos + 5 + len) q) :
      Opens b (pos, stop) (pos + 5 + (seqBody q).length, pos + 5 + len)

/-- A Str or Bytes header that passes the segment test, with a payload that the
buffer does not hold. -/
def PastEnd (b : Bytes) (site : ℕ × ℕ) : Prop :=
  ∃ kk len, HeaderAt b site.1 kk len ∧ (kk = 0x04 ∨ kk = 0x05) ∧ InSegment site.1 site.2 len ∧
    b.length < site.1 + 5 + len

def Overreads (b : Bytes) (site : ℕ × ℕ) : Prop :=
  ∃ site', Relation.ReflTransGen (Opens b) site site' ∧ PastEnd b site'

/-- The next position is inside the buffer and behind the header of the container. -/
theorem Opens.bounds {b : Bytes} {site site' : ℕ × ℕ} (h : Opens b site site') :
    site.1 + 5 ≤ site'.1 ∧ site'.1 ≤ b.length ∧ site'.1 ≤ site'.2 + 4 := by
  cases h with
  | record head seg before =>
    have h₁ := before.body.length_le head.pos_le
    have h₂ := before.tagAt.length_le h₁
    have h₃ := before.more
    rw [toBE_length] at h₂
    exact ⟨by simp only; omega, h₂, by simp only; omega⟩
  | sequence head seg before =>
    have h₁ := before.body.length_le head.pos_le
    have h₃ := before.more
    exact ⟨by simp only; omega, h₁, by simp only; omega⟩

/-! ### Errors of the loops -/

/-- An error of the record loop is its own or that of the child it stopped at. -/
theorem recordLoop_error {b : Bytes} {elem : ℕ → ℕ → Result (Canon × ℕ)} (helem : Sound b elem)
    {payloadEnd fuel pos : ℕ} {last : Option UInt32} {e : Fault} (hpos : pos ≤ b.length)
    (hfuel : b.length - pos < fuel)
    (h : recordLoop elem b payloadEnd fuel pos last = .error e) :
    (∃ what, e = .canonError what) ∨ ∃ r tag, EntriesBefore b pos payloadEnd last r tag ∧
      elem (pos + (recordBody r).length + 4) payloadEnd = .error e := by
  induction fuel generalizing pos last with
  | zero => omega
  | succ fuel ih =>
    rw [recordLoop] at h
    split_ifs at h with hlt
    rw [Result.bind_eq_error] at h
    rcases h with h | ⟨⟨t, p₁⟩, htag, h⟩
    · exact .inl (u32be_eq_error hpos h)
    obtain ⟨hp₁, htlt, hat⟩ := (u32be_eq_ok hpos).mp htag
    simp only at hp₁ htlt hat h
    subst hp₁
    have hto : (UInt32.ofNat t).toNat = t := by
      rw [UInt32.toNat_ofNat', Nat.mod_eq_of_lt (by simpa using htlt)]
    rw [← hto] at hat
    split_ifs at h with hlast
    · cases h
      exact .inl ⟨_, rfl⟩
    have hfirst : ∀ t' ∈ last, t' < UInt32.ofNat t := by
      rintro t' rfl
      simpa using hlast
    rw [Result.bind_eq_error] at h
    rcases h with h | ⟨⟨v, p₂⟩, hv, h⟩
    · -- the loop stopped at this child: no entry is complete before it
      refine .inr ⟨[], UInt32.ofNat t, ⟨?_, by simp, trivial, trivial, at_nil _ _, ?_, ?_, ?_⟩, ?_⟩
      · simp [SortedMap.Sorted]
      · simpa [recordBody] using hlt
      · simpa [recordBody] using hat
      · exact hfirst
      · simpa [recordBody] using h
    · obtain ⟨hwf, hfits, hatv, rfl, hle⟩ := helem _ _ _ _ hv
      simp only [Result.bind_eq_error, reduceCtorEq, and_false, exists_false, or_false] at h
      have hfive := five_le_element_length v
      rcases ih hle (by omega) h with h | ⟨r, tag, hr, h⟩
      · exact .inl h
      · have hgt : ∀ e ∈ r, UInt32.ofNat t < e.1 := hr.above _ rfl
        have hbody : (recordBody ((UInt32.ofNat t, v) :: r)).length =
            4 + v.element.length + (recordBody r).length := by
          simp [recordBody]; omega
        have hsum : pos + (recordBody ((UInt32.ofNat t, v) :: r)).length =
            pos + 4 + v.element.length + (recordBody r).length := by omega
        refine .inr ⟨(UInt32.ofNat t, v) :: r, tag, ⟨SortedMap.sorted_cons.mpr ⟨hgt, hr.sorted⟩, ?_,
          ⟨hwf, hr.wf⟩, ⟨hfits, hr.fits⟩, ?_, hsum ▸ hr.more, hsum ▸ hr.tagAt, hr.next⟩, hsum ▸ h⟩
        · intro t' ht' e he
          rcases List.mem_cons.mp he with rfl | he
          · exact hfirst t' ht'
          · exact (hfirst t' ht').trans (hgt e he)
        · rw [recordBody, at_append, at_append, toBE_length, List.length_append, toBE_length,
            ← Nat.add_assoc]
          exact ⟨⟨hat, hatv⟩, hr.body⟩

theorem sequenceLoop_error {b : Bytes} {elem : ℕ → ℕ → Result (Canon × ℕ)} (helem : Sound b elem)
    {payloadEnd fuel pos : ℕ} {e : Fault} (hpos : pos ≤ b.length) (hfuel : b.length - pos < fuel)
    (h : sequenceLoop elem payloadEnd fuel pos = .error e) :
    ∃ q, ItemsBefore b pos payloadEnd q ∧
      elem (pos + (seqBody q).length) payloadEnd = .error e := by
  induction fuel generalizing pos with
  | zero => omega
  | succ fuel ih =>
    rw [sequenceLoop] at h
    split_ifs at h with hlt
    rw [Result.bind_eq_error] at h
    rcases h with h | ⟨⟨v, p₂⟩, hv, h⟩
    · exact ⟨[], ⟨trivial, trivial, at_nil _ _, by simpa [seqBody] using hlt⟩,
        by simpa [seqBody] using h⟩
    · obtain ⟨hwf, hfits, hatv, rfl, hle⟩ := helem _ _ _ _ hv
      simp only [Result.bind_eq_error, reduceCtorEq, and_false, exists_false, or_false] at h
      have hfive := five_le_element_length v
      obtain ⟨q, hq, h⟩ := ih hle (by omega) h
      have hsum : pos + (seqBody (v :: q)).length = pos + v.element.length + (seqBody q).length := by
        simp [seqBody]; omega
      refine ⟨v :: q, ⟨⟨hwf, hq.wf⟩, ⟨hfits, hq.fits⟩, ?_, hsum ▸ hq.more⟩, hsum ▸ h⟩
      rw [seqBody, at_append]
      exact ⟨hatv, hq.body⟩

/-- The loop comes to the child behind its complete entries and takes over its error. -/
theorem EntriesBefore.recordLoop_error {b : Bytes} {lo : ℕ} {elem : ℕ → ℕ → Result (Canon × ℕ)}
    (helem : Complete b lo elem) {payloadEnd fuel pos : ℕ} {last : Option UInt32} {r : Record}
    {tag : UInt32} {e : Fault} (h : EntriesBefore b pos payloadEnd last r tag) (hlo : lo ≤ pos)
    (hpos : pos ≤ b.length) (hfuel : b.length - pos < fuel)
    (he : elem (pos + (recordBody r).length + 4) payloadEnd = .error e) :
    recordLoop elem b payloadEnd fuel pos last = .error e := by
  obtain ⟨fuel', hfuel', heq⟩ := recordLoop_append helem hlo h.sorted h.above h.wf h.fits hpos h.body
    h.more.le hfuel
  obtain ⟨n, rfl⟩ : ∃ n, fuel' = n + 1 := ⟨fuel' - 1, by omega⟩
  have hle := h.body.length_le hpos
  have htag : u32be b (pos + (recordBody r).length) =
      .ok (tag.toNat, pos + (recordBody r).length + 4) :=
    (u32be_eq_ok hle).mpr ⟨rfl, tag.toNat_lt, h.tagAt⟩
  have hlast : ¬ (lastTag last r).any (tag ≤ ·) = true := by
    have hnext := h.next
    cases hl : lastTag last r with
    | none => simp
    | some t => simpa using hnext t hl
  rw [heq, recordLoop, if_pos h.more, htag, Result.ok_bind]
  simp only [UInt32.ofNat_toNat, hlast, Bool.false_eq_true, if_false, he]
  rfl

theorem ItemsBefore.sequenceLoop_error {b : Bytes} {lo : ℕ} {elem : ℕ → ℕ → Result (Canon × ℕ)}
    (helem : Complete b lo elem) {payloadEnd fuel pos : ℕ} {q : Seq} {e : Fault}
    (h : ItemsBefore b pos payloadEnd q) (hlo : lo ≤ pos) (hpos : pos ≤ b.length)
    (hfuel : b.length - pos < fuel)
    (he : elem (pos + (seqBody q).length) payloadEnd = .error e) :
    sequenceLoop elem payloadEnd fuel pos = .error e := by
  obtain ⟨fuel', hfuel', heq⟩ := sequenceLoop_append helem hlo h.wf h.fits hpos h.body h.more.le hfuel
  obtain ⟨n, rfl⟩ : ∃ n, fuel' = n + 1 := ⟨fuel' - 1, by omega⟩
  rw [heq, sequenceLoop, if_pos h.more, he]
  rfl

/-! ### Errors of the element parser -/

/-- A payload of one 64-bit word fails with an error of the decoder, if what is made
of the word does. -/
theorem wordPayload_eq_error {b : Bytes} {pos len : ℕ} {what what' : Bytes} {e : Fault}
    (make : ℕ → ℕ → Result (Canon × ℕ)) (hpos : pos ≤ b.length)
    (hmake : ∀ v p e, make v p = .error e → ∃ what, e = .canonError what)
    (h : (if len ≠ 8 then .error (.canonError what) else do
      let (v, p) ← u64be b pos
      if p ≠ pos + len then .error (.canonError what') else make v p) = Except.error e) :
    ∃ what, e = .canonError what := by
  split_ifs at h
  · cases h; exact ⟨_, rfl⟩
  rcases Result.bind_eq_error.mp h with h | ⟨⟨v, p⟩, -, h⟩
  · exact u64be_eq_error hpos h
  · simp only at h
    split_ifs at h
    · cases h; exact ⟨_, rfl⟩
    · exact hmake v p e h

/-- What an element at `pos` may fail with: an error of its own, the bulk copy of
its payload, or the error of a child. -/
theorem parsePayload_error {b : Bytes} {elem : ℕ → ℕ → Result (Canon × ℕ)} (helem : Sound b elem)
    {fuel pos stop len : ℕ} {kk : UInt8} {e : Fault} (hhead : HeaderAt b pos kk len)
    (hseg : InSegment pos stop len) (hfuel : b.length - (pos + 5) < fuel)
    (h : parsePayload elem b fuel kk len (pos + 5) = .error e) :
    (∃ what, e = .canonError what) ∨ (e = .outOfRange ∧ PastEnd b (pos, stop)) ∨
      ∃ site, Opens b (pos, stop) site ∧ elem site.1 site.2 = .error e := by
  have hpos : pos + 5 ≤ b.length := hhead.pos_le
  have hown : ∀ what, (∃ what', Fault.canonError what = .canonError what') := fun what => ⟨what, rfl⟩
  rw [parsePayload] at h
  split at h
  next hk =>
    split_ifs at h
    cases h; exact .inl (hown _)
  next hk =>
    refine .inl (wordPayload_eq_error (fun v p => .ok (.uint (UInt64.ofNat v), p)) hpos ?_ h)
    intro v p e h
    cases h
  next hk =>
    refine .inl (wordPayload_eq_error (fun v p => .ok (.int (UInt64.ofNat v).toInt64, p)) hpos ?_ h)
    intro v p e h
    cases h
  next hk =>
    split_ifs at h
    · cases h; exact .inl (hown _)
    rcases Result.bind_eq_error.mp h with h | ⟨⟨v, p⟩, -, h⟩
    · exact .inl (u8_eq_error h)
    · simp only at h
      split_ifs at h <;> cases h <;> exact .inl (hown _)
  next hk =>
    simp only [Result.bind_eq_error, reduceCtorEq, and_false, exists_false, or_false,
      copyBytes_eq_error] at h
    exact .inr (.inl ⟨h.1, kk, len, hhead, .inl (ofByte_eq_declared hk), hseg, h.2.2⟩)
  next hk =>
    simp only [Result.bind_eq_error, reduceCtorEq, and_false, exists_false, or_false,
      copyBytes_eq_error] at h
    exact .inr (.inl ⟨h.1, kk, len, hhead, .inr (ofByte_eq_declared hk), hseg, h.2.2⟩)
  next hk =>
    split_ifs at h
    · cases h; exact .inl (hown _)
    rcases Result.bind_eq_error.mp h with h | ⟨⟨bs, p⟩, hbs, h⟩
    · exact .inl (u8s_eq_error h)
    · obtain ⟨hsize, -⟩ := u8s_eq_ok.mp hbs
      simp only at hsize h
      split_ifs at h
      cases h; exact .inl (hown _)
  next hk =>
    refine .inl (wordPayload_eq_error (fun v p => if (Binary64.mk (UInt64.ofNat v)).isFinite then do
        let c ← mkFloat ⟨UInt64.ofNat v⟩
        .ok (c, p)
      else .error (.canonError "decode: Float NaN/Inf not allowed")) hpos ?_ h)
    intro v p e h
    split_ifs at h with hfin
    · rw [mkFloat, dif_pos hfin] at h
      simp at h
    · cases h; exact hown _
  next hk =>
    rcases Result.bind_eq_error.mp h with h | ⟨⟨r, p⟩, -, h⟩
    · rcases recordLoop_error helem hpos hfuel h with h | ⟨r, tag, hr, h⟩
      · exact .inl h
      · rw [ofByte_eq_declared hk] at hhead
        exact .inr (.inr ⟨_, .record hhead hseg hr, h⟩)
    · simp only at h
      split_ifs at h
      · cases h; exact .inl (hown _)
      · simp only [Result.bind_eq_error, reduceCtorEq, and_false, exists_false, or_false] at h
        rw [mkRecord] at h
        split at h <;> cases h
        exact .inl (hown _)
  next hk =>
    rcases Result.bind_eq_error.mp h with h | ⟨⟨q, p⟩, -, h⟩
    · obtain ⟨q, hq, h⟩ := sequenceLoop_error helem hpos hfuel h
      rw [ofByte_eq_declared hk] at hhead
      exact .inr (.inr ⟨_, .sequence hhead hseg hq, h⟩)
    · simp only at h
      split_ifs at h
      cases h; exact .inl (hown _)
  next => cases h; exact .inl (hown _)

/-- With fuel for the bytes left, an element that fails without an error of the
decoder has come to a bulk payload past the end. -/
theorem parseElement_error {b : Bytes} {fuel pos stop : ℕ} {e : Fault} (hpos : pos ≤ b.length)
    (hstop : pos ≤ stop + 4) (hfuel : b.length - pos < fuel)
    (h : parseElement b fuel pos stop = .error e) :
    (∃ what, e = .canonError what) ∨ e = .outOfRange ∧ Overreads b (pos, stop) := by
  induction fuel generalizing pos stop with
  | zero => omega
  | succ fuel ih =>
    rw [parseElement] at h
    rcases Result.bind_eq_error.mp h with h | ⟨⟨kk, len, p⟩, hread, h⟩
    · exact .inl (parseHeader_eq_error h)
    obtain ⟨hhead, hp, hseg⟩ := parseHeader_eq_ok.mp hread
    simp only at hhead hp hseg h
    subst hp
    have hle := hhead.pos_le
    have hin : InSegment pos stop len := (inSegment_iff hhead.lt hstop).mp hseg
    rcases parsePayload_error (parseElement_sound b fuel) hhead hin (by omega) h with
      h | ⟨he, hpast⟩ | ⟨site, hopen, h⟩
    · exact .inl h
    · exact .inr ⟨he, _, .refl, hpast⟩
    · obtain ⟨h₁, h₂, h₃⟩ := hopen.bounds
      simp only at h₁
      rcases ih h₂ h₃ (by omega) h with h | ⟨he, site', hreach, hpast⟩
      · exact .inl h
      · exact .inr ⟨he, site', .head hopen hreach, hpast⟩

theorem parseElement_of_pastEnd {b : Bytes} {fuel pos stop : ℕ} (hstop : pos ≤ stop + 4)
    (h : PastEnd b (pos, stop)) : parseElement b (fuel + 1) pos stop = .error .outOfRange := by
  obtain ⟨kk, len, hhead, hk, hin, hpast⟩ := h
  simp only at hhead hin hpast
  have hle := hhead.pos_le
  have hread : parseHeader b pos stop = .ok (kk, len, pos + 5) :=
    parseHeader_eq_ok.mpr ⟨hhead, rfl, (inSegment_iff hhead.lt hstop).mpr hin⟩
  have hcopy : copyBytes b (pos + 5) len = .error .outOfRange :=
    copyBytes_eq_error.mpr ⟨rfl, by omega, hpast⟩
  rw [parseElement, hread, Result.ok_bind]
  rcases hk with rfl | rfl
  · simp [parsePayload, show (0x04 : UInt8) = Enumerated.code CanonKind.str from rfl, ofByte_code,
      hcopy]
  · simp [parsePayload, show (0x05 : UInt8) = Enumerated.code CanonKind.bytes from rfl, ofByte_code,
      hcopy]

/-- A container takes over the error of a child that it opens. -/
theorem parseElement_of_opens {b : Bytes} {fuel pos stop : ℕ} {site : ℕ × ℕ} {e : Fault}
    (hstop : pos ≤ stop + 4) (hfuel : b.length - pos < fuel + 1) (h : Opens b (pos, stop) site)
    (he : parseElement b fuel site.1 site.2 = .error e) :
    parseElement b (fuel + 1) pos stop = .error e := by
  have hbounds := h.bounds
  simp only at hbounds
  have hleft : b.length - (pos + 5) < fuel := by omega
  have hcomplete : Complete b (pos + 5) (parseElement b fuel) := parseElement_complete b hleft
  rw [parseElement]
  cases h with
  | @record _ _ len r tag head seg before =>
    have hread : parseHeader b pos stop = .ok (0x08, len, pos + 5) :=
      parseHeader_eq_ok.mpr ⟨head, rfl, (inSegment_iff head.lt hstop).mpr seg⟩
    have hloop := before.recordLoop_error hcomplete le_rfl head.pos_le hleft he
    rw [hread, Result.ok_bind]
    simp [parsePayload, show (0x08 : UInt8) = Enumerated.code CanonKind.record from rfl, ofByte_code,
      hloop]
  | @sequence _ _ len q head seg before =>
    have hread : parseHeader b pos stop = .ok (0x09, len, pos + 5) :=
      parseHeader_eq_ok.mpr ⟨head, rfl, (inSegment_iff head.lt hstop).mpr seg⟩
    have hloop := before.sequenceLoop_error hcomplete le_rfl head.pos_le hleft he
    rw [hread, Result.ok_bind]
    simp [parsePayload, show (0x09 : UInt8) = Enumerated.code CanonKind.sequence from rfl,
      ofByte_code, hloop]

theorem parseElement_of_overreads {b : Bytes} {site : ℕ × ℕ} (h : Overreads b site)
    (hstop : site.1 ≤ site.2 + 4) {fuel : ℕ} (hfuel : b.length - site.1 < fuel) :
    parseElement b fuel site.1 site.2 = .error .outOfRange := by
  obtain ⟨site', hreach, hpast⟩ := h
  induction hreach using Relation.ReflTransGen.head_induction_on generalizing fuel with
  | refl =>
    obtain ⟨fuel, rfl⟩ : ∃ n, fuel = n + 1 := ⟨fuel - 1, by omega⟩
    exact parseElement_of_pastEnd hstop hpast
  | head hopen _ ih =>
    obtain ⟨fuel, rfl⟩ : ∃ n, fuel = n + 1 := ⟨fuel - 1, by omega⟩
    obtain ⟨h₁, h₂, h₃⟩ := hopen.bounds
    exact parseElement_of_opens hstop hfuel hopen (ih h₃ (by omega))

/-! ### The decoder -/

/-- The buffer is long enough and begins with the magic bytes and the version. -/
def ContainerHeader (b : Bytes) : Prop := 6 ≤ b.length ∧ At b 0 kMagic ∧ b[4]? = some kVersion

theorem canonicalDecode_of_not_header {b : Bytes} (h : ¬ ContainerHeader b) :
    ∃ what, canonicalDecode b = .error (.canonError what) := by
  rw [canonicalDecode]
  split_ifs with hsize
  · exact ⟨_, rfl⟩
  obtain ⟨m, hm⟩ : ∃ m, copyBytes b 0 4 = .ok m := by
    cases hm : copyBytes b 0 4 with
    | ok m => exact ⟨m, rfl⟩
    | error e =>
      have := copyBytes_eq_error.mp hm
      omega
  have hv : byteAt b 4 = .ok (b.get ⟨4, by omega⟩) :=
    byteAt_eq_ok.mpr (by rw [List.getElem?_eq_getElem (by omega)]; rfl)
  rw [hm, Result.ok_bind]
  split_ifs with hmagic
  · exact ⟨_, rfl⟩
  rw [hv, Result.ok_bind]
  split_ifs with hversion
  · exact ⟨_, rfl⟩
  rw [not_not] at hmagic hversion
  rw [hversion, byteAt_eq_ok] at hv
  exact absurd ⟨by omega, hmagic ▸ (copyBytes_eq_ok.mp hm).2, hv⟩ h

/-- Behind a good container header the root element decides. -/
theorem canonicalDecode_of_header {b : Bytes} (h : ContainerHeader b) :
    canonicalDecode b = (do
      let (root, pos) ← parseElement b b.length 5 b.length
      if pos ≠ b.length then .error (.canonError "decode: trailing garbage") else .ok root) := by
  obtain ⟨hsize, hmagic, hversion⟩ := h
  have hm : copyBytes b 0 4 = .ok kMagic := copyBytes_eq_ok.mpr ⟨rfl, hmagic⟩
  have hv : byteAt b 4 = .ok kVersion := byteAt_eq_ok.mpr hversion
  rw [canonicalDecode, if_neg (by omega), hm, Result.ok_bind, if_neg (by simp), hv, Result.ok_bind,
    if_neg (by simp)]

theorem canonicalDecode_outcome (b : Bytes) :
    (∃ c, canonicalDecode b = .ok c) ∨ (∃ what, canonicalDecode b = .error (.canonError what)) ∨
      canonicalDecode b = .error .outOfRange ∧ ContainerHeader b ∧ Overreads b (5, b.length) := by
  by_cases hhead : ContainerHeader b
  · have hsize := hhead.1
    rw [canonicalDecode_of_header hhead]
    cases hroot : parseElement b b.length 5 b.length with
    | ok r =>
      obtain ⟨root, pos⟩ := r
      rw [Result.ok_bind]
      simp only
      split_ifs
      · exact .inr (.inl ⟨_, rfl⟩)
      · exact .inl ⟨_, rfl⟩
    | error e =>
      rcases parseElement_error (by omega) (by omega) (by omega) hroot with ⟨what, rfl⟩ | ⟨rfl, hover⟩
      · exact .inr (.inl ⟨what, rfl⟩)
      · exact .inr (.inr ⟨rfl, hhead, hover⟩)
  · exact .inr (.inl (canonicalDecode_of_not_header hhead))

theorem canonicalDecode_of_overreads {b : Bytes} (hhead : ContainerHeader b)
    (h : Overreads b (5, b.length)) : canonicalDecode b = .error .outOfRange := by
  have hsize := hhead.1
  rw [canonicalDecode_of_header hhead,
    parseElement_of_overreads h (show 5 ≤ b.length + 4 by omega) (show b.length - 5 < b.length by omega)]
  rfl

/-- The decoder returns a value or its own error, and never reads outside the
buffer, unless it reaches a bulk payload that the buffer does not hold. -/
theorem canonicalDecode_in_bounds_iff (b : Bytes) :
    ((∃ c, canonicalDecode b = .ok c) ∨ ∃ what, canonicalDecode b = .error (.canonError what)) ↔
      ¬ (ContainerHeader b ∧ Overreads b (5, b.length)) := by
  constructor
  · rintro h ⟨hhead, hover⟩
    rw [canonicalDecode_of_overreads hhead hover] at h
    simp at h
  · intro h
    rcases canonicalDecode_outcome b with hok | herr | ⟨-, hbad⟩
    · exact .inl hok
    · exact .inr herr
    · exact absurd hbad h

/-- A record that declares one payload byte. Its only entry, a tag and the header
of a Str of one byte, runs past that byte and ends with the buffer. -/
def straddling : Bytes :=
  kMagic ++ [kVersion] ++ [0x08, 0, 0, 0, 1] ++ [0, 0, 0, 1] ++ [0x04, 0, 0, 0, 1]

theorem canonicalDecode_straddling :
    ¬ ((∃ c, canonicalDecode straddling = .ok c) ∨
      ∃ what, canonicalDecode straddling = .error (.canonError what)) := by
  have h : canonicalDecode straddling = .error .outOfRange := rfl
  rw [h]
  simp

end CompatRegistry
