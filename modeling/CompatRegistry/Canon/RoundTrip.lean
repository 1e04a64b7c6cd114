import CompatRegistry.Canon.Decode

/-! Encoder and decoder against the wire format. What the decoder accepts is the
element of the value it returns (soundness), and the element of a well-formed
value that fits the 32-bit lengths is accepted (completeness), at every position
and in every segment. -/

namespace CompatRegistry

open Foundation Reader Canon

/-! ### Lengths and kind bytes -/

theorem lt_of_tlv {n : ℕ} (h : n < 2 ^ 32) : ofBE (toBE 4 n) = n := by
  rw [ofBE_toBE, Nat.mod_eq_of_lt (by simpa using h)]

/-- Lengths wrap modulo `2^32`. -/
theorem toBE_four_congr {m n : ℕ} (h : m % 2 ^ 32 = n % 2 ^ 32) : toBE 4 m = toBE 4 n := by
  rw [← toBE_mod 4 m, ← toBE_mod 4 n, show (256 : ℕ) ^ 4 = 2 ^ 32 by norm_num, h]

/-- The header of a frame whose payload fits a 32-bit length. -/
theorem at_frame {b : Bytes} {pos : ℕ} {kk : UInt8} {payload : Bytes} :
    At b pos (frame kk payload) ↔
      At b pos [kk] ∧ At b (pos + 1) (toBE 4 payload.length) ∧ At b (pos + 5) payload := by
  rw [frame, show kk :: (toBE 4 payload.length ++ payload) =
    [kk] ++ (toBE 4 payload.length ++ payload) from rfl, at_append, at_append]
  simp [Nat.add_assoc]

/-- A kind byte, a length below `2^32` and its five bytes, all inside the buffer. -/
structure HeaderAt (b : Bytes) (pos : ℕ) (kk : UInt8) (len : ℕ) : Prop where
  lt : len < 2 ^ 32
  kind : At b pos [kk]
  length : At b (pos + 1) (toBE 4 len)

theorem HeaderAt.pos_le {b : Bytes} {pos len : ℕ} {kk : UInt8} (h : HeaderAt b pos kk len) :
    pos + 5 ≤ b.length := by
  have h₁ := h.kind.pos_lt
  have h₂ := h.length.length_le (by omega)
  rw [toBE_length] at h₂
  omega

theorem HeaderAt.unique {b : Bytes} {pos len len' : ℕ} {kk kk' : UInt8}
    (h : HeaderAt b pos kk len) (h' : HeaderAt b pos kk' len') : kk = kk' ∧ len = len' := by
  have hk := h.kind.eq h'.kind rfl
  have hl := h.length.eq h'.length (by simp)
  refine ⟨by simpa using hk, ?_⟩
  rw [← lt_of_tlv h.lt, hl, lt_of_tlv h'.lt]

theorem parseHeader_eq_ok {b : Bytes} {pos stop : ℕ} {r : UInt8 × ℕ × ℕ} :
    parseHeader b pos stop = .ok r ↔
      HeaderAt b pos r.1 r.2.1 ∧ r.2.2 = pos + 5 ∧ r.2.1 ≤ sizeSub stop (pos + 5) := by
  obtain ⟨kk, len, q⟩ := r
  simp only [parseHeader, Result.bind_eq_ok, u8_eq_ok]
  constructor
  · rintro ⟨⟨x, p₁⟩, ⟨hp₁, hx⟩, ⟨n, p₂⟩, hn, h⟩
    simp only at hp₁ hx h
    subst hp₁
    have hle : pos + 1 ≤ b.length := hx.pos_lt
    obtain ⟨hp₂, hlt, hat⟩ := (u32be_eq_ok hle).mp hn
    simp only at hp₂ hlt hat
    subst hp₂
    split_ifs at h with hseg
    simp only [Except.ok.injEq, Prod.mk.injEq] at h
    obtain ⟨rfl, rfl, rfl⟩ := h
    exact ⟨⟨hlt, hx, hat⟩, by omega, by simpa [Nat.add_assoc] using hseg⟩
  · rintro ⟨⟨hlt, hx, hat⟩, hq, hseg⟩
    have hle : pos + 1 ≤ b.length := hx.pos_lt
    refine ⟨(kk, pos + 1), ⟨rfl, hx⟩, (len, pos + 1 + 4), (u32be_eq_ok hle).mpr ⟨rfl, hlt, hat⟩, ?_⟩
    show (if sizeSub stop (pos + 1 + 4) < len then _ else _) = _
    rw [if_neg (by simpa [Nat.add_assoc] using hseg), hq]

theorem parseHeader_eq_error {b : Bytes} {pos stop : ℕ} {e : Fault}
    (h : parseHeader b pos stop = .error e) : ∃ what, e = .canonError what := by
  rw [parseHeader, Result.bind_eq_error] at h
  rcases h with h | ⟨⟨x, p₁⟩, hx, h⟩
  · exact u8_eq_error h
  · obtain ⟨hp₁, hat⟩ := u8_eq_ok.mp hx
    have hle : p₁ ≤ b.length := by
      have := hat.pos_lt
      simp only at hp₁
      omega
    rw [Result.bind_eq_error] at h
    rcases h with h | ⟨⟨n, p₂⟩, -, h⟩
    · exact u32be_eq_error hle h
    · simp only at h
      split_ifs at h
      cases h
      exact ⟨_, rfl⟩

/-! ### Soundness -/

/-- From a position inside the buffer the element reader returns only
well-formed values whose element it has just read. -/
def Sound (b : Bytes) (elem : ℕ → ℕ → Result (Canon × ℕ)) : Prop :=
  ∀ pos stop c q, elem pos stop = .ok (c, q) →
    c.WF ∧ c.Fits ∧ At b pos c.element ∧ q = pos + c.element.length ∧ q ≤ b.length

theorem recordLoop_sound {b : Bytes} {elem : ℕ → ℕ → Result (Canon × ℕ)} (helem : Sound b elem)
    {payloadEnd fuel pos q : ℕ} {last : Option UInt32} {r : Record} (hpos : pos ≤ b.length)
    (h : recordLoop elem b payloadEnd fuel pos last = .ok (r, q)) :
    SortedMap.Sorted r ∧ (∀ t ∈ last, ∀ e ∈ r, t < e.1) ∧ WFRecord r ∧ FitsRecord r ∧
      At b pos (recordBody r) ∧ q = pos + (recordBody r).length ∧ q ≤ b.length ∧
      payloadEnd ≤ q := by
  induction fuel generalizing pos last r with
  | zero => simp [recordLoop] at h
  | succ fuel ih =>
    rw [recordLoop] at h
    split_ifs at h with hlt
    · simp only [Result.bind_eq_ok] at h
      obtain ⟨⟨tag, p₁⟩, htag, h⟩ := h
      obtain ⟨hp₁, htlt, hat₁⟩ := (u32be_eq_ok hpos).mp htag
      simp only at hp₁ htlt hat₁ h
      subst hp₁
      split_ifs at h with hlast
      obtain ⟨⟨v, p₂⟩, hv, h⟩ := Result.bind_eq_ok.mp h
      obtain ⟨hwf, hfits, hat₂, rfl, hle⟩ := helem _ _ _ _ hv
      obtain ⟨⟨rest, p₃⟩, hrest, h⟩ := Result.bind_eq_ok.mp h
      simp only [Except.ok.injEq, Prod.mk.injEq] at hrest h
      obtain ⟨rfl, rfl⟩ := h
      obtain ⟨hs, hgt, hwfr, hfitsr, hat₃, rfl, hle₃, hend⟩ := ih hle hrest
      have hto : (UInt32.ofNat tag).toNat = tag := by
        rw [UInt32.toNat_ofNat', Nat.mod_eq_of_lt (by simpa using htlt)]
      have hfirst : ∀ t ∈ last, t < UInt32.ofNat tag := by
        rintro t rfl
        simpa using hlast
      have hrestgt : ∀ e ∈ rest, UInt32.ofNat tag < e.1 := hgt _ rfl
      refine ⟨SortedMap.sorted_cons.mpr ⟨hrestgt, hs⟩, ?_, ⟨hwf, hwfr⟩, ⟨hfits, hfitsr⟩, ?_, ?_,
        hle₃, hend⟩
      · intro t ht e he
        rcases List.mem_cons.mp he with rfl | he
        · exact hfirst t ht
        · exact (hfirst t ht).trans (hrestgt e he)
      · rw [recordBody, hto, at_append, at_append, toBE_length, List.length_append, toBE_length,
          ← Nat.add_assoc]
        exact ⟨⟨hat₁, hat₂⟩, hat₃⟩
      · simp only [recordBody, List.length_append, toBE_length]
        omega
    · simp only [Except.ok.injEq, Prod.mk.injEq] at h
      obtain ⟨rfl, rfl⟩ := h
      exact ⟨by simp [SortedMap.Sorted], by simp, trivial, trivial, at_nil _ _, rfl, hpos, by omega⟩

theorem sequenceLoop_sound {b : Bytes} {elem : ℕ → ℕ → Result (Canon × ℕ)} (helem : Sound b elem)
    {payloadEnd fuel pos q : ℕ} {s : Seq} (hpos : pos ≤ b.length)
    (h : sequenceLoop elem payloadEnd fuel pos = .ok (s, q)) :
    WFSeq s ∧ FitsSeq s ∧ At b pos (seqBody s) ∧ q = pos + (seqBody s).length ∧ q ≤ b.length ∧
      payloadEnd ≤ q := by
  induction fuel generalizing pos s with
  | zero => simp [sequenceLoop] at h
  | succ fuel ih =>
    rw [sequenceLoop] at h
    split_ifs at h with hlt
    · simp only [Result.bind_eq_ok] at h
      obtain ⟨⟨v, p₁⟩, hv, ⟨rest, p₂⟩, hrest, h⟩ := h
      obtain ⟨hwf, hfits, hat₁, rfl, hle⟩ := helem _ _ _ _ hv
      simp only [Except.ok.injEq, Prod.mk.injEq] at hrest h
      obtain ⟨rfl, rfl⟩ := h
      obtain ⟨hwfr, hfitsr, hat₂, rfl, hle₂, hend⟩ := ih hle hrest
      refine ⟨⟨hwf, hwfr⟩, ⟨hfits, hfitsr⟩, ?_, ?_, hle₂, hend⟩
      · rw [seqBody, at_append]
        exact ⟨hat₁, hat₂⟩
      · simp only [seqBody, List.length_append]
        omega
    · simp only [Except.ok.injEq, Prod.mk.injEq] at h
      obtain ⟨rfl, rfl⟩ := h
      exact ⟨trivial, trivial, at_nil _ _, rfl, hpos, by omega⟩

/-- A header followed by its payload is a frame. -/
theorem HeaderAt.at_frame {b : Bytes} {pos len : ℕ} {kk : UInt8} {payload : Bytes}
    (h : HeaderAt b pos kk len) (hlen : payload.length = len) (hat : At b (pos + 5) payload) :
    At b pos (frame kk payload) :=
  CompatRegistry.at_frame.mpr ⟨h.kind, hlen ▸ h.length, hat⟩

theorem ofByte_eq_declared {kk : UInt8} {k : CanonKind}
    (h : (Enum8.ofByte kk : Enum8 CanonKind) = .declared k) : kk = Enumerated.code k := by
  rw [← Enum8.toByte_ofByte (ε := CanonKind) kk, h]
  rfl

theorem toNat_ofNat_u64 {n : ℕ} (h : n < 2 ^ 64) : (UInt64.ofNat n).toNat = n := by
  rw [UInt64.toNat_ofNat', Nat.mod_eq_of_lt h]

/-- A payload of one 64-bit word holds the word that a value is made of. -/
theorem wordPayload_eq_ok {b : Bytes} {pos len : ℕ} {what what' : Bytes} {r : Canon × ℕ}
    (make : ℕ → ℕ → Result (Canon × ℕ)) (hpos : pos ≤ b.length)
    (h : (if len ≠ 8 then .error (.canonError what) else do
      let (v, p) ← u64be b pos
      if p ≠ pos + len then .error (.canonError what') else make v p) = Except.ok r) :
    ∃ v < 2 ^ 64, (toBE 8 v).length = len ∧ At b pos (toBE 8 v) ∧ make v (pos + len) = .ok r := by
  split_ifs at h with hlen
  obtain ⟨⟨v, p⟩, hv, h⟩ := Result.bind_eq_ok.mp h
  obtain ⟨-, hlt, hat⟩ := (u64be_eq_ok hpos).mp hv
  simp only at hlt hat h
  split_ifs at h with hend
  rw [← not_not.mp hend]
  exact ⟨v, hlt, by rw [toBE_length]; omega, hat, h⟩

theorem parsePayload_sound {b : Bytes} {elem : ℕ → ℕ → Result (Canon × ℕ)} (helem : Sound b elem)
    {fuel pos len q : ℕ} {kk : UInt8} {c : Canon} (hhead : HeaderAt b pos kk len)
    (h : parsePayload elem b fuel kk len (pos + 5) = .ok (c, q)) :
    c.WF ∧ c.Fits ∧ At b pos c.element ∧ q = pos + c.element.length ∧ q ≤ b.length := by
  have hpos : pos + 5 ≤ b.length := hhead.pos_le
  -- it is enough to name the payload, which fills the declared length
  suffices hpay : ∃ payload, c.element = frame kk payload ∧ c.WF ∧ (payload.length = len → c.Fits) ∧
      payload.length = len ∧ At b (pos + 5) payload ∧ q = pos + 5 + len by
    obtain ⟨payload, he, hwf, hfits, hlen, hat, rfl⟩ := hpay
    have hle := hat.length_le hpos
    rw [hlen] at hle
    exact ⟨hwf, hfits hlen, he ▸ hhead.at_frame hlen hat, by rw [he, frame_length, hlen]; omega, hle⟩
  rw [parsePayload] at h
  split at h
  next hk =>
    split_ifs at h with hlen
    simp only [Except.ok.injEq, Prod.mk.injEq] at h
    obtain ⟨rfl, rfl⟩ := h
    exact ⟨[], by rw [element, ofByte_eq_declared hk]; rfl, trivial, fun _ => trivial, by simp_all,
      at_nil _ _, rfl⟩
  next hk =>
    obtain ⟨v, hlt, hlen, hat, h⟩ :=
      wordPayload_eq_ok (fun v p => .ok (.uint (UInt64.ofNat v), p)) hpos h
    cases h
    refine ⟨toBE 8 v, ?_, trivial, fun _ => trivial, hlen, hat, rfl⟩
    rw [element, ofByte_eq_declared hk, toNat_ofNat_u64 hlt]
    rfl
  next hk =>
    obtain ⟨v, hlt, hlen, hat, h⟩ :=
      wordPayload_eq_ok (fun v p => .ok (.int (UInt64.ofNat v).toInt64, p)) hpos h
    cases h
    refine ⟨toBE 8 v, ?_, trivial, fun _ => trivial, hlen, hat, rfl⟩
    rw [element, ofByte_eq_declared hk, UInt64.toUInt64_toInt64, toNat_ofNat_u64 hlt]
    rfl
  next hk =>
    split_ifs at h with hlen
    simp only [Result.bind_eq_ok] at h
    obtain ⟨⟨v, p⟩, hv, h⟩ := h
    obtain ⟨hp, hat⟩ := u8_eq_ok.mp hv
    simp only at hp hat h
    split_ifs at h with hbit hend
    simp only [Except.ok.injEq, Prod.mk.injEq] at h
    obtain ⟨rfl, rfl⟩ := h
    refine ⟨[v], ?_, trivial, fun _ => trivial, by simp; omega, hat, by omega⟩
    have hv : v = 0 ∨ v = 1 := by tauto
    rw [element, ofByte_eq_declared hk]
    rcases hv with rfl | rfl <;> rfl
  next hk =>
    simp only [Result.bind_eq_ok, copyBytes_eq_ok, Except.ok.injEq, Prod.mk.injEq] at h
    obtain ⟨s, ⟨hlen, hat⟩, rfl, rfl⟩ := h
    have hlt := hhead.lt
    exact ⟨s, by rw [element, ofByte_eq_declared hk]; rfl, trivial, fun _ => by rw [Fits]; omega,
      hlen, hat, rfl⟩
  next hk =>
    simp only [Result.bind_eq_ok, copyBytes_eq_ok, Except.ok.injEq, Prod.mk.injEq] at h
    obtain ⟨s, ⟨hlen, hat⟩, rfl, rfl⟩ := h
    have hlt := hhead.lt
    exact ⟨s, by rw [element, ofByte_eq_declared hk]; rfl, trivial, fun _ => by rw [Fits]; omega,
      hlen, hat, rfl⟩
  next hk =>
    split_ifs at h with hlen
    simp only [Result.bind_eq_ok, u8s_eq_ok] at h
    obtain ⟨⟨bs, p⟩, ⟨hsize, hp, hat⟩, h⟩ := h
    simp only at hsize hp hat h
    split_ifs at h with hend
    simp only [Except.ok.injEq, Prod.mk.injEq] at h
    obtain ⟨rfl, rfl⟩ := h
    exact ⟨bs, by rw [element, ofByte_eq_declared hk]; rfl, trivial, fun _ => trivial, by omega,
      hat, by omega⟩
  next hk =>
    obtain ⟨v, hlt, hlen, hat, h⟩ := wordPayload_eq_ok (fun v p => if (Binary64.mk (UInt64.ofNat v)).isFinite then do
        let c ← mkFloat ⟨UInt64.ofNat v⟩
        .ok (c, p)
      else .error (.canonError "decode: Float NaN/Inf not allowed")) hpos h
    split_ifs at h with hfin
    rw [mkFloat, dif_pos hfin] at h
    cases h
    refine ⟨toBE 8 v, ?_, trivial, fun _ => trivial, hlen, hat, rfl⟩
    rw [element, ofByte_eq_declared hk, toNat_ofNat_u64 hlt]
    rfl
  next hk =>
    simp only [Result.bind_eq_ok] at h
    obtain ⟨⟨r, p⟩, hr, h⟩ := h
    obtain ⟨hs, -, hwf, hfits, hat, rfl, -, -⟩ := recordLoop_sound helem hpos hr
    simp only at h
    split_ifs at h with hend
    rw [mkRecord_of_sorted hs] at h
    simp only [Result.ok_bind, Except.ok.injEq, Prod.mk.injEq] at h
    obtain ⟨rfl, rfl⟩ := h
    have hlt := hhead.lt
    exact ⟨recordBody r, by rw [element, ofByte_eq_declared hk]; rfl, ⟨hs, hwf⟩,
      fun hl => ⟨by omega, hfits⟩, by omega, hat, by omega⟩
  next hk =>
    simp only [Result.bind_eq_ok] at h
    obtain ⟨⟨s, p⟩, hr, h⟩ := h
    obtain ⟨hwf, hfits, hat, rfl, -, -⟩ := sequenceLoop_sound helem hpos hr
    simp only at h
    split_ifs at h with hend
    simp only [Except.ok.injEq, Prod.mk.injEq] at h
    obtain ⟨rfl, rfl⟩ := h
    have hlt := hhead.lt
    exact ⟨seqBody s, by rw [element, ofByte_eq_declared hk]; rfl, hwf,
      fun hl => ⟨by omega, hfits⟩, by omega, hat, by omega⟩
  next => simp at h

theorem parseElement_sound (b : Bytes) (fuel : ℕ) : Sound b (parseElement b fuel) := by
  induction fuel with
  | zero => intro pos stop c q h; simp [parseElement] at h
  | succ fuel ih =>
    intro pos stop c q h
    simp only [parseElement, Result.bind_eq_ok] at h
    obtain ⟨⟨kk, len, p⟩, hhead, h⟩ := h
    obtain ⟨hat, hp, -⟩ := parseHeader_eq_ok.mp hhead
    simp only at hat hp h
    subst hp
    exact parsePayload_sound ih hat h

/-! ### Completeness -/

/-- At the positions from `lo` on the element reader takes over the element of
any well-formed value that fits and lies inside the segment. -/
def Complete (b : Bytes) (lo : ℕ) (elem : ℕ → ℕ → Result (Canon × ℕ)) : Prop :=
  ∀ pos stop c, lo ≤ pos → c.WF → c.Fits → pos ≤ b.length → At b pos c.element →
    pos + c.element.length ≤ stop → elem pos stop = .ok (c, pos + c.element.length)

/-- The tag that the loop remembers after the entries `r`. -/
def lastTag : Option UInt32 → Record → Option UInt32
  | last, [] => last
  | _, (tag, _) :: r => lastTag (some tag) r

/-- Entries that are present and inside the segment are read one after the
other; the loop then goes on behind them. -/
theorem recordLoop_append {b : Bytes} {lo : ℕ} {elem : ℕ → ℕ → Result (Canon × ℕ)}
    (helem : Complete b lo elem) {payloadEnd fuel pos : ℕ} {last : Option UInt32} {r : Record}
    (hlo : lo ≤ pos) (hs : SortedMap.Sorted r) (hgt : ∀ t ∈ last, ∀ e ∈ r, t < e.1)
    (hwf : WFRecord r) (hfits : FitsRecord r) (hpos : pos ≤ b.length) (hat : At b pos (recordBody r))
    (hend : pos + (recordBody r).length ≤ payloadEnd) (hfuel : b.length - pos < fuel) :
    ∃ fuel', b.length - (pos + (recordBody r).length) < fuel' ∧
      recordLoop elem b payloadEnd fuel pos last =
        (recordLoop elem b payloadEnd fuel' (pos + (recordBody r).length) (lastTag last r)).map
          fun rest => (r ++ rest.1, rest.2) := by
  induction r generalizing pos last fuel with
  | nil =>
    refine ⟨fuel, by simpa [recordBody] using hfuel, ?_⟩
    simp only [recordBody, List.length_nil, Nat.add_zero, lastTag]
    cases recordLoop elem b payloadEnd fuel pos last <;> rfl
  | cons e r ih =>
    obtain ⟨tag, c⟩ := e
    obtain ⟨hlt, hr⟩ := SortedMap.sorted_cons.mp hs
    have hfive := five_le_element_length c
    simp only [recordBody, at_append, toBE_length, List.length_append] at hat hend ⊢
    obtain ⟨⟨htag, hc⟩, hrest⟩ := hat
    have hpos₁ := htag.length_le hpos
    rw [toBE_length] at hpos₁
    have hpos₂ := hc.length_le hpos₁
    obtain ⟨fuel, rfl⟩ : ∃ n, fuel = n + 1 := ⟨fuel - 1, by omega⟩
    have htag' : u32be b pos = .ok (tag.toNat, pos + 4) :=
      (u32be_eq_ok hpos).mpr ⟨rfl, UInt32.toNat_lt tag, htag⟩
    have hlast : ¬ last.any (tag ≤ ·) = true := by
      cases last with
      | none => simp
      | some t => simpa using hgt t rfl (tag, c) List.mem_cons_self
    have hgt' : ∀ t ∈ some tag, ∀ e ∈ r, t < e.1 := by simpa using hlt
    have hrest' : At b (pos + 4 + c.element.length) (recordBody r) := by
      rwa [Nat.add_assoc]
    have hleft : b.length - (pos + 4 + c.element.length) < fuel := by omega
    obtain ⟨fuel', hfuel', heq⟩ :=
      ih (by omega) hr hgt' hwf.2 hfits.2 hpos₂ hrest' (by omega) hleft
    refine ⟨fuel', by omega, ?_⟩
    rw [recordLoop, if_pos (by omega), htag', Result.ok_bind]
    simp only [UInt32.ofNat_toNat, hlast, Bool.false_eq_true, if_false]
    rw [helem (pos + 4) payloadEnd c (by omega) hwf.1 hfits.1 hpos₁ hc (by omega), Result.ok_bind]
    simp only [Nat.add_assoc] at heq ⊢
    simp only [heq, lastTag]
    cases recordLoop elem b payloadEnd fuel' _ (lastTag (some tag) r) <;> rfl

theorem sequenceLoop_append {b : Bytes} {lo : ℕ} {elem : ℕ → ℕ → Result (Canon × ℕ)}
    (helem : Complete b lo elem) {payloadEnd fuel pos : ℕ} {q : Seq}
    (hlo : lo ≤ pos) (hwf : WFSeq q) (hfits : FitsSeq q) (hpos : pos ≤ b.length)
    (hat : At b pos (seqBody q)) (hend : pos + (seqBody q).length ≤ payloadEnd)
    (hfuel : b.length - pos < fuel) :
    ∃ fuel', b.length - (pos + (seqBody q).length) < fuel' ∧
      sequenceLoop elem payloadEnd fuel pos =
        (sequenceLoop elem payloadEnd fuel' (pos + (seqBody q).length)).map
          fun rest => (q ++ rest.1, rest.2) := by
  induction q generalizing pos fuel with
  | nil =>
    refine ⟨fuel, by simpa [seqBody] using hfuel, ?_⟩
    simp only [seqBody, List.length_nil, Nat.add_zero]
    cases sequenceLoop elem payloadEnd fuel pos <;> rfl
  | cons c q ih =>
    have hfive := five_le_element_length c
    simp only [seqBody, at_append, List.length_append] at hat hend ⊢
    obtain ⟨hc, hrest⟩ := hat
    have hpos₁ := hc.length_le hpos
    obtain ⟨fuel, rfl⟩ : ∃ n, fuel = n + 1 := ⟨fuel - 1, by omega⟩
    have hleft : b.length - (pos + c.element.length) < fuel := by omega
    obtain ⟨fuel', hfuel', heq⟩ := ih (by omega) hwf.2 hfits.2 hpos₁ hrest (by omega) hleft
    refine ⟨fuel', by omega, ?_⟩
    rw [sequenceLoop, if_pos (by omega),
      helem pos payloadEnd c hlo hwf.1 hfits.1 hpos hc (by omega), Result.ok_bind]
    simp only [Nat.add_assoc] at heq ⊢
    simp only [heq]
    cases sequenceLoop elem payloadEnd fuel' _ <;> rfl

theorem recordLoop_complete {b : Bytes} {lo : ℕ} {elem : ℕ → ℕ → Result (Canon × ℕ)}
    (helem : Complete b lo elem) {fuel pos : ℕ} {r : Record} (hlo : lo ≤ pos)
    (hwf : (Canon.record r).WF) (hfits : FitsRecord r) (hpos : pos ≤ b.length)
    (hat : At b pos (recordBody r)) (hfuel : b.length - pos < fuel) :
    recordLoop elem b (pos + (recordBody r).length) fuel pos none =
      .ok (r, pos + (recordBody r).length) := by
  have hnone : ∀ t ∈ (none : Option UInt32), ∀ e ∈ r, t < e.1 := by simp
  obtain ⟨fuel', hfuel', heq⟩ :=
    recordLoop_append helem hlo hwf.1 hnone hwf.2 hfits hpos hat le_rfl hfuel
  obtain ⟨n, rfl⟩ : ∃ n, fuel' = n + 1 := ⟨fuel' - 1, by omega⟩
  rw [heq, recordLoop, if_neg (lt_irrefl _)]
  simp [Except.map]

theorem sequenceLoop_complete {b : Bytes} {lo : ℕ} {elem : ℕ → ℕ → Result (Canon × ℕ)}
    (helem : Complete b lo elem) {fuel pos : ℕ} {q : Seq} (hlo : lo ≤ pos) (hwf : WFSeq q)
    (hfits : FitsSeq q) (hpos : pos ≤ b.length) (hat : At b pos (seqBody q))
    (hfuel : b.length - pos < fuel) :
    sequenceLoop elem (pos + (seqBody q).length) fuel pos =
      .ok (q, pos + (seqBody q).length) := by
  obtain ⟨fuel', hfuel', heq⟩ := sequenceLoop_append helem hlo hwf hfits hpos hat le_rfl hfuel
  obtain ⟨n, rfl⟩ : ∃ n, fuel' = n + 1 := ⟨fuel' - 1, by omega⟩
  rw [heq, sequenceLoop, if_neg (lt_irrefl _)]
  simp [Except.map]

theorem ofByte_code (k : CanonKind) :
    (Enum8.ofByte (Enumerated.code k) : Enum8 CanonKind) = .declared k :=
  Enum8.ofByte_toByte (.declared k)

/-- The header that stands in front of a value, and what the payload parser
makes of the bytes behind it. -/
theorem parsePayload_complete {b : Bytes} {fuel pos : ℕ} {elem : ℕ → ℕ → Result (Canon × ℕ)}
    (helem : Complete b (pos + 5) elem) {c : Canon} (hwf : c.WF) (hfits : c.Fits)
    (hat : At b pos c.element) (hfuel : b.length - (pos + 5) < fuel) :
    ∃ kk len, HeaderAt b pos kk len ∧ c.element.length = 5 + len ∧
      parsePayload elem b fuel kk len (pos + 5) = .ok (c, pos + 5 + len) := by
  cases c with
  | null =>
    rw [element, at_frame] at hat
    exact ⟨0x00, 0, ⟨by norm_num, hat.1, hat.2.1⟩, by simp [element], rfl⟩
  | uint v =>
    rw [element, at_frame, toBE_length] at hat
    have hhead : HeaderAt b pos 0x01 8 := ⟨by norm_num, hat.1, hat.2.1⟩
    have hread := (u64be_eq_ok (r := (v.toNat, pos + 5 + 8)) hhead.pos_le).mpr
      ⟨rfl, v.toNat_lt, hat.2.2⟩
    refine ⟨0x01, 8, hhead, by simp [element], ?_⟩
    simp [parsePayload, show (0x01 : UInt8) = Enumerated.code CanonKind.uint from rfl, ofByte_code,
      hread]
  | int v =>
    rw [element, at_frame, toBE_length] at hat
    have hhead : HeaderAt b pos 0x02 8 := ⟨by norm_num, hat.1, hat.2.1⟩
    have hread := (u64be_eq_ok (r := (v.toUInt64.toNat, pos + 5 + 8)) hhead.pos_le).mpr
      ⟨rfl, v.toUInt64.toNat_lt, hat.2.2⟩
    refine ⟨0x02, 8, hhead, by simp [element], ?_⟩
    have hcast : (UInt64.ofNat v.toUInt64.toNat).toInt64 = v := by
      rw [UInt64.ofNat_toNat, Int64.toInt64_toUInt64]
    simp only [parsePayload, show (0x02 : UInt8) = Enumerated.code CanonKind.int from rfl, ofByte_code,
      hread, Result.ok_bind, hcast, ne_eq, not_true, if_false]
  | bool v =>
    rw [element, at_frame] at hat
    have hhead : HeaderAt b pos 0x03 1 := ⟨by norm_num, hat.1, hat.2.1⟩
    have hread := (u8_eq_ok (r := (if v then 0x01 else 0x00, pos + 5 + 1))).mpr ⟨rfl, hat.2.2⟩
    refine ⟨0x03, 1, hhead, by simp [element], ?_⟩
    simp only [parsePayload, show (0x03 : UInt8) = Enumerated.code CanonKind.bool from rfl,
      ofByte_code, hread]
    cases v <;> simp
  | str s =>
    rw [element, at_frame] at hat
    have hhead : HeaderAt b pos 0x04 s.length := ⟨hfits, hat.1, hat.2.1⟩
    have hread := copyBytes_eq_ok.mpr ⟨rfl, hat.2.2⟩
    refine ⟨0x04, s.length, hhead, by simp [element], ?_⟩
    simp [parsePayload, show (0x04 : UInt8) = Enumerated.code CanonKind.str from rfl, ofByte_code,
      hread]
  | bytes s =>
    rw [element, at_frame] at hat
    have hhead : HeaderAt b pos 0x05 s.length := ⟨hfits, hat.1, hat.2.1⟩
    have hread := copyBytes_eq_ok.mpr ⟨rfl, hat.2.2⟩
    refine ⟨0x05, s.length, hhead, by simp [element], ?_⟩
    simp [parsePayload, show (0x05 : UInt8) = Enumerated.code CanonKind.bytes from rfl, ofByte_code,
      hread]
  | uuid u =>
    rw [element, at_frame, u.size] at hat
    have hhead : HeaderAt b pos 0x06 16 := ⟨by norm_num, hat.1, hat.2.1⟩
    have hread := (u8s_eq_ok (r := (u.bytes, pos + 5 + 16))).mpr ⟨u.size, rfl, hat.2.2⟩
    refine ⟨0x06, 16, hhead, by simp [element, u.size], ?_⟩
    simp [parsePayload, show (0x06 : UInt8) = Enumerated.code CanonKind.uuid from rfl, ofByte_code,
      hread, u.size]
  | float x =>
    rw [element, at_frame, toBE_length] at hat
    have hhead : HeaderAt b pos 0x07 8 := ⟨by norm_num, hat.1, hat.2.1⟩
    have hread := (u64be_eq_ok (r := (x.bits.toNat, pos + 5 + 8)) hhead.pos_le).mpr
      ⟨rfl, x.bits.toNat_lt, hat.2.2⟩
    refine ⟨0x07, 8, hhead, by simp [element], ?_⟩
    have hfin : (Binary64.mk x.bits).isFinite = true := x.finite
    simp [parsePayload, show (0x07 : UInt8) = Enumerated.code CanonKind.float from rfl, ofByte_code,
      hread, hfin, mkFloat]
  | record r =>
    rw [element, at_frame] at hat
    have hhead : HeaderAt b pos 0x08 (recordBody r).length := ⟨hfits.1, hat.1, hat.2.1⟩
    have hloop := recordLoop_complete helem le_rfl hwf hfits.2 hhead.pos_le hat.2.2 hfuel
    refine ⟨0x08, (recordBody r).length, hhead, by simp [element], ?_⟩
    simp [parsePayload, show (0x08 : UInt8) = Enumerated.code CanonKind.record from rfl, ofByte_code,
      hloop, mkRecord_of_sorted hwf.1]
  | sequence q =>
    rw [element, at_frame] at hat
    have hhead : HeaderAt b pos 0x09 (seqBody q).length := ⟨hfits.1, hat.1, hat.2.1⟩
    have hloop := sequenceLoop_complete helem le_rfl hwf hfits.2 hhead.pos_le hat.2.2 hfuel
    refine ⟨0x09, (seqBody q).length, hhead, by simp [element], ?_⟩
    simp [parsePayload, show (0x09 : UInt8) = Enumerated.code CanonKind.sequence from rfl,
      ofByte_code, hloop]

/-- Fuel above the number of bytes left is enough for every element. -/
theorem parseElement_complete (b : Bytes) {lo fuel : ℕ} (hfuel : b.length - lo < fuel) :
    Complete b lo (parseElement b fuel) := by
  induction fuel generalizing lo with
  | zero => omega
  | succ fuel ih =>
    intro pos stop c hlo hwf hfits hpos hat hend
    have hle := hat.length_le hpos
    have hfive := five_le_element_length c
    have helem : Complete b (pos + 5) (parseElement b fuel) := ih (by omega)
    have hleft : b.length - (pos + 5) < fuel := by omega
    obtain ⟨kk, len, hhead, hlen, hpay⟩ := parsePayload_complete helem hwf hfits hat hleft
    have hseg : len ≤ sizeSub stop (pos + 5) := by
      rw [sizeSub, if_pos (by omega)]
      omega
    have hread := parseHeader_eq_ok (r := (kk, len, pos + 5)) |>.mpr ⟨hhead, rfl, hseg⟩
    rw [parseElement, hread, Result.ok_bind]
    simp only [hpay, hlen, Nat.add_assoc]

/-! ### The container -/

/-- The five bytes of the container header and the element that fills the rest. -/
theorem eq_encoding_iff {b : Bytes} {c : Canon} :
    b = c.encoding ↔ At b 0 kMagic ∧ b[4]? = some kVersion ∧ At b 5 c.element ∧
      b.length = 5 + c.element.length := by
  constructor
  · rintro rfl
    refine ⟨⟨_, rfl⟩, rfl, ⟨[], ?_⟩, ?_⟩
    · simp [encoding, kMagic]
    · simp [encoding, kMagic]; omega
  · rintro ⟨hmagic, hversion, hat, hlen⟩
    have hversion' : At b 4 [kVersion] := at_cons.mpr ⟨hversion, at_nil _ _⟩
    have hall : At b 0 c.encoding := by
      rw [encoding, at_append, at_append]
      exact ⟨⟨hmagic, hversion'⟩, hat⟩
    refine (List.IsPrefix.eq_of_length hall ?_).symm
    simp [encoding, kMagic, hlen]
    omega

theorem canonicalDecode_eq_ok {b : Bytes} {c : Canon} :
    canonicalDecode b = .ok c ↔ c.WF ∧ c.Fits ∧ b = c.encoding := by
  have hfive := five_le_element_length c
  rw [eq_encoding_iff]
  constructor
  · intro h
    rw [canonicalDecode] at h
    split_ifs at h with hsize
    simp only [Result.bind_eq_ok, copyBytes_eq_ok] at h
    obtain ⟨magic, ⟨-, hmagic⟩, h⟩ := h
    split_ifs at h with hm
    obtain ⟨version, hversion, h⟩ := Result.bind_eq_ok.mp h
    split_ifs at h with hv
    obtain ⟨⟨root, q⟩, hroot, h⟩ := Result.bind_eq_ok.mp h
    simp only at h
    split_ifs at h with hq
    cases h
    obtain ⟨hwf, hfits, hat, hq', -⟩ := parseElement_sound _ _ _ _ _ _ hroot
    rw [not_not] at hm hv hq
    subst hm hv
    exact ⟨hwf, hfits, hmagic, byteAt_eq_ok.mp hversion, hat, by omega⟩
  · rintro ⟨hwf, hfits, hmagic, hversion, hat, hlen⟩
    have helem : Complete b 5 (parseElement b b.length) := parseElement_complete b (by omega)
    have hroot := helem 5 b.length c le_rfl hwf hfits (by omega) hat (by omega)
    have hm : copyBytes b 0 4 = .ok kMagic := copyBytes_eq_ok.mpr ⟨rfl, hmagic⟩
    have hv : byteAt b 4 = .ok kVersion := byteAt_eq_ok.mpr hversion
    rw [canonicalDecode, if_neg (by omega), hm, Result.ok_bind, if_neg (by simp), hv,
      Result.ok_bind, if_neg (by simp), hroot, Result.ok_bind]
    simp [hlen]

/-- Decoding inverts encoding on the values whose lengths fit 32 bits. -/
theorem canonicalDecode_canonicalEncode {c : Canon} (hc : Built c) (hfits : c.Fits) :
    (canonicalEncode c >>= canonicalDecode) = .ok c := by
  rw [canonicalEncode_of_wf hc.wf, Result.ok_bind]
  exact canonicalDecode_eq_ok.mpr ⟨hc.wf, hfits, rfl⟩

/-- Values whose lengths fit are told apart by their encodings. -/
theorem encoding_injective {c c' : Canon} (hc : c.WF) (hc' : c'.WF) (hfits : c.Fits) (hfits' : c'.Fits)
    (h : c.encoding = c'.encoding) : c = c' := by
  have hdecode := canonicalDecode_eq_ok.mpr ⟨hc, hfits, h.symm⟩
  rw [canonicalDecode_eq_ok.mpr ⟨hc', hfits', rfl⟩] at hdecode
  exact (Except.ok.inj hdecode).symm

/-- A record given out of order, with a sequence inside. -/
def nested : Result Canon :=
  mkRecord [(7, .str (ascii "ab")), (2, .sequence [.uint 3, .int (-1), .record []]), (4, .null)]

theorem canonicalDecode_canonicalEncode_nested :
    ∃ c, nested = .ok c ∧ c.Fits ∧ (canonicalEncode c >>= canonicalDecode) = .ok c := by
  refine ⟨.record [(2, .sequence [.uint 3, .int (-1), .record []]), (4, .null), (7, .str (ascii "ab"))],
    rfl, ?_, canonicalDecode_canonicalEncode ?_ ?_⟩
  · exact fits_of_length _ (by decide)
  · apply WF.built
    simp [WF, WFRecord, WFSeq, SortedMap.Sorted]
  · exact fits_of_length _ (by decide)

/-- The decoder accepts the outputs of the encoder and nothing else: a value has
one accepted encoding, and what is accepted decodes to a well-formed value. -/
theorem canonicalDecode_iff_canonicalEncode (b : Bytes) (c : Canon) :
    canonicalDecode b = .ok c ↔
      canonicalEncode c = .ok b ∧ c.WF ∧ c.Fits ∧ ∀ b', canonicalDecode b' = .ok c → b' = b := by
  rw [canonicalDecode_eq_ok]
  constructor
  · rintro ⟨hwf, hfits, rfl⟩
    exact ⟨canonicalEncode_of_wf hwf, hwf, hfits, fun b' h => (canonicalDecode_eq_ok.mp h).2.2⟩
  · rintro ⟨henc, hwf, hfits, -⟩
    rw [canonicalEncode_of_wf hwf] at henc
    exact ⟨hwf, hfits, by simpa using henc.symm⟩

end CompatRegistry
