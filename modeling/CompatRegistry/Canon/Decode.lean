import CompatRegistry.Canon.Encode

/-! The canonical decoder. A read of the buffer goes through `byteAt`, whose
out-of-range branch is the fault `outOfRange`: the source does not test for it
there. Positions and segment ends are `std::size_t`, and the segment test
subtracts them. Loops and the nested recursion run on fuel. -/

namespace CompatRegistry

open Foundation

namespace Reader

/-- `data[i]`. -/
def byteAt (b : Bytes) (i : ℕ) : Result UInt8 :=
  match b[i]? with
  | some x => .ok x
  | none => .error .outOfRange

/-- The bytes at `pos`, ..., `pos + n - 1`, as `std::memcpy` reads them. -/
def copyBytes (b : Bytes) : ℕ → ℕ → Result Bytes
  | _, 0 => .ok []
  | pos, n + 1 => do
    let x ← byteAt b pos
    let xs ← copyBytes b (pos + 1) n
    .ok (x :: xs)

def u8 (b : Bytes) (pos : ℕ) : Result (UInt8 × ℕ) :=
  if b.length ≤ pos then .error (.canonError "decode: unexpected end (u8)") else do
  let x ← byteAt b pos
  .ok (x, pos + 1)

def u32be (b : Bytes) (pos : ℕ) : Result (ℕ × ℕ) :=
  if sizeSub b.length pos < 4 then .error (.canonError "decode: unexpected end (u32)") else do
  let bs ← copyBytes b pos 4
  .ok (ofBE bs, pos + 4)

def u64be (b : Bytes) (pos : ℕ) : Result (ℕ × ℕ) :=
  if sizeSub b.length pos < 8 then .error (.canonError "decode: unexpected end (u64)") else do
  let bs ← copyBytes b pos 8
  .ok (ofBE bs, pos + 8)

/-- `n` single-byte reads in a row. -/
def u8s (b : Bytes) : ℕ → ℕ → Result (Bytes × ℕ)
  | 0, pos => .ok ([], pos)
  | n + 1, pos => do
    let (x, pos) ← u8 b pos
    let (xs, pos) ← u8s b n pos
    .ok (x :: xs, pos)

end Reader

open Reader Canon

/-- The kind byte and the length of an element, and the segment test. -/
def parseHeader (b : Bytes) (pos stop : ℕ) : Result (UInt8 × ℕ × ℕ) := do
  let (kk, pos) ← u8 b pos
  let (len, pos) ← u32be b pos
  if sizeSub stop pos < len then .error (.canonError "decode: child element length exceeds segment")
  else .ok (kk, len, pos)

/-- The entries of a record up to `payloadEnd`; `last` is the tag before. -/
def recordLoop (elem : ℕ → ℕ → Result (Canon × ℕ)) (b : Bytes) (payloadEnd : ℕ) :
    ℕ → ℕ → Option UInt32 → Result (Record × ℕ)
  | 0, _, _ => .error .outOfFuel
  | fuel + 1, pos, last =>
    if pos < payloadEnd then do
      let (tag, pos) ← u32be b pos
      let tag := UInt32.ofNat tag
      if last.any (tag ≤ ·) then
        .error (.canonError "decode: record tags not strictly increasing (duplicate/out-of-order)")
      else do
        let (v, pos) ← elem pos payloadEnd
        let (rest, pos) ← recordLoop elem b payloadEnd fuel pos (some tag)
        .ok ((tag, v) :: rest, pos)
    else .ok ([], pos)

def sequenceLoop (elem : ℕ → ℕ → Result (Canon × ℕ)) (payloadEnd : ℕ) :
    ℕ → ℕ → Result (Seq × ℕ)
  | 0, _ => .error .outOfFuel
  | fuel + 1, pos =>
    if pos < payloadEnd then do
      let (v, pos) ← elem pos payloadEnd
      let (rest, pos) ← sequenceLoop elem payloadEnd fuel pos
      .ok (v :: rest, pos)
    else .ok ([], pos)

/-- The payload of `len` bytes of an element of kind `kk`. -/
def parsePayload (elem : ℕ → ℕ → Result (Canon × ℕ)) (b : Bytes) (fuel : ℕ) (kk : UInt8)
    (len pos : ℕ) : Result (Canon × ℕ) :=
  let payloadEnd := pos + len
  match (Enum8.ofByte kk : Enum8 CanonKind) with
  | .declared .null =>
    if len ≠ 0 then .error (.canonError "decode: Null length != 0") else .ok (.null, payloadEnd)
  | .declared .uint =>
    if len ≠ 8 then .error (.canonError "decode: Uint length != 8") else do
    let (v, pos) ← u64be b pos
    if pos ≠ payloadEnd then .error (.canonError "decode: Uint trailing bytes")
    else .ok (.uint (UInt64.ofNat v), pos)
  | .declared .int =>
    if len ≠ 8 then .error (.canonError "decode: Int length != 8") else do
    let (bits, pos) ← u64be b pos
    if pos ≠ payloadEnd then .error (.canonError "decode: Int trailing bytes")
    else .ok (.int (UInt64.ofNat bits).toInt64, pos)
  | .declared .bool =>
    if len ≠ 1 then .error (.canonError "decode: Bool length != 1") else do
    let (v, pos) ← u8 b pos
    if v ≠ 0 ∧ v ≠ 1 then .error (.canonError "decode: invalid bool value")
    else if pos ≠ payloadEnd then .error (.canonError "decode: Bool trailing bytes")
    else .ok (.bool (v == 1), pos)
  | .declared .str => do
    let s ← copyBytes b pos len
    .ok (.str s, payloadEnd)
  | .declared .bytes => do
    let s ← copyBytes b pos len
    .ok (.bytes s, payloadEnd)
  | .declared .uuid =>
    if len ≠ 16 then .error (.canonError "decode: Uuid length != 16") else do
    let (by_, pos) ← u8s b 16 pos
    if pos ≠ payloadEnd then .error (.canonError "decode: Uuid trailing bytes")
    -- sixteen reads return sixteen bytes, so the last branch is never taken
    else if h : by_.length = 16 then .ok (.uuid ⟨by_, h⟩, pos)
    else .error .outOfRange
  | .declared .float =>
    if len ≠ 8 then .error (.canonError "decode: Float length != 8") else do
    let (bits, pos) ← u64be b pos
    if pos ≠ payloadEnd then .error (.canonError "decode: Float trailing bytes")
    else if (Binary64.mk (UInt64.ofNat bits)).isFinite then do
      let c ← mkFloat ⟨UInt64.ofNat bits⟩
      .ok (c, pos)
    else .error (.canonError "decode: Float NaN/Inf not allowed")
  | .declared .record => do
    let (r, pos) ← recordLoop elem b payloadEnd fuel pos none
    if pos ≠ payloadEnd then .error (.canonError "decode: record segment overrun")
    else do
      let c ← mkRecord r
      .ok (c, pos)
  | .declared .sequence => do
    let (q, pos) ← sequenceLoop elem payloadEnd fuel pos
    if pos ≠ payloadEnd then .error (.canonError "decode: sequence segment overrun")
    else .ok (.sequence q, pos)
  | .undeclared raw _ => .error (.canonError (ascii "decode: unknown kind " ++ decimal raw.toNat))

/-- The element at `pos` inside a segment that ends at `stop`, and the position after it. -/
def parseElement (b : Bytes) : ℕ → ℕ → ℕ → Result (Canon × ℕ)
  | 0, _, _ => .error .outOfFuel
  | fuel + 1, pos, stop => do
    let (kk, len, pos) ← parseHeader b pos stop
    parsePayload (parseElement b fuel) b fuel kk len pos

def canonicalDecode (b : Bytes) : Result Canon :=
  if b.length < 6 then .error (.canonError "decode: buffer too small") else do
  let magic ← copyBytes b 0 4
  if magic ≠ kMagic then .error (.canonError "decode: bad magic") else do
  let version ← byteAt b 4
  if version ≠ kVersion then
    .error (.canonError (ascii "decode: unsupported version " ++ decimal version.toNat))
  else do
    let (root, pos) ← parseElement b b.length 5 b.length
    if pos ≠ b.length then .error (.canonError "decode: trailing garbage") else .ok root

/-! ### Bytes at a position -/

/-- The bytes `e` stand in the buffer at `pos`. -/
def At (b : Bytes) (pos : ℕ) (e : Bytes) : Prop := e <+: b.drop pos

theorem at_nil (b : Bytes) (pos : ℕ) : At b pos [] := List.nil_prefix

theorem at_append {b : Bytes} {pos : ℕ} {e₁ e₂ : Bytes} :
    At b pos (e₁ ++ e₂) ↔ At b pos e₁ ∧ At b (pos + e₁.length) e₂ := by
  constructor
  · rintro ⟨rest, h⟩
    refine ⟨⟨e₂ ++ rest, by rw [← h, List.append_assoc]⟩, rest, ?_⟩
    rw [← List.drop_drop, ← h, List.append_assoc, List.drop_left]
  · rintro ⟨⟨r₁, h₁⟩, r₂, h₂⟩
    refine ⟨r₂, ?_⟩
    rw [← List.drop_drop, ← h₁, List.drop_left] at h₂
    rw [List.append_assoc, h₂, h₁]

theorem At.length_le {b : Bytes} {pos : ℕ} {e : Bytes} (h : At b pos e) (hpos : pos ≤ b.length) :
    pos + e.length ≤ b.length := by
  have := List.IsPrefix.length_le h
  rw [List.length_drop] at this
  omega

theorem At.eq {b : Bytes} {pos : ℕ} {e₁ e₂ : Bytes} (h₁ : At b pos e₁) (h₂ : At b pos e₂)
    (hlen : e₁.length = e₂.length) : e₁ = e₂ :=
  (List.prefix_of_prefix_length_le h₁ h₂ hlen.le).eq_of_length hlen

theorem at_cons {b : Bytes} {pos : ℕ} {x : UInt8} {e : Bytes} :
    At b pos (x :: e) ↔ b[pos]? = some x ∧ At b (pos + 1) e := by
  rw [show x :: e = [x] ++ e from rfl, at_append]
  apply and_congr_left'
  constructor
  · rintro ⟨rest, h⟩
    have := congrArg (·[0]?) h
    simpa using this.symm
  · intro h
    obtain ⟨hlt, hx⟩ := List.getElem?_eq_some_iff.mp h
    exact ⟨b.drop (pos + 1), by rw [List.drop_eq_getElem_cons hlt, hx]; rfl⟩

theorem At.pos_lt {b : Bytes} {pos : ℕ} {x : UInt8} {e : Bytes} (h : At b pos (x :: e)) :
    pos < b.length := (List.getElem?_eq_some_iff.mp (at_cons.mp h).1).1

/-! ### The readers -/

namespace Reader

theorem byteAt_eq_ok {b : Bytes} {i : ℕ} {x : UInt8} : byteAt b i = .ok x ↔ b[i]? = some x := by
  rw [byteAt]
  split <;> simp_all

theorem copyBytes_eq_ok {b : Bytes} {pos n : ℕ} {bs : Bytes} :
    copyBytes b pos n = .ok bs ↔ bs.length = n ∧ At b pos bs := by
  induction n generalizing pos bs with
  | zero =>
    simp only [copyBytes, Except.ok.injEq, List.length_eq_zero_iff]
    constructor
    · rintro rfl; exact ⟨rfl, at_nil b pos⟩
    · rintro ⟨rfl, -⟩; rfl
  | succ n ih =>
    simp only [copyBytes, Result.bind_eq_ok, byteAt_eq_ok, ih, Except.ok.injEq]
    constructor
    · rintro ⟨x, hx, xs, ⟨hlen, hat⟩, rfl⟩
      exact ⟨by rw [List.length_cons, hlen], at_cons.mpr ⟨hx, hat⟩⟩
    · rintro ⟨hlen, hat⟩
      cases bs with
      | nil => simp at hlen
      | cons x xs =>
        obtain ⟨hx, hat⟩ := at_cons.mp hat
        exact ⟨x, hx, xs, ⟨by simpa using hlen, hat⟩, rfl⟩

theorem copyBytes_eq_error {b : Bytes} {pos n : ℕ} {e : Fault} :
    copyBytes b pos n = .error e ↔ e = .outOfRange ∧ 0 < n ∧ b.length < pos + n := by
  induction n generalizing pos with
  | zero => simp [copyBytes]
  | succ n ih =>
    rw [copyBytes, Result.bind_eq_error]
    by_cases hlt : pos < b.length
    · have hx : byteAt b pos = .ok b[pos] := byteAt_eq_ok.mpr (List.getElem?_eq_getElem hlt)
      simp only [hx, reduceCtorEq, Except.ok.injEq, exists_eq_left', Result.bind_eq_error, ih,
        and_false, exists_false, or_false, false_or]
      constructor
      · rintro ⟨he, hn, hb⟩; exact ⟨he, by omega, by omega⟩
      · rintro ⟨he, -, hb⟩; exact ⟨he, by omega, by omega⟩
    · have hx : byteAt b pos = .error .outOfRange := by
        rw [byteAt, List.getElem?_eq_none (by omega)]
      simp only [hx, Except.error.injEq, reduceCtorEq, false_and, exists_false, or_false]
      exact ⟨fun h => ⟨h.symm, by omega, by omega⟩, fun h => h.1.symm⟩

theorem u8_eq_ok {b : Bytes} {pos : ℕ} {r : UInt8 × ℕ} :
    u8 b pos = .ok r ↔ r.2 = pos + 1 ∧ At b pos [r.1] := by
  rw [u8]
  split_ifs with h
  · simp only [false_iff, not_and]
    exact fun _ hat => absurd hat.pos_lt (by omega)
  · simp only [Result.bind_eq_ok, byteAt_eq_ok, Except.ok.injEq]
    constructor
    · rintro ⟨x, hx, rfl⟩; exact ⟨rfl, at_cons.mpr ⟨hx, at_nil _ _⟩⟩
    · rintro ⟨hr, hat⟩; exact ⟨r.1, (at_cons.mp hat).1, by rw [← hr]⟩

theorem u8_eq_error {b : Bytes} {pos : ℕ} {e : Fault} (h : u8 b pos = .error e) :
    ∃ what, e = .canonError what := by
  rw [u8] at h
  split_ifs at h with hlt
  · cases h; exact ⟨_, rfl⟩
  · rw [byteAt, List.getElem?_eq_getElem (by omega)] at h
    simp at h

/-- A fixed-width read: `n` bytes, tested against the rest of the buffer. -/
theorem word_eq_ok {b : Bytes} {pos n : ℕ} {what : Bytes} {r : ℕ × ℕ} (hpos : pos ≤ b.length) :
    ((if sizeSub b.length pos < n then .error (.canonError what) else do
      let bs ← copyBytes b pos n
      .ok (ofBE bs, pos + n)) : Result (ℕ × ℕ)) = .ok r ↔
    r.2 = pos + n ∧ r.1 < 256 ^ n ∧ At b pos (toBE n r.1) := by
  rw [sizeSub, if_pos hpos]
  split_ifs with h
  · simp only [false_iff, not_and]
    intro _ _ hat
    have := hat.length_le hpos
    rw [toBE_length] at this
    omega
  · simp only [Result.bind_eq_ok, copyBytes_eq_ok, Except.ok.injEq]
    constructor
    · rintro ⟨bs, ⟨rfl, hat⟩, rfl⟩
      exact ⟨rfl, ofBE_lt bs, by rwa [toBE_ofBE]⟩
    · rintro ⟨hr, hlt, hat⟩
      refine ⟨toBE n r.1, ⟨toBE_length _ _, hat⟩, ?_⟩
      rw [ofBE_toBE, Nat.mod_eq_of_lt hlt, ← hr]

theorem word_eq_error {b : Bytes} {pos n : ℕ} {what : Bytes} {e : Fault} (hpos : pos ≤ b.length)
    (h : ((if sizeSub b.length pos < n then .error (.canonError what) else do
      let bs ← copyBytes b pos n
      .ok (ofBE bs, pos + n)) : Result (ℕ × ℕ)) = .error e) : ∃ what, e = .canonError what := by
  rw [sizeSub, if_pos hpos] at h
  split_ifs at h with hlt
  · cases h; exact ⟨_, rfl⟩
  · simp only [Result.bind_eq_error, copyBytes_eq_error, reduceCtorEq, and_false, exists_false,
      or_false] at h
    omega

theorem u32be_eq_ok {b : Bytes} {pos : ℕ} {r : ℕ × ℕ} (hpos : pos ≤ b.length) :
    u32be b pos = .ok r ↔ r.2 = pos + 4 ∧ r.1 < 2 ^ 32 ∧ At b pos (toBE 4 r.1) :=
  word_eq_ok hpos

theorem u64be_eq_ok {b : Bytes} {pos : ℕ} {r : ℕ × ℕ} (hpos : pos ≤ b.length) :
    u64be b pos = .ok r ↔ r.2 = pos + 8 ∧ r.1 < 2 ^ 64 ∧ At b pos (toBE 8 r.1) :=
  word_eq_ok hpos

theorem u32be_eq_error {b : Bytes} {pos : ℕ} {e : Fault} (hpos : pos ≤ b.length)
    (h : u32be b pos = .error e) : ∃ what, e = .canonError what := word_eq_error hpos h

theorem u64be_eq_error {b : Bytes} {pos : ℕ} {e : Fault} (hpos : pos ≤ b.length)
    (h : u64be b pos = .error e) : ∃ what, e = .canonError what := word_eq_error hpos h

theorem u8s_eq_ok {b : Bytes} {n pos : ℕ} {r : Bytes × ℕ} :
    u8s b n pos = .ok r ↔ r.1.length = n ∧ r.2 = pos + n ∧ At b pos r.1 := by
  induction n generalizing pos r with
  | zero =>
    obtain ⟨bs, q⟩ := r
    simp only [u8s, Except.ok.injEq, Prod.mk.injEq, List.length_eq_zero_iff, Nat.add_zero]
    constructor
    · rintro ⟨rfl, rfl⟩; exact ⟨rfl, rfl, at_nil _ _⟩
    · rintro ⟨rfl, rfl, -⟩; exact ⟨rfl, rfl⟩
  | succ n ih =>
    simp only [u8s, Result.bind_eq_ok, u8_eq_ok, ih, Except.ok.injEq]
    constructor
    · rintro ⟨⟨x, p⟩, ⟨hp, hx⟩, ⟨xs, q⟩, ⟨hlen, hq, hat⟩, rfl⟩
      simp only at hp hx hlen hq hat ⊢
      subst hp hq
      exact ⟨by simp [hlen], by omega, at_cons.mpr ⟨(at_cons.mp hx).1, hat⟩⟩
    · rintro ⟨hlen, hq, hat⟩
      obtain ⟨bs, q⟩ := r
      cases bs with
      | nil => simp at hlen
      | cons x xs =>
        obtain ⟨hx, hat⟩ := at_cons.mp hat
        simp only at hq hat
        exact ⟨(x, pos + 1), ⟨rfl, at_cons.mpr ⟨hx, at_nil _ _⟩⟩, (xs, pos + 1 + n),
          ⟨by simpa using hlen, rfl, hat⟩, by simp only [hq, Prod.mk.injEq, true_and]; omega⟩

theorem u8s_eq_error {b : Bytes} {n pos : ℕ} {e : Fault} (h : u8s b n pos = .error e) :
    ∃ what, e = .canonError what := by
  induction n generalizing pos with
  | zero => simp [u8s] at h
  | succ n ih =>
    rw [u8s, Result.bind_eq_error] at h
    rcases h with h | ⟨⟨x, p⟩, -, h⟩
    · exact u8_eq_error h
    · simp only [Result.bind_eq_error, reduceCtorEq, and_false, exists_false, or_false] at h
      exact ih h

end Reader

end CompatRegistry
