import CompatRegistry.Identity

/-! Identities as text. The reader drops every dash before it counts the digits, so
it takes dashes anywhere; the writer puts them where they belong. -/

namespace CompatRegistry

open Foundation

namespace Uuid

/-- The value of a hexadecimal digit of either case. -/
def hexv (c : UInt8) : Result ℕ :=
  if 48 ≤ c ∧ c ≤ 57 then .ok (c.toNat - 48)
  else if 97 ≤ c ∧ c ≤ 102 then .ok (c.toNat - 97 + 10)
  else if 65 ≤ c ∧ c ≤ 70 then .ok (c.toNat - 65 + 10)
  else .error (.invalidArgument "Uuid::from_string: non-hex character")

/-- One byte of every two digits. The digits come in pairs, so the odd case is never taken. -/
def packPairs : Bytes → Result Bytes
  | [] => .ok []
  | [_] => .error .outOfRange
  | a :: b :: hex => do
    let hi ← hexv a
    let lo ← hexv b
    let bs ← packPairs hex
    .ok (UInt8.ofNat (hi <<< 4 ||| lo) :: bs)

def dash : UInt8 := 45

/-- What is left of a text without its dashes. -/
def digits (s : Bytes) : Bytes := s.filter (· ≠ dash)

def fromString (s : Bytes) : Result Uuid :=
  let hex := digits s
  if hex.length ≠ 32 then .error (.invalidArgument "Uuid::from_string: invalid length") else do
  let bs ← packPairs hex
  -- 32 digits make 16 bytes, so the last branch is never taken
  if h : bs.length = 16 then .ok ⟨bs, h⟩ else .error .outOfRange

/-! ### The texts of an identity -/

def HexDigit (c : UInt8) : Prop := (48 ≤ c ∧ c ≤ 57) ∨ (97 ≤ c ∧ c ≤ 102) ∨ (65 ≤ c ∧ c ≤ 70)

instance decidableHexDigit (c : UInt8) : Decidable (HexDigit c) := inferInstanceAs (Decidable (_ ∨ _))

/-- A hexadecimal digit in lower case. -/
def lower (c : UInt8) : UInt8 := if 65 ≤ c ∧ c ≤ 70 then c + 32 else c

/-- 32 hexadecimal digits. -/
structure Plain (s : Bytes) : Prop where
  length : s.length = 32
  hex : ∀ c ∈ s, HexDigit c

/-- The 8-4-4-4-12 form of a string of digits. -/
def dashed (d : Bytes) : Bytes :=
  d.take 8 ++ dash :: ((d.drop 8).take 4 ++ dash :: ((d.drop 12).take 4 ++ dash ::
    ((d.drop 16).take 4 ++ dash :: d.drop 20)))

def Dashed (s : Bytes) : Prop := ∃ d, Plain d ∧ s = dashed d

/-- What `from_string` is to do with a text: it succeeds on the two forms and on no
other text, and the result is written as the same digits in lower case with the
dashes of the second form. -/
structure ReadsText (s : Bytes) : Prop where
  succeeds : (∃ u, fromString s = .ok u) ↔ Plain s ∨ Dashed s
  written : ∀ u, fromString s = .ok u → u.toString = dashed ((digits s).map lower)

/-! ### Digits -/

theorem hexDigit_ne_dash {c : UInt8} (h : HexDigit c) : c ≠ dash := by
  rintro rfl
  revert h
  decide

/-- A digit has a value below 16, and is written back in lower case. -/
theorem hexv_of_hexDigit {c : UInt8} (h : HexDigit c) : ∃ n < 16, hexv c = .ok n ∧ hexl n = lower c := by
  simp only [HexDigit, UInt8.le_iff_toNat_le, UInt8.reduceToNat] at h
  simp only [hexv, lower, hexl, UInt8.le_iff_toNat_le, UInt8.reduceToNat, ← UInt8.toNat_inj]
  rcases h with ⟨hlo, hhi⟩ | ⟨hlo, hhi⟩ | ⟨hlo, hhi⟩
  · refine ⟨c.toNat - 48, by omega, if_pos ⟨hlo, hhi⟩, ?_⟩
    rw [if_pos (by omega), if_neg (by omega), UInt8.toNat_ofNat']
    omega
  · refine ⟨c.toNat - 97 + 10, by omega, ?_, ?_⟩
    · rw [if_neg (by omega), if_pos ⟨hlo, hhi⟩]
    · rw [if_neg (by omega), if_neg (by omega), UInt8.toNat_ofNat']
      omega
  · refine ⟨c.toNat - 65 + 10, by omega, ?_, ?_⟩
    · rw [if_neg (by omega), if_neg (by omega), if_pos ⟨hlo, hhi⟩]
    · rw [if_neg (by omega), if_pos ⟨hlo, hhi⟩, UInt8.toNat_ofNat', UInt8.toNat_add]
      simp only [UInt8.reduceToNat]
      omega

theorem hexv_of_not_hexDigit {c : UInt8} (h : ¬ HexDigit c) : Throws (hexv c) := by
  simp only [HexDigit, not_or] at h
  rw [hexv, if_neg h.1, if_neg h.2.1, if_neg h.2.2]
  simp

theorem hexv_hexl {n : ℕ} (h : n < 16) : hexv (hexl n) = .ok n := by
  interval_cases n <;> decide

theorem hexDigit_hexl {n : ℕ} (h : n < 16) : HexDigit (hexl n) := by
  interval_cases n <;> decide

/-! ### Packing -/

/-- Two digits for every byte. -/
def hexOf (bs : Bytes) : Bytes := bs.flatMap fun b => [hexl (b.toNat >>> 4), hexl (b.toNat &&& 0x0F)]

theorem shiftRight_four_lt (b : UInt8) : b.toNat >>> 4 < 16 := by
  have := b.toNat_lt
  rw [Nat.shiftRight_eq_div_pow]
  omega

theorem and_fifteen_lt (n : ℕ) : n &&& 0x0F < 16 := Nat.lt_succ_of_le Nat.and_le_right

theorem nibbles_or (b : UInt8) : UInt8.ofNat (b.toNat >>> 4 <<< 4 ||| (b.toNat &&& 0x0F)) = b := by
  rw [← Nat.shiftLeft_add_eq_or_of_lt (and_fifteen_lt _), Nat.shiftLeft_eq, Nat.shiftRight_eq_div_pow,
    show (0x0F : ℕ) = 2 ^ 4 - 1 by norm_num, Nat.and_two_pow_sub_one_eq_mod, Nat.div_add_mod']
  exact UInt8.ofNat_toNat

theorem or_nibbles {hi lo : ℕ} (hhi : hi < 16) (hlo : lo < 16) :
    (UInt8.ofNat (hi <<< 4 ||| lo)).toNat >>> 4 = hi ∧ (UInt8.ofNat (hi <<< 4 ||| lo)).toNat &&& 0x0F = lo := by
  rw [← Nat.shiftLeft_add_eq_or_of_lt hlo, Nat.shiftLeft_eq, UInt8.toNat_ofNat', Nat.shiftRight_eq_div_pow,
    show (0x0F : ℕ) = 2 ^ 4 - 1 by norm_num, Nat.and_two_pow_sub_one_eq_mod]
  omega

@[simp] theorem hexOf_length (bs : Bytes) : (hexOf bs).length = 2 * bs.length := by
  induction bs with
  | nil => rfl
  | cons b bs ih => simp only [hexOf, List.flatMap_cons, List.length_append] at ih ⊢; simp [ih]; omega

theorem hexOf_append (bs cs : Bytes) : hexOf (bs ++ cs) = hexOf bs ++ hexOf cs := List.flatMap_append

theorem hexDigit_of_mem_hexOf {bs : Bytes} : ∀ c ∈ hexOf bs, HexDigit c := by
  intro c hc
  obtain ⟨b, -, hb⟩ := List.mem_flatMap.mp hc
  rcases List.mem_cons.mp hb with rfl | hb
  · exact hexDigit_hexl (shiftRight_four_lt b)
  · obtain rfl := List.mem_singleton.mp hb
    exact hexDigit_hexl (and_fifteen_lt _)

/-- Digits are packed into bytes that are written as the same digits in lower case. -/
theorem packPairs_of_hex : ∀ hex : Bytes, hex.length % 2 = 0 → (∀ c ∈ hex, HexDigit c) →
    ∃ bs, packPairs hex = .ok bs ∧ hexOf bs = hex.map lower
  | [], _, _ => ⟨[], rfl, rfl⟩
  | [_], h, _ => by simp at h
  | a :: b :: hex, h, hmem => by
    simp only [List.forall_mem_cons] at hmem
    obtain ⟨ha, hb, hrest⟩ := hmem
    obtain ⟨hi, hhi, hva, hla⟩ := hexv_of_hexDigit ha
    obtain ⟨lo, hlo, hvb, hlb⟩ := hexv_of_hexDigit hb
    have heven : hex.length % 2 = 0 := by
      simp only [List.length_cons] at h
      omega
    obtain ⟨bs, hbs, heq⟩ := packPairs_of_hex hex heven hrest
    refine ⟨UInt8.ofNat (hi <<< 4 ||| lo) :: bs, by rw [packPairs, hva, hvb, hbs]; rfl, ?_⟩
    obtain ⟨hhigh, hlow⟩ := or_nibbles hhi hlo
    rw [hexOf, List.flatMap_cons, hhigh, hlow, hla, hlb, ← hexOf, heq]
    rfl

theorem packPairs_throws : ∀ hex : Bytes, hex.length % 2 = 0 → (∃ c ∈ hex, ¬ HexDigit c) →
    Throws (packPairs hex)
  | [], _, h => by simp at h
  | [_], h, _ => by simp at h
  | a :: b :: hex, h, hbad => by
    rw [packPairs, throws_bind_iff]
    by_cases ha : HexDigit a
    swap
    · exact .inl (hexv_of_not_hexDigit ha)
    obtain ⟨hi, -, hva, -⟩ := hexv_of_hexDigit ha
    refine .inr ⟨hi, hva, ?_⟩
    rw [throws_bind_iff]
    by_cases hb : HexDigit b
    swap
    · exact .inl (hexv_of_not_hexDigit hb)
    obtain ⟨lo, -, hvb, -⟩ := hexv_of_hexDigit hb
    have hrest : ∃ c ∈ hex, ¬ HexDigit c := by simpa [ha, hb] using hbad
    have heven : hex.length % 2 = 0 := by
      simp only [List.length_cons] at h
      omega
    exact .inr ⟨lo, hvb, throws_bind_iff.mpr (.inl (packPairs_throws hex heven hrest))⟩

/-- The digits of bytes are packed into these bytes. -/
theorem packPairs_hexOf (bs : Bytes) : packPairs (hexOf bs) = .ok bs := by
  induction bs with
  | nil => rfl
  | cons b bs ih =>
    rw [hexOf, List.flatMap_cons, ← hexOf]
    simp only [List.cons_append, List.nil_append, packPairs, hexv_hexl (shiftRight_four_lt b),
      hexv_hexl (and_fifteen_lt b.toNat), ih, Result.ok_bind, nibbles_or]

/-! ### Writing -/

theorem render_append (i : ℕ) (bs cs : Bytes) :
    render i (bs ++ cs) = render i bs ++ render (i + bs.length) cs := by
  induction bs generalizing i with
  | nil => rfl
  | cons b bs ih =>
    rw [List.cons_append, render, render, ih, List.length_cons, Nat.add_right_comm, Nat.add_assoc]
    simp only [List.append_assoc]

/-- Between the dashes there are only digits. -/
theorem render_of_lt {i : ℕ} {bs : Bytes}
    (h : ∀ k ∈ [4, 6, 8, 10], k < i ∨ i + bs.length ≤ k) : render i bs = hexOf bs := by
  induction bs generalizing i with
  | nil => rfl
  | cons b bs ih =>
    have hi : ¬ (i = 4 ∨ i = 6 ∨ i = 8 ∨ i = 10) := by
      rintro (rfl | rfl | rfl | rfl) <;> simp at h
    have hrest : ∀ k ∈ [4, 6, 8, 10], k < i + 1 ∨ i + 1 + bs.length ≤ k := by
      intro k hk
      have := h k hk
      simp only [List.length_cons] at this
      omega
    rw [render, if_neg hi, ih hrest]
    rfl

/-- A group behind the first begins with a dash. -/
theorem render_group {i : ℕ} {bs : Bytes} (hi : i = 4 ∨ i = 6 ∨ i = 8 ∨ i = 10) (hne : bs ≠ [])
    (h : ∀ k ∈ [4, 6, 8, 10], k ≤ i ∨ i + bs.length ≤ k) : render i bs = dash :: hexOf bs := by
  cases bs with
  | nil => exact absurd rfl hne
  | cons b bs =>
    have hrest : render (i + 1) bs = hexOf bs := by
      apply render_of_lt
      intro k hk
      have := h k hk
      simp only [List.length_cons] at this
      omega
    rw [render, if_pos hi, hrest]
    rfl

/-- The five groups of the bytes (`k = 1`) or of the digits (`k = 2`). -/
theorem exists_groups {s : Bytes} {k : ℕ} (h : s.length = 16 * k) :
    ∃ a b c d e : Bytes, s = a ++ (b ++ (c ++ (d ++ e))) ∧ a.length = 4 * k ∧ b.length = 2 * k ∧
      c.length = 2 * k ∧ d.length = 2 * k ∧ e.length = 6 * k := by
  refine ⟨s.take (4 * k), (s.drop (4 * k)).take (2 * k), (s.drop (6 * k)).take (2 * k),
    (s.drop (8 * k)).take (2 * k), s.drop (10 * k), ?_, ?_⟩
  · have hstep : ∀ n, (s.drop n).take (2 * k) ++ s.drop (n + 2 * k) = s.drop n := by
      intro n
      rw [← List.drop_drop, List.take_append_drop]
    rw [show 10 * k = 8 * k + 2 * k by omega, hstep, show 8 * k = 6 * k + 2 * k by omega, hstep,
      show 6 * k = 4 * k + 2 * k by omega, hstep, List.take_append_drop]
  · simp only [List.length_take, List.length_drop]
    omega

theorem dashed_append {a b c d e : Bytes} (ha : a.length = 8) (hb : b.length = 4) (hc : c.length = 4)
    (hd : d.length = 4) : dashed (a ++ (b ++ (c ++ (d ++ e)))) =
      a ++ dash :: (b ++ dash :: (c ++ dash :: (d ++ dash :: e))) := by
  simp (disch := omega) [dashed, List.drop_append, List.drop_of_length_le, ha, hb, hc]

/-- The text of an identity is the 8-4-4-4-12 form of its digits. -/
theorem toString_eq_dashed (u : Uuid) : u.toString = dashed (hexOf u.bytes) := by
  obtain ⟨a, b, c, d, e, hbytes, ha, hb, hc, hd, he⟩ := exists_groups (k := 1) u.size
  have hgroup : ∀ i bs, (i = 4 ∨ i = 6 ∨ i = 8 ∨ i = 10) → bs ≠ [] →
      (∀ k ∈ [4, 6, 8, 10], k ≤ i ∨ i + bs.length ≤ k) → render i bs = dash :: hexOf bs :=
    fun _ _ => render_group
  have hne : ∀ l : Bytes, 0 < l.length → l ≠ [] := fun _ => List.ne_nil_of_length_pos
  calc u.toString = render 0 (a ++ (b ++ (c ++ (d ++ e)))) := by rw [toString, hbytes]
    _ = render 0 a ++ (render 4 b ++ (render 6 c ++ (render 8 d ++ render 10 e))) := by
      simp only [render_append, ha, hb, hc, hd]
    _ = hexOf a ++ dash :: (hexOf b ++ dash :: (hexOf c ++ dash :: (hexOf d ++ dash :: hexOf e))) := by
      rw [render_of_lt (by simp [ha]), hgroup 4 b (by omega) (hne b (by omega)) (by simp [hb]),
        hgroup 6 c (by omega) (hne c (by omega)) (by simp [hc]),
        hgroup 8 d (by omega) (hne d (by omega)) (by simp [hd]),
        hgroup 10 e (by omega) (hne e (by omega)) (by simp)]
      simp only [List.cons_append]
    _ = dashed (hexOf u.bytes) := by
      rw [hbytes]
      simp only [hexOf_append]
      rw [dashed_append (by simp [ha]) (by simp [hb]) (by simp [hc]) (by simp [hd])]

/-! ### Where the dashes are -/

/-- The positions of the dashes, counted from `i`. -/
def dashesFrom : ℕ → Bytes → List ℕ
  | _, [] => []
  | i, c :: s => if c = dash then i :: dashesFrom (i + 1) s else dashesFrom (i + 1) s

def dashes (s : Bytes) : List ℕ := dashesFrom 0 s

theorem dashesFrom_append (i : ℕ) (s t : Bytes) :
    dashesFrom i (s ++ t) = dashesFrom i s ++ dashesFrom (i + s.length) t := by
  induction s generalizing i with
  | nil => rfl
  | cons c s ih =>
    rw [List.cons_append, dashesFrom, dashesFrom, ih, List.length_cons, Nat.add_right_comm, Nat.add_assoc]
    split_ifs <;> rfl

theorem dashesFrom_eq_nil_iff {i : ℕ} {s : Bytes} : dashesFrom i s = [] ↔ dash ∉ s := by
  induction s generalizing i with
  | nil => simp [dashesFrom]
  | cons c s ih =>
    rw [dashesFrom]
    split_ifs with h
    · simp [h]
    · simp [ih, Ne.symm h]

theorem le_of_mem_dashesFrom {i k : ℕ} {s : Bytes} (h : k ∈ dashesFrom i s) : i ≤ k := by
  induction s generalizing i with
  | nil => simp [dashesFrom] at h
  | cons c s ih =>
    rw [dashesFrom] at h
    split_ifs at h
    · rcases List.mem_cons.mp h with rfl | h
      · exact le_rfl
      · exact (Nat.le_succ i).trans (ih h)
    · exact (Nat.le_succ i).trans (ih h)

theorem dashesFrom_dash_ne {i : ℕ} {c : UInt8} (hc : c ≠ dash) (s t : Bytes) :
    dashesFrom i (dash :: s) ≠ dashesFrom i (c :: t) := by
  intro h
  rw [dashesFrom, if_pos rfl, dashesFrom, if_neg hc] at h
  have := le_of_mem_dashesFrom (h ▸ List.mem_cons_self)
  omega

/-- A text is what its digits and the places of its dashes make of it. -/
theorem eq_of_digits_of_dashes {i : ℕ} {s t : Bytes} (hd : digits s = digits t)
    (hp : dashesFrom i s = dashesFrom i t) : s = t := by
  induction s generalizing i t with
  | nil =>
    cases t with
    | nil => rfl
    | cons c t =>
      by_cases hc : c = dash
      · simp [dashesFrom, hc] at hp
      · simp [digits, hc] at hd
  | cons c s ih =>
    cases t with
    | nil =>
      by_cases hc : c = dash
      · simp [dashesFrom, hc] at hp
      · simp [digits, hc] at hd
    | cons c' t =>
      by_cases hc : c = dash
      · by_cases hc' : c' = dash
        · subst hc hc'
          rw [ih (by simpa [digits] using hd) (by simpa [dashesFrom] using hp)]
        · subst hc
          exact absurd hp (dashesFrom_dash_ne hc' s t)
      · by_cases hc' : c' = dash
        · subst hc'
          exact absurd hp.symm (dashesFrom_dash_ne hc t s)
        · have hhead : c = c' ∧ digits s = digits t := by simpa [digits, hc, hc'] using hd
          rw [hhead.1, ih hhead.2 (by simpa [dashesFrom, hc, hc'] using hp)]

/-! ### Reading -/

theorem digits_of_hex {d : Bytes} (h : ∀ c ∈ d, HexDigit c) : digits d = d :=
  List.filter_eq_self.mpr fun c hc => by simpa using hexDigit_ne_dash (h c hc)

theorem digits_append (s t : Bytes) : digits (s ++ t) = digits s ++ digits t := List.filter_append _ _

theorem digits_dash (s : Bytes) : digits (dash :: s) = digits s := rfl

theorem dash_not_mem_of_hex {d : Bytes} (h : ∀ c ∈ d, HexDigit c) : dash ∉ d :=
  fun hmem => hexDigit_ne_dash (h dash hmem) rfl

theorem digits_dashed {d : Bytes} (h : Plain d) : digits (dashed d) = d ∧ dashes (dashed d) = [8, 13, 18, 23] := by
  obtain ⟨a, b, c, d', e, rfl, ha, hb, hc, hd, he⟩ := exists_groups (k := 2) h.length
  have hhex := h.hex
  simp only [List.mem_append, or_imp, forall_and] at hhex
  obtain ⟨h₁, h₂, h₃, h₄, h₅⟩ := hhex
  rw [dashed_append ha hb hc hd]
  constructor
  · simp only [digits_append, digits_dash, digits_of_hex h₁, digits_of_hex h₂, digits_of_hex h₃, digits_of_hex h₄,
      digits_of_hex h₅]
  · have hnil : ∀ i (l : Bytes), (∀ c ∈ l, HexDigit c) → dashesFrom i l = [] :=
      fun i l hl => dashesFrom_eq_nil_iff.mpr (dash_not_mem_of_hex hl)
    simp only [dashes, dashesFrom_append, dashesFrom, if_true, hnil _ _ h₁, hnil _ _ h₂, hnil _ _ h₃, hnil _ _ h₄,
      hnil _ _ h₅, ha, hb, hc, hd, List.nil_append]

/-- A text is read exactly if it has 32 hexadecimal digits besides dashes; otherwise
an exception ends the call. -/
theorem fromString_cases (s : Bytes) :
    (Plain (digits s) ∧ ∃ u, fromString s = .ok u ∧ hexOf u.bytes = (digits s).map lower) ∨
      ¬ Plain (digits s) ∧ Throws (fromString s) := by
  by_cases hlen : (digits s).length = 32
  swap
  · refine .inr ⟨fun h => hlen h.length, ?_⟩
    rw [fromString, if_pos hlen]
    simp
  by_cases hhex : ∀ c ∈ digits s, HexDigit c
  · obtain ⟨bs, hbs, heq⟩ := packPairs_of_hex (digits s) (by omega) hhex
    have hsize : bs.length = 16 := by
      have := congrArg List.length heq
      rw [hexOf_length, List.length_map] at this
      omega
    refine .inl ⟨⟨hlen, hhex⟩, ⟨bs, hsize⟩, ?_, heq⟩
    rw [fromString, if_neg (not_not.mpr hlen), hbs, Result.ok_bind, dif_pos hsize]
  · refine .inr ⟨fun h => hhex h.hex, ?_⟩
    rw [fromString, if_neg (not_not.mpr hlen), throws_bind_iff]
    push Not at hhex
    exact .inl (packPairs_throws _ (by omega) hhex)

/-- With 32 digits besides its dashes, a text is of one of the two forms exactly if
there are no dashes or they are at the four places of the second form. -/
theorem plain_or_dashed_iff {s : Bytes} (h : Plain (digits s)) :
    Plain s ∨ Dashed s ↔ dashes s = [] ∨ dashes s = [8, 13, 18, 23] := by
  apply or_congr
  · constructor
    · exact fun hs => dashesFrom_eq_nil_iff.mpr (dash_not_mem_of_hex hs.hex)
    · intro hs
      have hself : digits s = s := List.filter_eq_self.mpr fun c hc => by
        have := dashesFrom_eq_nil_iff.mp hs
        simpa using ne_of_mem_of_not_mem hc this
      exact hself ▸ h
  · constructor
    · rintro ⟨d, hd, rfl⟩
      exact (digits_dashed hd).2
    · intro hs
      obtain ⟨hdigits, hplaces⟩ := digits_dashed h
      exact ⟨digits s, h, eq_of_digits_of_dashes hdigits.symm (hs.trans hplaces.symm)⟩

/-- A text is read as it should be unless it has 32 hexadecimal digits and dashes
elsewhere than at the four places of the 8-4-4-4-12 form. What an identity is
written as is always read back. -/
theorem fromString_readsText_iff (s : Bytes) (u : Uuid) :
    (ReadsText s ↔ (Plain (digits s) → dashes s = [] ∨ dashes s = [8, 13, 18, 23])) ∧
      fromString u.toString = .ok u := by
  constructor
  · have hwritten : ∀ u, fromString s = .ok u → u.toString = dashed ((digits s).map lower) := by
      intro u hu
      rcases fromString_cases s with ⟨-, v, hv, heq⟩ | ⟨-, e, he, -⟩
      · rw [hu] at hv
        cases hv
        rw [toString_eq_dashed, heq]
      · rw [hu] at he
        cases he
    have hok : (∃ u, fromString s = .ok u) ↔ Plain (digits s) := by
      rcases fromString_cases s with ⟨hplain, u, hu, -⟩ | ⟨hplain, e, he, -⟩
      · exact ⟨fun _ => hplain, fun _ => ⟨u, hu⟩⟩
      · simp [he, hplain]
    constructor
    · intro h hplain
      exact (plain_or_dashed_iff hplain).mp (h.succeeds.mp (hok.mpr hplain))
    · intro h
      refine ⟨hok.trans ⟨fun hplain => (plain_or_dashed_iff hplain).mpr (h hplain), ?_⟩, hwritten⟩
      rintro (hs | ⟨d, hd, rfl⟩)
      · rwa [digits_of_hex hs.hex]
      · rwa [(digits_dashed hd).1]
  · have hplain : Plain (hexOf u.bytes) := ⟨by rw [hexOf_length, u.size], hexDigit_of_mem_hexOf⟩
    rw [fromString, toString_eq_dashed, (digits_dashed hplain).1, if_neg (not_not.mpr hplain.length),
      packPairs_hexOf, Result.ok_bind, dif_pos u.size]

/-- A single dash in the middle is dropped. -/
theorem not_readsText_middle : ¬ ReadsText (ascii "0123456789abcdef-0123456789ABCDEF") := by
  intro h
  have hok : ∃ u, fromString (ascii "0123456789abcdef-0123456789ABCDEF") = .ok u :=
    ⟨⟨[0x01, 0x23, 0x45, 0x67, 0x89, 0xAB, 0xCD, 0xEF, 0x01, 0x23, 0x45, 0x67, 0x89, 0xAB, 0xCD, 0xEF], rfl⟩,
      by decide +kernel⟩
  rcases h.succeeds.mp hok with hplain | ⟨d, hd, heq⟩
  · exact absurd hplain.length (by decide +kernel)
  · have hplaces := (digits_dashed hd).2
    rw [← heq] at hplaces
    exact absurd hplaces (by decide +kernel)

end Uuid

end CompatRegistry
