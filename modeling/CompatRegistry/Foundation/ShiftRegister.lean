import Mathlib.Tactic
import Mathlib.Logic.Function.Iterate

/-! The shift register of a cyclic redundancy check in reflected form, of any width
and any feedback word, fed with words of any width. One step is linear, and it is
invertible when the feedback word has its top bit. So the register tells apart two
messages of one length that differ within as many bits as it holds. -/

namespace Foundation.ShiftRegister

variable {w m : ℕ} (p : BitVec w)

/-- Shift the low bit out; if it was set, add the feedback word. -/
def step (c : BitVec w) : BitVec w := if c.getLsbD 0 then c >>> 1 ^^^ p else c >>> 1

/-- Add a word at the low end, and shift it out. -/
def feed (c : BitVec w) (x : BitVec m) : BitVec w := (step p)^[m] (c ^^^ x.setWidth w)

/-! ### One step -/

theorem step_top (c : BitVec w) (hp : p.getLsbD (w - 1) = true) :
    (step p c).getLsbD (w - 1) = c.getLsbD 0 := by
  have htop : (c >>> 1).getLsbD (w - 1) = false := by
    rw [BitVec.getLsbD_ushiftRight]
    exact BitVec.getLsbD_of_ge c _ (by omega)
  rw [step]
  split_ifs with h
  · rw [BitVec.getLsbD_xor, htop, hp, h]
    rfl
  · rw [htop]
    simpa using h

theorem step_xor (c d : BitVec w) : step p (c ^^^ d) = step p c ^^^ step p d := by
  simp only [step, BitVec.getLsbD_xor, BitVec.ushiftRight_xor_distrib]
  cases c.getLsbD 0 <;> cases d.getLsbD 0
  · rfl
  · exact BitVec.xor_assoc _ _ _
  · show (c >>> 1 ^^^ d >>> 1) ^^^ p = (c >>> 1 ^^^ p) ^^^ d >>> 1
    ac_rfl
  · show c >>> 1 ^^^ d >>> 1 = (c >>> 1 ^^^ p) ^^^ (d >>> 1 ^^^ p)
    calc c >>> 1 ^^^ d >>> 1 = (c >>> 1 ^^^ d >>> 1) ^^^ (p ^^^ p) := by simp
      _ = (c >>> 1 ^^^ p) ^^^ (d >>> 1 ^^^ p) := by ac_rfl

variable {p}

/-- The top bit of the result is the bit that was shifted out, so nothing is lost. -/
theorem step_injective (hp : p.getLsbD (w - 1) = true) : Function.Injective (step p) := by
  intro c d h
  have hlow : c.getLsbD 0 = d.getLsbD 0 := by
    rw [← step_top p c hp, h, step_top p d hp]
  have hshift : c >>> 1 = d >>> 1 := by
    simp only [step, hlow] at h
    split_ifs at h
    · exact (BitVec.xor_left_inj p).mp h
    · exact h
  apply BitVec.eq_of_getLsbD_eq
  intro i _
  cases i with
  | zero => exact hlow
  | succ i =>
    have hbit := congrArg (fun x => x.getLsbD i) hshift
    simpa only [BitVec.getLsbD_ushiftRight, Nat.add_comm 1 i] using hbit

theorem iterate_step_xor (n : ℕ) (c d : BitVec w) :
    (step p)^[n] (c ^^^ d) = (step p)^[n] c ^^^ (step p)^[n] d := by
  induction n generalizing c d with
  | zero => rfl
  | succ n ih => rw [Function.iterate_succ_apply, Function.iterate_succ_apply, Function.iterate_succ_apply,
      step_xor, ih]

/-- Bits that stay above the low end only move down. -/
theorem iterate_step_shiftLeft (n : ℕ) {c : BitVec w} (hc : ∀ i, w ≤ i + n → c.getLsbD i = false) :
    (step p)^[n] (c <<< n) = c := by
  induction n with
  | zero => exact BitVec.shiftLeft_zero c
  | succ n ih =>
    have hlow : (c <<< (n + 1)).getLsbD 0 = false := by simp
    have hstep : step p (c <<< (n + 1)) = c <<< n := by
      simp only [step, hlow, Bool.false_eq_true, if_false]
      apply BitVec.eq_of_getLsbD_eq
      intro i hi
      rw [BitVec.getLsbD_ushiftRight, BitVec.getLsbD_shiftLeft, BitVec.getLsbD_shiftLeft]
      by_cases hin : i < n
      · simp [hin, show 1 + i < n + 1 by omega]
      · rw [show 1 + i - (n + 1) = i - n by omega]
        by_cases htop : 1 + i < w
        · simp [hi, htop, hin, show ¬ 1 + i < n + 1 by omega]
        · simp [hc (i - n) (by omega)]
    rw [Function.iterate_succ_apply, hstep]
    exact ih fun i hi => hc i (by omega)

/-! ### A message -/

variable (w) in
/-- The words of a message side by side, the first at the low end. -/
def packed : List (BitVec m) → BitVec w
  | [] => 0
  | x :: xs => x.setWidth w ^^^ packed xs <<< m

theorem packed_high (xs : List (BitVec m)) {i : ℕ} (hi : m * xs.length ≤ i) :
    (packed w xs).getLsbD i = false := by
  induction xs generalizing i with
  | nil => simp [packed]
  | cons x xs ih =>
    rw [List.length_cons, Nat.mul_succ] at hi
    have hx : x.getLsbD i = false := BitVec.getLsbD_of_ge x i (by omega)
    simp [packed, hx, ih (i := i - m) (by omega)]

/-- Two messages of one length that fit in the register are told apart by what they pack to. -/
theorem packed_injective {xs ys : List (BitVec m)} (hlen : xs.length = ys.length)
    (hfit : m * xs.length ≤ w) (h : packed w xs = packed w ys) : xs = ys := by
  induction xs generalizing ys with
  | nil => exact (List.length_eq_zero_iff.mp hlen.symm).symm
  | cons x xs ih =>
    cases ys with
    | nil => simp at hlen
    | cons y ys =>
      rw [List.length_cons, Nat.mul_succ] at hfit
      have hlen' : xs.length = ys.length := by simpa using hlen
      have hbit : ∀ i, (packed w (x :: xs)).getLsbD i = (packed w (y :: ys)).getLsbD i := fun i => by rw [h]
      have hxy : x = y := by
        apply BitVec.eq_of_getLsbD_eq
        intro i hi
        have := hbit i
        simpa [packed, hi, show i < w by omega] using this
      have htail : packed w xs = packed w ys := by
        apply BitVec.eq_of_getLsbD_eq
        intro i hi
        by_cases hin : i + m < w
        · have := hbit (i + m)
          simpa [packed, hin, hi, BitVec.getLsbD_of_ge x (i + m), BitVec.getLsbD_of_ge y (i + m)] using this
        · rw [packed_high xs (by omega), packed_high ys (by rw [← hlen']; omega)]
      rw [hxy, ih hlen' (by omega) htail]

/-- Feeding a message that fits in the register is shifting all of it out. -/
theorem foldl_feed (xs : List (BitVec m)) (hfit : m * xs.length ≤ w) (c : BitVec w) :
    xs.foldl (feed p) c = (step p)^[m * xs.length] (c ^^^ packed w xs) := by
  induction xs generalizing c with
  | nil => simp [packed]
  | cons x xs ih =>
    rw [List.length_cons, Nat.mul_succ] at hfit
    have hdown : (step p)^[m] (packed w xs <<< m) = packed w xs :=
      iterate_step_shiftLeft m fun i hi => packed_high xs (by omega)
    calc (x :: xs).foldl (feed p) c
        = (step p)^[m * xs.length] (feed p c x ^^^ packed w xs) := ih (by omega) _
      _ = (step p)^[m * xs.length] ((step p)^[m] (c ^^^ x.setWidth w ^^^ packed w xs <<< m)) := by
          rw [iterate_step_xor m, hdown, feed]
      _ = (step p)^[m * (x :: xs).length] (c ^^^ packed w (x :: xs)) := by
          rw [List.length_cons, Nat.mul_succ, Function.iterate_add_apply, packed, BitVec.xor_assoc]

theorem foldl_feed_injective (hp : p.getLsbD (w - 1) = true) (xs : List (BitVec m)) :
    Function.Injective fun c : BitVec w => xs.foldl (feed p) c := by
  induction xs with
  | nil => exact Function.injective_id
  | cons x xs ih =>
    intro c d h
    have hfeed : feed p c x = feed p d x := ih h
    exact (BitVec.xor_left_inj (x.setWidth w)).mp ((step_injective hp).iterate m hfeed)

/-- A change of one stretch that fits in the register changes the register. -/
theorem foldl_feed_ne (hp : p.getLsbD (w - 1) = true) {xs ys : List (BitVec m)} (hlen : xs.length = ys.length)
    (hfit : m * xs.length ≤ w) (hne : xs ≠ ys) (front back : List (BitVec m)) (c : BitVec w) :
    (front ++ xs ++ back).foldl (feed p) c ≠ (front ++ ys ++ back).foldl (feed p) c := by
  intro h
  simp only [List.foldl_append] at h
  have hmid := foldl_feed_injective hp back h
  rw [foldl_feed xs hfit, foldl_feed ys (hlen ▸ hfit), ← hlen] at hmid
  have hpacked := (step_injective hp).iterate _ hmid
  exact hne (packed_injective hlen hfit ((BitVec.xor_right_inj _).mp hpacked))

end Foundation.ShiftRegister
