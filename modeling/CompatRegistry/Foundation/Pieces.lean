import Mathlib.Tactic

/-! A connection that hands on symbols in pieces. One read returns no more than was
asked for and never reaches over the end of a piece, one write takes as many symbols
as the other side accepts, and loops repeat them until everything is read or written.
What the loops return depends on the pieces only through the symbols in them. -/

namespace Foundation.Pieces

variable {α : Type}

/-! ### Reading -/

/-- One read of at most `n` symbols. What comes back empty says that nothing comes any more. -/
def recv (n : ℕ) : List (List α) → List α × List (List α)
  | [] => ([], [])
  | p :: ps => (p.take n, if p.length ≤ n then ps else p.drop n :: ps)

/-- What arrives until a read comes back empty. -/
def arriving : List (List α) → List α
  | [] => []
  | p :: ps => if p = [] then [] else p ++ arriving ps

/-- Read until there are `n` symbols; a call asks for `ask m` of the `m` that are missing. -/
def recvExact (ask : ℕ → ℕ) (n : ℕ) (ps : List (List α)) : Option (List α) × List (List α) :=
  if n = 0 then (some [], ps)
  else
    let (got, ps) := recv (ask n) ps
    if got = [] then (none, ps)
    else
      let (rest, ps) := recvExact ask (n - got.length) ps
      (rest.map (got ++ ·), ps)
termination_by n
decreasing_by
  have := List.length_pos_iff.mpr ‹¬ got = []›
  omega

@[simp] theorem arriving_singleton (p : List α) : arriving [p] = p := by
  unfold arriving
  split_ifs with hp
  · exact hp.symm
  · rw [arriving, List.append_nil]

/-- A read that asks for something takes it from the front of what arrives. -/
theorem recv_split {n : ℕ} (hn : 0 < n) {ps : List (List α)} (h : arriving ps ≠ []) :
    (recv n ps).1 ≠ [] ∧ (recv n ps).1.length ≤ n ∧
      arriving ps = (recv n ps).1 ++ arriving (recv n ps).2 := by
  cases ps with
  | nil => exact absurd rfl h
  | cons p ps =>
    have hp : p ≠ [] := by
      rintro rfl
      exact h rfl
    have htake : p.take n ≠ [] := by
      rw [Ne, List.take_eq_nil_iff]
      rintro (hzero | hnil)
      · omega
      · exact hp hnil
    refine ⟨htake, List.length_take_le n p, ?_⟩
    simp only [recv, arriving, if_neg hp]
    split_ifs with hle
    · rw [List.take_of_length_le hle]
    · have hdrop : p.drop n ≠ [] := by
        rw [Ne, List.drop_eq_nil_iff]
        exact hle
      rw [arriving, if_neg hdrop, ← List.append_assoc, List.take_append_drop]

theorem recv_closed {n : ℕ} {ps : List (List α)} (h : arriving ps = []) : (recv n ps).1 = [] := by
  cases ps with
  | nil => rfl
  | cons p ps =>
    simp only [arriving] at h
    split_ifs at h with hp
    · simp [recv, hp]
    · exact absurd (List.append_eq_nil_iff.mp h).1 hp

section Exact
variable {ask : ℕ → ℕ}

/-- Enough symbols are read from the front and no others are touched, however they are cut. -/
theorem recvExact_of_le {n : ℕ} {ps : List (List α)} (hask : ∀ m ≤ n, ask m = m) (h : n ≤ (arriving ps).length) :
    (recvExact ask n ps).1 = some ((arriving ps).take n) ∧
      arriving (recvExact ask n ps).2 = (arriving ps).drop n := by
  induction n using Nat.strong_induction_on generalizing ps with
  | _ n ih =>
    rw [recvExact]
    by_cases hn : n = 0
    · simp [hn]
    have hne : arriving ps ≠ [] := fun hnil => hn (by rw [hnil] at h; exact Nat.le_zero.mp h)
    obtain ⟨hgot, hle, hsplit⟩ := recv_split (Nat.pos_of_ne_zero hn) hne
    rw [if_neg hn, hask n le_rfl]
    generalize recv n ps = read at hgot hle hsplit
    obtain ⟨got, ps'⟩ := read
    simp only at hgot hle hsplit ⊢
    have hpos := List.length_pos_iff.mpr hgot
    rw [hsplit, List.length_append] at h
    obtain ⟨hread, hrest⟩ := @ih (n - got.length) (by omega) ps' (fun m hm => hask m (by omega)) (by omega)
    rw [if_neg hgot, hread, hsplit]
    refine ⟨?_, hrest.trans ?_⟩
    · rw [Option.map_some, List.take_append, List.take_of_length_le hle]
    · rw [List.drop_append, List.drop_of_length_le hle, List.nil_append]

/-- Fewer symbols than are asked for are not handed on. -/
theorem recvExact_of_lt {n : ℕ} {ps : List (List α)} (hask : ∀ m ≤ n, ask m = m) (h : (arriving ps).length < n) :
    (recvExact ask n ps).1 = none := by
  induction n using Nat.strong_induction_on generalizing ps with
  | _ n ih =>
    rw [recvExact, if_neg (by omega), hask n le_rfl]
    by_cases hne : arriving ps = []
    · simp only [recv_closed hne, if_true]
    obtain ⟨hgot, hle, hsplit⟩ := recv_split (Nat.zero_lt_of_lt h) hne
    generalize recv n ps = read at hgot hle hsplit
    obtain ⟨got, ps'⟩ := read
    simp only at hgot hle hsplit ⊢
    have hpos := List.length_pos_iff.mpr hgot
    rw [hsplit, List.length_append] at h
    rw [if_neg hgot, @ih (n - got.length) (by omega) ps' (fun m hm => hask m (by omega)) (by omega)]
    rfl

end Exact

/-! ### Writing -/

/-- One write of `n` symbols to a side that accepts at most `room 0` of them. -/
def send (n : ℕ) (room : ℕ → ℕ) : ℕ := min (room 0) n

/-- What the side accepts of the writes after the next one. -/
def later (room : ℕ → ℕ) : ℕ → ℕ := fun i => room (i + 1)

/-- Write until nothing is left; a call offers `ask m` of the `m` symbols that are left. The
flag comes with what was written. -/
def sendAll (ask : ℕ → ℕ) (xs : List α) (room : ℕ → ℕ) : Bool × List α × (ℕ → ℕ) :=
  if xs = [] then (true, [], room)
  else
    let sent := send (ask xs.length) room
    if sent = 0 then (false, [], later room)
    else
      let rest := sendAll ask (xs.drop sent) (later room)
      (rest.1, xs.take sent ++ rest.2.1, rest.2.2)
termination_by xs.length
decreasing_by
  have := List.length_pos_iff.mpr ‹¬ xs = []›
  rw [List.length_drop]
  omega

/-- Only the front of what was to be written is written, and all of it exactly on success. -/
theorem sendAll_prefix (ask : ℕ → ℕ) (xs : List α) (room : ℕ → ℕ) :
    (sendAll ask xs room).2.1 <+: xs ∧ ((sendAll ask xs room).1 = true ↔ (sendAll ask xs room).2.1 = xs) := by
  induction xs, room using sendAll.induct ask with
  | case1 room =>
    rw [sendAll, if_pos rfl]
    exact ⟨List.nil_prefix, fun _ => rfl, fun _ => rfl⟩
  | case2 xs room hxs sent hzero =>
    rw [sendAll, if_neg hxs, if_pos hzero]
    exact ⟨List.nil_prefix, fun h => Bool.noConfusion h, fun h => absurd h.symm hxs⟩
  | case3 xs room hxs sent hzero ih =>
    rw [sendAll, if_neg hxs, if_neg hzero]
    constructor
    · conv_rhs => rw [← List.take_append_drop sent xs]
      exact (List.prefix_append_right_inj _).mpr ih.1
    · show (sendAll ask (xs.drop sent) (later room)).1 = true ↔
        xs.take sent ++ (sendAll ask (xs.drop sent) (later room)).2.1 = xs
      rw [ih.2]
      constructor
      · intro hrest
        rw [hrest, List.take_append_drop]
      · intro hall
        exact List.append_cancel_left (hall.trans (List.take_append_drop sent xs).symm)

/-- Everything is written to a side that always accepts something, and it goes on accepting. -/
theorem sendAll_of_pos {ask : ℕ → ℕ} {xs : List α} {room : ℕ → ℕ} (hask : ∀ m ≤ xs.length, ask m = m)
    (hroom : ∀ i, 0 < room i) :
    (sendAll ask xs room).1 = true ∧ ∀ i, 0 < (sendAll ask xs room).2.2 i := by
  induction xs, room using sendAll.induct ask with
  | case1 room =>
    rw [sendAll, if_pos rfl]
    exact ⟨rfl, hroom⟩
  | case2 xs room hxs sent hzero =>
    have hpos := List.length_pos_iff.mpr hxs
    have hfirst := hroom 0
    simp only [sent, send, hask _ le_rfl] at hzero
    omega
  | case3 xs room hxs sent hzero ih =>
    rw [sendAll, if_neg hxs, if_neg hzero]
    refine ih (fun m hm => hask m ?_) fun i => hroom (i + 1)
    rw [List.length_drop] at hm
    omega

end Foundation.Pieces
