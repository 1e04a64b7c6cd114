import Mathlib.Tactic
import Mathlib.Data.List.Sort
import Mathlib.Data.List.TakeWhile

/-! Association lists kept sorted by key, searched with `lower_bound`. The
lower bound of a key is the first entry whose key is not below it, so it may
well be the entry of a later key: an exact search has to compare keys. -/

namespace Foundation.SortedMap

variable {κ ν : Type*} [LinearOrder κ]

/-- The keys are strictly increasing. -/
def Sorted (r : List (κ × ν)) : Prop := (r.map Prod.fst).Pairwise (· < ·)

/-- The entries before the lower bound of `t`. -/
def below (t : κ) (r : List (κ × ν)) : List (κ × ν) := r.takeWhile fun e => e.1 < t

/-- `std::lower_bound` as the suffix that starts at the returned iterator. -/
def lowerBound (t : κ) (r : List (κ × ν)) : List (κ × ν) := r.dropWhile fun e => e.1 < t

/-- Exact search: the lower bound, when its key is the one asked for. -/
def find (t : κ) (r : List (κ × ν)) : Option ν :=
  match lowerBound t r with
  | [] => none
  | (k, v) :: _ => if k = t then some v else none

/-- Overwrite the entry of `t`, or insert it at its lower bound. -/
def put (t : κ) (v : ν) (r : List (κ × ν)) : List (κ × ν) :=
  match lowerBound t r with
  | [] => below t r ++ [(t, v)]
  | (k, w) :: rest => below t r ++ (if k = t then (t, v) :: rest else (t, v) :: (k, w) :: rest)

/-- Erase the entry at the lower bound of `t`, whatever its key. -/
def eraseLowerBound (t : κ) (r : List (κ × ν)) : List (κ × ν) := below t r ++ (lowerBound t r).tail

theorem below_append_lowerBound (t : κ) (r : List (κ × ν)) : below t r ++ lowerBound t r = r :=
  List.takeWhile_append_dropWhile

theorem sorted_cons {e : κ × ν} {r : List (κ × ν)} :
    Sorted (e :: r) ↔ (∀ x ∈ r, e.1 < x.1) ∧ Sorted r := by
  simp [Sorted, List.pairwise_cons]

theorem sorted_append {a b : List (κ × ν)} :
    Sorted (a ++ b) ↔ Sorted a ∧ Sorted b ∧ ∀ x ∈ a, ∀ y ∈ b, x.1 < y.1 := by
  simp only [Sorted, List.map_append, List.pairwise_append, List.mem_map]
  constructor
  · rintro ⟨ha, hb, hab⟩
    exact ⟨ha, hb, fun x hx y hy => hab _ ⟨x, hx, rfl⟩ _ ⟨y, hy, rfl⟩⟩
  · rintro ⟨ha, hb, hab⟩
    refine ⟨ha, hb, ?_⟩
    rintro _ ⟨x, hx, rfl⟩ _ ⟨y, hy, rfl⟩
    exact hab x hx y hy

theorem mem_below {t : κ} {r : List (κ × ν)} {e : κ × ν} (h : e ∈ below t r) : e.1 < t := by
  simpa using List.mem_takeWhile_imp h

/-- Everything from the lower bound on has a key at least `t`. -/
theorem le_of_mem_lowerBound {t : κ} {r : List (κ × ν)} (hs : Sorted r) {e : κ × ν}
    (h : e ∈ lowerBound t r) : t ≤ e.1 := by
  induction r with
  | nil => simp [lowerBound] at h
  | cons x r ih =>
    obtain ⟨hx, hr⟩ := sorted_cons.mp hs
    by_cases hlt : x.1 < t
    · rw [lowerBound, List.dropWhile_cons_of_pos (by simpa using hlt)] at h
      exact ih hr h
    · rw [lowerBound, List.dropWhile_cons_of_neg (by simpa using hlt)] at h
      rcases List.mem_cons.mp h with rfl | h
      · exact not_lt.mp hlt
      · exact (not_lt.mp hlt).trans (hx e h).le

theorem sorted_lowerBound {t : κ} {r : List (κ × ν)} (hs : Sorted r) : Sorted (lowerBound t r) := by
  rw [← below_append_lowerBound t r, sorted_append] at hs
  exact hs.2.1

theorem sorted_below {t : κ} {r : List (κ × ν)} (hs : Sorted r) : Sorted (below t r) := by
  rw [← below_append_lowerBound t r, sorted_append] at hs
  exact hs.1

/-- Exact search returns exactly the stored entries. -/
theorem find_eq_some_iff {t : κ} {v : ν} {r : List (κ × ν)} (hs : Sorted r) :
    find t r = some v ↔ (t, v) ∈ r := by
  have hmem : (t, v) ∈ r ↔ (t, v) ∈ lowerBound t r := by
    conv_lhs => rw [← below_append_lowerBound t r, List.mem_append]
    exact ⟨fun h => h.resolve_left fun hb => lt_irrefl t (mem_below hb), Or.inr⟩
  rw [hmem, find]
  have hsorted := sorted_lowerBound (t := t) hs
  have hle := fun e => le_of_mem_lowerBound (t := t) (e := e) hs
  cases hlb : lowerBound t r with
  | nil => simp
  | cons x rest =>
    rw [hlb] at hsorted hle
    obtain ⟨hx, -⟩ := sorted_cons.mp hsorted
    by_cases hk : x.1 = t
    · subst hk
      constructor
      · intro h
        have : x.2 = v := by simpa using h
        exact this ▸ List.mem_cons_self
      · intro h
        rcases List.mem_cons.mp h with h | h
        · simpa using (congrArg Prod.snd h).symm
        · exact absurd (hx _ h) (lt_irrefl _)
    · constructor
      · intro h; simp [hk] at h
      · intro h
        rcases List.mem_cons.mp h with h | h
        · exact absurd (congrArg Prod.fst h).symm hk
        · exact absurd ((hle x List.mem_cons_self).trans_lt (hx _ h)) (lt_irrefl _)

theorem mem_put {t : κ} {v : ν} {r : List (κ × ν)} (hs : Sorted r) (e : κ × ν) :
    e ∈ put t v r ↔ e = (t, v) ∨ e ∈ r ∧ e.1 ≠ t := by
  have hb : ∀ e ∈ below t r, e.1 ≠ t := fun e h => (mem_below h).ne
  have hsorted := sorted_lowerBound (t := t) hs
  have hle := fun e => le_of_mem_lowerBound (t := t) (e := e) hs
  have hr : e ∈ r ↔ e ∈ below t r ∨ e ∈ lowerBound t r := by
    conv_lhs => rw [← below_append_lowerBound t r, List.mem_append]
  rw [hr, put]
  cases hlb : lowerBound t r with
  | nil =>
    simp only [List.mem_append, List.mem_singleton, List.not_mem_nil, or_false]
    have := hb e
    grind
  | cons x rest =>
    rw [hlb] at hsorted hle
    obtain ⟨hx, -⟩ := sorted_cons.mp hsorted
    have hrest : e ∈ rest → e.1 ≠ t := fun h =>
      ((hle x List.mem_cons_self).trans_lt (hx e h)).ne'
    have hbe := hb e
    by_cases hk : x.1 = t
    · have hex : e = x → e.1 = t := fun h => h ▸ hk
      simp only [hk, if_true, List.mem_append, List.mem_cons]
      grind
    · have hex : e = x → e.1 ≠ t := fun h => h ▸ hk
      simp only [hk, if_false, List.mem_append, List.mem_cons, Prod.mk.eta]
      grind

theorem sorted_put {t : κ} {v : ν} {r : List (κ × ν)} (hs : Sorted r) : Sorted (put t v r) := by
  have hsorted := sorted_lowerBound (t := t) hs
  have hle := fun e => le_of_mem_lowerBound (t := t) (e := e) hs
  rw [put]
  cases hlb : lowerBound t r with
  | nil =>
    refine sorted_append.mpr ⟨sorted_below hs, by simp [Sorted], ?_⟩
    intro x hx y hy
    obtain rfl := List.mem_singleton.mp hy
    exact mem_below hx
  | cons x rest =>
    rw [hlb] at hsorted hle
    obtain ⟨hx, hrest⟩ := sorted_cons.mp hsorted
    have htail : Sorted (if x.1 = t then (t, v) :: rest else (t, v) :: (x.1, x.2) :: rest) := by
      split_ifs with hk
      · exact sorted_cons.mpr ⟨fun y hy => hk ▸ hx y hy, hrest⟩
      · refine sorted_cons.mpr ⟨fun y hy => ?_, hsorted⟩
        exact (lt_of_le_of_ne (hle x List.mem_cons_self) (Ne.symm hk)).trans_le
          (by rcases List.mem_cons.mp hy with rfl | hy; exacts [le_rfl, (hx y hy).le])
    refine sorted_append.mpr ⟨sorted_below hs, htail, ?_⟩
    intro y hy z hz
    have hyt := mem_below hy
    have hzt : t ≤ z.1 := by
      split_ifs at hz with hk
      · rcases List.mem_cons.mp hz with rfl | hz
        exacts [le_rfl, hk ▸ (hx z hz).le]
      · rcases List.mem_cons.mp hz with rfl | hz
        exacts [le_rfl, hle z hz]
    exact hyt.trans_le hzt

theorem sorted_eraseLowerBound {t : κ} {r : List (κ × ν)} (hs : Sorted r) :
    Sorted (eraseLowerBound t r) := by
  refine List.Pairwise.sublist (List.Sublist.map _ ?_) hs
  conv_rhs => rw [← below_append_lowerBound t r]
  exact List.Sublist.append_left (List.tail_sublist _) _

/-- Erasing at the lower bound removes the entry found there, whatever its key. -/
theorem mem_eraseLowerBound {t : κ} {r : List (κ × ν)} (hs : Sorted r) (e : κ × ν) :
    e ∈ eraseLowerBound t r ↔ e ∈ r ∧ (lowerBound t r).head? ≠ some e := by
  have hsorted := sorted_lowerBound (t := t) hs
  have hle := fun e => le_of_mem_lowerBound (t := t) (e := e) hs
  have hr : e ∈ r ↔ e ∈ below t r ∨ e ∈ lowerBound t r := by
    conv_lhs => rw [← below_append_lowerBound t r, List.mem_append]
  rw [hr, eraseLowerBound, List.mem_append]
  cases hlb : lowerBound t r with
  | nil => simp
  | cons x rest =>
    rw [hlb] at hsorted hle
    obtain ⟨hx, -⟩ := sorted_cons.mp hsorted
    have hb : e ∈ below t r → e ≠ x := fun h he =>
      absurd (mem_below h) (not_lt.mpr (he ▸ hle x List.mem_cons_self))
    have hrest : e ∈ rest → e ≠ x := fun h he => absurd (hx e h) (he ▸ lt_irrefl _)
    simp only [List.tail_cons, List.head?_cons, ne_eq, Option.some.injEq, List.mem_cons]
    have : x = e ↔ e = x := eq_comm
    grind

end Foundation.SortedMap
