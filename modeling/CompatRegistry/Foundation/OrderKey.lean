import Mathlib.Tactic
import Mathlib.Order.PiLex
import Mathlib.Data.Prod.Lex

/-! Comparison by a key. A monotone key answers for the values themselves unless it
confuses two of them, and the first two components are such a key of a sequence in
lexicographic order. -/

namespace Foundation.OrderKey

section Agrees
variable {α β : Type*} [LinearOrder α] [LinearOrder β] {x y : α} {a b : β}

/-- The keys `a` and `b` compare as the values `x` and `y`, under each of the four relations. -/
structure Agrees (a b : β) (x y : α) : Prop where
  lt : a < b ↔ x < y
  le : a ≤ b ↔ x ≤ y
  gt : b < a ↔ y < x
  ge : b ≤ a ↔ y ≤ x

theorem Agrees.of_lt (hab : a < b) (hxy : x < y) : Agrees a b x y where
  lt := iff_of_true hab hxy
  le := iff_of_true hab.le hxy.le
  gt := iff_of_false hab.not_gt hxy.not_gt
  ge := iff_of_false hab.not_ge hxy.not_ge

theorem Agrees.symm (h : Agrees a b x y) : Agrees b a y x := ⟨h.gt, h.ge, h.lt, h.le⟩

/-- The keys of a monotone function agree unless they are equal and the values are not. -/
theorem agrees_iff {key : α → β} (hkey : Monotone key) :
    Agrees (key x) (key y) x y ↔ key x ≠ key y ∨ x = y := by
  constructor
  · intro h
    by_cases heq : key x = key y
    · exact .inr (le_antisymm (h.le.mp heq.le) (h.ge.mp heq.ge))
    · exact .inl heq
  · rintro (hne | rfl)
    · rcases lt_or_gt_of_ne hne with hlt | hlt
      · exact .of_lt hlt (hkey.reflect_lt hlt)
      · exact (Agrees.of_lt hlt (hkey.reflect_lt hlt)).symm
    · exact ⟨by simp, by simp, by simp, by simp⟩

end Agrees

section FirstTwo
variable {α : Type*} [LinearOrder α]

/-- The first two components of a sequence. -/
def firstTwo (x : Lex (ℕ → α)) : α ×ₗ α := toLex (x 0, x 1)

theorem firstTwo_monotone : Monotone (firstTwo (α := α)) := by
  intro x y h
  rcases h.eq_or_lt with rfl | ⟨i, heq, hlt⟩
  · exact le_rfl
  · rw [Prod.Lex.le_iff]
    -- the first difference is at the first component, at the second or behind both
    match i with
    | 0 => exact .inl hlt
    | 1 => exact .inr ⟨heq 0 (by decide), hlt.le⟩
    | i + 2 => exact .inr ⟨heq 0 (by omega), (heq 1 (by omega)).le⟩

end FirstTwo

end Foundation.OrderKey
