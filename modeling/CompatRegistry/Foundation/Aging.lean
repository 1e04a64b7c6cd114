import Mathlib.Tactic

/-! Lists that only grow at the end, while the entries they have may age. -/

namespace Foundation

variable {α : Type*} {R : α → α → Prop}

/-- Every entry is still at its index, as it was or aged. -/
def Grows (R : α → α → Prop) (old new : List α) : Prop :=
  ∀ (i : ℕ) (x : α), old[i]? = some x → ∃ y, new[i]? = some y ∧ R x y

namespace Grows

theorem refl (hR : ∀ x, R x x) (l : List α) : Grows R l l := fun _ x h => ⟨x, h, hR x⟩

theorem eq_nil {l : List α} (h : Grows R l []) : l = [] := by
  cases l with
  | nil => rfl
  | cons x l =>
    obtain ⟨y, hy, -⟩ := h 0 x rfl
    cases hy

theorem trans (hR : ∀ x y z, R x y → R y z → R x z) {l₁ l₂ l₃ : List α} (h₁ : Grows R l₁ l₂)
    (h₂ : Grows R l₂ l₃) : Grows R l₁ l₃ := by
  intro i x hx
  obtain ⟨y, hy, hxy⟩ := h₁ i x hx
  obtain ⟨z, hz, hyz⟩ := h₂ i y hy
  exact ⟨z, hz, hR x y z hxy hyz⟩

theorem map {f : α → α} (hf : ∀ x, R x (f x)) (l : List α) : Grows R l (l.map f) := by
  intro i x hx
  exact ⟨f x, by rw [List.getElem?_map, hx, Option.map_some], hf x⟩

theorem append {l l' : List α} (h : Grows R l l') (tail : List α) : Grows R l (l' ++ tail) := by
  intro i x hx
  obtain ⟨y, hy, hxy⟩ := h i x hx
  have hlt := (List.getElem?_eq_some_iff.mp hy).1
  exact ⟨y, by rw [List.getElem?_append_left hlt, hy], hxy⟩

end Grows

end Foundation
