import Mathlib.Logic.Basic
import Mathlib.Data.List.Basic

/-! Runs of a machine that takes one input after the other. A condition holds along a run when
every input meets it in the state in which it comes. What one step keeps under the condition
is kept by the run, and inputs whose steps do not show can be left out of it. -/

namespace Foundation

variable {σ α : Type*} {step : σ → α → σ} {P : α → σ → Prop}

/-- Every input meets the condition in the state in which it comes. -/
def Along (step : σ → α → σ) (P : α → σ → Prop) : List α → σ → Prop
  | [], _ => True
  | a :: as, s => P a s ∧ Along step P as (step s a)

namespace Along

theorem of_concat {as : List α} {a : α} {s : σ} (h : Along step P (as ++ [a]) s) :
    Along step P as s ∧ P a (as.foldl step s) := by
  induction as generalizing s with
  | nil => exact ⟨trivial, h.1⟩
  | cons b as ih =>
    obtain ⟨hhead, htail⟩ := h
    obtain ⟨hfront, hlast⟩ := ih htail
    exact ⟨⟨hhead, hfront⟩, hlast⟩

/-- A preorder that contains every step of a state with the invariant contains the run. -/
theorem related {I : σ → Prop} {R : σ → σ → Prop} (refl : ∀ s, R s s) (trans : ∀ s t u, R s t → R t u → R s u)
    (hstep : ∀ a s, I s → P a s → I (step s a) ∧ R s (step s a)) {as : List α} {s : σ} (hs : I s)
    (h : Along step P as s) : I (as.foldl step s) ∧ R s (as.foldl step s) := by
  induction as generalizing s with
  | nil => exact ⟨hs, refl s⟩
  | cons a as ih =>
    obtain ⟨hhead, htail⟩ := h
    obtain ⟨hinv, hrel⟩ := hstep a s hs hhead
    obtain ⟨hend, hrun⟩ := ih hinv htail
    exact ⟨hend, trans s _ _ hrel hrun⟩

/-- Unwinding: where a relation outlives the steps of two runs on the inputs that are kept, and
those of the first run alone on the others, it relates a run to the one that leaves these out. -/
theorem unwind {keep : α → Bool} {R : σ → σ → Prop}
    (kept : ∀ a s t, R s t → P a s → keep a = true → R (step s a) (step t a))
    (left_out : ∀ a s t, R s t → P a s → keep a = false → R (step s a) t) {as : List α} {s t : σ}
    (hst : R s t) (h : Along step P as s) : R (as.foldl step s) ((as.filter keep).foldl step t) := by
  induction as generalizing s t with
  | nil => exact hst
  | cons a as ih =>
    obtain ⟨hhead, htail⟩ := h
    cases hkeep : keep a with
    | true =>
      rw [List.filter_cons_of_pos hkeep]
      exact ih (kept a s t hst hhead hkeep) htail
    | false =>
      rw [List.filter_cons_of_neg (by rw [hkeep]; exact Bool.false_ne_true)]
      exact ih (left_out a s t hst hhead hkeep) htail

end Along

end Foundation
