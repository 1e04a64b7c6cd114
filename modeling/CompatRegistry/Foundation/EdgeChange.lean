import Mathlib.Logic.Relation

/-! What adding or replacing the edges of one node does to the cycles of a relation. A
walk to the node can be cut where it first arrives, so the edges that leave the node do
not matter for what reaches it. -/

namespace Foundation.EdgeChange

open Relation

variable {α : Type*} {E E' : α → α → Prop} {t : α} {D : Set α}

/-- What reaches a node does not depend on the edges that leave it. -/
theorem reaches_of_agree (h : ∀ x, x ≠ t → ∀ y, E x y → E' x y) {d : α} (hd : ReflTransGen E d t) :
    ReflTransGen E' d t := by
  induction hd using ReflTransGen.head_induction_on with
  | refl => exact .refl
  | @head x y hxy _ ih =>
    by_cases hx : x = t
    · rw [hx]
    · exact .head (h x hx y hxy) ih

/-- A walk over old and added edges is one over old edges, or it comes to the node and
leaves it by an added edge for the last time. -/
theorem walk_of_added (h : ∀ x y, E' x y → E x y ∨ x = t ∧ y ∈ D) {x y : α} (hxy : TransGen E' x y) :
    TransGen E x y ∨ ReflTransGen E x t ∧ ∃ d ∈ D, ReflTransGen E d y := by
  induction hxy with
  | single hstep =>
    rcases h _ _ hstep with hold | ⟨rfl, hadded⟩
    · exact .inl (.single hold)
    · exact .inr ⟨.refl, _, hadded, .refl⟩
  | tail _ hstep ih =>
    rcases h _ _ hstep with hold | ⟨rfl, hadded⟩
    · rcases ih with hwalk | ⟨hcomes, d, hd, hleaves⟩
      · exact .inl (hwalk.tail hold)
      · exact .inr ⟨hcomes, d, hd, hleaves.tail hold⟩
    · rcases ih with hwalk | ⟨hcomes, -⟩
      · exact .inr ⟨hwalk.to_reflTransGen, _, hadded, .refl⟩
      · exact .inr ⟨hcomes, _, hadded, .refl⟩

/-- Added edges close a cycle exactly when one of their ends reaches the node. -/
theorem cycle_iff_of_added (h : ∀ x y, E' x y ↔ E x y ∨ x = t ∧ y ∈ D) :
    (∃ x, TransGen E' x x) ↔ (∃ x, TransGen E x x) ∨ ∃ d ∈ D, ReflTransGen E d t := by
  constructor
  · rintro ⟨x, hx⟩
    rcases walk_of_added (fun x y => (h x y).mp) hx with hold | ⟨hcomes, d, hd, hleaves⟩
    · exact .inl ⟨x, hold⟩
    · exact .inr ⟨d, hd, hleaves.trans hcomes⟩
  · have hold : E ≤ E' := fun x y hxy => (h x y).mpr (.inl hxy)
    rintro (⟨x, hx⟩ | ⟨d, hd, hreaches⟩)
    · exact ⟨x, TransGen.mono hold x x hx⟩
    · have hclose : E' t d := (h t d).mpr (.inr ⟨rfl, hd⟩)
      exact ⟨t, .head' hclose (ReflTransGen.mono hold d t hreaches)⟩

/-- New edges in the place of the old ones close a cycle exactly when one of their ends
reaches the node. -/
theorem cycle_iff_of_replaced (hacyclic : ¬ ∃ x, TransGen E x x)
    (hoff : ∀ x y, x ≠ t → (E' x y ↔ E x y)) (hat : ∀ y, E' t y ↔ y ∈ D) :
    (∃ x, TransGen E' x x) ↔ ∃ d ∈ D, ReflTransGen E d t := by
  let kept : α → α → Prop := fun x y => E x y ∧ x ≠ t
  have hadded : ∀ x y, E' x y ↔ kept x y ∨ x = t ∧ y ∈ D := by
    intro x y
    by_cases hx : x = t
    · subst hx
      simp [kept, hat]
    · simp [kept, hx, hoff x y hx]
  have hold : kept ≤ E := fun x y hxy => hxy.1
  have hkept : ¬ ∃ x, TransGen kept x x := fun ⟨x, hx⟩ => hacyclic ⟨x, TransGen.mono hold x x hx⟩
  rw [cycle_iff_of_added hadded, or_iff_right hkept]
  refine exists_congr fun d => and_congr_right fun _ => ⟨fun hd => ReflTransGen.mono hold d t hd, ?_⟩
  exact reaches_of_agree fun x hx y hxy => ⟨hxy, hx⟩

end Foundation.EdgeChange
