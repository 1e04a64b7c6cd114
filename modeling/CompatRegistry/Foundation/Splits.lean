import Mathlib.Tactic

/-! Places in a list, as its splits in front of an element and behind it, and what is in front of
an element of a list that is sorted by a relation. -/

namespace Foundation.Splits

variable {α : Type}

/-- Two places in a list are one, or one of them is in front of the other. -/
theorem compare {p q p' q' : List α} {x y : α} (h : p ++ x :: q = p' ++ y :: q') :
    (p = p' ∧ x = y) ∨ x ∈ p' ∨ y ∈ p := by
  induction p generalizing p' with
  | nil =>
    cases p' with
    | nil => exact .inl ⟨rfl, (List.cons.inj h).1⟩
    | cons z p' => exact .inr (.inl ((List.cons.inj h).1 ▸ List.mem_cons_self))
  | cons z p ih =>
    cases p' with
    | nil => exact .inr (.inr ((List.cons.inj h).1 ▸ List.mem_cons_self))
    | cons z' p' =>
      obtain ⟨rfl, htail⟩ := List.cons.inj h
      obtain ⟨rfl, heq⟩ | hmem | hmem := ih htail
      · exact .inl ⟨rfl, heq⟩
      · exact .inr (.inl (List.mem_cons_of_mem z hmem))
      · exact .inr (.inr (List.mem_cons_of_mem z hmem))

/-- There is one place at most of a first element without a property. -/
theorem first_unique {P : α → Prop} {x y : α} {p q p' q' : List α} (h : p ++ x :: q = p' ++ y :: q')
    (hp : ∀ z ∈ p, P z) (hp' : ∀ z ∈ p', P z) (hx : ¬ P x) (hy : ¬ P y) : x = y := by
  obtain ⟨-, heq⟩ | hmem | hmem := compare h
  · exact heq
  · exact absurd (hp' x hmem) hx
  · exact absurd (hp y hmem) hy

section Sorted
variable {before : α → α → Prop} [DecidableRel before]

/-- What does not come after an element of a sorted list is what is in front of it, and itself. -/
theorem filter_not_after (hasymm : ∀ a b, before a b → ¬ before b a) {front rest : List α} {a : α}
    (h : (front ++ a :: rest).Pairwise before) :
    (front ++ a :: rest).filter (fun b => ¬ before a b) = front ++ [a] := by
  obtain ⟨-, htail, hacross⟩ := List.pairwise_append.mp h
  have hfront : front.filter (fun b => ¬ before a b) = front := by
    refine List.filter_eq_self.mpr fun b hb => ?_
    exact decide_eq_true (hasymm b a (hacross b hb a List.mem_cons_self))
  have hrest : rest.filter (fun b => ¬ before a b) = [] := by
    refine List.filter_eq_nil_iff.mpr fun b hb => ?_
    simpa using (List.pairwise_cons.mp htail).1 b hb
  have hself : ¬ before a a := fun h => hasymm a a h h
  rw [List.filter_append, List.filter_cons_of_pos (by simpa using hself), hfront, hrest]

/-- So a sorted list is known up to an element from what does not come after the element. -/
theorem exists_split_of_filter (hasymm : ∀ a b, before a b → ¬ before b a) {l front : List α} {a : α}
    (hl : l.Pairwise before) (ha : l.filter (fun b => ¬ before a b) = front ++ [a]) :
    ∃ rest, l = front ++ a :: rest := by
  have hmem : a ∈ l.filter (fun b => ¬ before a b) := by
    rw [ha]
    exact List.mem_append_right front List.mem_cons_self
  obtain ⟨front', rest, rfl⟩ := List.append_of_mem (List.mem_filter.mp hmem).1
  rw [filter_not_after hasymm hl] at ha
  exact ⟨rest, by rw [List.append_cancel_right ha]⟩

end Sorted

end Foundation.Splits
