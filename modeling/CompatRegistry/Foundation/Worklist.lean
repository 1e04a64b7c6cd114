import Mathlib.Data.List.Dedup
import Mathlib.Logic.Relation
import Mathlib.Tactic

/-! A traversal of a graph by a worklist. A step takes the first node of the list and
adds those of its successors that were not added before; nothing says where in the
list they go. The start need not count as added. Then a traversal from one node visits
what can be reached from it, and visits nothing twice if no cycle leads back to the start. -/

namespace Foundation.Worklist

variable {α : Type} {adj : α → List α}

/-- The nodes of `ns` that were not added before are in the list afterwards, once each. -/
structure Pushes (ns work seen work' seen' fresh : List α) : Prop where
  nodup : fresh.Nodup
  unseen : ∀ x ∈ fresh, x ∈ ns ∧ x ∉ seen
  all : ∀ x ∈ ns, x ∈ seen ++ fresh
  work : work'.Perm (fresh ++ work)
  seen : seen' = seen ++ fresh

/-- A traversal from a worklist, and the order in which it visits the nodes. -/
inductive Visits (adj : α → List α) : List α → List α → List α → Prop
  | done (seen : List α) : Visits adj [] seen []
  | step {cur : α} {work seen work' seen' fresh order : List α}
      (pushes : Pushes (adj cur) work seen work' seen' fresh) (rest : Visits adj work' seen' order) :
      Visits adj (cur :: work) seen (cur :: order)

/-- What a traversal adds to its worklist: `new` is what it visits besides the worklist it
started with, every successor of a visited node was added, and what was added was reached. -/
structure Adds (adj : α → List α) (work seen order new : List α) : Prop where
  perm : order.Perm (work ++ new)
  nodup : (seen ++ new).Nodup
  closed : ∀ x ∈ order, ∀ y ∈ adj x, y ∈ seen ++ new
  reached : ∀ y ∈ new, ∃ x ∈ work, Relation.TransGen (fun a b => b ∈ adj a) x y

theorem Visits.adds {work seen order : List α} (h : Visits adj work seen order) (hseen : seen.Nodup) :
    ∃ new, Adds adj work seen order new := by
  induction h with
  | done seen => exact ⟨[], .nil, by simpa using hseen, by simp, by simp⟩
  | @step cur work seen work' seen' fresh order pushes _ ih =>
    obtain rfl := pushes.seen
    have hfresh : (seen ++ fresh).Nodup := by
      apply List.Nodup.append hseen pushes.nodup
      exact fun x hx hf => (pushes.unseen x hf).2 hx
    obtain ⟨new, hnew⟩ := ih hfresh
    refine ⟨fresh ++ new, ?_, ?_, ?_, ?_⟩
    · have hmove : (work' ++ new).Perm (work ++ (fresh ++ new)) := by
        rw [← List.append_assoc]
        exact (pushes.work.trans List.perm_append_comm).append_right new
      exact (hnew.perm.trans hmove).cons cur
    · rw [← List.append_assoc]
      exact hnew.nodup
    · intro x hx y hy
      rw [← List.append_assoc]
      rcases List.mem_cons.mp hx with rfl | hx
      · exact List.mem_append_left _ (pushes.all y hy)
      · exact hnew.closed x hx y hy
    · intro y hy
      rcases List.mem_append.mp hy with hy | hy
      · exact ⟨cur, List.mem_cons_self, .single (pushes.unseen y hy).1⟩
      · obtain ⟨x, hx, hxy⟩ := hnew.reached y hy
        rcases List.mem_append.mp (pushes.work.mem_iff.mp hx) with hx | hx
        · exact ⟨cur, List.mem_cons_self, .head (pushes.unseen x hx).1 hxy⟩
        · exact ⟨x, List.mem_cons_of_mem cur hx, hxy⟩

section Root
variable {root : α} {order : List α}

theorem Visits.mem_iff (h : Visits adj [root] [] order) {x : α} :
    x ∈ order ↔ Relation.ReflTransGen (fun a b => b ∈ adj a) root x := by
  obtain ⟨new, hnew⟩ := h.adds List.nodup_nil
  have hmem : ∀ {x}, x ∈ order ↔ x = root ∨ x ∈ new := by
    intro x
    rw [hnew.perm.mem_iff, List.singleton_append, List.mem_cons]
  constructor
  · intro hx
    rcases hmem.mp hx with rfl | hx
    · exact .refl
    · obtain ⟨r, hr, hreach⟩ := hnew.reached x hx
      obtain rfl := List.mem_singleton.mp hr
      exact hreach.to_reflTransGen
  · intro hreach
    induction hreach with
    | refl => exact hmem.mpr (.inl rfl)
    | tail _ hyz ih => exact hmem.mpr (.inr (hnew.closed _ ih _ hyz))

/-- The start is the only node that could be visited again. -/
theorem Visits.nodup (h : Visits adj [root] [] order)
    (hroot : ¬ Relation.TransGen (fun a b => b ∈ adj a) root root) : order.Nodup := by
  obtain ⟨new, hnew⟩ := h.adds List.nodup_nil
  rw [hnew.perm.nodup_iff, List.singleton_append, List.nodup_cons]
  refine ⟨fun hmem => ?_, hnew.nodup⟩
  obtain ⟨r, hr, hreach⟩ := hnew.reached root hmem
  obtain rfl := List.mem_singleton.mp hr
  exact hroot hreach

end Root

end Foundation.Worklist
