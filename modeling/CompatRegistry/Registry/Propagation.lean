import CompatRegistry.Foundation.Worklist
import CompatRegistry.Registry.CycleExact

/-! The propagation of an invalidation. The worklist visits the profile and its
dependents of every degree, registered or not, and because no profile depends on
itself it visits each of them once. So every registered one among them is retired with
one invalidation, and everything else stays as it is. -/

namespace CompatRegistry

open Foundation

namespace Registry

/-! ### The traversal -/

theorem pushUnseen_pushes (ns stack seen : List Uuid) :
    ∃ fresh, Worklist.Pushes ns stack seen (pushUnseen ns stack seen).1 (pushUnseen ns stack seen).2 fresh := by
  induction ns generalizing stack seen with
  | nil => exact ⟨[], .nil, by simp, by simp, .refl _, by simp [pushUnseen]⟩
  | cons n ns ih =>
    rw [pushUnseen]
    split_ifs with hseen
    · obtain ⟨fresh, h⟩ := ih stack seen
      refine ⟨fresh, h.nodup, fun x hx => ?_, ?_, h.work, h.seen⟩
      · exact ⟨List.mem_cons_of_mem n (h.unseen x hx).1, (h.unseen x hx).2⟩
      · exact List.forall_mem_cons.mpr ⟨List.mem_append_left _ hseen, h.all⟩
    · obtain ⟨fresh, h⟩ := ih (n :: stack) (seen ++ [n])
      have happ : seen ++ n :: fresh = seen ++ [n] ++ fresh := List.append_cons seen n fresh
      refine ⟨n :: fresh, ?_, ?_, ?_, ?_, ?_⟩
      · exact List.nodup_cons.mpr ⟨fun hn => (h.unseen n hn).2 (by simp), h.nodup⟩
      · refine List.forall_mem_cons.mpr ⟨⟨List.mem_cons_self, hseen⟩, fun x hx => ?_⟩
        obtain ⟨hns, hx⟩ := h.unseen x hx
        exact ⟨List.mem_cons_of_mem n hns, fun hmem => hx (List.mem_append_left _ hmem)⟩
      · rw [happ]
        exact List.forall_mem_cons.mpr ⟨by simp, h.all⟩
      · exact h.work.trans List.perm_middle
      · rw [happ]
        exact h.seen

/-- The loop is a traversal of the reverse edges that retires what it visits. -/
theorem propagateLoop_visits (reverse : UMap Uuid (List Uuid)) (stack seen : List Uuid) (s : Registry) :
    ∃ order, Worklist.Visits (adjacent reverse) stack seen order ∧
      propagateLoop reverse stack seen s =
        order.foldl (fun s id => invalidateWith id propagateReason s) s := by
  induction stack, seen, s using propagateLoop.induct reverse with
  | case1 seen s =>
    rw [propagateLoop]
    exact ⟨[], .done seen, rfl⟩
  | case2 seen s cur stack s' next ih =>
    obtain ⟨order, hvisits, heq⟩ := ih
    obtain ⟨fresh, hpushes⟩ := pushUnseen_pushes (adjacent reverse cur) stack seen
    rw [propagateLoop]
    exact ⟨cur :: order, .step hpushes hvisits, heq⟩

/-! ### Retiring the visited profiles -/

theorem lookup_invalidateWith (id : Uuid) (reason : Bytes) (s : Registry) (p : Uuid) :
    (invalidateWith id reason s).profiles.lookup p =
      if p = id then (s.profiles.lookup p).map (History.map ProfileRecord.retire) else s.profiles.lookup p := by
  unfold invalidateWith
  cases hl : s.profiles.lookup id with
  | none =>
    split_ifs with hp
    · rw [hp, hl, Option.map_none]
    · rfl
  | some h =>
    simp only [UMap.lookup_insert_ite]
    split_ifs with hp
    · rw [hp, hl, Option.map_some]
    · rfl

theorem invalidations_invalidateWith (id : Uuid) (reason : Bytes) (s : Registry) :
    (invalidateWith id reason s).invalidations =
      s.invalidations ++ ((s.profiles.lookup id).map (invalidationOf id · reason)).toList := by
  unfold invalidateWith
  cases s.profiles.lookup id with
  | none => exact (List.append_nil _).symm
  | some h => rfl

/-- What is left behind when every profile of a list is retired. -/
structure Retires (order : List Uuid) (s t : Registry) : Prop where
  lookup : ∀ p, t.profiles.lookup p =
    if p ∈ order then (s.profiles.lookup p).map (History.map ProfileRecord.retire) else s.profiles.lookup p
  invalidations : t.invalidations =
    s.invalidations ++ order.filterMap fun p => (s.profiles.lookup p).map (invalidationOf p · propagateReason)
  rest : t = { s with profiles := t.profiles, invalidations := t.invalidations }

theorem retires_foldl {order : List Uuid} (hnodup : order.Nodup) (s : Registry) :
    Retires order s (order.foldl (fun s id => invalidateWith id propagateReason s) s) := by
  induction order generalizing s with
  | nil => exact ⟨fun p => rfl, (List.append_nil _).symm, rfl⟩
  | cons cur order ih =>
    obtain ⟨hcur, hnodup⟩ := List.nodup_cons.mp hnodup
    obtain ⟨profiles, invalidations, hrest⟩ := invalidateWith_eq cur propagateReason s
    have h := ih hnodup (invalidateWith cur propagateReason s)
    rw [List.foldl_cons]
    refine ⟨fun p => ?_, ?_, ?_⟩
    · rw [h.lookup, lookup_invalidateWith]
      by_cases hp : p = cur
      · subst hp
        simp [hcur]
      · simp [hp]
    · -- the later ones are not the first, so they are still as they were
      have hlater : ∀ p ∈ order,
          (invalidateWith cur propagateReason s).profiles.lookup p = s.profiles.lookup p := by
        intro p hp
        have hne : p ≠ cur := by
          rintro rfl
          exact hcur hp
        rw [lookup_invalidateWith, if_neg hne]
      rw [h.invalidations, invalidations_invalidateWith, List.append_assoc]
      congr 1
      rw [List.filterMap_congr fun p hp => by rw [hlater p hp], List.filterMap_cons]
      cases s.profiles.lookup cur <;> rfl
    · rw [h.rest, hrest]

/-! ### What a propagation does -/

/-- The profile and its dependents of every degree. -/
def Affected (s : Registry) (id p : Uuid) : Prop :=
  Relation.ReflTransGen (fun a b => b ∈ s.dependentsOf a) id p

theorem affected_eq (s : Registry) (id p : Uuid) :
    s.Affected id p ↔ Relation.ReflTransGen (fun a b => b ∈ adjacent s.reverse a) id p := by
  unfold Affected
  simp only [mem_dependentsOf]

theorem not_dependsOn_self {s : Registry} (h : GraphInv s) (id : Uuid) :
    ¬ Relation.TransGen (fun a b => b ∈ adjacent s.reverse a) id id := by
  intro hself
  have hback : Relation.TransGen (fun a b => a ∈ adjacent s.reverse b) id id := Relation.transGen_swap.mpr hself
  exact h.acyclic ⟨id, Relation.TransGen.mono (fun a b => (h.transposed.mem_iff a b).mpr) _ _ hback⟩

/-- The affected profiles that are registered are retired, each with an invalidation of
its newest generation, and nothing else changes. -/
structure Propagated (id : Uuid) (s t : Registry) : Prop where
  retired : ∀ p, s.Affected id p →
    t.profiles.lookup p = (s.profiles.lookup p).map (History.map ProfileRecord.retire)
  notActive : ∀ p, s.Affected id p → t.findProfile p = none ∧
    ∀ r ∈ t.historyOf p, r.active = false ∧ r.superseded = true
  others : ∀ p, ¬ s.Affected id p → t.profiles.lookup p = s.profiles.lookup p
  invalidations : ∃ appended, t.invalidations = s.invalidations ++ appended ∧
    (appended.map Invalidation.target).Nodup ∧
    ∀ inv, inv ∈ appended ↔ s.Affected id inv.target ∧
      ∃ h ∈ s.profiles.lookup inv.target, inv = invalidationOf inv.target h propagateReason
  registryGen : t.registryGen = s.registryGen + 1
  rest : t = { s with
    profiles := t.profiles, invalidations := t.invalidations, registryGen := t.registryGen }

theorem mem_appended_iff {order : List Uuid} {s : Registry} {inv : Invalidation} :
    inv ∈ (order.filterMap fun p => (s.profiles.lookup p).map (invalidationOf p · propagateReason)) ↔
      inv.target ∈ order ∧ ∃ h ∈ s.profiles.lookup inv.target,
        inv = invalidationOf inv.target h propagateReason := by
  simp only [List.mem_filterMap, Option.map_eq_some_iff]
  constructor
  · rintro ⟨p, hp, h, hl, rfl⟩
    exact ⟨hp, h, hl, rfl⟩
  · rintro ⟨hp, h, hl, heq⟩
    exact ⟨inv.target, hp, h, hl, heq.symm⟩

theorem appended_targets (order : List Uuid) (s : Registry) :
    ((order.filterMap fun p => (s.profiles.lookup p).map (invalidationOf p · propagateReason)).map
      Invalidation.target).Sublist order := by
  induction order with
  | nil => exact .slnil
  | cons p order ih =>
    rw [List.filterMap_cons]
    cases s.profiles.lookup p with
    | none => exact ih.cons p
    | some h => exact ih.cons_cons p

theorem retired_notActive {h : History} :
    (h.map ProfileRecord.retire).back.active = false ∧
      (h.map ProfileRecord.retire).newestActive = none ∧
      ∀ r ∈ (h.map ProfileRecord.retire).records, r.active = false ∧ r.superseded = true := by
  have hall : ∀ r ∈ (h.map ProfileRecord.retire).records, r.active = false ∧ r.superseded = true := by
    rw [History.map_records]
    exact List.forall_mem_map.mpr fun r _ => ⟨rfl, rfl⟩
  refine ⟨(hall _ (List.getLast_mem _)).1, ?_, hall⟩
  apply List.find?_eq_none.mpr
  intro r hr
  rw [(hall r (List.mem_reverse.mp hr)).1]
  exact Bool.false_ne_true

/-- In every reachable state a propagation ends, and does what it is for. -/
theorem propagateInvalidation_propagated {s : Registry} (h : Reachable s) (id : Uuid) :
    (propagateInvalidation id s).1 = .ok () ∧ Propagated id s (propagateInvalidation id s).2 := by
  obtain ⟨order, hvisits, heq⟩ := propagateLoop_visits s.reverse [id] [] s
  have hretires := retires_foldl (hvisits.nodup (not_dependsOn_self h.graphInv id)) s
  rw [← heq] at hretires
  have hmem : ∀ p, p ∈ order ↔ s.Affected id p := fun p => hvisits.mem_iff.trans (affected_eq s id p).symm
  have hretired : ∀ p, s.Affected id p → (propagateInvalidation id s).2.profiles.lookup p =
      (s.profiles.lookup p).map (History.map ProfileRecord.retire) := by
    intro p hp
    exact (hretires.lookup p).trans (if_pos ((hmem p).mpr hp))
  refine ⟨rfl, hretired, fun p hp => ?_, fun p hp => ?_, ?_, ?_, ?_⟩
  · unfold findProfile historyOf
    rw [hretired p hp]
    cases s.profiles.lookup p with
    | none => exact ⟨rfl, fun r hr => by cases hr⟩
    | some hist =>
      obtain ⟨hback, hnewest, hall⟩ := retired_notActive (h := hist)
      refine ⟨?_, hall⟩
      simp only [Option.map_some, Bool.false_eq_true, if_false, hback, hnewest]
  · exact (hretires.lookup p).trans (if_neg fun hp' => hp ((hmem p).mp hp'))
  · refine ⟨_, hretires.invalidations, ?_, fun inv => ?_⟩
    · exact (hvisits.nodup (not_dependsOn_self h.graphInv id)).sublist (appended_targets order s)
    · rw [mem_appended_iff, hmem]
  · show (propagateLoop s.reverse [id] [] s).registryGen + 1 = _
    rw [hretires.rest]
  · let u := propagateLoop s.reverse [id] [] s
    exact congrArg (fun t : Registry => { t with registryGen := u.registryGen + 1 }) hretires.rest

theorem propagateInvalidation_propagated_base :
    (propagateInvalidation base baseAndUser).2.findProfile user = none ∧
      (baseAndUser.findProfile user).isSome := by
  have hedge : baseAndUser.Affected base user := .single (by decide +kernel)
  obtain ⟨-, h⟩ := propagateInvalidation_propagated ProfileCall.baseAndUser_reachable base
  exact ⟨(h.notActive user hedge).1, by decide +kernel⟩

end Registry

end CompatRegistry
