import CompatRegistry.Registry.Reachable
import Mathlib.Data.List.Destutter

/-! The dependency graph in every reachable state. The two adjacency maps are
transposes of each other, with equal multiplicities, and there is no cycle: each edge
that is added has been in a graph that passed the cycle test. -/

namespace CompatRegistry

open Foundation Canon

namespace Registry

/-! ### Adjacency -/

theorem adjacent_insert (k x : Uuid) (l : List Uuid) (g : UMap Uuid (List Uuid)) :
    adjacent (g.insert k l) x = if x = k then l else adjacent g x := by
  unfold adjacent
  rw [UMap.lookup_insert_ite]
  split_ifs <;> rfl

theorem adjacent_erase (k x : Uuid) (g : UMap Uuid (List Uuid)) :
    adjacent (g.erase k) x = if x = k then [] else adjacent g x := by
  unfold adjacent
  rw [UMap.lookup_erase_ite]
  split_ifs <;> rfl

theorem adjacent_pushEdge (k v x : Uuid) (g : UMap Uuid (List Uuid)) :
    adjacent (pushEdge k v g) x = if x = k then adjacent g k ++ [v] else adjacent g x :=
  adjacent_insert k x _ g

/-- Every listed node loses `id` from its list, the others keep theirs. -/
theorem adjacent_dropReverse (id x : Uuid) (ds : List Uuid) (g : UMap Uuid (List Uuid)) :
    adjacent (dropReverse id ds g) x =
      if x ∈ ds then (adjacent g x).filter (· ≠ id) else adjacent g x := by
  induction ds generalizing g with
  | nil => rfl
  | cons d ds ih =>
    rw [dropReverse]
    cases hl : g.lookup d with
    | none =>
      have hd : adjacent g d = [] := by rw [adjacent, hl, Option.getD_none]
      rw [ih]
      by_cases hx : x = d
      · simp [hx, hd]
      · simp [hx]
    | some v =>
      have hd : adjacent g d = v := by rw [adjacent, hl, Option.getD_some]
      have hstep : adjacent (if v.filter (· ≠ id) = [] then g.erase d else g.insert d (v.filter (· ≠ id))) x =
          if x = d then v.filter (· ≠ id) else adjacent g x := by
        split_ifs with hnil hx hx
        · rw [adjacent_erase, if_pos hx, hnil]
        · rw [adjacent_erase, if_neg hx]
        · rw [adjacent_insert, if_pos hx]
        · rw [adjacent_insert, if_neg hx]
      simp only
      rw [ih, hstep]
      by_cases hx : x = d
      · subst hx
        simp [hd, List.filter_filter]
      · simp [hx]

theorem mem_sortUnique {l : List Uuid} {x : Uuid} : x ∈ sortUnique l ↔ x ∈ l := by
  have hsorted : (l.insertionSort (· ≤ ·)).Pairwise (· ≤ ·) := List.pairwise_insertionSort _ l
  unfold sortUnique
  rw [hsorted.destutter_eq_dedup, List.mem_dedup, List.mem_insertionSort]

/-! ### Transposition -/

/-- Each edge is in both maps, equally often. -/
def Transposed (s : Registry) : Prop :=
  ∀ x y, (adjacent s.deps x).count y = (adjacent s.reverse y).count x

theorem Transposed.pushEdges {s : Registry} (h : Transposed s) (id : Uuid) (ds : List Uuid) :
    Transposed (pushEdges id ds s) := by
  induction ds generalizing s with
  | nil => exact h
  | cons d ds ih =>
    rw [Registry.pushEdges]
    split_ifs
    · exact ih h
    · apply ih
      intro x y
      simp only [adjacent_pushEdge]
      by_cases hx : x = id
      · subst hx
        by_cases hy : y = d
        · subst hy
          simp [List.count_append, h x y]
        · simp [List.count_append, hy, Ne.symm hy, h x y]
      · by_cases hy : y = d
        · subst hy
          simp [List.count_append, hx, Ne.symm hx, h x y]
        · simp [hx, hy, h x y]

/-- The edges that leave `id` go from both maps. -/
theorem Transposed.drop {s : Registry} (h : Transposed s) {id : Uuid} {g : UMap Uuid (List Uuid)}
    (hg : ∀ x, adjacent g x = if x = id then [] else adjacent s.deps x) :
    Transposed { s with deps := g, reverse := dropReverse id (adjacent s.deps id) s.reverse } := by
  intro x y
  simp only [hg, adjacent_dropReverse]
  by_cases hx : x = id
  · subst hx
    rw [if_pos rfl, List.count_nil]
    split_ifs with hy
    · exact (List.count_eq_zero.mpr (by simp)).symm
    · rw [← h x y]
      exact (List.count_eq_zero.mpr hy).symm
  · rw [if_neg hx, h x y]
    split_ifs
    · exact (List.count_filter (by simpa using hx)).symm
    · rfl

theorem Transposed.addDependency {s : Registry} (h : Transposed s) (id : Uuid) (ds : List Uuid) :
    Transposed (addDependency id ds s) := by
  unfold Registry.addDependency
  cases hl : s.deps.lookup id with
  | none => exact h.pushEdges id ds
  | some old =>
    have hold : adjacent s.deps id = old := by rw [adjacent, hl, Option.getD_some]
    have hdrop := h.drop fun x => adjacent_insert id x [] s.deps
    rw [hold] at hdrop
    exact hdrop.pushEdges id ds

theorem Transposed.removeDependency {s : Registry} (h : Transposed s) (id : Uuid) :
    Transposed (removeDependency id s) := by
  unfold Registry.removeDependency
  cases hl : s.deps.lookup id with
  | none => exact h
  | some old =>
    have hold : adjacent s.deps id = old := by rw [adjacent, hl, Option.getD_some]
    have hdrop := h.drop fun x => adjacent_erase id x s.deps
    rwa [hold] at hdrop

/-! ### Acyclicity -/

theorem adjacent_addDependency (id x : Uuid) (ds : List Uuid) (s : Registry) :
    adjacent (addDependency id ds s).deps x = if x = id then ds.filter (· ≠ id) else adjacent s.deps x :=
  dependenciesOf_addDependency id ds s x

theorem adjacent_removeDependency (id x : Uuid) (s : Registry) :
    adjacent (removeDependency id s).deps x = if x = id then [] else adjacent s.deps x := by
  unfold removeDependency
  cases hl : s.deps.lookup id with
  | none =>
    split_ifs with hx
    · rw [hx, adjacent, hl, Option.getD_none]
    · rfl
  | some old => exact adjacent_erase id x s.deps

theorem mem_adjacent_prospective {src x y : Uuid} {targets : List Uuid} {s : Registry} :
    y ∈ adjacent (prospective src targets s) x ↔
      y ∈ adjacent s.deps x ∨ x = src ∧ y ∈ targets ∧ y ≠ src := by
  have hfold : ∀ (ds : List Uuid) (g : UMap Uuid (List Uuid)),
      adjacent (ds.foldl (fun g d => pushEdge src d g) g) x =
        if x = src then adjacent g src ++ ds else adjacent g x := by
    intro ds
    induction ds with
    | nil =>
      intro g
      by_cases hx : x = src <;> simp [hx]
    | cons d ds ih =>
      intro g
      rw [List.foldl_cons, ih, adjacent_pushEdge, adjacent_pushEdge, if_pos rfl]
      by_cases hx : x = src
      · simp [hx]
      · simp [hx]
  have hsrc : (AList.lookup src ((targets.filter (· ≠ src)).foldl (fun g d => pushEdge src d g) s.deps)).getD [] =
      adjacent ((targets.filter (· ≠ src)).foldl (fun g d => pushEdge src d g) s.deps) src := rfl
  unfold prospective
  simp only
  rw [adjacent_insert, hsrc]
  split_ifs with hx
  · subst hx
    rw [mem_sortUnique, hfold, if_pos rfl, List.mem_append, List.mem_filter]
    simp
  · rw [hfold, if_neg hx]
    simp [hx]

/-- The edges of a registered profile pass the cycle test with it. -/
theorem acyclic_addDependency {s : Registry} {id : Uuid} {ds : List Uuid}
    (h : createCycle id ds s = false) : ¬ DepthFirst.Cyclic (adjacent (addDependency id ds s).deps) := by
  have hprospective : ¬ DepthFirst.Cyclic (adjacent (prospective id ds s)) := by
    rw [← hasCycleIn_iff, Bool.not_eq_true]
    exact h
  refine fun hcyclic => hprospective (hcyclic.mono fun x y hy => ?_)
  rw [adjacent_addDependency] at hy
  rw [mem_adjacent_prospective]
  split_ifs at hy with hx
  · rw [List.mem_filter] at hy
    exact .inr ⟨hx, hy.1, by simpa using hy.2⟩
  · exact .inl hy

theorem acyclic_removeDependency {s : Registry} (h : ¬ DepthFirst.Cyclic (adjacent s.deps)) (id : Uuid) :
    ¬ DepthFirst.Cyclic (adjacent (removeDependency id s).deps) := by
  refine fun hcyclic => h (hcyclic.mono fun x y hy => ?_)
  rw [adjacent_removeDependency] at hy
  split_ifs at hy with hx
  · cases hy
  · exact hy

/-! ### Reachable states -/

structure GraphInv (s : Registry) : Prop where
  transposed : Transposed s
  acyclic : ¬ DepthFirst.Cyclic (adjacent s.deps)

theorem GraphInv.congr {s t : Registry} (h : GraphInv s) (hdeps : t.deps = s.deps)
    (hreverse : t.reverse = s.reverse) : GraphInv t where
  transposed := by
    unfold Transposed
    rw [hdeps, hreverse]
    exact h.transposed
  acyclic := by
    rw [hdeps]
    exact h.acyclic

theorem Prepared.graphInv {id : Uuid} {s t : Registry} (hp : Prepared id s t) (h : GraphInv s) :
    GraphInv t := by
  have hdeactivated : GraphInv (deactivateAll id s) := h.congr rfl rfl
  cases hp with
  | deactivated => exact hdeactivated
  | dropped =>
    exact ⟨hdeactivated.transposed.removeDependency id, acyclic_removeDependency hdeactivated.acyclic id⟩

theorem Effect.graphInv {s t : Registry} (he : Effect s t) (h : GraphInv s) : GraphInv t := by
  cases he with
  | unchanged => exact h
  | rejected prepared cyclic => exact prepared.graphInv h
  | @appended record u prepared sound generation acyclic =>
    have hu : GraphInv u := prepared.graphInv h
    let v : Registry := { u with
      profiles := u.profiles.insert record.id (History.pushOrSingle (u.profiles.lookup record.id) record) }
    have hv : GraphInv (addDependency record.id record.deps v) :=
      ⟨Transposed.addDependency (s := v) hu.transposed record.id record.deps,
        acyclic_addDependency (s := v) acyclic⟩
    exact hv.congr rfl rfl
  | retired id reason known =>
    obtain ⟨p, i, heq⟩ := invalidateWith_eq id reason s
    rw [heq]
    exact h.congr rfl rfl
  | propagated id =>
    obtain ⟨p, i, heq⟩ := propagateLoop_eq s.reverse [id] [] s
    unfold propagateInvalidation
    simp only
    rw [heq]
    exact h.congr rfl rfl
  | ruleStored => exact h.congr rfl rfl
  | evidenceStored => exact h.congr rfl rfl
  | policySet => exact h.congr rfl rfl
  | decided => exact h.congr rfl rfl

theorem GraphInv.empty : GraphInv {} where
  transposed _ _ := rfl
  acyclic := by
    rintro ⟨x, hx⟩
    obtain ⟨y, hxy, -⟩ := Relation.TransGen.head'_iff.mp hx
    have hmem : y ∈ adjacent (∅ : UMap Uuid (List Uuid)) x := hxy
    simp [adjacent] at hmem

theorem Transposed.rebuildEdges {s : Registry} (h : Transposed s) : Transposed (rebuildEdges s) := by
  have hhistory : ∀ (id : Uuid) (ps : List ProfileRecord) (s : Registry), Transposed s →
      Transposed (ps.foldl (fun s p => Registry.addDependency id p.deps s) s) := by
    intro id ps
    induction ps with
    | nil => exact fun _ h => h
    | cons p ps ih => exact fun s h => ih _ (h.addDependency id p.deps)
  unfold Registry.rebuildEdges
  generalize s.profiles.entries = entries
  induction entries generalizing s with
  | nil => exact h
  | cons e entries ih => exact ih (hhistory e.1 e.2.records s h)

/-- A registry without edges has got those of its profiles, and passed the cycle test. -/
structure Rebuilt (s t : Registry) : Prop where
  deps : s.deps = ∅
  reverse : s.reverse = ∅
  edges : ∃ r e i d, t = { rebuildEdges s with rules := r, evidence := e, invalidations := i, decisions := d }
  acyclic : t.hasCycle = false

/-- Whatever is recovered, from whatever bytes, is rebuilt. -/
theorem recover_rebuilt {bytes : Bytes} {t : Registry} (h : recover bytes = .ok t) : ∃ s, Rebuilt s t := by
  obtain ⟨payload, -, h⟩ := Result.bind_eq_ok.mp h
  obtain ⟨doc, -, h⟩ := Result.bind_eq_ok.mp h
  split_ifs at h
  obtain ⟨profiles, -, h⟩ := Result.bind_eq_ok.mp h
  obtain ⟨evidence, -, h⟩ := Result.bind_eq_ok.mp h
  simp only at h
  split_ifs at h with hcycle
  cases h
  exact ⟨{
    registryGen := fieldOr uint? doc 1 0
    policyId := fieldOr uuid? doc 2 Uuid.zero
    profiles := fillProfiles profiles ∅ }, rfl, rfl, ⟨_, _, _, _, rfl⟩, Bool.not_eq_true _ ▸ hcycle⟩

theorem recover_graphInv {bytes : Bytes} {t : Registry} (h : recover bytes = .ok t) : GraphInv t := by
  obtain ⟨s, hs⟩ := recover_rebuilt h
  obtain ⟨r, e, i, d, rfl⟩ := hs.edges
  have hnone : Transposed s := by
    intro x y
    rw [hs.deps, hs.reverse]
    rfl
  refine ⟨hnone.rebuildEdges, ?_⟩
  rw [← hasCycleIn_iff, Bool.not_eq_true]
  exact hs.acyclic

theorem Reordered.graphInv {s t : Registry} (h : Reordered s t) (hs : GraphInv s) : GraphInv t := by
  have hdeps : adjacent t.deps = adjacent s.deps := by
    funext x
    rw [adjacent, adjacent, h.deps.lookup]
  have hreverse : adjacent t.reverse = adjacent s.reverse := by
    funext x
    rw [adjacent, adjacent, h.reverse.lookup]
  refine ⟨?_, ?_⟩
  · unfold Transposed
    rw [hdeps, hreverse]
    exact hs.transposed
  · rw [hdeps]
    exact hs.acyclic

theorem Reachable.graphInv {s : Registry} (h : Reachable s) : GraphInv s := by
  induction h with
  | empty => exact GraphInv.empty
  | step op hop hs ih => exact (Op.run_effect hop hs.inv).graphInv ih
  | reorder _ hst ih => exact hst.graphInv ih
  | recover _ _ ht _ => exact recover_graphInv ht

theorem Transposed.mem_iff {s : Registry} (h : Transposed s) (x y : Uuid) :
    y ∈ adjacent s.deps x ↔ x ∈ adjacent s.reverse y := by
  rw [← List.count_pos_iff, h x y, List.count_pos_iff]

theorem mem_dependentsOf {s : Registry} {x y : Uuid} : y ∈ s.dependentsOf x ↔ y ∈ adjacent s.reverse x := by
  unfold dependentsOf adjacent
  cases s.reverse.lookup x with
  | none => simp
  | some l => exact mem_sortUnique

/-- In every reachable state there is no cycle, an edge is stored as often in one map
as in the other, and dependents are the profiles that depend. -/
theorem dependency_graph_of_reachable {s : Registry} (h : Reachable s) :
    s.hasCycle = false ∧
    (∀ x y, (adjacent s.deps x).count y = (adjacent s.reverse y).count x) ∧
    ∀ x y, y ∈ s.dependentsOf x ↔ x ∈ s.dependenciesOf y := by
  have hg := h.graphInv
  refine ⟨?_, hg.transposed, fun x y => ?_⟩
  · rw [← Bool.not_eq_true]
    exact fun hcycle => hg.acyclic ((hasCycleIn_iff s.deps).mp hcycle)
  · rw [mem_dependentsOf, ← hg.transposed.mem_iff y x]
    rfl

/-- Two profiles, one of which depends on the other, twice. -/
theorem dependency_graph_of_twice :
    (runOps [.registerProfile (uuidOf 1) (.declared .model) (.record []) [] [],
      .registerProfile (uuidOf 2) (.declared .model) (.record []) [uuidOf 1, uuidOf 1] []] {}).hasCycle =
      false := by
  refine (dependency_graph_of_reachable (runOps_reachable ?_ Reachable.empty)).1
  simp [Op.WF, WF, WFRecord, SortedMap.Sorted]

end Registry

end CompatRegistry
