import CompatRegistry.Registry.State
import CompatRegistry.Foundation.DepthFirst

/-! The dependency graph: adding and removing the edges of a profile in both
adjacency maps, and the cycle test, on the stored graph and on the graph with
the prospective edges of a profile. -/

namespace CompatRegistry

open Foundation

namespace Registry

/-- `m[k].push_back(v)`. -/
def pushEdge (k v : Uuid) (m : UMap Uuid (List Uuid)) : UMap Uuid (List Uuid) :=
  m.insert k ((m.lookup k).getD [] ++ [v])

/-- Remove `id` from the dependents of each of `ds`; empty lists are erased. -/
def dropReverse (id : Uuid) : List Uuid → UMap Uuid (List Uuid) → UMap Uuid (List Uuid)
  | [], reverse => reverse
  | d :: ds, reverse =>
    match reverse.lookup d with
    | none => dropReverse id ds reverse
    | some v =>
      let v := v.filter (· ≠ id)
      dropReverse id ds (if v = [] then reverse.erase d else reverse.insert d v)

/-- The edges from `id` to each of the list but itself, in both maps. -/
def pushEdges (id : Uuid) : List Uuid → Registry → Registry
  | [], s => s
  | d :: ds, s =>
    if d = id then pushEdges id ds s
    else pushEdges id ds { s with deps := pushEdge id d s.deps, reverse := pushEdge d id s.reverse }

def addDependency (id : Uuid) (deps : List Uuid) (s : Registry) : Registry :=
  pushEdges id deps (match s.deps.lookup id with
    | none => s
    | some ds => { s with deps := s.deps.insert id [], reverse := dropReverse id ds s.reverse })

def removeDependency (id : Uuid) (s : Registry) : Registry :=
  match s.deps.lookup id with
  | none => s
  | some ds => { s with deps := s.deps.erase id, reverse := dropReverse id ds s.reverse }

/-! ### The cycle test -/

def adjacent (g : UMap Uuid (List Uuid)) (n : Uuid) : List Uuid := (g.lookup n).getD []

/-- The nodes of a graph: its keys and their successors. -/
def nodes (g : UMap Uuid (List Uuid)) : List Uuid := g.keys ++ g.values.flatten

theorem adjacent_subset_nodes {g : UMap Uuid (List Uuid)} {a b : Uuid} (h : b ∈ adjacent g a) :
    b ∈ nodes g := by
  unfold adjacent at h
  cases ha : g.lookup a with
  | none => simp [ha] at h
  | some l =>
    rw [ha, Option.getD_some] at h
    exact List.mem_append_right _ (List.mem_flatten.mpr ⟨l, UMap.mem_values_iff.mpr ⟨a, ha⟩, h⟩)

/-- The search visits a node at most once, so the number of nodes bounds its depth. -/
theorem search_isSome (g : UMap Uuid (List Uuid)) :
    (DepthFirst.search (adjacent g) (nodes g).length g.keys fun _ => .white).isSome := by
  have hroots : ∀ a ∈ g.keys, a ∈ nodes g := fun a ha => List.mem_append_left _ ha
  obtain ⟨result, h⟩ :=
    DepthFirst.search_succeeds (fun a _ b hb => adjacent_subset_nodes hb) le_rfl hroots fun _ => .white
  rw [h]
  rfl

/-- The search from every key that is still white. -/
def hasCycleIn (g : UMap Uuid (List Uuid)) : Bool :=
  ((DepthFirst.search (adjacent g) (nodes g).length g.keys fun _ => .white).get (search_isSome g)).1

def hasCycle (s : Registry) : Bool := hasCycleIn s.deps

/-- The stored graph with the prospective edges of `src`. -/
def prospective (src : Uuid) (targets : List Uuid) (s : Registry) : UMap Uuid (List Uuid) :=
  let g := (targets.filter (· ≠ src)).foldl (fun g d => pushEdge src d g) s.deps
  g.insert src (sortUnique ((g.lookup src).getD []))

def createCycle (src : Uuid) (targets : List Uuid) (s : Registry) : Bool := hasCycleIn (prospective src targets s)

/-! ### The search on any graph -/

/-- Every node with a successor is a key, so the keys are enough as roots. -/
theorem mem_keys_of_adjacent {g : UMap Uuid (List Uuid)} {a : Uuid} (ha : adjacent g a ≠ []) : a ∈ g.keys := by
  by_contra hmem
  apply ha
  unfold adjacent
  rw [AList.lookup_eq_none.mpr hmem, Option.getD_none]

theorem hasCycleIn_iff (g : UMap Uuid (List Uuid)) :
    hasCycleIn g = true ↔ DepthFirst.Cyclic (adjacent g) := by
  obtain ⟨result, h⟩ := Option.isSome_iff_exists.mp (search_isSome g)
  have := DepthFirst.search_iff (fun _ => mem_keys_of_adjacent) h
  unfold hasCycleIn
  simp only [h, Option.get_some]
  exact this

/-- In whatever order the keys are visited as roots, the search ends, with one
result for every bound that is not below the number of nodes, and the result is
a hit exactly on a graph with a cycle. So `has_cycle` and `create_cycle` decide
whether the stored and the prospective graph have one. -/
theorem search_decides_cyclic :
    (∀ (g : UMap Uuid (List Uuid)) (roots : List Uuid), roots.Perm g.keys →
      ∃ result, (∀ fuel, (nodes g).length ≤ fuel →
          DepthFirst.search (adjacent g) fuel roots (fun _ => .white) = some result) ∧
        (result.1 = true ↔ DepthFirst.Cyclic (adjacent g))) ∧
    (∀ s : Registry, hasCycle s = true ↔ DepthFirst.Cyclic (adjacent s.deps)) ∧
    ∀ (s : Registry) (src : Uuid) (targets : List Uuid),
      createCycle src targets s = true ↔ DepthFirst.Cyclic (adjacent (prospective src targets s)) := by
  refine ⟨fun g roots hroots => ?_, fun s => hasCycleIn_iff s.deps, fun s src targets => hasCycleIn_iff _⟩
  have hnodes : ∀ a ∈ roots, a ∈ nodes g := fun a ha => List.mem_append_left _ (hroots.mem_iff.mp ha)
  obtain ⟨result, hrun⟩ := DepthFirst.search_succeeds (fun a _ b hb => adjacent_subset_nodes hb)
    (le_refl (nodes g).length) hnodes fun _ => .white
  have hiff := DepthFirst.search_iff (fun _ ha => hroots.mem_iff.mpr (mem_keys_of_adjacent ha)) hrun
  exact ⟨result, fun fuel hfuel => DepthFirst.search_mono hfuel hrun, hiff⟩

/-- A graph with a target twice, a target that is no key, and a self loop, and
its keys in the opposite order. -/
def loopGraph : UMap Uuid (List Uuid) :=
  ((AList.singleton (Uuid.generateV4 1 1) [Uuid.generateV4 2 2, Uuid.generateV4 2 2]).insert
    (Uuid.generateV4 2 2) [Uuid.generateV4 4 4]).insert (Uuid.generateV4 3 3) [Uuid.generateV4 3 3]

theorem search_decides_loopGraph : ∃ result, (∀ fuel, (nodes loopGraph).length ≤ fuel →
      DepthFirst.search (adjacent loopGraph) fuel
        [Uuid.generateV4 1 1, Uuid.generateV4 2 2, Uuid.generateV4 3 3] (fun _ => .white) = some result) ∧
    (result.1 = true ↔ DepthFirst.Cyclic (adjacent loopGraph)) :=
  search_decides_cyclic.1 loopGraph _ (by decide +kernel)

end Registry

end CompatRegistry
