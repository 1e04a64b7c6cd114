import CompatRegistry.Foundation.EdgeChange
import CompatRegistry.Registry.Histories
import CompatRegistry.Registry.Graph
import CompatRegistry.Registry.ProfileCalls

/-! When the cycle test of a profile call rejects it. It finds every walk over the
stored edges from another listed dependency back to the profile, and nothing else. The
profile itself among its dependencies goes unnoticed, and so does a walk over the
dependencies of a record whose edges a rejected call has dropped. -/

namespace CompatRegistry

open Foundation Canon Relation

namespace Registry

/-- The first profile has a stored edge to the second. -/
def DependsOn (s : Registry) (x y : Uuid) : Prop := y ∈ s.dependenciesOf x

/-- The newest record of the first profile, active or not, lists the second. -/
def NewestDependsOn (s : Registry) (x y : Uuid) : Prop := ∃ p ∈ (s.historyOf x).getLast?, y ∈ p.deps

/-- No profile depends on itself, directly or over others. -/
def Acyclic (E : Uuid → Uuid → Prop) : Prop := ¬ ∃ x, TransGen E x x

theorem createCycle_iff {s : Registry} (h : ¬ DepthFirst.Cyclic (adjacent s.deps)) (id : Uuid)
    (ds : List Uuid) :
    createCycle id ds s = true ↔ ∃ d ∈ ds, d ≠ id ∧ ReflTransGen s.DependsOn d id := by
  have hadded : ∀ x y, DepthFirst.Edge (adjacent (prospective id ds s)) x y ↔
      s.DependsOn x y ∨ x = id ∧ y ∈ {d | d ∈ ds ∧ d ≠ id} := fun x y => mem_adjacent_prospective
  unfold createCycle
  rw [hasCycleIn_iff, DepthFirst.Cyclic, EdgeChange.cycle_iff_of_added hadded]
  exact (or_iff_right h).trans (exists_congr fun d => and_assoc)

namespace ProfileCall

theorem prepared (c : ProfileCall) (s : Registry) : Prepared c.id s (c.beforeTest s) := by
  cases c with
  | register record => exact .deactivated
  | supersede kind id payload deps provenance => exact .dropped

/-- Some other listed dependency reaches the profile over the stored edges. -/
def OtherReaches (c : ProfileCall) (s : Registry) : Prop :=
  ∃ d ∈ c.deps, d ≠ c.id ∧ ReflTransGen s.DependsOn d c.id

/-- The dependencies contain the profile itself, or one of them reaches it. -/
def Closes (c : ProfileCall) (s : Registry) : Prop :=
  c.id ∈ c.deps ∨ ∃ d ∈ c.deps, ReflTransGen s.DependsOn d c.id

theorem closes_iff {c : ProfileCall} {s : Registry} : c.Closes s ↔ c.id ∈ c.deps ∨ c.OtherReaches s := by
  unfold Closes OtherReaches
  constructor
  · rintro (hself | ⟨d, hd, hreaches⟩)
    · exact .inl hself
    · by_cases hid : d = c.id
      · exact .inl (hid ▸ hd)
      · exact .inr ⟨d, hd, hid, hreaches⟩
  · rintro (hself | ⟨d, hd, -, hreaches⟩)
    · exact .inl hself
    · exact .inr ⟨d, hd, hreaches⟩

/-- Dropping the edges of the profile does not change what reaches it. -/
theorem reaches_beforeTest (c : ProfileCall) (s : Registry) (d : Uuid) :
    ReflTransGen (c.beforeTest s).DependsOn d c.id ↔ ReflTransGen s.DependsOn d c.id := by
  have hagree : ∀ x, x ≠ c.id → ∀ y, (c.beforeTest s).DependsOn x y ↔ s.DependsOn x y := by
    intro x hx y
    cases c with
    | register record => exact Iff.rfl
    | supersede kind id payload deps provenance =>
      have hadjacent := adjacent_removeDependency id x (deactivateAll id s)
      change x ≠ id at hx
      rw [if_neg hx] at hadjacent
      exact iff_of_eq (congrArg (y ∈ ·) hadjacent)
  constructor
  · exact EdgeChange.reaches_of_agree fun x hx y => (hagree x hx y).mp
  · exact EdgeChange.reaches_of_agree fun x hx y => (hagree x hx y).mpr

/-- The cycle test, in a state without cycles. -/
theorem createCycle_beforeTest {c : ProfileCall} {s : Registry} (h : GraphInv s) :
    createCycle c.id c.deps (c.beforeTest s) = true ↔ c.OtherReaches s := by
  rw [createCycle_iff ((c.prepared s).graphInv h).acyclic]
  exact exists_congr fun d => and_congr_right fun _ => and_congr_right fun _ => c.reaches_beforeTest s d

theorem throwsCycle_iff {c : ProfileCall} {s : Registry} (h : GraphInv s) (hpayload : c.payload.WF)
    (hnew : ¬ c.Repeats s) : c.ThrowsCycle s ↔ c.Known s ∧ c.OtherReaches s := by
  rw [← createCycle_beforeTest h]
  unfold ThrowsCycle
  have hends := c.ends s
  generalize c.run s = result at hends ⊢
  cases hends with
  | refused early other =>
    refine iff_of_false (fun h => other (Except.error.inj h)) fun hknown => ?_
    rcases early with hunknown | hencodes
    · exact hunknown hknown.1
    · rw [canonicalFingerprintHex_of_wf hpayload] at hencodes
      cases hencodes
  | repeated repeats => exact absurd repeats hnew
  | rejected known _ cyclic => exact iff_of_true rfl ⟨known, cyclic⟩
  | appended known _ _ acyclic =>
    refine iff_of_false (fun h => by cases h) fun hcyclic => ?_
    rw [hcyclic.2] at acyclic
    cases acyclic

/-! ### The dependencies of the newest records -/

theorem newestDependsOn_beforeTest (c : ProfileCall) (s : Registry) :
    (c.beforeTest s).NewestDependsOn = s.NewestDependsOn := by
  funext x y
  unfold NewestDependsOn
  rw [(c.prepared s).historyOf]
  split_ifs with hx
  · subst hx
    rw [List.getLast?_map]
    simp only [Option.mem_map, exists_exists_and_eq_and]
    refine propext (exists_congr fun p => and_congr_right fun _ => ?_)
    rw [(ProfileRecord.aged_deactivate p).contents]
  · rfl

theorem newestDependsOn_appended (c : ProfileCall) (fingerprint : Bytes) (s : Registry) (x y : Uuid) :
    (appendRecord (c.newRecord fingerprint s) (c.beforeTest s)).NewestDependsOn x y ↔
      if x = c.id then y ∈ c.deps else s.NewestDependsOn x y := by
  have hid : (c.newRecord fingerprint s).id = c.id := by cases c <;> rfl
  have hdeps : (c.newRecord fingerprint s).deps = c.deps := by cases c <;> rfl
  have hbefore := congrFun (congrFun (c.newestDependsOn_beforeTest s) x) y
  unfold NewestDependsOn at hbefore ⊢
  rw [historyOf_appendRecord, hid]
  split_ifs with hx
  · simp [hdeps]
  · exact iff_of_eq hbefore

/-- What closes a cycle, the profile among its own dependencies or a walk over the newest
records, has to close one over the stored edges from another listed dependency. -/
structure Tested (c : ProfileCall) (s : Registry) : Prop where
  known : c.Known s → ¬ c.OtherReaches s → c.id ∉ c.deps ∧
    (Acyclic s.NewestDependsOn → ¬ ∃ d ∈ c.deps, ReflTransGen s.NewestDependsOn d c.id)
  unknown : ¬ c.Known s → ¬ c.Closes s

/-- Rejected exactly for what closes a cycle, and the newest records stay without one. -/
structure TestsExactly (c : ProfileCall) (s : Registry) : Prop where
  throws : c.ThrowsCycle s ↔ c.Closes s
  acyclic : Acyclic s.NewestDependsOn → Acyclic (c.run s).2.NewestDependsOn

theorem throws_closes_iff {c : ProfileCall} {s : Registry} (h : GraphInv s) (hpayload : c.payload.WF)
    (hnew : ¬ c.Repeats s) : (c.ThrowsCycle s ↔ c.Closes s) ↔
      (c.Known s → ¬ c.OtherReaches s → c.id ∉ c.deps) ∧ (¬ c.Known s → ¬ c.Closes s) := by
  rw [throwsCycle_iff h hpayload hnew, closes_iff]
  tauto

theorem run_newestDependsOn {c : ProfileCall} {s : Registry} (h : GraphInv s) (hpayload : c.payload.WF)
    (hnew : ¬ c.Repeats s) :
    (c.Known s ∧ ¬ c.OtherReaches s → ∀ x y, (c.run s).2.NewestDependsOn x y ↔
      if x = c.id then y ∈ c.deps else s.NewestDependsOn x y) ∧
    (¬ (c.Known s ∧ ¬ c.OtherReaches s) → (c.run s).2.NewestDependsOn = s.NewestDependsOn) := by
  rw [← createCycle_beforeTest h]
  have hends := c.ends s
  generalize c.run s = result at hends ⊢
  cases hends with
  | refused early other =>
    refine ⟨fun hknown => ?_, fun _ => rfl⟩
    rcases early with hunknown | hencodes
    · exact absurd hknown.1 hunknown
    · rw [canonicalFingerprintHex_of_wf hpayload] at hencodes
      cases hencodes
  | repeated repeats => exact absurd repeats hnew
  | rejected known _ cyclic =>
    exact ⟨fun hknown => absurd cyclic hknown.2, fun _ => c.newestDependsOn_beforeTest s⟩
  | appended known _ _ acyclic =>
    refine ⟨fun _ => c.newestDependsOn_appended _ s, fun hnot => absurd ⟨known, ?_⟩ hnot⟩
    rw [acyclic]
    exact Bool.false_ne_true

theorem acyclic_run_iff {c : ProfileCall} {s : Registry} (h : GraphInv s) (hpayload : c.payload.WF)
    (hnew : ¬ c.Repeats s) (hacyclic : Acyclic s.NewestDependsOn) :
    Acyclic (c.run s).2.NewestDependsOn ↔ (c.Known s → ¬ c.OtherReaches s →
      ¬ ∃ d ∈ c.deps, ReflTransGen s.NewestDependsOn d c.id) := by
  obtain ⟨happended, hsame⟩ := run_newestDependsOn h hpayload hnew
  by_cases hpasses : c.Known s ∧ ¬ c.OtherReaches s
  · have hnewest := happended hpasses
    unfold Acyclic at hacyclic ⊢
    rw [EdgeChange.cycle_iff_of_replaced hacyclic (fun x y hx => (hnewest x y).trans (by rw [if_neg hx]))
      fun y => (hnewest c.id y).trans (by rw [if_pos rfl]; exact Iff.rfl)]
    exact ⟨fun hnone _ _ => hnone, fun hnone => hnone hpasses.1 hpasses.2⟩
  · rw [hsame hpasses]
    exact iff_of_true hacyclic fun hknown hother => absurd ⟨hknown, hother⟩ hpasses

/-- In a reachable state a call that is no repeat tests exactly for cycles exactly when
what closes one closes one over the stored edges from another listed dependency. -/
theorem testsExactly_iff {s : Registry} (h : Reachable s) {c : ProfileCall} (hpayload : c.payload.WF)
    (hnew : ¬ c.Repeats s) : c.TestsExactly s ↔ c.Tested s := by
  have hthrows := throws_closes_iff h.graphInv hpayload hnew
  have hacyclic := acyclic_run_iff h.graphInv hpayload hnew
  constructor
  · rintro ⟨hexact, hstays⟩
    obtain ⟨hself, hunknown⟩ := hthrows.mp hexact
    refine ⟨fun hknown hother => ⟨hself hknown hother, fun hbefore => ?_⟩, hunknown⟩
    exact (hacyclic hbefore).mp (hstays hbefore) hknown hother
  · rintro ⟨hknown, hunknown⟩
    refine ⟨hthrows.mpr ⟨fun hk ho => (hknown hk ho).1, hunknown⟩, fun hbefore => ?_⟩
    exact (hacyclic hbefore).mpr fun hk ho => (hknown hk ho).2 hbefore

theorem baseAndUser_reachable : Reachable baseAndUser := by
  have hrecord : ∀ id deps, (Op.registerRecord (modelRecord id deps)).WF := fun id deps => by
    simp [Op.WF, modelRecord, WF, WFRecord, SortedMap.Sorted]
  exact (Reachable.empty.step _ (hrecord base [])).step _ (hrecord user [base])

/-- The edge back from `base` to `user` closes a cycle over the stored edge. -/
theorem testsExactly_backEdge : backEdge.TestsExactly baseAndUser := by
  have hnew : ¬ backEdge.Repeats baseAndUser := by
    rintro ⟨hist, hl, hrepeat⟩
    have hdeps : ((baseAndUser.profiles.lookup base).all fun h => h.back.deps ≠ [user]) = true := by
      decide +kernel
    change baseAndUser.profiles.lookup base = some hist at hl
    rw [hl, Option.all_some] at hdeps
    exact of_decide_eq_true hdeps hrepeat.deps
  have hpayload : backEdge.payload.WF := by
    simp [backEdge, ProfileCall.payload, modelRecord, WF, WFRecord, SortedMap.Sorted]
  have hedge : baseAndUser.DependsOn user base := by
    unfold DependsOn
    decide +kernel
  have hother : backEdge.OtherReaches baseAndUser :=
    ⟨user, List.mem_singleton_self user, by decide, .single hedge⟩
  exact (testsExactly_iff baseAndUser_reachable hpayload hnew).mpr
    ⟨fun _ hno => absurd hother hno, fun hunknown => absurd trivial hunknown⟩

/-- A profile that depends on itself. -/
def selfEdge : ProfileCall := .register (modelRecord base [base])

/-- It is registered, and then its newest record closes a cycle. -/
theorem not_testsExactly_selfEdge : ¬ selfEdge.Repeats {} ∧ ¬ selfEdge.TestsExactly {} := by
  constructor
  · rintro ⟨hist, hl, -⟩
    cases hl
  · rintro ⟨hthrows, -⟩
    have hrejected := hthrows.mpr (.inl (List.mem_singleton_self base))
    revert hrejected
    unfold ThrowsCycle
    decide +kernel

end ProfileCall

end Registry

end CompatRegistry
