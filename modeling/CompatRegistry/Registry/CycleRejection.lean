import CompatRegistry.Registry.Invariant

/-! What a rejected dependency cycle leaves behind. Registering and superseding
have deactivated the older generations by then, and superseding has also dropped
the edges of the profile, so the state is the one before only where there was
nothing to deactivate and nothing to drop. -/

namespace CompatRegistry

open Foundation

namespace Registry

/-- Everything that the queries show, and the rules, evidence and invalidations. -/
structure SameObserved (s s' : Registry) : Prop where
  historyOf : ∀ id, s'.historyOf id = s.historyOf id
  findProfile : ∀ id includeHistory, s'.findProfile id includeHistory = s.findProfile id includeHistory
  dependenciesOf : ∀ id, s'.dependenciesOf id = s.dependenciesOf id
  dependentsOf : ∀ id, s'.dependentsOf id = s.dependentsOf id
  rules : ∀ id, s'.rules.lookup id = s.rules.lookup id
  evidence : ∀ id, s'.evidence.lookup id = s.evidence.lookup id
  invalidations : s'.invalidations = s.invalidations
  registryGen : s'.registryGen = s.registryGen

/-- The two calls that test for a cycle. -/
inductive ProfileCall where
  | register (record : ProfileRecord)
  | supersede (kind : Enum8 ProfileKind) (id : Uuid) (payload : Canon) (deps : List Uuid)
      (provenance : Bytes)

namespace ProfileCall

def id : ProfileCall → Uuid
  | .register record => record.id
  | .supersede _ id _ _ _ => id

def run : ProfileCall → Step Uuid
  | .register record => registerRecord record
  | .supersede kind id payload deps provenance => supersedeProfile kind id payload deps provenance

/-- The name of the call in its error text. -/
def name : ProfileCall → String
  | .register _ => "register_profile"
  | .supersede _ _ _ _ _ => "supersede_profile"

def ThrowsCycle (c : ProfileCall) (s : Registry) : Prop :=
  (c.run s).1 = .error (cycleRejected c.name c.id)

/-- What the call has changed when it comes to the cycle test. -/
def beforeTest : ProfileCall → Registry → Registry
  | .register record, s => deactivateAll record.id s
  | .supersede _ id _ _ _, s => removeDependency id (deactivateAll id s)

/-- No generation of the profile is active and, for a call that supersedes, no
edge leaves it. -/
def NothingToUndo (c : ProfileCall) (s : Registry) : Prop :=
  (∀ p ∈ s.historyOf c.id, p.active = false) ∧
    match c with
    | .register _ => True
    | .supersede _ id _ _ _ => s.dependenciesOf id = []

end ProfileCall

theorem unknown_ne_cycleRejected (id : Uuid) (tail : Bytes) :
    Fault.runtimeError (ascii "supersede_profile: unknown profile " ++ tail) ≠
      cycleRejected "supersede_profile" id := by
  intro h
  have htake := congrArg (List.take 20) (Fault.runtimeError.inj h)
  rw [List.take_append_of_le_length (by decide), List.take_append_of_le_length (by decide)] at htake
  revert htake
  decide

theorem fingerprint_ne_cycleRejected {payload : Canon} {op : String} {id : Uuid} :
    canonicalFingerprintHex payload ≠ .error (cycleRejected op id) := by
  intro h
  obtain ⟨what, hwhat⟩ := Canon.canonicalFingerprintHex_error h
  simp [cycleRejected] at hwhat

/-- The state that a rejected cycle leaves. -/
theorem ProfileCall.ThrowsCycle.state {c : ProfileCall} {s : Registry} (h : c.ThrowsCycle s) :
    (c.run s).2 = c.beforeTest s := by
  unfold ThrowsCycle at h
  cases c with
  | register record =>
    simp only [run, registerRecord] at h ⊢
    cases hf : canonicalFingerprintHex record.payload with
    | error e =>
      rw [hf] at h
      exact absurd (hf.trans (congrArg Except.error (Except.error.inj h))) fingerprint_ne_cycleRejected
    | ok fingerprint =>
      rw [hf] at h
      simp only at h ⊢
      split_ifs at h ⊢
      rfl
  | supersede kind id payload deps provenance =>
    simp only [run, supersedeProfile] at h ⊢
    cases hl : s.profiles.lookup id with
    | none =>
      rw [hl] at h
      exact absurd (Except.error.inj h) (unknown_ne_cycleRejected _ _)
    | some hist =>
      rw [hl] at h
      cases hf : canonicalFingerprintHex payload with
      | error e =>
        rw [hf] at h
        exact absurd (hf.trans (congrArg Except.error (Except.error.inj h)))
          fingerprint_ne_cycleRejected
      | ok fingerprint =>
        rw [hf] at h
        simp only at h ⊢
        split_ifs at h ⊢
        rfl

/-! ### Deactivating and dropping edges -/

theorem deactivate_eq_self {p : ProfileRecord} : p.deactivate = p ↔ p.active = false := by
  unfold ProfileRecord.deactivate
  split_ifs with h
  · constructor
    · intro heq
      exact (congrArg ProfileRecord.active heq).symm
    · intro hf
      simp [h] at hf
  · simpa using h

/-- With nothing active in it a history stays as it is. -/
theorem lookup_deactivateAll_of_inactive {id : Uuid} {s : Registry}
    (h : ∀ p ∈ s.historyOf id, p.active = false) (id' : Uuid) :
    (deactivateAll id s).profiles.lookup id' = s.profiles.lookup id' := by
  unfold deactivateAll
  simp only [UMap.lookup_modify]
  split_ifs with hid
  · subst hid
    unfold historyOf at h
    cases hl : s.profiles.lookup id' with
    | none => rfl
    | some hist =>
      rw [hl] at h
      rw [Option.map_some, Option.some.injEq, History.ext_iff', History.map_records]
      exact (List.map_congr_left fun p hp => deactivate_eq_self.mpr (h p hp)).trans (List.map_id _)
  · rfl

theorem dependenciesOf_removeDependency (id : Uuid) (s : Registry) :
    (removeDependency id s).dependenciesOf id = [] := by
  unfold removeDependency dependenciesOf
  cases hl : s.deps.lookup id with
  | none => simp [hl]
  | some ds => simp

/-- Without edges to drop no query sees a difference. -/
theorem removeDependency_of_nil {id : Uuid} {s : Registry} (h : s.dependenciesOf id = []) :
    (∀ id', (removeDependency id s).dependenciesOf id' = s.dependenciesOf id') ∧
      (removeDependency id s).reverse = s.reverse := by
  unfold removeDependency
  cases hl : s.deps.lookup id with
  | none => exact ⟨fun _ => rfl, rfl⟩
  | some ds =>
    obtain rfl : ds = [] := by simpa [dependenciesOf, hl] using h
    refine ⟨fun id' => ?_, rfl⟩
    unfold dependenciesOf
    simp only [UMap.lookup_erase_ite]
    split_ifs with hid
    · rw [hid, hl]
      rfl
    · rfl

theorem SameObserved.trans {s₁ s₂ s₃ : Registry} (h₁ : SameObserved s₁ s₂) (h₂ : SameObserved s₂ s₃) :
    SameObserved s₁ s₃ where
  historyOf id := (h₂.historyOf id).trans (h₁.historyOf id)
  findProfile id b := (h₂.findProfile id b).trans (h₁.findProfile id b)
  dependenciesOf id := (h₂.dependenciesOf id).trans (h₁.dependenciesOf id)
  dependentsOf id := (h₂.dependentsOf id).trans (h₁.dependentsOf id)
  rules id := (h₂.rules id).trans (h₁.rules id)
  evidence id := (h₂.evidence id).trans (h₁.evidence id)
  invalidations := h₂.invalidations.trans h₁.invalidations
  registryGen := h₂.registryGen.trans h₁.registryGen

theorem deactivateAll_sameObserved {id : Uuid} {s : Registry}
    (h : ∀ p ∈ s.historyOf id, p.active = false) : SameObserved s (deactivateAll id s) where
  historyOf id' := by
    unfold historyOf
    rw [lookup_deactivateAll_of_inactive h]
  findProfile id' b := by
    unfold findProfile
    rw [lookup_deactivateAll_of_inactive h]
  dependenciesOf _ := rfl
  dependentsOf _ := rfl
  rules _ := rfl
  evidence _ := rfl
  invalidations := rfl
  registryGen := rfl

theorem removeDependency_sameObserved {id : Uuid} {s : Registry} (h : s.dependenciesOf id = []) :
    SameObserved s (removeDependency id s) := by
  obtain ⟨hdeps, hreverse⟩ := removeDependency_of_nil h
  obtain ⟨d, r, heq⟩ := removeDependency_eq id s
  rw [heq] at hdeps hreverse ⊢
  exact ⟨fun _ => rfl, fun _ _ => rfl, hdeps, fun id' => by rw [dependentsOf, dependentsOf, hreverse],
    fun _ => rfl, fun _ => rfl, rfl, rfl⟩

theorem ProfileCall.beforeTest_history (c : ProfileCall) (s : Registry) :
    (c.beforeTest s).historyOf c.id = (s.historyOf c.id).map ProfileRecord.deactivate := by
  cases c with
  | register record => exact (historyOf_deactivateAll _ _ s).trans (if_pos rfl)
  | supersede kind id payload deps provenance =>
    obtain ⟨d, r, heq⟩ := removeDependency_eq id (deactivateAll id s)
    show (removeDependency id (deactivateAll id s)).historyOf id = _
    rw [heq]
    exact (historyOf_deactivateAll _ _ s).trans (if_pos rfl)

/-- A call that throws the cycle error, in any state, leaves what can be observed
as it was exactly when it had nothing to undo. -/
theorem cycle_error_unchanged_iff (c : ProfileCall) (s : Registry) (h : c.ThrowsCycle s) :
    SameObserved s (c.run s).2 ↔ c.NothingToUndo s := by
  rw [h.state]
  constructor
  · intro hsame
    have hhist := (c.beforeTest_history s).symm.trans (hsame.historyOf c.id)
    refine ⟨fun p hp => ?_, ?_⟩
    · have hfix := (List.map_inj_left (g := id)).mp (hhist.trans (List.map_id _).symm) p hp
      exact deactivate_eq_self.mp hfix
    · cases c with
      | register record => trivial
      | supersede kind id payload deps provenance =>
        exact (hsame.dependenciesOf id).symm.trans (dependenciesOf_removeDependency id _)
  · rintro ⟨hinactive, hedges⟩
    have hdeactivate := deactivateAll_sameObserved hinactive
    cases c with
    | register record => exact hdeactivate
    | supersede kind id payload deps provenance =>
      exact hdeactivate.trans (removeDependency_sameObserved hedges)

/-! ### Two profiles

`base` is registered without dependencies and `user` with a dependency on it.
Registering `base` again with a dependency on `user` is rejected. -/

def base : Uuid := ⟨List.replicate 15 0 ++ [1], rfl⟩

def user : Uuid := ⟨List.replicate 15 0 ++ [2], rfl⟩

def modelRecord (id : Uuid) (deps : List Uuid) : ProfileRecord :=
  { kind := .declared .model, payload := .record [], id, deps }

def baseAndUser : Registry :=
  (registerRecord (modelRecord user [base]) (registerRecord (modelRecord base []) {}).2).2

def backEdge : ProfileCall := .register (modelRecord base [user])

theorem cycle_error_changes_baseAndUser :
    backEdge.ThrowsCycle baseAndUser ∧ ¬ SameObserved baseAndUser (backEdge.run baseAndUser).2 := by
  constructor
  · unfold ProfileCall.ThrowsCycle
    decide +kernel
  · intro h
    have hactive := congrArg (List.map ProfileRecord.active) (h.historyOf base)
    revert hactive
    decide +kernel

/-- With `base` invalidated before, the rejected call changes nothing. -/
theorem cycle_error_unchanged_invalidated :
    SameObserved (invalidateProfile base [] baseAndUser).2
      (backEdge.run (invalidateProfile base [] baseAndUser).2).2 := by
  refine (cycle_error_unchanged_iff backEdge _ ?_).mpr ⟨?_, trivial⟩
  · unfold ProfileCall.ThrowsCycle
    decide +kernel
  · have hall : ((invalidateProfile base [] baseAndUser).2.historyOf base).all (! ·.active) = true := by
      decide +kernel
    show ∀ p ∈ (invalidateProfile base [] baseAndUser).2.historyOf base, p.active = false
    simpa using hall

end Registry

end CompatRegistry
