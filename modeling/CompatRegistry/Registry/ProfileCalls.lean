import CompatRegistry.Registry.CycleRejection

/-! What the two profile calls come to, said once for both: an error before anything
has changed, a repeat of the newest record, a rejected cycle, or a new generation. What
is found after a call that returns is what was asked for, except where a repeat does
not look at the kind and where the record of the caller is not active. -/

namespace CompatRegistry

open Foundation

namespace Registry

namespace ProfileCall

def kind : ProfileCall → Enum8 ProfileKind
  | .register record => record.kind
  | .supersede kind _ _ _ _ => kind

def payload : ProfileCall → Canon
  | .register record => record.payload
  | .supersede _ _ payload _ _ => payload

def deps : ProfileCall → List Uuid
  | .register record => record.deps
  | .supersede _ _ _ deps _ => deps

/-- The flag of the record that the call appends. -/
def active : ProfileCall → Bool
  | .register record => record.active
  | .supersede _ _ _ _ _ => true

/-- A call that supersedes has to find the profile. -/
def Known (c : ProfileCall) (s : Registry) : Prop :=
  match c with
  | .register _ => True
  | .supersede _ id _ _ _ => (s.profiles.lookup id).isSome = true

/-- The record that the call appends. -/
def newRecord (c : ProfileCall) (fingerprint : Bytes) (s : Registry) : ProfileRecord :=
  match c with
  | .register record =>
    { record with fingerprint, generation := nextGeneration (s.profiles.lookup record.id) }
  | .supersede kind id payload deps provenance =>
    { kind, payload, id, deps, provenance, fingerprint
      generation := nextGeneration (s.profiles.lookup id) }

/-- What a call has to find in the newest record to count as a repeat of it; only
registering compares the kinds. -/
structure RepeatOf (c : ProfileCall) (latest : ProfileRecord) : Prop where
  active : latest.active = true
  fingerprint : canonicalFingerprintHex c.payload = .ok latest.fingerprint
  deps : latest.deps = c.deps
  kind : (match c with
    | .register record => latest.kind = record.kind
    | .supersede _ _ _ _ _ => True)

def Repeats (c : ProfileCall) (s : Registry) : Prop :=
  ∃ hist, s.profiles.lookup c.id = some hist ∧ c.RepeatOf hist.back

/-- The ways in which a profile call ends. -/
inductive Ends (c : ProfileCall) (s : Registry) : Result Uuid × Registry → Prop
  | refused {e : Fault} (early : ¬ c.Known s ∨ canonicalFingerprintHex c.payload = .error e)
      (other : e ≠ cycleRejected c.name c.id) : Ends c s (.error e, s)
  | repeated (repeats : c.Repeats s) : Ends c s (.ok c.id, s)
  | rejected (known : c.Known s) (new : ¬ c.Repeats s)
      (cyclic : createCycle c.id c.deps (c.beforeTest s) = true) :
      Ends c s (.error (cycleRejected c.name c.id), c.beforeTest s)
  | appended {fingerprint : Bytes} (known : c.Known s) (new : ¬ c.Repeats s)
      (encodes : canonicalFingerprintHex c.payload = .ok fingerprint)
      (acyclic : createCycle c.id c.deps (c.beforeTest s) = false) :
      Ends c s (.ok c.id, appendRecord (c.newRecord fingerprint s) (c.beforeTest s))

theorem sameContent_iff {latest record : ProfileRecord} : sameContent latest record = true ↔
    latest.active = true ∧ latest.fingerprint = record.fingerprint ∧ latest.deps = record.deps := by
  simp [sameContent, and_assoc]

theorem register_repeats_iff {record : ProfileRecord} {s : Registry} {fingerprint : Bytes}
    (hf : canonicalFingerprintHex record.payload = .ok fingerprint) :
    (s.profiles.lookup record.id).any (fun h =>
        sameContent h.back { record with fingerprint := fingerprint } && h.back.kind == record.kind) = true ↔
      (ProfileCall.register record).Repeats s := by
  simp only [Option.any_eq_true, Bool.and_eq_true, sameContent_iff, beq_iff_eq]
  constructor
  · rintro ⟨hist, hl, ⟨hactive, hfingerprint, hdeps⟩, hkind⟩
    exact ⟨hist, hl, hactive, hf.trans (congrArg Except.ok hfingerprint.symm), hdeps, hkind⟩
  · rintro ⟨hist, hl, hrepeat⟩
    have hfingerprint := Except.ok.inj (hf.symm.trans hrepeat.fingerprint)
    exact ⟨hist, hl, ⟨hrepeat.active, hfingerprint.symm, hrepeat.deps⟩, hrepeat.kind⟩

theorem supersede_repeats_iff {kind : Enum8 ProfileKind} {id : Uuid} {payload : Canon} {deps : List Uuid}
    {provenance fingerprint : Bytes} {s : Registry} {hist : History}
    (hl : s.profiles.lookup id = some hist) (hf : canonicalFingerprintHex payload = .ok fingerprint) :
    sameContent hist.back { kind, payload, id, deps, provenance, fingerprint } = true ↔
      (ProfileCall.supersede kind id payload deps provenance).Repeats s := by
  rw [sameContent_iff]
  constructor
  · rintro ⟨hactive, hfingerprint, hdeps⟩
    exact ⟨hist, hl, hactive, hf.trans (congrArg Except.ok hfingerprint.symm), hdeps, trivial⟩
  · rintro ⟨hist', hl', hrepeat⟩
    obtain rfl := Option.some.inj (hl.symm.trans hl')
    have hfingerprint := Except.ok.inj (hf.symm.trans hrepeat.fingerprint)
    exact ⟨hrepeat.active, hfingerprint.symm, hrepeat.deps⟩

/-- Every profile call ends in one of the four ways. -/
theorem ends (c : ProfileCall) (s : Registry) : c.Ends s (c.run s) := by
  cases c with
  | register record =>
    simp only [run, registerRecord]
    cases hf : canonicalFingerprintHex record.payload with
    | error e =>
      refine .refused (.inr hf) ?_
      rintro rfl
      exact fingerprint_ne_cycleRejected hf
    | ok fingerprint =>
      simp only
      split_ifs with hrepeats hcycle
      · exact .repeated ((register_repeats_iff hf).mp hrepeats)
      · exact .rejected trivial (mt (register_repeats_iff hf).mpr hrepeats) hcycle
      · exact .appended trivial (mt (register_repeats_iff hf).mpr hrepeats) hf (Bool.not_eq_true _ ▸ hcycle)
  | supersede kind id payload deps provenance =>
    simp only [run, supersedeProfile]
    cases hl : s.profiles.lookup id with
    | none =>
      refine .refused (.inl ?_) (unknown_ne_cycleRejected _ _)
      simp [Known, hl]
    | some hist =>
      have hknown : (ProfileCall.supersede kind id payload deps provenance).Known s := by
        simp [Known, hl]
      cases hf : canonicalFingerprintHex payload with
      | error e =>
        refine .refused (.inr hf) ?_
        rintro rfl
        exact fingerprint_ne_cycleRejected hf
      | ok fingerprint =>
        simp only
        rw [← hl]
        split_ifs with hrepeats hcycle
        · exact .repeated ((supersede_repeats_iff hl hf).mp hrepeats)
        · exact .rejected hknown (mt (supersede_repeats_iff hl hf).mpr hrepeats) hcycle
        · exact .appended hknown (mt (supersede_repeats_iff hl hf).mpr hrepeats) hf (Bool.not_eq_true _ ▸ hcycle)

/-! ### What is found afterwards -/

/-- The profile is found with an active record of the kind, payload and dependencies
that the call asks for. -/
def Found (c : ProfileCall) (t : Registry) : Prop :=
  ∃ p, t.findProfile c.id = some p ∧ p.active = true ∧ p.kind = c.kind ∧
    canonicalFingerprintHex c.payload = .ok p.fingerprint ∧ p.deps = c.deps

/-- The kind is that of the record that the call repeats, and a record that is not a
repeat is to be active. -/
def Honoured (c : ProfileCall) (s : Registry) : Prop :=
  (∀ hist, s.profiles.lookup c.id = some hist → c.RepeatOf hist.back → hist.back.kind = c.kind) ∧
    (¬ c.Repeats s → c.active = true)

theorem findProfile_eq_find? (s : Registry) (id : Uuid) :
    s.findProfile id = (s.historyOf id).reverse.find? (·.active) := by
  unfold findProfile historyOf
  cases s.profiles.lookup id with
  | none => rfl
  | some hist =>
    have hrecords : hist.records = hist.records.dropLast ++ [hist.back] :=
      (List.dropLast_append_getLast hist.nonempty).symm
    simp only [Bool.false_eq_true, if_false]
    split_ifs with hactive
    · rw [hrecords, List.reverse_append, List.reverse_singleton, List.singleton_append,
        List.find?_cons_of_pos hactive]
    · rfl

theorem found_of_repeats {c : ProfileCall} {s : Registry} {hist : History}
    (hl : s.profiles.lookup c.id = some hist) (hrepeat : c.RepeatOf hist.back) :
    c.Found s ↔ hist.back.kind = c.kind := by
  have hfind : s.findProfile c.id = some hist.back := by
    unfold findProfile
    rw [hl]
    simp [hrepeat.active]
  constructor
  · rintro ⟨p, hp, -, hkind, -, -⟩
    rw [hfind, Option.some.injEq] at hp
    rw [hp]
    exact hkind
  · exact fun hkind => ⟨hist.back, hfind, hrepeat.active, hkind, hrepeat.fingerprint, hrepeat.deps⟩

/-- The older generations are inactive by then, so only the appended record can be found. -/
theorem findProfile_appended (c : ProfileCall) (fingerprint : Bytes) (s : Registry) :
    (appendRecord (c.newRecord fingerprint s) (c.beforeTest s)).findProfile c.id =
      if c.active = true then some (c.newRecord fingerprint s) else none := by
  have hid : (c.newRecord fingerprint s).id = c.id := by cases c <;> rfl
  have hflag : (c.newRecord fingerprint s).active = c.active := by cases c <;> rfl
  have hold : ((c.beforeTest s).historyOf c.id).reverse.find? (·.active) = none := by
    rw [c.beforeTest_history, List.find?_eq_none]
    intro p hp
    obtain ⟨q, -, rfl⟩ := List.mem_map.mp (List.mem_reverse.mp hp)
    rw [q.deactivate_active]
    exact Bool.false_ne_true
  rw [findProfile_eq_find?, historyOf_appendRecord, hid, if_pos rfl, List.reverse_append,
    List.reverse_singleton, List.singleton_append]
  split_ifs with hactive
  · exact List.find?_cons_of_pos (hflag.trans hactive)
  · rw [List.find?_cons_of_neg (by rw [hflag]; exact hactive)]
    exact hold

theorem found_of_appended {c : ProfileCall} {s : Registry} {fingerprint : Bytes}
    (encodes : canonicalFingerprintHex c.payload = .ok fingerprint) :
    c.Found (appendRecord (c.newRecord fingerprint s) (c.beforeTest s)) ↔ c.active = true := by
  have hfind := c.findProfile_appended fingerprint s
  constructor
  · rintro ⟨p, hp, -⟩
    by_contra hinactive
    rw [hfind, if_neg hinactive] at hp
    cases hp
  · intro hactive
    rw [if_pos hactive] at hfind
    refine ⟨c.newRecord fingerprint s, hfind, ?_, ?_, ?_, ?_⟩
    · rw [← hactive]
      cases c <;> rfl
    · cases c <;> rfl
    · rw [encodes]
      cases c <;> rfl
    · cases c <;> rfl

/-- After a call that returns, the profile is found as asked for exactly when the call
repeats a record of its kind or appends an active one. -/
theorem found_iff_honoured {c : ProfileCall} {s : Registry} {id : Uuid} (h : (c.run s).1 = .ok id) :
    c.Found (c.run s).2 ↔ c.Honoured s := by
  have hends := c.ends s
  generalize c.run s = result at hends h ⊢
  cases hends with
  | refused early other => cases h
  | repeated repeats =>
    obtain ⟨hist, hl, hrepeat⟩ := repeats
    rw [found_of_repeats hl hrepeat]
    constructor
    · intro hkind
      refine ⟨fun hist' hl' _ => ?_, fun hnew => absurd ⟨hist, hl, hrepeat⟩ hnew⟩
      rw [← Option.some.inj (hl.symm.trans hl')]
      exact hkind
    · exact fun hhonoured => hhonoured.1 hist hl hrepeat
  | rejected known new cyclic => cases h
  | appended known new encodes acyclic =>
    rw [found_of_appended encodes]
    constructor
    · exact fun hactive => ⟨fun hist hl hrepeat => absurd ⟨hist, hl, hrepeat⟩ new, fun _ => hactive⟩
    · exact fun hhonoured => hhonoured.2 new

/-- Superseding `base` with what it already is, under the kind of a model and of a device. -/
def repeatBase (kind : ProfileKind) : ProfileCall := .supersede (.declared kind) base (.record []) [] []

theorem found_iff_honoured_model : (repeatBase .model).Found ((repeatBase .model).run baseAndUser).2 := by
  have hreturns : ((repeatBase .model).run baseAndUser).1 = .ok base := by decide +kernel
  apply (found_iff_honoured hreturns).mpr
  refine ⟨fun hist hl _ => ?_, fun _ => rfl⟩
  have hkind : ((baseAndUser.profiles.lookup base).all fun h => h.back.kind = .declared .model) = true := by
    decide +kernel
  change baseAndUser.profiles.lookup base = some hist at hl
  rw [hl, Option.all_some] at hkind
  exact of_decide_eq_true hkind

/-- A record of the caller that is not active. -/
def inactiveUser : ProfileCall := .register { modelRecord user [] with active := false }

theorem not_found_device : (∃ id, ((repeatBase .device).run baseAndUser).1 = .ok id ∧
      ¬ (repeatBase .device).Found ((repeatBase .device).run baseAndUser).2) ∧
    ∃ id, (inactiveUser.run baseAndUser).1 = .ok id ∧
      ¬ inactiveUser.Found (inactiveUser.run baseAndUser).2 := by
  refine ⟨⟨base, by decide +kernel, ?_⟩, ⟨user, by decide +kernel, ?_⟩⟩
  · rintro ⟨p, hp, -, hkind, -⟩
    have hmodel : ((((repeatBase .device).run baseAndUser).2.findProfile base).all fun p =>
        p.kind = .declared .model) = true := by
      decide +kernel
    change ((repeatBase .device).run baseAndUser).2.findProfile base = some p at hp
    rw [hp, Option.all_some] at hmodel
    rw [of_decide_eq_true hmodel] at hkind
    cases hkind
  · rintro ⟨p, hp, -⟩
    have hnone : ((inactiveUser.run baseAndUser).2.findProfile user).isNone = true := by
      decide +kernel
    change (inactiveUser.run baseAndUser).2.findProfile user = some p at hp
    rw [hp] at hnone
    cases hnone

end ProfileCall

end Registry

end CompatRegistry
