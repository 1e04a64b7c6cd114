import CompatRegistry.Capability
import CompatRegistry.Canon.Order

/-! The canonical value of a capability set. Its identity fields and the capabilities of
the caller share the tags of one record, in which the identity fields have the tags one
to three. -/

namespace CompatRegistry

open Foundation Canon

namespace CapabilitySet

/-- What `to_canon` puts in front of the capabilities. -/
def identity (s : CapabilitySet) : Record :=
  [(1, .uuid s.id), (2, .uint s.generation), (3, .uint s.kind.toUInt64)]

def toCanon (s : CapabilitySet) : Result Canon := mkRecord (s.identity ++ s.caps)

/-- The tag is not one of the identity fields. -/
def Free (tag : UInt32) : Prop := tag ≠ 1 ∧ tag ≠ 2 ∧ tag ≠ 3

/-- No capability is stored under the tag of an identity field. -/
def Unreserved (s : CapabilitySet) : Prop := ∀ e ∈ s.caps, Free e.1

/-- The tag/value map of the capabilities. -/
def stored (s : CapabilitySet) : Spec := fun tag => SortedMap.find tag s.caps

structure SameContent (s s' : CapabilitySet) : Prop where
  id : s.id = s'.id
  generation : s.generation = s'.generation
  kind : s.kind = s'.kind
  stored : s.stored = s'.stored

/-- Both sets have a canonical value, and it tells their contents apart. -/
def Identified (s s' : CapabilitySet) : Prop :=
  ∃ c c', s.toCanon = .ok c ∧ s'.toCanon = .ok c' ∧ (c = c' ↔ SameContent s s')

theorem mem_identity_tag {s : CapabilitySet} {e : UInt32 × Canon} (h : e ∈ s.identity) : ¬ Free e.1 := by
  simp only [identity, List.mem_cons, List.not_mem_nil, or_false] at h
  rcases h with rfl | rfl | rfl <;> simp [Free]

theorem tags_nodup_iff {s : CapabilitySet} :
    ((s.identity ++ s.caps).map Prod.fst).Nodup ↔ s.Unreserved := by
  have hcaps : (s.caps.map Prod.fst).Nodup := s.sorted.imp ne_of_lt
  have hidentity : (s.identity.map Prod.fst).Nodup := by simp [identity]
  rw [List.map_append, List.nodup_append]
  constructor
  · rintro ⟨-, -, hdisjoint⟩ e he
    have hne := fun tag (htag : tag ∈ s.identity.map Prod.fst) =>
      (hdisjoint tag htag e.1 (List.mem_map_of_mem he)).symm
    exact ⟨hne 1 (by simp [identity]), hne 2 (by simp [identity]), hne 3 (by simp [identity])⟩
  · intro h
    refine ⟨hidentity, hcaps, fun tag htag tag' htag' => ?_⟩
    obtain ⟨e, he, rfl⟩ := List.mem_map.mp htag
    obtain ⟨e', he', rfl⟩ := List.mem_map.mp htag'
    exact fun heq => mem_identity_tag he (heq ▸ h e' he')

/-- The canonical value exists unless a capability has a reserved tag. -/
theorem toCanon_isOk {s : CapabilitySet} : (∃ c, s.toCanon = .ok c) ↔ s.Unreserved :=
  mkRecord_isOk.trans tags_nodup_iff

theorem stored_eq_some_iff {s : CapabilitySet} {tag : UInt32} {v : Canon} :
    s.stored tag = some v ↔ (tag, v) ∈ s.caps := SortedMap.find_eq_some_iff s.sorted

section Pair
variable {s s' : CapabilitySet}

/-- The entries of a free tag are capabilities. -/
theorem mem_caps_of_free {e : UInt32 × Canon} (he : e ∈ s.identity ++ s.caps) (hfree : Free e.1) :
    e ∈ s.caps :=
  (List.mem_append.mp he).resolve_left fun h => mem_identity_tag h hfree

/-- The entries of a reserved tag are identity fields. -/
theorem mem_identity_of_not_free {e : UInt32 × Canon} (h : s.Unreserved) (he : e ∈ s.identity ++ s.caps)
    (hfree : ¬ Free e.1) : e ∈ s.identity :=
  (List.mem_append.mp he).resolve_right fun hmem => hfree (h e hmem)

theorem sameContent_of_entries (h : s.Unreserved) (h' : s'.Unreserved)
    (hmem : ∀ e, e ∈ s.identity ++ s.caps ↔ e ∈ s'.identity ++ s'.caps) : SameContent s s' := by
  have hidentity : ∀ e ∈ s.identity, e ∈ s'.identity := fun e he =>
    mem_identity_of_not_free h' ((hmem e).mp (List.mem_append_left _ he)) (mem_identity_tag he)
  have hid := hidentity (1, .uuid s.id) (by simp [identity])
  have hgeneration := hidentity (2, .uint s.generation) (by simp [identity])
  have hkind := hidentity (3, .uint s.kind.toUInt64) (by simp [identity])
  refine ⟨by simpa [identity] using hid, by simpa [identity] using hgeneration, ?_, ?_⟩
  · have hcast : s.kind.toUInt64 = s'.kind.toUInt64 := by simpa [identity] using hkind
    rw [← Enum8.cast_toUInt64 s.kind, hcast, Enum8.cast_toUInt64]
  · funext tag
    refine Option.ext fun v => ?_
    rw [stored_eq_some_iff, stored_eq_some_iff]
    constructor
    · intro he
      exact mem_caps_of_free ((hmem _).mp (List.mem_append_right _ he)) (h _ he)
    · intro he
      exact mem_caps_of_free ((hmem _).mpr (List.mem_append_right _ he)) (h' _ he)

theorem SameContent.entries (h : SameContent s s') (e : UInt32 × Canon) :
    e ∈ s.identity ++ s.caps ↔ e ∈ s'.identity ++ s'.caps := by
  have hcaps : e ∈ s.caps ↔ e ∈ s'.caps := by
    rw [← stored_eq_some_iff, ← stored_eq_some_iff, h.stored]
  rw [List.mem_append, List.mem_append, hcaps, identity, identity, h.id, h.generation, h.kind]

/-- Without reserved tags, canonical values are equal exactly for equal contents. -/
theorem toCanon_eq_iff (h : s.Unreserved) (h' : s'.Unreserved) :
    s.toCanon = s'.toCanon ↔ SameContent s s' := by
  have hnodup := tags_nodup_iff.mpr h
  have hnodup' := tags_nodup_iff.mpr h'
  constructor
  · intro heq
    obtain ⟨c, hc⟩ := toCanon_isOk.mpr h
    have hc' : s'.toCanon = .ok c := heq ▸ hc
    exact sameContent_of_entries h h' fun e =>
      (mkRecord_field hc e.1 e.2).symm.trans (mkRecord_field hc' e.1 e.2)
  · intro hsame
    exact mkRecord_perm ((List.perm_ext_iff_of_nodup hnodup.of_map hnodup'.of_map).mpr hsame.entries)

/-- Two sets are told apart by their canonical values exactly when neither stores a
capability under a tag of the identity fields. -/
theorem identified_iff : Identified s s' ↔ s.Unreserved ∧ s'.Unreserved := by
  constructor
  · rintro ⟨c, c', hc, hc', -⟩
    exact ⟨toCanon_isOk.mp ⟨c, hc⟩, toCanon_isOk.mp ⟨c', hc'⟩⟩
  · rintro ⟨h, h'⟩
    obtain ⟨c, hc⟩ := toCanon_isOk.mpr h
    obtain ⟨c', hc'⟩ := toCanon_isOk.mpr h'
    refine ⟨c, c', hc, hc', ?_⟩
    rw [← toCanon_eq_iff h h', hc, hc', Except.ok.injEq]

end Pair

/-! ### Runs -/

/-- A call that stores at free tags only adds no entry of another tag. -/
theorem Unreserved.step {s : CapabilitySet} (h : s.Unreserved) {c : Call}
    (hfree : ∀ tag v, c.write = .ok (tag, some v) → Free tag) : (s.step c).Unreserved := by
  cases hwrite : c.write with
  | error e => rwa [step_of_error hwrite]
  | ok w =>
    obtain ⟨tag, v⟩ := w
    cases v with
    | some v =>
      rw [step_eq_put hwrite]
      intro e he
      rcases (SortedMap.mem_put s.sorted e).mp he with rfl | ⟨he, -⟩
      · exact hfree tag v hwrite
      · exact h e he
    | none =>
      obtain rfl := write_eq_none hwrite
      intro e he
      have he' : e ∈ (s.unset tag).caps := he
      rw [unset_caps, SortedMap.mem_eraseLowerBound s.sorted] at he'
      exact h e he'.1

/-- No call stores a value under the tag of an identity field. -/
def StoresFree (calls : List Call) : Prop :=
  ∀ c ∈ calls, ∀ tag v, c.write = .ok (tag, some v) → Free tag

section Runs
variable {i i' : Uuid} {g g' : Generation} {k k' : Enum8 CapabilityKind} {calls calls' : List Call}

theorem unreserved_run (h : StoresFree calls) : ((new i g k).run calls).Unreserved := by
  induction calls using List.reverseRecOn with
  | nil => simp [run, new, Unreserved]
  | append_singleton p c ih =>
    rw [run, List.foldl_append, List.foldl_cons, List.foldl_nil]
    exact (ih fun c hc => h c (List.mem_append_left _ hc)).step (h c (by simp))

/-- What a call stores is there when it returns. -/
theorem storesFree_of_prefixes (h : ∀ p, p <+: calls → ((new i g k).run p).Unreserved) : StoresFree calls := by
  intro c hc tag v hwrite
  obtain ⟨p, q, rfl⟩ := List.append_of_mem hc
  have hprefix : p ++ [c] <+: p ++ c :: q := ⟨q, by simp⟩
  refine h (p ++ [c]) hprefix (tag, v) ?_
  rw [run, List.foldl_append, List.foldl_cons, List.foldl_nil, step_eq_put hwrite]
  exact (SortedMap.mem_put (sorted _) (tag, v)).mpr (.inl rfl)

variable (i i' g g' k k' calls calls') in
/-- Two sets are told apart by their canonical values exactly when no reserved tag is
stored, and throughout their runs exactly when no call stores at one. -/
theorem run_identified_iff :
    (Identified ((new i g k).run calls) ((new i' g' k').run calls') ↔
        ((new i g k).run calls).Unreserved ∧ ((new i' g' k').run calls').Unreserved) ∧
      ((∀ p p', p <+: calls → p' <+: calls' →
          Identified ((new i g k).run p) ((new i' g' k').run p')) ↔
        StoresFree calls ∧ StoresFree calls') := by
  refine ⟨identified_iff, fun h => ?_, fun ⟨h, h'⟩ p p' hp hp' => ?_⟩
  · exact ⟨storesFree_of_prefixes fun p hp => (identified_iff.mp (h p [] hp (List.nil_prefix))).1,
      storesFree_of_prefixes fun p' hp' => (identified_iff.mp (h [] p' (List.nil_prefix) hp')).2⟩
  · exact identified_iff.mpr ⟨unreserved_run fun c hc => h c (hp.subset hc),
      unreserved_run fun c hc => h' c (hp'.subset hc)⟩

end Runs

/-- A capability of tag one, such as `compute_capability`, collides with the id. -/
theorem not_identified_tagOne :
    ¬ Identified ((new Uuid.zero 0 (.declared .device)).run [.setUint 1 120])
      ((new Uuid.zero 0 (.declared .device)).run [.setUint 1 120]) := by
  rintro ⟨c, c', hc, -⟩
  obtain ⟨hne, -⟩ := toCanon_isOk.mp ⟨c, hc⟩ (1, .uint 120) (List.mem_singleton.mpr rfl)
  exact hne rfl

end CapabilitySet

end CompatRegistry
