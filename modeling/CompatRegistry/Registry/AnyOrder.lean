import CompatRegistry.Registry.CycleExact
import CompatRegistry.Registry.Recovery
import CompatRegistry.Registry.PairSpec

/-! Registering new profiles in any order. Whether all of them are accepted is a
property of the final graph, because every graph on the way is a part of it and only
registered profiles have edges. What is stored is said without an order, and the
answers of the registry do not show the order in which its maps were filled. -/

namespace CompatRegistry

open Foundation Canon Relation

/-- The record as the first generation of its profile. -/
def ProfileRecord.first (record : ProfileRecord) : ProfileRecord :=
  { record with
    generation := 1
    fingerprint := Sha256.hex (Sha256.compute record.payload.encoding) }

namespace Registry

/-! ### Only registered profiles have edges -/

def Rooted (s : Registry) : Prop := ∀ id, s.historyOf id = [] → s.dependenciesOf id = []

theorem Prepared.dependenciesOf {id : Uuid} {s t : Registry} (h : Prepared id s t) {x : Uuid}
    (hx : s.dependenciesOf x = []) : t.dependenciesOf x = [] := by
  cases h with
  | deactivated => exact hx
  | dropped =>
    apply (adjacent_removeDependency id x (deactivateAll id s)).trans
    split_ifs
    · rfl
    · exact hx

theorem dependenciesOf_appendRecord (record : ProfileRecord) (s : Registry) (x : Uuid) :
    (appendRecord record s).dependenciesOf x =
      if x = record.id then record.deps.filter (· ≠ record.id) else s.dependenciesOf x :=
  dependenciesOf_addDependency record.id record.deps _ x

theorem Effect.rooted {s t : Registry} (he : Effect s t) (h : Rooted s) : Rooted t := by
  intro id hid
  have hbefore : s.historyOf id = [] := by
    have hgrows := (he.historyStep id).grows
    rw [hid] at hgrows
    exact Grows.eq_nil hgrows
  have hs := h id hbefore
  cases he with
  | unchanged => exact hs
  | rejected prepared cyclic => exact prepared.dependenciesOf hs
  | @appended record u prepared sound generation acyclic =>
    rw [historyOf_appendRecord] at hid
    rw [dependenciesOf_appendRecord]
    split_ifs at hid ⊢ with hx
    · exact absurd hid (List.append_ne_nil_of_right_ne_nil _ (List.cons_ne_nil _ _))
    · exact prepared.dependenciesOf hs
  | retired id reason known =>
    obtain ⟨p, i, heq⟩ := invalidateWith_eq id reason s
    rw [heq]
    exact hs
  | propagated id =>
    obtain ⟨p, i, heq⟩ := propagateLoop_eq s.reverse [id] [] s
    unfold propagateInvalidation
    rw [heq]
    exact hs
  | ruleStored => exact hs
  | evidenceStored => exact hs
  | policySet => exact hs
  | decided => exact hs

theorem rebuildEdges_rooted {s : Registry} (hs : s.deps = ∅) : Rooted (rebuildEdges s) := by
  intro id hid
  have hhistory : (rebuildEdges s).historyOf id = s.historyOf id := by
    obtain ⟨d, r, heq⟩ := rebuildEdges_eq s
    rw [heq]
    rfl
  rw [hhistory] at hid
  rw [dependenciesOf_rebuildEdges hs, newestDeps, hid]
  rfl

theorem recover_rooted {bytes : Bytes} {t : Registry} (h : recover bytes = .ok t) : Rooted t := by
  obtain ⟨s, hs⟩ := recover_rebuilt h
  obtain ⟨r, e, i, d, rfl⟩ := hs.edges
  exact rebuildEdges_rooted hs.deps

theorem Reachable.rooted {s : Registry} (h : Reachable s) : Rooted s := by
  induction h with
  | empty => exact fun id _ => rfl
  | step op hop hs ih => exact (Op.run_effect hop hs.inv).rooted ih
  | reorder _ hst ih =>
    intro id hid
    rw [hst.historyOf] at hid
    unfold Registry.dependenciesOf
    rw [← hst.deps.lookup]
    exact ih id hid
  | recover _ _ ht _ => exact recover_rooted ht

/-! ### Registering new profiles -/

/-- The calls of `register_profile` in this order, up to the first that throws. -/
def registerRecords : List ProfileRecord → Step Unit
  | [] => fun s => (.ok (), s)
  | p :: ps => fun s =>
    match registerRecord p s with
    | (.error e, s) => (.error e, s)
    | (.ok _, s) => registerRecords ps s

theorem registerRecords_cons_ok {record : ProfileRecord} {s t : Registry} {id : Uuid}
    (h : registerRecord record s = (.ok id, t)) (records : List ProfileRecord) :
    registerRecords (record :: records) s = registerRecords records t := by
  simp only [registerRecords, h]

theorem registerRecords_cons_error {record : ProfileRecord} {s t : Registry} {e : Fault}
    (h : registerRecord record s = (.error e, t)) (records : List ProfileRecord) :
    registerRecords (record :: records) s = (.error e, t) := by
  simp only [registerRecords, h]

/-- Well-formed records of distinct profiles, none of which is registered. -/
structure Fresh (records : List ProfileRecord) (s : Registry) : Prop where
  wf : ∀ record ∈ records, record.payload.WF
  nodup : (records.map ProfileRecord.id).Nodup
  new : ∀ record ∈ records, s.profiles.lookup record.id = none

theorem registerRecord_new {record : ProfileRecord} {s : Registry} (hwf : record.payload.WF)
    (hnew : s.profiles.lookup record.id = none) :
    registerRecord record s =
      if createCycle record.id record.deps s then
        (.error (cycleRejected "register_profile" record.id), deactivateAll record.id s)
      else (.ok record.id, appendRecord record.first (deactivateAll record.id s)) := by
  unfold registerRecord
  rw [canonicalFingerprintHex_of_wf hwf]
  simp only [hnew]
  rfl

/-- What the records of a list leave behind, in whatever order they came. -/
structure Joined (records : List ProfileRecord) (s t : Registry) : Prop where
  registryGen : t.registryGen = s.registryGen + UInt64.ofNat records.length
  new : ∀ record ∈ records, t.profiles.lookup record.id = some (.single record.first)
  old : ∀ id, (∀ record ∈ records, record.id ≠ id) → t.profiles.lookup id = s.profiles.lookup id
  newDeps : ∀ record ∈ records, t.dependenciesOf record.id = record.deps.filter (· ≠ record.id)
  oldDeps : ∀ id, (∀ record ∈ records, record.id ≠ id) → t.dependenciesOf id = s.dependenciesOf id
  rest : ∃ p d r g, t = { s with profiles := p, deps := d, reverse := r, registryGen := g }

theorem Joined.nil (s : Registry) : Joined [] s s where
  registryGen := (UInt64.add_zero _).symm
  new _ h := by cases h
  old _ _ := rfl
  newDeps _ h := by cases h
  oldDeps _ _ := rfl
  rest := ⟨s.profiles, s.deps, s.reverse, s.registryGen, rfl⟩

theorem joined_appendRecord {record : ProfileRecord} {s : Registry}
    (hnew : s.profiles.lookup record.id = none) :
    Joined [record] s (appendRecord record.first (deactivateAll record.id s)) := by
  have hlookup : ∀ id, (deactivateAll record.id s).profiles.lookup id = s.profiles.lookup id := by
    intro id
    unfold deactivateAll
    rw [UMap.lookup_modify]
    split_ifs with hid
    · rw [hid, hnew, Option.map_none]
    · rfl
  obtain ⟨d, r, heq⟩ := appendRecord_eq record.first (deactivateAll record.id s)
  refine ⟨?_, ?_, ?_, ?_, ?_, ?_⟩
  · rw [heq]
    rfl
  · intro record' hmem
    obtain rfl := List.mem_singleton.mp hmem
    rw [heq]
    refine (UMap.lookup_insert_ite _ _ _ _).trans ((if_pos rfl).trans ?_)
    exact congrArg (fun h => some (History.pushOrSingle h record'.first)) ((hlookup _).trans hnew)
  · intro id hid
    have hne := hid record (List.mem_singleton_self record)
    rw [heq]
    exact (UMap.lookup_insert_ite _ _ _ _).trans ((if_neg hne.symm).trans (hlookup id))
  · intro record' hmem
    obtain rfl := List.mem_singleton.mp hmem
    rw [dependenciesOf_appendRecord]
    exact if_pos rfl
  · intro id hid
    have hne := hid record (List.mem_singleton_self record)
    rw [dependenciesOf_appendRecord]
    exact if_neg hne.symm
  · exact ⟨_, _, _, _, heq⟩

theorem Joined.cons {record : ProfileRecord} {records : List ProfileRecord} {s t u : Registry}
    (hhead : Joined [record] s t) (htail : Joined records t u)
    (hne : ∀ record' ∈ records, record'.id ≠ record.id) : Joined (record :: records) s u := by
  have hmem := List.mem_singleton_self record
  refine ⟨?_, ?_, ?_, ?_, ?_, ?_⟩
  · rw [htail.registryGen, hhead.registryGen, UInt64.add_assoc, ← UInt64.ofNat_add, List.length_singleton,
      List.length_cons, Nat.add_comm]
  · refine List.forall_mem_cons.mpr ⟨?_, htail.new⟩
    rw [htail.old _ hne]
    exact hhead.new record hmem
  · intro id hid
    obtain ⟨hrecord, hrecords⟩ := List.forall_mem_cons.mp hid
    rw [htail.old id hrecords]
    exact hhead.old id fun r hr => List.mem_singleton.mp hr ▸ hrecord
  · refine List.forall_mem_cons.mpr ⟨?_, htail.newDeps⟩
    rw [htail.oldDeps _ hne]
    exact hhead.newDeps record hmem
  · intro id hid
    obtain ⟨hrecord, hrecords⟩ := List.forall_mem_cons.mp hid
    rw [htail.oldDeps id hrecords]
    exact hhead.oldDeps id fun r hr => List.mem_singleton.mp hr ▸ hrecord
  · obtain ⟨p, d, r, g, rfl⟩ := hhead.rest
    obtain ⟨p', d', r', g', rfl⟩ := htail.rest
    exact ⟨p', d', r', g', rfl⟩

theorem Joined.perm {records records' : List ProfileRecord} {s t : Registry} (h : Joined records s t)
    (hperm : records.Perm records') : Joined records' s t where
  registryGen := by rw [h.registryGen, hperm.length_eq]
  new record hrecord := h.new record (hperm.mem_iff.mpr hrecord)
  old id hid := h.old id fun record hrecord => hid record (hperm.mem_iff.mp hrecord)
  newDeps record hrecord := h.newDeps record (hperm.mem_iff.mpr hrecord)
  oldDeps id hid := h.oldDeps id fun record hrecord => hid record (hperm.mem_iff.mp hrecord)
  rest := h.rest

/-! ### When all of them are accepted -/

/-- The stored edges and those that the records are to add. -/
def JointlyDependsOn (records : List ProfileRecord) (s : Registry) (x y : Uuid) : Prop :=
  s.DependsOn x y ∨ ∃ record ∈ records, x = record.id ∧ y ∈ record.deps ∧ y ≠ record.id

theorem jointlyDependsOn_nil (s : Registry) : JointlyDependsOn [] s = s.DependsOn := by
  funext x y
  simp [JointlyDependsOn]

theorem jointlyDependsOn_perm {records records' : List ProfileRecord} (hperm : records.Perm records')
    (s : Registry) : JointlyDependsOn records' s = JointlyDependsOn records s := by
  funext x y
  simp only [JointlyDependsOn, hperm.mem_iff]

theorem createCycle_iff_joint {record : ProfileRecord} {s : Registry} :
    createCycle record.id record.deps s = true ↔ ¬ Acyclic (JointlyDependsOn [record] s) := by
  have hedge : DepthFirst.Edge (adjacent (prospective record.id record.deps s)) = JointlyDependsOn [record] s := by
    funext x y
    apply propext
    simp only [JointlyDependsOn, List.mem_singleton, exists_eq_left]
    exact mem_adjacent_prospective
  unfold createCycle
  rw [hasCycleIn_iff, DepthFirst.Cyclic, hedge, Acyclic, not_not]

/-- Registering the first record brings its edges from the one side to the other. -/
theorem jointlyDependsOn_joined {record : ProfileRecord} {s t : Registry} (h : Joined [record] s t)
    (hnone : s.dependenciesOf record.id = []) (records : List ProfileRecord) :
    JointlyDependsOn records t = JointlyDependsOn (record :: records) s := by
  have hstored : ∀ x y, t.DependsOn x y ↔ s.DependsOn x y ∨ x = record.id ∧ y ∈ record.deps ∧ y ≠ record.id := by
    intro x y
    unfold DependsOn
    by_cases hx : x = record.id
    · rw [hx, h.newDeps record (List.mem_singleton_self record), hnone]
      simp
    · rw [h.oldDeps x fun r hr => List.mem_singleton.mp hr ▸ Ne.symm hx]
      simp [hx]
  funext x y
  unfold JointlyDependsOn
  simp only [hstored, List.exists_mem_cons_iff, or_assoc]

theorem acyclic_mono {E E' : Uuid → Uuid → Prop} (h : Acyclic E') (hle : ∀ x y, E x y → E' x y) : Acyclic E :=
  fun ⟨x, hx⟩ => h ⟨x, TransGen.mono hle _ _ hx⟩

section Fresh
variable {record : ProfileRecord} {records : List ProfileRecord} {s : Registry}

/-- An accepted record leaves a reachable state for which the others are still new. -/
structure Accepted (record : ProfileRecord) (records : List ProfileRecord) (s t : Registry) : Prop where
  run : registerRecord record s = (.ok record.id, t)
  reachable : Reachable t
  joined : Joined [record] s t
  fresh : Fresh records t

theorem registerRecord_fresh (h : Reachable s) (hfresh : Fresh (record :: records) s) :
    (∃ t, Accepted record records s t) ∨
      ¬ Acyclic (JointlyDependsOn [record] s) ∧ ∃ e t, registerRecord record s = (.error e, t) := by
  have hwf := hfresh.wf record List.mem_cons_self
  have hnew := hfresh.new record List.mem_cons_self
  have hrun := registerRecord_new hwf hnew
  split_ifs at hrun with hcycle
  · exact .inr ⟨createCycle_iff_joint.mp hcycle, _, _, hrun⟩
  · have hjoined := joined_appendRecord hnew
    have hreach : Reachable (registerRecord record s).2 := h.step (.registerRecord record) hwf
    rw [hrun] at hreach
    refine .inl ⟨_, hrun, hreach, hjoined, ?_, ?_, ?_⟩
    · exact fun r hr => hfresh.wf r (List.mem_cons_of_mem record hr)
    · exact (List.nodup_cons.mp hfresh.nodup).2
    · intro r hr
      have hne : record.id ≠ r.id := fun heq =>
        (List.nodup_cons.mp hfresh.nodup).1 (heq ▸ List.mem_map_of_mem hr)
      rw [hjoined.old r.id fun r' hr' => List.mem_singleton.mp hr' ▸ hne]
      exact hfresh.new r (List.mem_cons_of_mem record hr)

/-- All of them are accepted exactly when the final graph has no cycle. -/
theorem registerRecords_accepted_iff (h : Reachable s) (hfresh : Fresh records s) :
    (registerRecords records s).1 = .ok () ↔ Acyclic (JointlyDependsOn records s) := by
  induction records generalizing s with
  | nil =>
    rw [jointlyDependsOn_nil]
    exact iff_of_true rfl h.graphInv.acyclic
  | cons record records ih =>
    obtain ⟨t, haccepted⟩ | ⟨hcyclic, e, t, hrun⟩ := registerRecord_fresh h hfresh
    · have hnone : s.dependenciesOf record.id = [] := by
        apply h.rooted
        unfold historyOf
        rw [hfresh.new record List.mem_cons_self]
      rw [registerRecords_cons_ok haccepted.run, ← jointlyDependsOn_joined haccepted.joined hnone]
      exact ih haccepted.reachable haccepted.fresh
    · rw [registerRecords_cons_error hrun]
      refine iff_of_false (fun h => by cases h) fun hall => hcyclic (acyclic_mono hall ?_)
      rintro x y (hstored | ⟨r, hr, hedge⟩)
      · exact .inl hstored
      · exact .inr ⟨r, List.mem_singleton.mp hr ▸ List.mem_cons_self, hedge⟩

/-- What is there when all of them have been accepted. -/
theorem joined_registerRecords (h : Reachable s) (hfresh : Fresh records s)
    (hok : (registerRecords records s).1 = .ok ()) :
    Reachable (registerRecords records s).2 ∧ Joined records s (registerRecords records s).2 := by
  induction records generalizing s with
  | nil => exact ⟨h, .nil s⟩
  | cons record records ih =>
    obtain ⟨t, haccepted⟩ | ⟨-, e, t, hrun⟩ := registerRecord_fresh h hfresh
    · rw [registerRecords_cons_ok haccepted.run] at hok ⊢
      obtain ⟨hreach, hjoined⟩ := ih haccepted.reachable haccepted.fresh hok
      refine ⟨hreach, haccepted.joined.cons hjoined fun r hr heq => ?_⟩
      exact (List.nodup_cons.mp hfresh.nodup).1 (heq ▸ List.mem_map_of_mem hr)
    · rw [registerRecords_cons_error hrun] at hok
      cases hok

end Fresh

/-! ### What can be asked -/

/-- The same answers to every query, and the same decisions. -/
structure SameAnswers (s t : Registry) : Prop where
  registryGen : t.registryGen = s.registryGen
  historyOf : ∀ id, t.historyOf id = s.historyOf id
  findProfile : ∀ id includeHistory, t.findProfile id includeHistory = s.findProfile id includeHistory
  queryByKind : ∀ kind, t.queryByKind kind = s.queryByKind kind
  dependenciesOf : ∀ id, t.dependenciesOf id = s.dependenciesOf id
  dependentsOf : ∀ id, t.dependentsOf id = s.dependentsOf id
  evaluatePair : ∀ left right, (evaluatePair left right t).1 = (evaluatePair left right s).1

/-- The order in which the profiles are iterated does not show in the answer. -/
theorem queryByKind_congr {s t : Registry} (h : Inv s) (hst : ∀ id, t.profiles.lookup id = s.profiles.lookup id)
    (kind : Enum8 ProfileKind) : t.queryByKind kind = s.queryByKind kind := by
  have hsort : ∀ l : List ProfileRecord,
      (l.insertionSort fun a b => a.id ≤ b.id).Pairwise fun a b => a.id ≤ b.id := by
    intro l
    have : Std.Total fun a b : ProfileRecord => a.id ≤ b.id := ⟨fun a b => le_total a.id b.id⟩
    have : IsTrans ProfileRecord fun a b => a.id ≤ b.id := ⟨fun _ _ _ => le_trans⟩
    exact List.pairwise_insertionSort _ l
  have hvalues : t.profiles.values.Perm s.profiles.values := by
    unfold UMap.values
    exact (UMap.same_of_lookup hst).map Sigma.snd
  have hperm : (t.queryByKind kind).Perm (s.queryByKind kind) := by
    apply (List.perm_insertionSort _ _).trans
    apply List.Perm.trans _ (List.perm_insertionSort _ _).symm
    exact (hvalues.filterMap _).filter _
  have hmem : ∀ p ∈ s.queryByKind kind, ∃ id, s.newestActive id = some p := by
    intro p hp
    obtain ⟨hp, -⟩ := List.mem_filter.mp ((List.mem_insertionSort _).mp hp)
    obtain ⟨hist, hhist, hnewest⟩ := List.mem_filterMap.mp hp
    obtain ⟨id, hl⟩ := UMap.mem_values_iff.mp hhist
    exact ⟨id, Option.bind_eq_some_iff.mpr ⟨hist, hl, hnewest⟩⟩
  refine hperm.eq_of_pairwise ?_ (hsort _) (hsort _)
  intro p q hp hq hpq hqp
  -- records of one id are the newest active record of that id
  obtain ⟨i, hi⟩ := hmem p (hperm.mem_iff.mp hp)
  obtain ⟨j, hj⟩ := hmem q hq
  have hij : i = j := by
    rw [← (h.newestActive hi).id, ← (h.newestActive hj).id]
    exact le_antisymm hpq hqp
  rw [hij, hj] at hi
  exact (Option.some.inj hi).symm

theorem sortUnique_congr {l l' : List Uuid} (h : ∀ x, x ∈ l ↔ x ∈ l') : sortUnique l = sortUnique l' := by
  have hsorted : ∀ l : List Uuid, (sortUnique l).Pairwise (· < ·) := by
    intro l
    have hle : (l.insertionSort (· ≤ ·)).Pairwise (· ≤ ·) := List.pairwise_insertionSort _ l
    unfold sortUnique
    rw [hle.destutter_eq_dedup]
    exact ((hle.sublist (List.dedup_sublist _)).and (List.nodup_dedup _)).imp fun hab => lt_of_le_of_ne hab.1 hab.2
  have hperm : (sortUnique l).Perm (sortUnique l') := by
    apply (List.perm_ext_iff_of_nodup ((hsorted l).imp ne_of_lt) ((hsorted l').imp ne_of_lt)).mpr
    intro x
    rw [mem_sortUnique, mem_sortUnique, h]
  exact hperm.eq_of_pairwise (fun a b _ _ hab hba => absurd hba (lt_asymm hab)) (hsorted l) (hsorted l')

theorem dependentsOf_congr {s t : Registry} (hs : Transposed s) (ht : Transposed t)
    (hdeps : ∀ id, t.dependenciesOf id = s.dependenciesOf id) (id : Uuid) :
    t.dependentsOf id = s.dependentsOf id := by
  have hsort : ∀ u : Registry, u.dependentsOf id = sortUnique (adjacent u.reverse id) := by
    intro u
    unfold Registry.dependentsOf adjacent
    cases u.reverse.lookup id <;> rfl
  rw [hsort t, hsort s]
  apply sortUnique_congr
  intro x
  rw [← ht.mem_iff, ← hs.mem_iff]
  exact iff_of_eq (congrArg (id ∈ ·) (hdeps x))

/-- What agrees on the new profiles and on the others agrees throughout. -/
theorem agree_of_records {β : Type} {f g : Uuid → β} {records : List ProfileRecord}
    (hnew : ∀ record ∈ records, f record.id = g record.id)
    (hold : ∀ id, (∀ record ∈ records, record.id ≠ id) → f id = g id) (id : Uuid) : f id = g id := by
  by_cases hid : ∃ record ∈ records, record.id = id
  · obtain ⟨record, hrecord, rfl⟩ := hid
    exact hnew record hrecord
  · push Not at hid
    exact hold id hid

/-- The same records, in whatever order they came, give the same answers. -/
theorem sameAnswers_of_joined {records : List ProfileRecord} {s t u : Registry} (ht : Reachable t)
    (hu : Reachable u) (hst : Joined records s t) (hsu : Joined records s u) : SameAnswers t u := by
  have hlookup : ∀ id, u.profiles.lookup id = t.profiles.lookup id :=
    agree_of_records (fun r hr => (hsu.new r hr).trans (hst.new r hr).symm)
      fun id hid => (hsu.old id hid).trans (hst.old id hid).symm
  have hdeps : ∀ id, u.dependenciesOf id = t.dependenciesOf id :=
    agree_of_records (fun r hr => (hsu.newDeps r hr).trans (hst.newDeps r hr).symm)
      fun id hid => (hsu.oldDeps id hid).trans (hst.oldDeps id hid).symm
  have hgen : u.registryGen = t.registryGen := hsu.registryGen.trans hst.registryGen.symm
  have hnewest : ∀ id, u.newestActive id = t.newestActive id := fun id =>
    congrArg (Option.bind · History.newestActive) (hlookup id)
  have hother : u.rules = t.rules ∧ u.policyId = t.policyId := by
    obtain ⟨p, d, r, g, rfl⟩ := hst.rest
    obtain ⟨p', d', r', g', rfl⟩ := hsu.rest
    exact ⟨rfl, rfl⟩
  refine ⟨hgen, fun id => ?_, fun id b => ?_, ?_, hdeps, ?_, fun left right => ?_⟩
  · unfold Registry.historyOf
    rw [hlookup]
  · unfold Registry.findProfile
    rw [hlookup]
  · exact queryByKind_congr ht.inv hlookup
  · exact dependentsOf_congr ht.graphInv.transposed hu.graphInv.transposed hdeps
  · have hinputs : SameInputs left right t u := by
      refine ⟨hnewest left, hnewest right, fun id => ?_, hgen, hother.2⟩
      rw [hother.1]
    have heval := evaluateLocked_congr ht.inv hinputs hu.inv false
    unfold Registry.evaluatePair evaluateWith
    rw [heval]
    cases evaluateLocked t left right false <;> rfl

/-- New profiles that can be registered in one order can be registered in every order,
and the registry answers alike afterwards. -/
theorem registerRecords_anyOrder {s : Registry} (h : Reachable s) {records records' : List ProfileRecord}
    (hfresh : Fresh records s) (hok : (registerRecords records s).1 = .ok ())
    (hperm : records.Perm records') :
    (registerRecords records' s).1 = .ok () ∧
      SameAnswers (registerRecords records s).2 (registerRecords records' s).2 := by
  have hfresh' : Fresh records' s :=
    ⟨fun r hr => hfresh.wf r (hperm.mem_iff.mpr hr), (hperm.map _).nodup_iff.mp hfresh.nodup,
      fun r hr => hfresh.new r (hperm.mem_iff.mpr hr)⟩
  have hok' : (registerRecords records' s).1 = .ok () := by
    rw [registerRecords_accepted_iff h hfresh', jointlyDependsOn_perm hperm]
    exact (registerRecords_accepted_iff h hfresh).mp hok
  obtain ⟨hreach, hjoined⟩ := joined_registerRecords h hfresh hok
  obtain ⟨hreach', hjoined'⟩ := joined_registerRecords h hfresh' hok'
  exact ⟨hok', sameAnswers_of_joined hreach hreach' hjoined (hjoined'.perm hperm.symm)⟩

/-- A profile and one that depends on it; the second can also be registered first. -/
theorem registerRecords_anyOrder_user :
    SameAnswers (registerRecords [modelRecord base [], modelRecord user [base]] {}).2
      (registerRecords [modelRecord user [base], modelRecord base []] {}).2 := by
  have hfresh : Fresh [modelRecord base [], modelRecord user [base]] {} := by
    refine ⟨?_, by decide, fun _ _ => rfl⟩
    simp [modelRecord, WF, WFRecord, SortedMap.Sorted]
  have hok : (registerRecords [modelRecord base [], modelRecord user [base]] {}).1 = .ok () := by
    decide +kernel
  exact (registerRecords_anyOrder .empty hfresh hok (.swap _ _ _)).2

end Registry

end CompatRegistry
