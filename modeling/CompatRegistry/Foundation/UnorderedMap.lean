import Mathlib.Tactic
import Mathlib.Data.List.AList

/-! Hash maps. The order of the entries stands for the iteration order, which a
hash map leaves open: two maps with permuted entries are the same map. -/

namespace Foundation

abbrev UMap (κ ν : Type*) := AList fun _ : κ => ν

namespace UMap

variable {κ ν μ : Type*} [DecidableEq κ]

/-- The stored values in iteration order. -/
def values (m : UMap κ ν) : List ν := m.entries.map Sigma.snd

/-- Update the value of `k` in place, if there is one. -/
def modify (k : κ) (f : ν → ν) (m : UMap κ ν) : UMap κ ν :=
  match m.lookup k with
  | none => m
  | some v => m.insert k (f v)

/-- The same map, possibly iterated in another order. -/
def Same (m m' : UMap κ ν) : Prop := m.entries.Perm m'.entries

theorem lookup_insert_ite (k k' : κ) (v : ν) (m : UMap κ ν) :
    AList.lookup k' (m.insert k v) = if k' = k then some v else m.lookup k' := by
  split_ifs with h
  · subst h; exact AList.lookup_insert m
  · exact AList.lookup_insert_ne h

/-- A value without a property in the place of another one without it: those that have it stay. -/
theorem lookup_insert_of_not {k : κ} {v : ν} {m : UMap κ ν} {P : ν → Prop} (hnew : ¬ P v)
    (hold : ∀ w ∈ m.lookup k, ¬ P w) (k' : κ) {w : ν} (hw : P w) :
    AList.lookup k' (m.insert k v) = some w ↔ m.lookup k' = some w := by
  rw [lookup_insert_ite]
  split_ifs with h
  · subst h
    refine iff_of_false (fun heq => ?_) fun hlook => hold w hlook hw
    obtain rfl := Option.some.inj heq
    exact hnew hw
  · exact Iff.rfl

theorem lookup_erase_ite (k k' : κ) (m : UMap κ ν) :
    AList.lookup k' (m.erase k) = if k' = k then none else m.lookup k' := by
  split_ifs with h
  · subst h; exact AList.lookup_erase _ m
  · exact AList.lookup_erase_ne h

theorem lookup_modify (k k' : κ) (f : ν → ν) (m : UMap κ ν) :
    (m.modify k f).lookup k' = if k' = k then (m.lookup k).map f else m.lookup k' := by
  unfold modify
  cases h : m.lookup k with
  | none =>
    split_ifs with hk
    · rw [hk, h, Option.map_none]
    · rfl
  | some v => rw [lookup_insert_ite, Option.map_some]

theorem Same.lookup {m m' : UMap κ ν} (h : Same m m') (k : κ) : m.lookup k = m'.lookup k :=
  AList.perm_lookup h

/-- Two maps that are read in the same way differ in the order of iteration at most. -/
theorem same_of_lookup {m m' : UMap κ ν} (h : ∀ k, m.lookup k = m'.lookup k) : Same m m' :=
  List.lookup_ext m.nodupKeys m'.nodupKeys fun k v => by
    show v ∈ m.lookup k ↔ v ∈ m'.lookup k
    rw [h k]

theorem mem_entries_iff {m : UMap κ ν} {k : κ} {v : ν} :
    (⟨k, v⟩ : Sigma fun _ : κ => ν) ∈ m.entries ↔ m.lookup k = some v := by
  rw [← AList.mem_lookup_iff, Option.mem_def]

theorem mem_values_iff {m : UMap κ ν} {v : ν} : v ∈ m.values ↔ ∃ k, m.lookup k = some v := by
  rw [values, List.mem_map]
  constructor
  · rintro ⟨⟨k, w⟩, hmem, rfl⟩
    exact ⟨k, mem_entries_iff.mp hmem⟩
  · rintro ⟨k, h⟩
    exact ⟨⟨k, v⟩, mem_entries_iff.mpr h, rfl⟩

/-- The parts of the values whose key is `k` are the parts of the value at `k`,
when every part has the key of its value. -/
theorem filter_flatten_values {f : ν → List μ} {key : μ → κ} {m : UMap κ ν}
    (hkey : ∀ k v, m.lookup k = some v → ∀ b ∈ f v, key b = k) (k : κ) :
    ((m.values.map f).flatten).filter (key · = k) = ((m.lookup k).map f).getD [] := by
  have hentries : ∀ e ∈ m.entries, ∀ b ∈ f e.2, key b = e.1 :=
    fun e he => hkey e.1 e.2 (mem_entries_iff.mp he)
  have hnodup := m.nodupKeys
  unfold values AList.lookup
  generalize m.entries = l at hentries hnodup
  induction l with
  | nil => rfl
  | cons e l ih =>
    obtain ⟨he, hl⟩ := List.forall_mem_cons.mp hentries
    rw [List.nodupKeys_cons] at hnodup
    rw [List.map_cons, List.map_cons, List.flatten_cons, List.filter_append, ih hl hnodup.2]
    obtain ⟨k', v⟩ := e
    by_cases hk : k' = k
    · subst hk
      have hnone : l.dlookup k' = none := List.dlookup_eq_none.mpr hnodup.1
      have hall : (f v).filter (key · = k') = f v :=
        List.filter_eq_self.mpr fun b hb => by simp [he b hb]
      rw [hnone, hall, List.dlookup_cons_eq]
      simp
    · have hnil : (f v).filter (key · = k) = [] :=
        List.filter_eq_nil_iff.mpr fun b hb => by simp [he b hb, hk]
      rw [hnil, List.dlookup_cons_ne _ _ (Ne.symm hk), List.nil_append]

/-! ### Building a map from a list of values

A loop that stores every value under its own key leaves, for each key, the last
value with that key. -/

section Fill
variable (key : ν → κ)

def fill (vs : List ν) (m : UMap κ ν) : UMap κ ν := vs.foldl (fun m v => m.insert (key v) v) m

theorem fill_of_notMem {vs : List ν} {k : κ} (hk : ∀ v ∈ vs, key v ≠ k) (m : UMap κ ν) :
    (fill key vs m).lookup k = m.lookup k := by
  induction vs generalizing m with
  | nil => rfl
  | cons v vs ih =>
    have hv : k ≠ key v := fun h => hk v List.mem_cons_self h.symm
    have h := ih (fun w hw => hk w (List.mem_cons_of_mem _ hw)) (m.insert (key v) v)
    rw [lookup_insert_ite, if_neg hv] at h
    exact h

theorem fill_of_mem {vs : List ν} (hnodup : (vs.map key).Nodup) {v : ν} (hv : v ∈ vs)
    (m : UMap κ ν) : (fill key vs m).lookup (key v) = some v := by
  induction vs generalizing m with
  | nil => simp at hv
  | cons w vs ih =>
    rw [List.map_cons, List.nodup_cons] at hnodup
    rcases List.mem_cons.mp hv with rfl | hv
    · have hne : ∀ x ∈ vs, key x ≠ key v := fun x hx h =>
        hnodup.1 (List.mem_map.mpr ⟨x, hx, h⟩)
      have h := fill_of_notMem key hne (m.insert (key v) v)
      rw [lookup_insert_ite, if_pos rfl] at h
      exact h
    · exact ih hnodup.2 hv _

/-- The last value of a list that has its key. -/
def LastUnder (vs : List ν) (v : ν) : Prop :=
  ∃ before after, vs = before ++ v :: after ∧ ∀ w ∈ after, key w ≠ key v

omit [DecidableEq κ] in
theorem LastUnder.mem {key : ν → κ} {vs : List ν} {v : ν} (h : LastUnder key vs v) : v ∈ vs := by
  obtain ⟨before, after, rfl, -⟩ := h
  exact List.mem_append_right _ List.mem_cons_self

omit [DecidableEq κ] in
theorem lastUnder_concat {vs : List ν} {v w : ν} :
    LastUnder key (vs ++ [w]) v ↔ v = w ∨ LastUnder key vs v ∧ key w ≠ key v := by
  constructor
  · rintro ⟨before, after, heq, hafter⟩
    rcases List.eq_nil_or_concat after with rfl | ⟨after', w', rfl⟩
    · exact .inl (List.append_inj_right' heq rfl |> List.singleton_inj.mp).symm
    · rw [List.concat_eq_append] at heq hafter
      rw [← List.cons_append, ← List.append_assoc] at heq
      obtain ⟨hvs, hw⟩ := List.append_inj' heq rfl
      obtain rfl := List.singleton_inj.mp hw
      exact .inr ⟨⟨before, after', hvs, fun x hx => hafter x (List.mem_append_left _ hx)⟩,
        hafter w (by simp)⟩
  · rintro (rfl | ⟨⟨before, after, rfl, hafter⟩, hw⟩)
    · exact ⟨vs, [], rfl, List.forall_mem_nil _⟩
    · refine ⟨before, after ++ [w], by simp, fun x hx => ?_⟩
      rcases List.mem_append.mp hx with hx | hx
      · exact hafter x hx
      · rw [List.mem_singleton.mp hx]
        exact hw

/-- A filled map holds the last value under each key. -/
theorem lookup_fill_eq_some {vs : List ν} {k : κ} {v : ν} :
    (fill key vs ∅).lookup k = some v ↔ LastUnder key vs v ∧ key v = k := by
  induction vs using List.reverseRecOn with
  | nil =>
    rw [fill, List.foldl_nil, AList.lookup_empty]
    simp [LastUnder]
  | append_singleton vs w ih =>
    have hfill : fill key (vs ++ [w]) ∅ = (fill key vs ∅).insert (key w) w := by
      rw [fill, List.foldl_append]
      rfl
    rw [hfill, lookup_insert_ite, lastUnder_concat]
    split_ifs with hk
    · constructor
      · intro h
        obtain rfl := Option.some.inj h
        exact ⟨.inl rfl, hk.symm⟩
      · rintro ⟨rfl | ⟨-, hne⟩, hv⟩
        · rfl
        · exact absurd (hk.symm.trans hv.symm) hne
    · rw [ih]
      constructor
      · rintro ⟨hlast, rfl⟩
        exact ⟨.inr ⟨hlast, fun h => hk h.symm⟩, rfl⟩
      · rintro ⟨rfl | ⟨hlast, -⟩, hv⟩
        · exact absurd hv.symm hk
        · exact ⟨hlast, hv⟩

omit [DecidableEq κ] in
theorem lastUnder_map {f : μ → ν} {vs : List μ} {v : ν} :
    LastUnder key (vs.map f) v ↔ ∃ e, LastUnder (fun e => key (f e)) vs e ∧ f e = v := by
  constructor
  · rintro ⟨before, after, heq, hafter⟩
    obtain ⟨before', rest, rfl, rfl, hrest⟩ := List.map_eq_append_iff.mp heq
    obtain ⟨e, after', rfl, rfl, rfl⟩ := List.map_eq_cons_iff.mp hrest
    exact ⟨e, ⟨before', after', rfl, fun w hw => hafter (f w) (List.mem_map_of_mem hw)⟩, rfl⟩
  · rintro ⟨e, ⟨before, after, rfl, hafter⟩, rfl⟩
    refine ⟨before.map f, after.map f, by simp, fun w hw => ?_⟩
    obtain ⟨e', he', rfl⟩ := List.mem_map.mp hw
    exact hafter e' he'

/-- What holds of all values of a map that was filled with images. -/
theorem forall_fill_map {f : μ → ν} {vs : List μ} {P : ν → Prop} :
    (∀ k v, (fill key (vs.map f) ∅).lookup k = some v → P v) ↔
      ∀ e, LastUnder (fun e => key (f e)) vs e → P (f e) := by
  simp only [lookup_fill_eq_some, lastUnder_map]
  constructor
  · intro h e he
    exact h (key (f e)) (f e) ⟨⟨e, he, rfl⟩, rfl⟩
  · rintro h k v ⟨⟨e, he, rfl⟩, -⟩
    exact h e he

/-- Storing the images of the values of a map under their own keys, which are the
old ones, maps the values. -/
theorem lookup_fill_values {f : μ → ν} {m : UMap κ μ}
    (hkey : ∀ k v, m.lookup k = some v → key (f v) = k) (k : κ) :
    (fill key (m.values.map f) ∅).lookup k = (m.lookup k).map f := by
  have hnodup : ((m.values.map f).map key).Nodup := by
    have hkeys : (m.values.map f).map key = m.keys := by
      rw [values, List.map_map, List.map_map]
      exact List.map_congr_left fun x hx => hkey x.1 x.2 (mem_entries_iff.mp hx)
    rw [hkeys]
    exact m.keys_nodup
  cases h : m.lookup k with
  | none =>
    have hne : ∀ v ∈ m.values.map f, key v ≠ k := by
      intro v hv hvk
      obtain ⟨w, hw, rfl⟩ := List.mem_map.mp hv
      obtain ⟨k', hk'⟩ := mem_values_iff.mp hw
      rw [← hvk, hkey k' w hk', hk'] at h
      cases h
    rw [fill_of_notMem key hne, AList.lookup_empty, Option.map_none]
  | some v =>
    have hk := hkey k v h
    have hmem : f v ∈ m.values.map f := List.mem_map_of_mem (mem_values_iff.mpr ⟨k, h⟩)
    have := fill_of_mem key hnodup hmem ∅
    rwa [hk] at this

end Fill

end UMap

end Foundation
