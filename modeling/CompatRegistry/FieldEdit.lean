import CompatRegistry.Profile

/-! Reading a field after an edit. Lookup follows a dotted name into a nested record; an
edit takes the part before the dot and puts the value in place of the whole field. -/

namespace CompatRegistry

open Foundation Canon

/-! ### Names -/

/-- Where a dotted name leads: to a field, or to an entry of the record in it. -/
def pathOf (name : Bytes) : List Bytes := headOf name :: (if tailOf name = [] then [] else [tailOf name])

/-- Neither name leads into what the other leads to. -/
def Unrelated (f g : Bytes) : Prop := ¬ pathOf f <+: pathOf g ∧ ¬ pathOf g <+: pathOf f

/-- Without a part behind a dot, unrelated names are names of other fields. -/
theorem Unrelated.head_ne {f g : Bytes} (h : Unrelated f g) (htail : tailOf f = []) : headOf g ≠ headOf f := by
  intro heq
  refine h.1 ?_
  simp [pathOf, htail, heq]

/-- No two names of a table have one tag. -/
theorem tagNamed_injective {names : List (String × UInt32)} (hnodup : (names.map Prod.snd).Nodup) {a b : Bytes}
    {tag : UInt32} (ha : tagNamed a names = some tag) (hb : tagNamed b names = some tag) : a = b := by
  obtain ⟨x, hx, rfl⟩ := Option.map_eq_some_iff.mp ha
  obtain ⟨y, hy, htag⟩ := Option.map_eq_some_iff.mp hb
  have hsame : y = x := List.inj_on_of_nodup_map hnodup (List.mem_of_find?_eq_some hy)
    (List.mem_of_find?_eq_some hx) htag
  have hax : a = ascii x.1 := by simpa using List.find?_some hx
  have hby : b = ascii y.1 := by simpa using List.find?_some hy
  rw [hax, hby, hsame]

theorem tagFor_injective {kind : Enum8 ProfileKind} {a b : Bytes} {tag : UInt32}
    (ha : tagFor kind a = some tag) (hb : tagFor kind b = some tag) : a = b := by
  cases kind with
  | undeclared raw h => cases ha
  | declared k =>
    cases k with
    | capabilitySet => cases ha
    | _ => exact tagNamed_injective (by decide) ha hb

/-! ### Edited records -/

/-- The entries with the value of one tag replaced. -/
def replaceEntry (tag : UInt32) (v : Canon) (rec : Record) : Record :=
  rec.map fun ent => if ent.1 = tag then (ent.1, v) else ent

theorem replaceEntry_tags (tag : UInt32) (v : Canon) (rec : Record) :
    (replaceEntry tag v rec).map Prod.fst = rec.map Prod.fst := by
  rw [replaceEntry, List.map_map]
  refine List.map_congr_left fun ent _ => ?_
  simp only [Function.comp_apply]
  split_ifs <;> rfl

theorem mem_replaceEntry {tag : UInt32} {v : Canon} {rec : Record} {e : UInt32 × Canon} :
    e ∈ replaceEntry tag v rec ↔ (e.1 ≠ tag ∧ e ∈ rec) ∨ (e = (tag, v) ∧ tag ∈ rec.map Prod.fst) := by
  rw [replaceEntry, List.mem_map]
  constructor
  · rintro ⟨ent, hent, rfl⟩
    split_ifs with htag
    · exact .inr ⟨by rw [htag], htag ▸ List.mem_map_of_mem hent⟩
    · exact .inl ⟨htag, hent⟩
  · rintro (⟨htag, hmem⟩ | ⟨rfl, hmem⟩)
    · exact ⟨e, hmem, if_neg htag⟩
    · obtain ⟨ent, hent, rfl⟩ := List.mem_map.mp hmem
      exact ⟨ent, hent, if_pos rfl⟩

section Edited
variable {kind : Enum8 ProfileKind} {rec : Record} {f : Bytes} {v w : Canon}

/-- A name that resolves has the tag of a stored field. -/
theorem resolveProfileField_stored (h : resolveProfileField kind (.record rec) f = some w) :
    ∃ tag x, tagFor kind (headOf f) = some tag ∧ (Canon.record rec).field tag = some x := by
  unfold resolveProfileField at h
  split at h
  · cases h
  split at h
  · cases h
  rename_i tag htag
  split at h
  · cases h
  rename_i x hx
  exact ⟨tag, x, htag, hx⟩

variable (hsorted : SortedMap.Sorted rec)
include hsorted

theorem sorted_replaceEntry (tag : UInt32) (v : Canon) : SortedMap.Sorted (replaceEntry tag v rec) := by
  rw [SortedMap.Sorted, replaceEntry_tags]
  exact hsorted

/-- The edit of a name that resolves replaces the field of its head. -/
theorem applyProfileFieldEdit_of_resolves (h : resolveProfileField kind (.record rec) f = some w)
    (v : Canon) : ∃ tag, tagFor kind (headOf f) = some tag ∧ tag ∈ rec.map Prod.fst ∧
      applyProfileFieldEdit kind (.record rec) f v = .ok (.record (replaceEntry tag v rec)) := by
  obtain ⟨tag, x, htag, hx⟩ := resolveProfileField_stored h
  have hmem : (tag, x) ∈ rec := (SortedMap.find_eq_some_iff hsorted).mp hx
  have hstored : (rec.any fun ent => ent.1 = tag) = true := by
    simp only [List.any_eq_true, decide_eq_true_eq]
    exact ⟨(tag, x), hmem, rfl⟩
  refine ⟨tag, htag, List.mem_map_of_mem hmem, ?_⟩
  rw [applyProfileFieldEdit, htag]
  simp only [hstored, if_true]
  exact mkRecord_of_sorted (sorted_replaceEntry hsorted tag v)

theorem field_replaceEntry_same {tag : UInt32} (hmem : tag ∈ rec.map Prod.fst) (v : Canon) :
    (Canon.record (replaceEntry tag v rec)).field tag = some v :=
  (SortedMap.find_eq_some_iff (sorted_replaceEntry hsorted tag v)).mpr (mem_replaceEntry.mpr (.inr ⟨rfl, hmem⟩))

theorem field_replaceEntry_other {tag tag' : UInt32} (hne : tag' ≠ tag) (v : Canon) :
    (Canon.record (replaceEntry tag v rec)).field tag' = (Canon.record rec).field tag' := by
  refine Option.ext fun x => ?_
  rw [field, field, SortedMap.find_eq_some_iff (sorted_replaceEntry hsorted tag v),
    SortedMap.find_eq_some_iff hsorted, mem_replaceEntry]
  simp [hne]

end Edited

/-- The value is read back from the name it was put at, and the names that lead elsewhere
read as before. -/
def EditLaw (kind : Enum8 ProfileKind) (payload : Canon) (f : Bytes) (v : Canon) : Prop :=
  ∃ payload', applyProfileFieldEdit kind payload f v = .ok payload' ∧
    resolveProfileField kind payload' f = some v ∧
    ∀ g, Unrelated f g → resolveProfileField kind payload' g = resolveProfileField kind payload g

/-- No value is a field of itself. -/
theorem field_ne_self (v : Canon) (tag : UInt32) : v.field tag ≠ some v := by
  intro h
  cases v with
  | record r =>
    have hmem : (tag, Canon.record r) ∈ r := by
      rw [field, SortedMap.find] at h
      split at h
      · cases h
      · rename_i k x rest hlb
        split_ifs at h with hk
        have hin : (tag, Canon.record r) ∈ SortedMap.lowerBound tag r := by
          rw [hlb, hk, Option.some.inj h]
          exact List.mem_cons_self
        exact (List.dropWhile_sublist _).subset hin
    have hlt := List.sizeOf_lt_of_mem hmem
    simp at hlt
    omega
  | _ => cases h

/-- An edit obeys the laws exactly when the name has no part behind a dot. -/
theorem editLaw_iff {kind : Enum8 ProfileKind} {rec : Record} {f : Bytes} {w : Canon} (v : Canon)
    (hwf : (Canon.record rec).WF) (hf : resolveProfileField kind (.record rec) f = some w) :
    EditLaw kind (.record rec) f v ↔ tailOf f = [] := by
  have hsorted : SortedMap.Sorted rec := hwf.1
  have hne : f ≠ [] := by
    rintro rfl
    simp [resolveProfileField] at hf
  obtain ⟨tag, htag, hmem, hedit⟩ := applyProfileFieldEdit_of_resolves hsorted hf v
  constructor
  · rintro ⟨payload', hpayload, hget, -⟩
    rw [hedit] at hpayload
    cases hpayload
    by_contra htail
    rw [resolveProfileField, if_neg hne, htag] at hget
    simp only [field_replaceEntry_same hsorted hmem v, if_neg htail] at hget
    split_ifs at hget
    obtain ⟨sub, -, hsub⟩ := Option.bind_eq_some_iff.mp hget
    exact field_ne_self v sub hsub
  · intro htail
    refine ⟨_, hedit, ?_, fun g hg => ?_⟩
    · rw [resolveProfileField, if_neg hne, htag]
      simp only [field_replaceEntry_same hsorted hmem v, if_pos htail]
    · unfold resolveProfileField
      cases htag' : tagFor kind (headOf g) with
      | none => rfl
      | some tag' =>
        have hother : tag' ≠ tag := by
          rintro rfl
          exact hg.head_ne htail (tagFor_injective htag' htag)
        simp only [field_replaceEntry_other hsorted hother v]

/-- A device with its compute capability as a record of two entries. -/
def nestedDevice : Canon := .record [(4, .record [(1, .uint 9), (2, .uint 228)]), (6, .uint 32)]

theorem nestedDevice_wf : nestedDevice.WF := by
  simp [nestedDevice, WF, WFRecord, SortedMap.Sorted]

theorem editLaw_total_memory :
    EditLaw (.declared .device) nestedDevice (ascii "total_memory") (.uint 64) :=
  (editLaw_iff (w := .uint 32) (.uint 64) nestedDevice_wf (by rfl)).mpr (by decide)

/-- The edit of an entry of the nested record replaces the record, and takes away the
other entry. -/
theorem not_editLaw_nested :
    ¬ EditLaw (.declared .device) nestedDevice (ascii "compute_capability.compute_capability") (.uint 10) ∧
      resolveProfileField (.declared .device) nestedDevice (ascii "compute_capability.compute_capability") =
        some (.uint 9) := by
  refine ⟨?_, by rfl⟩
  rintro ⟨payload', hpayload, hget, -⟩
  have hedit : applyProfileFieldEdit (.declared .device) nestedDevice
      (ascii "compute_capability.compute_capability") (.uint 10) =
        .ok (.record [(4, .uint 10), (6, .uint 32)]) := by
    rfl
  rw [hedit] at hpayload
  cases hpayload
  cases hget

end CompatRegistry
