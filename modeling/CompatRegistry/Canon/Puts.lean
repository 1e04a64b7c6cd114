import CompatRegistry.Canon.Order
import CompatRegistry.Canon.Fields
import CompatRegistry.Canon.RoundTrip

/-! Records that are written field by field. A list of calls of the `put_` functions, for
the fields of one enumeration in the order of their tags, makes a record in which each
field is what was put there, before and after the record is encoded. -/

namespace CompatRegistry

open Foundation

namespace Canon

/-- A call of a `put_` function, with the field that it is for. -/
inductive Put (φ : Type) where
  | uuid (f : φ) (v : Uuid)
  | uint (f : φ) (v : UInt64)
  /-- Only where there is a value. -/
  | uintIf (f : φ) (v : Option UInt64)
  | str (f : φ) (s : Bytes)
  | seq (f : φ) (q : Seq)
  | record (f : φ) (r : Record)

section Build

variable {φ : Type} (tag : φ → UInt32)

/-- The call on a record; `put_record` makes the nested record first. -/
def Put.apply (r : Record) : Put φ → Result Record
  | .uuid f v => .ok (r ++ [(tag f, .uuid v)])
  | .uint f v => .ok (r ++ [(tag f, .uint v)])
  | .uintIf _ none => .ok r
  | .uintIf f (some v) => .ok (r ++ [(tag f, .uint v)])
  | .str f s => .ok (r ++ [(tag f, .str s)])
  | .seq f q => .ok (r ++ [(tag f, .sequence q)])
  | .record f s => do
    let c ← mkRecord s
    .ok (r ++ [(tag f, c)])

/-- The calls on an empty record, and `mk_record`. -/
def build (puts : List (Put φ)) : Result Canon := do
  let r ← puts.foldlM (Put.apply tag) []
  mkRecord r

def Put.field : Put φ → φ
  | .uuid f _ | .uint f _ | .uintIf f _ | .str f _ | .seq f _ | .record f _ => f

/-- What the field is after the call. -/
def Put.stored : Put φ → Option Canon
  | .uuid _ v => some (.uuid v)
  | .uint _ v => some (.uint v)
  | .uintIf _ v => v.map .uint
  | .str _ s => some (.str s)
  | .seq _ q => some (.sequence q)
  | .record _ r => some (.record (sortByTag r))

/-- The nested record. -/
def Put.nested? : Put φ → Option Record
  | .record _ r => some r
  | _ => none

/-- The items of a sequence. -/
def Put.items : Put φ → Seq
  | .seq _ q => q
  | _ => []

/-- A nested record has no tag twice. -/
def Put.Distinct (put : Put φ) : Prop := ∀ r ∈ put.nested?, (r.map Prod.fst).Nodup

/-- The values put inside are well formed. -/
structure Put.WF (put : Put φ) : Prop where
  nested : ∀ r ∈ put.nested?, WFRecord r
  items : WFSeq put.items

def Put.entries (put : Put φ) : Record := (put.stored.map fun v => (tag put.field, v)).toList

/-- Each field of the record is what was put there. -/
def Holds (puts : List (Put φ)) (c : Canon) : Prop := ∀ put ∈ puts, c.field (tag put.field) = put.stored

variable {tag}

theorem mkRecord_of_nodup {r : Record} (h : (r.map Prod.fst).Nodup) : mkRecord r = .ok (.record (sortByTag r)) := by
  obtain ⟨c, hc⟩ := mkRecord_isOk.mpr h
  rw [hc]
  unfold mkRecord at hc
  split at hc
  · cases hc
  · exact hc.symm

/-- One call adds the entry of its field, unless its record has a tag twice. -/
theorem Put.apply_eq_ok {put : Put φ} {r r' : Record} :
    put.apply tag r = .ok r' ↔ put.Distinct ∧ r' = r ++ put.entries tag := by
  cases put with
  | uintIf f v =>
    cases v <;> simp [Put.apply, Put.Distinct, Put.nested?, Put.entries, Put.stored, Put.field, eq_comm]
  | record f s =>
    simp only [Put.apply, Put.Distinct, Put.nested?, Option.mem_some_iff, forall_eq', Result.bind_eq_ok,
      Except.ok.injEq]
    constructor
    · rintro ⟨c, hc, rfl⟩
      have hnodup := mkRecord_isOk.mp ⟨c, hc⟩
      rw [mkRecord_of_nodup hnodup, Except.ok.injEq] at hc
      subst hc
      exact ⟨hnodup, rfl⟩
    · rintro ⟨hnodup, rfl⟩
      exact ⟨_, mkRecord_of_nodup hnodup, rfl⟩
  | _ => simp [Put.apply, Put.Distinct, Put.nested?, Put.entries, Put.stored, Put.field, eq_comm]

theorem foldlM_apply_eq_ok {puts : List (Put φ)} {r r' : Record} :
    puts.foldlM (Put.apply tag) r = .ok r' ↔
      (∀ put ∈ puts, put.Distinct) ∧ r' = r ++ puts.flatMap (Put.entries tag) := by
  induction puts generalizing r with
  | nil => simp [eq_comm]
  | cons put puts ih =>
    rw [List.foldlM_cons, Result.bind_eq_ok]
    simp only [Put.apply_eq_ok, ih, List.forall_mem_cons, List.flatMap_cons]
    constructor
    · rintro ⟨_, ⟨hput, rfl⟩, hputs, rfl⟩
      exact ⟨⟨hput, hputs⟩, List.append_assoc _ _ _⟩
    · rintro ⟨⟨hput, hputs⟩, rfl⟩
      exact ⟨_, ⟨hput, rfl⟩, hputs, (List.append_assoc _ _ _).symm⟩

theorem mem_entries {put : Put φ} {e : UInt32 × Canon} :
    e ∈ put.entries tag ↔ e.1 = tag put.field ∧ put.stored = some e.2 := by
  obtain ⟨t, v⟩ := e
  simp only [Put.entries, Option.mem_toList, Option.map_eq_some_iff, Prod.mk.injEq]
  constructor
  · rintro ⟨w, hw, rfl, rfl⟩
    exact ⟨rfl, hw⟩
  · rintro ⟨rfl, hv⟩
    exact ⟨v, hv, rfl, rfl⟩

section Increasing

variable {puts : List (Put φ)} (hinc : (puts.map fun put => tag put.field).Pairwise (· < ·))

include hinc

theorem sorted_entries : SortedMap.Sorted (puts.flatMap (Put.entries tag)) := by
  rw [List.pairwise_map] at hinc
  refine List.pairwise_map.mpr (List.pairwise_flatMap.mpr ⟨fun put _ => ?_, hinc.imp fun {p q} hpq x hx y hy => ?_⟩)
  · cases h : put.stored <;> simp [Put.entries, h]
  · rw [(mem_entries.mp hx).1, (mem_entries.mp hy).1]
    exact hpq

/-- Calls in the order of the tags return exactly when no nested record has a tag twice. -/
theorem build_eq_ok {c : Canon} : build tag puts = .ok c ↔
    (∀ put ∈ puts, put.Distinct) ∧ c = .record (puts.flatMap (Put.entries tag)) := by
  rw [build, Result.bind_eq_ok]
  simp only [foldlM_apply_eq_ok, List.nil_append]
  constructor
  · rintro ⟨_, ⟨hdistinct, rfl⟩, hc⟩
    rw [mkRecord_of_sorted (sorted_entries hinc), Except.ok.injEq] at hc
    exact ⟨hdistinct, hc.symm⟩
  · rintro ⟨hdistinct, rfl⟩
    exact ⟨_, ⟨hdistinct, rfl⟩, mkRecord_of_sorted (sorted_entries hinc)⟩

theorem holds_entries : Holds tag puts (.record (puts.flatMap (Put.entries tag))) := by
  intro put hput
  ext v
  rw [field, SortedMap.find_eq_some_iff (sorted_entries hinc), List.mem_flatMap]
  constructor
  · rintro ⟨put', hput', hmem⟩
    obtain ⟨htag, hv⟩ := mem_entries.mp hmem
    have hnodup : (puts.map fun put => tag put.field).Nodup := hinc.imp ne_of_lt
    rw [List.inj_on_of_nodup_map hnodup hput hput' htag]
    exact hv
  · intro hv
    exact ⟨put, hput, mem_entries.mpr ⟨rfl, hv⟩⟩

end Increasing

theorem Put.stored_wf {put : Put φ} (hd : put.Distinct) (hwf : put.WF) {v : Canon} (h : put.stored = some v) :
    v.WF := by
  cases put with
  | uintIf f o =>
    obtain ⟨n, -, rfl⟩ := Option.map_eq_some_iff.mp h
    trivial
  | seq f q =>
    cases h
    exact hwf.items
  | record f r =>
    cases h
    exact mkRecord_wf (wfRecord_iff.mp (hwf.nested r rfl)) (mkRecord_of_nodup (hd r rfl))
  | _ =>
    cases h
    trivial

theorem wfSeq_append {q q' : Seq} : WFSeq (q ++ q') ↔ WFSeq q ∧ WFSeq q' := by
  simp only [wfSeq_iff, List.forall_mem_append]

theorem wfSeq_map {α : Type} {w : α → Canon} {l : List α} : WFSeq (l.map w) ↔ ∀ x ∈ l, (w x).WF := by
  simp only [wfSeq_iff, List.forall_mem_map]

theorem forall_distinct_iff {puts : List (Put φ)} :
    (∀ put ∈ puts, put.Distinct) ↔ ∀ r ∈ puts.filterMap Put.nested?, (r.map Prod.fst).Nodup := by
  simp only [Put.Distinct, List.mem_filterMap]
  exact ⟨fun h r ⟨put, hput, hr⟩ => h put hput r hr, fun h put hput r hr => h r ⟨put, hput, hr⟩⟩

theorem forall_wf {puts : List (Put φ)} (hnested : ∀ r ∈ puts.filterMap Put.nested?, WFRecord r)
    (hitems : WFSeq (puts.flatMap Put.items)) : ∀ put ∈ puts, put.WF := fun put hput =>
  ⟨fun r hr => hnested r (List.mem_filterMap.mpr ⟨put, hput, hr⟩),
    wfSeq_iff.mpr fun c hc => wfSeq_iff.mp hitems c (List.mem_flatMap.mpr ⟨put, hput, hc⟩)⟩

/-- What is built decodes from its encoding, so that a reader that only looks at the
fields reads there what was put. -/
theorem build_round_trip {α : Type} {puts : List (Put φ)}
    (hinc : (puts.map fun put => tag put.field).Pairwise (· < ·)) (hd : ∀ put ∈ puts, put.Distinct)
    (hwf : ∀ put ∈ puts, put.WF) (hfits : ∀ c, build tag puts = .ok c → c.Fits) {read : Canon → Result α} {x : α}
    (hread : ∀ c, Holds tag puts c → read c = .ok x) :
    ∃ c, build tag puts = .ok c ∧ (canonicalEncode c >>= canonicalDecode >>= read) = .ok x ∧ Holds tag puts c := by
  have hbuild := (build_eq_ok hinc).mpr ⟨hd, rfl⟩
  have hholds := holds_entries hinc
  have hc : (Canon.record (puts.flatMap (Put.entries tag))).WF := by
    refine wf_record_iff.mpr ⟨sorted_entries hinc, fun e he => ?_⟩
    obtain ⟨put, hput, hmem⟩ := List.mem_flatMap.mp he
    exact Put.stored_wf (hd put hput) (hwf put hput) (mem_entries.mp hmem).2
  refine ⟨_, hbuild, ?_, hholds⟩
  rw [canonicalEncode_of_wf hc, Result.ok_bind, canonicalDecode_eq_ok.mpr ⟨hc, hfits _ hbuild, rfl⟩, Result.ok_bind]
  exact hread _ hholds

end Build

end Canon

end CompatRegistry
