import CompatRegistry.Identity
import CompatRegistry.Foundation.Enumerated
import CompatRegistry.Foundation.SortedMap
import CompatRegistry.Foundation.Binary64

/-! The canonical value tree: its ten kinds, the typed accessors, the
constructors and field lookup. A value that the constructors built has strictly
increasing tags in every record. -/

namespace CompatRegistry

open Foundation

inductive CanonKind where
  | null | uint | int | bool | str | bytes | uuid | float | record | sequence
  deriving DecidableEq, Repr

instance : Enumerated CanonKind where
  code k := UInt8.ofNat k.ctorIdx
  enumerators := [.null, .uint, .int, .bool, .str, .bytes, .uuid, .float, .record, .sequence]
  complete k := by cases k <;> decide
  code_injective := by decide

inductive Canon where
  | null
  | uint (v : UInt64)
  | int (v : Int64)
  | bool (v : Bool)
  | str (s : Bytes)
  | bytes (s : Bytes)
  | uuid (u : Uuid)
  | float (x : FiniteDouble)
  | record (r : List (UInt32 × Canon))
  | sequence (q : List Canon)

namespace Canon

abbrev Record := List (UInt32 × Canon)

abbrev Seq := List Canon

def kind : Canon → CanonKind
  | .null => .null
  | .uint _ => .uint
  | .int _ => .int
  | .bool _ => .bool
  | .str _ => .str
  | .bytes _ => .bytes
  | .uuid _ => .uuid
  | .float _ => .float
  | .record _ => .record
  | .sequence _ => .sequence

/-! ### Accessors

The scalar accessors throw on another kind. `asRecord` and `asSeq` do not
check: on another kind they return the empty container. -/

def asUint : Canon → Result UInt64
  | .uint v => .ok v
  | _ => .error (.canonError "Canon::as_uint: not Uint")

def asInt : Canon → Result Int64
  | .int v => .ok v
  | _ => .error (.canonError "Canon::as_int: not Int")

def asString : Canon → Result Bytes
  | .str s => .ok s
  | .bytes s => .ok s
  | _ => .error (.canonError "Canon::as_string: not String/Bytes")

def asRecord : Canon → Record
  | .record r => r
  | _ => []

def asSeq : Canon → Seq
  | .sequence q => q
  | _ => []

/-! ### Constructors -/

/-- The tag of the first entry that repeats the tag before it. -/
def adjacentDuplicate {ν : Type} : List (UInt32 × ν) → Option UInt32
  | [] => none
  | [_] => none
  | a :: b :: r => if b.1 = a.1 then some b.1 else adjacentDuplicate (b :: r)

def sortByTag {ν : Type} (r : List (UInt32 × ν)) : List (UInt32 × ν) :=
  r.insertionSort fun a b => a.1 ≤ b.1

def mkRecord (r : Record) : Result Canon :=
  match adjacentDuplicate (sortByTag r) with
  | some tag => .error (.canonError (ascii "Canon::mk_record: duplicate tag " ++ decimal tag.toNat))
  | none => .ok (.record (sortByTag r))

/-- Rejects NaN and infinities. -/
def mkFloat (v : Binary64) : Result Canon :=
  if h : v.isFinite = true then .ok (.float ⟨v, h⟩)
  else .error (.canonError "Canon::mk_float: NaN/Inf not allowed in canonical encoding")

/-- The entry of a tag, found by binary search; other kinds have no fields. -/
def field (c : Canon) (tag : UInt32) : Option Canon :=
  match c with
  | .record r => SortedMap.find tag r
  | _ => none

/-! ### Well-formed values -/

mutual
/-- Every record, at every depth, has strictly increasing tags. -/
def WF : Canon → Prop
  | .record r => SortedMap.Sorted r ∧ WFRecord r
  | .sequence q => WFSeq q
  | _ => True

def WFRecord : Record → Prop
  | [] => True
  | (_, c) :: r => c.WF ∧ WFRecord r

def WFSeq : Seq → Prop
  | [] => True
  | c :: q => c.WF ∧ WFSeq q
end

theorem wfRecord_iff {r : Record} : WFRecord r ↔ ∀ e ∈ r, e.2.WF := by
  induction r with
  | nil => simp [WFRecord]
  | cons e r ih => simp [WFRecord, ih]

theorem wfSeq_iff {q : Seq} : WFSeq q ↔ ∀ c ∈ q, c.WF := by
  induction q with
  | nil => simp [WFSeq]
  | cons c q ih => simp [WFSeq, ih]

theorem wf_record_iff {r : Record} :
    (Canon.record r).WF ↔ SortedMap.Sorted r ∧ ∀ e ∈ r, e.2.WF := by
  rw [WF, wfRecord_iff]

theorem wf_sequence_iff {q : Seq} : (Canon.sequence q).WF ↔ ∀ c ∈ q, c.WF := by
  rw [WF, wfSeq_iff]

theorem adjacentDuplicate_of_sorted {ν : Type} {r : List (UInt32 × ν)} (h : SortedMap.Sorted r) :
    adjacentDuplicate r = none := by
  induction r with
  | nil => rfl
  | cons a r ih =>
    cases r with
    | nil => rfl
    | cons b r =>
      obtain ⟨hab, hr⟩ := SortedMap.sorted_cons.mp h
      rw [adjacentDuplicate, if_neg (hab b List.mem_cons_self).ne', ih hr]

theorem sortByTag_of_sorted {ν : Type} {r : List (UInt32 × ν)} (h : SortedMap.Sorted r) :
    sortByTag r = r := by
  apply List.Pairwise.insertionSort_eq
  exact (List.pairwise_map.mp h).imp le_of_lt

/-- Entries in tag order are taken over unchanged. -/
theorem mkRecord_of_sorted {r : Record} (h : SortedMap.Sorted r) : mkRecord r = .ok (.record r) := by
  rw [mkRecord, sortByTag_of_sorted h, adjacentDuplicate_of_sorted h]

theorem sorted_of_adjacentDuplicate {ν : Type} {r : List (UInt32 × ν)}
    (hle : r.Pairwise fun a b => a.1 ≤ b.1) (h : adjacentDuplicate r = none) :
    SortedMap.Sorted r := by
  induction r with
  | nil => simp [SortedMap.Sorted]
  | cons a r ih =>
    cases r with
    | nil => simp [SortedMap.Sorted]
    | cons b r =>
      obtain ⟨ha, hr⟩ := List.pairwise_cons.mp hle
      rw [adjacentDuplicate] at h
      split_ifs at h with hab
      have hlt : a.1 < b.1 := lt_of_le_of_ne (ha b List.mem_cons_self) (Ne.symm hab)
      have hs := ih hr h
      refine SortedMap.sorted_cons.mpr ⟨fun x hx => ?_, hs⟩
      rcases List.mem_cons.mp hx with rfl | hx
      · exact hlt
      · exact hlt.trans ((SortedMap.sorted_cons.mp hs).1 x hx)

theorem sortByTag_perm {ν : Type} (r : List (UInt32 × ν)) : (sortByTag r).Perm r :=
  List.perm_insertionSort _ r

theorem pairwise_sortByTag {ν : Type} (r : List (UInt32 × ν)) :
    (sortByTag r).Pairwise fun a b => a.1 ≤ b.1 := by
  have : Std.Total fun a b : UInt32 × ν => a.1 ≤ b.1 := ⟨fun a b => le_total a.1 b.1⟩
  have : IsTrans (UInt32 × ν) fun a b => a.1 ≤ b.1 := ⟨fun _ _ _ => le_trans⟩
  exact List.pairwise_insertionSort _ r

/-- `mk_record` on entries that are written down in tag order. -/
def ofEntries (r : Record) (_ : (r.map Prod.fst).IsChain (· < ·) := by simp) : Canon := .record r

theorem mkRecord_ofEntries {r : Record} (h : (r.map Prod.fst).IsChain (· < ·)) :
    mkRecord r = .ok (ofEntries r h) := mkRecord_of_sorted (List.isChain_iff_pairwise.mp h)

theorem ofEntries_wf {r : Record} (h : (r.map Prod.fst).IsChain (· < ·)) (hr : WFRecord r) :
    (ofEntries r h).WF := ⟨List.isChain_iff_pairwise.mp h, hr⟩

/-- Whatever `mkRecord` returns is the sorted permutation of its entries. -/
theorem mkRecord_eq_ok {r : Record} {c : Canon} (h : mkRecord r = .ok c) :
    ∃ r' : Record, c = .record r' ∧ SortedMap.Sorted r' ∧ r'.Perm r := by
  rw [mkRecord] at h
  split at h
  · cases h
  · rename_i hdup
    cases h
    exact ⟨_, rfl, sorted_of_adjacentDuplicate (pairwise_sortByTag r) hdup, sortByTag_perm r⟩

theorem mkRecord_wf {r : Record} {c : Canon} (hr : ∀ e ∈ r, e.2.WF) (h : mkRecord r = .ok c) :
    c.WF := by
  obtain ⟨r', rfl, hs, hp⟩ := mkRecord_eq_ok h
  exact wf_record_iff.mpr ⟨hs, fun e he => hr e (hp.mem_iff.mp he)⟩

/-- The values that calls of the constructors build. -/
inductive Built : Canon → Prop
  | null : Built .null
  | uint (v : UInt64) : Built (.uint v)
  | int (v : Int64) : Built (.int v)
  | bool (v : Bool) : Built (.bool v)
  | str (s : Bytes) : Built (.str s)
  | bytes (s : Bytes) : Built (.bytes s)
  | uuid (u : Uuid) : Built (.uuid u)
  | float {v : Binary64} {c : Canon} (h : mkFloat v = .ok c) : Built c
  | record {r : Record} {c : Canon} (hr : ∀ e ∈ r, Built e.2) (h : mkRecord r = .ok c) : Built c
  | sequence {q : Seq} (hq : ∀ c ∈ q, Built c) : Built (.sequence q)

theorem Built.wf {c : Canon} (h : Built c) : c.WF := by
  induction h with
  | float h =>
    rw [mkFloat] at h
    split_ifs at h
    cases h
    trivial
  | record _ h ih => exact mkRecord_wf ih h
  | sequence _ ih => exact wf_sequence_iff.mpr ih
  | _ => trivial

theorem WF.built : ∀ {c : Canon}, c.WF → Built c
  | .null, _ => .null
  | .uint v, _ => .uint v
  | .int v, _ => .int v
  | .bool v, _ => .bool v
  | .str s, _ => .str s
  | .bytes s, _ => .bytes s
  | .uuid u, _ => .uuid u
  | .float x, _ => .float (v := x.toBinary64) (by rw [mkFloat, dif_pos x.finite])
  | .record r, h => .record (fun e he => (wf_record_iff.mp h |>.2 e he).built)
      (mkRecord_of_sorted (wf_record_iff.mp h).1)
  | .sequence q, h => .sequence fun c hc => (wf_sequence_iff.mp h c hc).built
termination_by c => sizeOf c
decreasing_by
  · have := List.sizeOf_lt_of_mem he
    obtain ⟨t, v⟩ := e
    simp at this ⊢
    omega
  · have := List.sizeOf_lt_of_mem hc
    simp
    omega

theorem field_wf {c v : Canon} {tag : UInt32} (hc : c.WF) (h : c.field tag = some v) : v.WF := by
  cases c with
  | record r =>
    obtain ⟨hs, hr⟩ := wf_record_iff.mp hc
    exact hr _ ((SortedMap.find_eq_some_iff hs).mp h)
  | _ => simp [field] at h

/-! ### Values written as records -/

/-- What a value is once it is written as a record: another kind becomes the empty one. -/
def forced (c : Canon) : Canon := .record c.asRecord

theorem asRecord_sorted {c : Canon} (h : c.WF) : SortedMap.Sorted c.asRecord := by
  cases c with
  | record r => exact h.1
  | _ => simp [asRecord, SortedMap.Sorted]

theorem forced_wf {c : Canon} (h : c.WF) : c.forced.WF := by
  cases c with
  | record r => exact h
  | _ => simp [forced, asRecord, WF, SortedMap.Sorted, WFRecord]

/-- A value is written as it is exactly when it is a record. -/
theorem forced_eq_self_iff {c : Canon} : c.forced = c ↔ c.kind = .record := by
  cases c <;> simp [forced, asRecord, kind]

end Canon

end CompatRegistry
