import CompatRegistry.Canon.Value

/-! Reading values and fields at a kind. A value of another kind than the one expected is
treated as one that is absent. -/

namespace CompatRegistry

open Foundation

namespace Canon

/-! ### Reading a value at a kind -/

@[simp] def bool? : Canon → Option Bool
  | .bool v => some v
  | _ => none

@[simp] def uint? : Canon → Option UInt64
  | .uint v => some v
  | _ => none

@[simp] def int? : Canon → Option Int64
  | .int v => some v
  | _ => none

@[simp] def float? : Canon → Option FiniteDouble
  | .float x => some x
  | _ => none

@[simp] def str? : Canon → Option Bytes
  | .str s => some s
  | _ => none

@[simp] def bytes? : Canon → Option Bytes
  | .bytes s => some s
  | _ => none

@[simp] def uuid? : Canon → Option Uuid
  | .uuid u => some u
  | _ => none

@[simp] def record? : Canon → Option Record
  | .record r => some r
  | _ => none

@[simp] def seq? : Canon → Option Seq
  | .sequence q => some q
  | _ => none

/-! ### Reading a field -/

/-- A field at one kind, or the default. -/
def fieldOr {α : Type} (read : Canon → Option α) (c : Canon) (tag : UInt32) (dflt : α) : α :=
  ((c.field tag).bind read).getD dflt

/-- The items of a sequence field that are of one kind. -/
def itemsOf {α : Type} (read : Canon → Option α) (c : Canon) (tag : UInt32) : List α :=
  (fieldOr seq? c tag []).filterMap read

/-- A field at one kind, without which the reader throws. -/
def needField {α : Type} (read : Canon → Option α) (c : Canon) (tag : UInt32) (what : Bytes) : Result α :=
  match (c.field tag).bind read with
  | some x => .ok x
  | none => .error (.runtimeError what)

/-- What is put only where there is a value is read as that value. -/
@[simp] theorem bind_map_uint? (o : Option UInt64) : (o.map .uint).bind uint? = o := by
  cases o <;> rfl

section Present

variable {α : Type} {read : Canon → Option α} {c v : Canon} {tag : UInt32} {x : α}

theorem fieldOr_of {dflt : α} (hv : read v = some x) (h : c.field tag = some v) :
    fieldOr read c tag dflt = x := by
  rw [fieldOr, h, Option.bind_some, hv, Option.getD_some]

theorem itemsOf_of {w : α → Canon} {l : List α} (hread : ∀ x, read (w x) = some x)
    (h : c.field tag = some (.sequence (l.map w))) : itemsOf read c tag = l := by
  unfold itemsOf fieldOr
  rw [h, Option.bind_some, seq?, Option.getD_some, List.filterMap_map]
  refine (List.filterMap_congr fun x _ => hread x).trans ?_
  exact List.filterMap_some

end Present

end Canon

end CompatRegistry
