import CompatRegistry.Foundation.Bytes

/-! Enumerations over one byte. A scoped enumeration with a byte as its
underlying type holds any byte: an unchecked cast of an integer may produce a
value that is no enumerator. `Enum8` keeps both apart, and casting to the byte
and back is the identity. -/

namespace Foundation

class Enumerated (ε : Type) where
  code : ε → UInt8
  enumerators : List ε
  complete : ∀ e, e ∈ enumerators
  code_injective : ∀ e ∈ enumerators, ∀ f ∈ enumerators, code e = code f → e = f

inductive Enum8 (ε : Type) [Enumerated ε] where
  | declared (e : ε)
  | undeclared (raw : UInt8) (h : ∀ e : ε, Enumerated.code e ≠ raw)

namespace Enum8

open Enumerated

variable {ε : Type} [Enumerated ε]

instance : Coe ε (Enum8 ε) := ⟨.declared⟩

def toByte : Enum8 ε → UInt8
  | .declared e => code e
  | .undeclared raw _ => raw

def ofByte (b : UInt8) : Enum8 ε :=
  match h : enumerators.find? (fun e : ε => code e == b) with
  | some e => .declared e
  | none => .undeclared b fun e he => by
    have := List.find?_eq_none.mp h e (complete e)
    simp [he] at this

/-- `static_cast` from a 64-bit integer keeps the low byte. -/
def cast (v : UInt64) : Enum8 ε := ofByte v.toUInt8

def toUInt64 (x : Enum8 ε) : UInt64 := x.toByte.toUInt64

def isDeclared : Enum8 ε → Bool
  | .declared _ => true
  | .undeclared _ _ => false

theorem toByte_ofByte (b : UInt8) : (ofByte b : Enum8 ε).toByte = b := by
  unfold ofByte
  split
  next e h => simpa [toByte] using List.find?_some h
  next => rfl

theorem toByte_injective : Function.Injective (toByte : Enum8 ε → UInt8) := by
  intro x y h
  match x, y, h with
  | .declared e, .declared f, h => rw [code_injective e (complete e) f (complete f) h]
  | .declared e, .undeclared _ hr, h => exact absurd h (hr e)
  | .undeclared _ hr, .declared f, h => exact absurd h.symm (hr f)
  | .undeclared _ _, .undeclared _ _, h => cases h; rfl

instance : DecidableEq (Enum8 ε) := fun x y =>
  decidable_of_iff (x.toByte = y.toByte) toByte_injective.eq_iff

theorem ofByte_toByte (x : Enum8 ε) : ofByte x.toByte = x :=
  toByte_injective (toByte_ofByte x.toByte)

/-- A cast gives an enumerator when the low byte is the code of one. -/
theorem cast_isDeclared {v : UInt64} : (cast v : Enum8 ε).isDeclared = true ↔ ∃ e : ε, code e = v.toUInt8 := by
  have hbyte : (cast v : Enum8 ε).toByte = v.toUInt8 := toByte_ofByte _
  cases hx : (cast v : Enum8 ε) with
  | declared e =>
    rw [hx] at hbyte
    exact iff_of_true rfl ⟨e, hbyte⟩
  | undeclared raw hraw =>
    rw [hx] at hbyte
    obtain rfl : raw = v.toUInt8 := hbyte
    exact iff_of_false Bool.false_ne_true fun ⟨e, he⟩ => hraw e he

@[simp] theorem cast_toUInt64 (x : Enum8 ε) : cast x.toUInt64 = x := by
  rw [cast, toUInt64, UInt8.toUInt8_toUInt64, ofByte_toByte]

end Enum8

end Foundation
