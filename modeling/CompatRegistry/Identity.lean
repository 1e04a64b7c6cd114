import CompatRegistry.Foundation.Bytes
import CompatRegistry.Foundation.Result

/-! Identities, generations and the ways a call can fail. `std::string` is a
byte string throughout, so that names and payloads from the wire are the bytes
that were received. -/

namespace CompatRegistry

open Foundation

/-- Why a call does not return. The first three are C++ exceptions with their
`what()` text. `outOfRange` is a read outside a buffer, which the source does
not guard against, and `outOfFuel` is the bound of a loop of the model. -/
inductive Fault where
  | canonError (what : Bytes)
  | runtimeError (what : Bytes)
  | invalidArgument (what : Bytes)
  | outOfRange
  | outOfFuel
  deriving DecidableEq

abbrev Result := Except Fault

/-- The call ends with an exception of the source. -/
def Throws {α : Type} (x : Result α) : Prop := ∃ e, x = .error e ∧ e ≠ .outOfRange ∧ e ≠ .outOfFuel

@[simp] theorem not_throws_ok {α : Type} (a : α) : ¬ Throws (.ok a) := by
  rintro ⟨e, h, -⟩
  cases h

@[simp] theorem throws_error_iff {α : Type} {e : Fault} :
    Throws (.error e : Result α) ↔ e ≠ .outOfRange ∧ e ≠ .outOfFuel := by
  simp [Throws]

theorem throws_bind_iff {α β : Type} {x : Result α} {f : α → Result β} :
    Throws (x >>= f) ↔ Throws x ∨ ∃ a, x = .ok a ∧ Throws (f a) := by
  cases x <;> simp

/-- `a - b` on `std::size_t`: the difference wraps when `b` is the larger. -/
def sizeSub (a b : ℕ) : ℕ := if b ≤ a then a - b else 2 ^ 64 - (b - a)

/-- `std::to_string` of a signed integer. -/
def decimalInt (i : ℤ) : Bytes := if i < 0 then ascii "-" ++ decimal i.natAbs else decimal i.natAbs

abbrev Uuid := FixedBytes 16

namespace Uuid

/-- The hexadecimal digit of a nibble. -/
def hexl (nib : ℕ) : UInt8 := if nib < 10 then UInt8.ofNat (48 + nib) else UInt8.ofNat (97 + (nib - 10))

/-- The digits of the bytes from index `i` on, with the dashes of the 8-4-4-4-12 form. -/
def render : ℕ → Bytes → Bytes
  | _, [] => []
  | i, b :: bs =>
    (if i = 4 ∨ i = 6 ∨ i = 8 ∨ i = 10 then ascii "-" else []) ++
      [hexl (b.toNat >>> 4), hexl (b.toNat &&& 0x0F)] ++ render (i + 1) bs

def toString (u : Uuid) : Bytes := render 0 u.bytes

def zero : Uuid := FixedBytes.zero 16

/-- The bytes of the two words, least significant first, under the marks of version and variant. -/
def generateV4 (a b : UInt64) : Uuid where
  bytes := (((toBE 8 a.toNat).reverse ++ (toBE 8 b.toNat).reverse).modify 6
    (fun x => (x &&& 0x0F) ||| 0x40)).modify 8 (fun x => (x &&& 0x3F) ||| 0x80)
  size := by simp

/-- The version mark keeps a generated identity from being zero. -/
theorem generateV4_ne_zero (a b : UInt64) : generateV4 a b ≠ zero := by
  intro h
  have hbyte : (generateV4 a b).bytes[6]? = some 0 := by
    rw [h]
    rfl
  have hlt : 6 < ((toBE 8 a.toNat).reverse ++ (toBE 8 b.toNat).reverse).length := by simp
  rw [generateV4, List.getElem?_modify, List.getElem?_modify, List.getElem?_eq_getElem hlt] at hbyte
  have hbit := congrArg (Option.map fun y : UInt8 => y.toBitVec.getLsbD 6) hbyte
  simp at hbit

end Uuid

/-- The identity whose last byte is `b`, all others zero. -/
def uuidOf (b : UInt8) : Uuid := ⟨List.replicate 15 0 ++ [b], rfl⟩

/-- `Generation::value`; the increment of a generation wraps at `2^64`. -/
abbrev Generation := UInt64

end CompatRegistry
