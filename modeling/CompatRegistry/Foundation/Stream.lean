import CompatRegistry.Foundation.Result

/-! A stream that is read from its front by one decoder, which returns an item and
the number of symbols that it consumed. A decoder that reads every item of a list
back from in front of any rest reads the concatenation of the items back. -/

namespace Foundation.Stream

variable {ε σ α : Type}

/-- `n` items, one after the other, with the symbols each of them consumed, and what is left. -/
def readN (decode : List σ → Except ε (α × ℕ)) : ℕ → List σ → Except ε (List (α × ℕ) × List σ)
  | 0, s => .ok ([], s)
  | n + 1, s => do
    let (a, consumed) ← decode s
    let (rest, left) ← readN decode n (s.drop consumed)
    .ok ((a, consumed) :: rest, left)

/-- The decoder takes an item back from the front of every stream that starts with it. -/
def ReadsBack (decode : List σ → Except ε (α × ℕ)) (encode : α → List σ) (a : α) : Prop :=
  ∀ rest, decode (encode a ++ rest) = .ok (a, (encode a).length)

variable {decode : List σ → Except ε (α × ℕ)} {encode : α → List σ}

theorem readN_flatMap {as : List α} (h : ∀ a ∈ as, ReadsBack decode encode a) (rest : List σ) :
    readN decode as.length (as.flatMap encode ++ rest) =
      .ok (as.map fun a => (a, (encode a).length), rest) := by
  induction as with
  | nil => rfl
  | cons a as ih =>
    have hhead := h a List.mem_cons_self ((as.flatMap encode) ++ rest)
    have htail := ih fun b hb => h b (List.mem_cons_of_mem a hb)
    rw [List.flatMap_cons, List.append_assoc, List.length_cons, readN, hhead, Result.ok_bind]
    simp only [List.drop_left, htail, Result.ok_bind, List.map_cons]

/-- Whatever holds of every result of the decoder holds of every item of a run. -/
theorem forall_mem_readN {P : α → ℕ → Prop} (hdecode : ∀ s a c, decode s = .ok (a, c) → P a c)
    {n : ℕ} {s left : List σ} {out : List (α × ℕ)} (h : readN decode n s = .ok (out, left)) :
    ∀ x ∈ out, P x.1 x.2 := by
  induction n generalizing s out with
  | zero =>
    cases h
    simp
  | succ n ih =>
    rw [readN, Result.bind_eq_ok] at h
    obtain ⟨⟨a, c⟩, ha, h⟩ := h
    obtain ⟨⟨rest, left'⟩, hrest, h⟩ := Result.bind_eq_ok.mp h
    cases h
    intro x hx
    rcases List.mem_cons.mp hx with rfl | hx
    · exact hdecode _ _ _ ha
    · exact ih hrest x hx

end Foundation.Stream
