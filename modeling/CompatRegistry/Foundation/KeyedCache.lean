import CompatRegistry.Foundation.UnorderedMap

/-! A cache that stores values under one attribute of theirs, the key, and finds
them by another, the name. A later value replaces an earlier one of its key, and of
several values of a name the first in iteration order is found. Every value ever
stored is found by its name exactly when neither attribute is shared by different
values. -/

namespace Foundation.KeyedCache

variable {κ ν α : Type} [DecidableEq κ] [DecidableEq ν] (key : α → κ) (name : α → ν)

/-- The first value of the name, in iteration order. -/
def find (n : ν) (cache : UMap κ α) : Option α := cache.values.find? (name · = n)

/-- The values that were stored, oldest first, have filled the cache. -/
structure Fills (stored : List α) (cache : UMap κ α) : Prop where
  mem : ∀ k a, cache.lookup k = some a → a ∈ stored ∧ key a = k
  key : ∀ a ∈ stored, ∃ b, cache.lookup (key a) = some b

variable {key name}
variable {stored : List α} {cache : UMap κ α}

theorem Fills.empty : Fills key [] (∅ : UMap κ α) where
  mem k a h := by simp at h
  key a h := by simp at h

theorem Fills.insert (h : Fills key stored cache) (a : α) :
    Fills key (stored ++ [a]) (cache.insert (key a) a) where
  mem k b hl := by
    rw [UMap.lookup_insert_ite] at hl
    split_ifs at hl with hk
    · cases hl
      exact ⟨by simp, hk.symm⟩
    · obtain ⟨hmem, hkey⟩ := h.mem k b hl
      exact ⟨List.mem_append_left _ hmem, hkey⟩
  key b hb := by
    rw [UMap.lookup_insert_ite]
    split_ifs with hk
    · exact ⟨a, rfl⟩
    · rcases List.mem_append.mp hb with hb | hb
      · exact h.key b hb
      · rw [List.mem_singleton.mp hb] at hk
        exact absurd rfl hk

theorem Fills.congr {cache' : UMap κ α} (h : Fills key stored cache)
    (hsame : ∀ k, cache'.lookup k = cache.lookup k) : Fills key stored cache' where
  mem k a hl := h.mem k a (by rwa [← hsame])
  key a ha := by
    rw [hsame]
    exact h.key a ha

theorem find_eq_some {n : ν} {a : α} (h : find name n cache = some a) :
    (∃ k, cache.lookup k = some a) ∧ name a = n := by
  unfold find at h
  refine ⟨UMap.mem_values_iff.mp (List.mem_of_find?_eq_some h), ?_⟩
  simpa using List.find?_some h

/-- Something is found under the name of every value in the cache. -/
theorem find_of_lookup {k : κ} {a : α} (h : cache.lookup k = some a) :
    ∃ b, find name (name a) cache = some b := by
  rw [← Option.isSome_iff_exists, find, List.find?_isSome]
  exact ⟨a, UMap.mem_values_iff.mpr ⟨k, h⟩, by simp⟩

/-- Whether every stored value is found by its name. -/
theorem Fills.all_found_iff (h : Fills key stored cache) :
    (∀ a ∈ stored, find name (name a) cache = some a) ↔
      ∀ a ∈ stored, ∀ b ∈ stored, name a = name b ∨ key a = key b → a = b := by
  constructor
  · intro hfound a ha b hb hshared
    rcases hshared with hname | hkey
    · have heq := hfound a ha
      rw [hname, hfound b hb] at heq
      exact (Option.some.inj heq).symm
    · -- both are what is stored under their key
      have hstored : ∀ c ∈ stored, cache.lookup (key c) = some c := by
        intro c hc
        obtain ⟨⟨k, hk⟩, -⟩ := find_eq_some (hfound c hc)
        rwa [(h.mem k c hk).2]
      have heq := hstored a ha
      rw [hkey, hstored b hb] at heq
      exact (Option.some.inj heq).symm
  · intro hdistinct a ha
    obtain ⟨b, hb⟩ := h.key a ha
    obtain ⟨hbmem, hbkey⟩ := h.mem _ b hb
    obtain rfl : a = b := hdistinct a ha b hbmem (.inr hbkey.symm)
    obtain ⟨c, hc⟩ : ∃ c, find name (name a) cache = some c := find_of_lookup hb
    obtain ⟨⟨k, hk⟩, hname⟩ := find_eq_some hc
    rw [hc, hdistinct c (h.mem k c hk).1 a ha (.inl hname)]

end Foundation.KeyedCache
