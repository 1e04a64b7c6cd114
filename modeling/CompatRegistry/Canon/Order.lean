import CompatRegistry.Canon.Encode

/-! Records and the order of their fields. Sorting by tag and the scan for repeated
neighbours make a canonical form: the result depends on the entries and not on the
order they were put in, whichever sort is used. Through nested records the same is said
of a draft, a tree whose records still have their entries in the order of the calls. -/

namespace CompatRegistry

open Foundation

namespace Canon

/-! ### One record -/

/-- The scan looks at the tags only. -/
theorem adjacentDuplicate_congr {ν μ : Type} {r : List (UInt32 × ν)} {s : List (UInt32 × μ)}
    (h : r.map Prod.fst = s.map Prod.fst) : adjacentDuplicate r = adjacentDuplicate s := by
  induction r generalizing s with
  | nil =>
    obtain rfl := List.map_eq_nil_iff.mp h.symm
    rfl
  | cons a r ih =>
    obtain ⟨a', s, rfl, ha, hs⟩ := List.map_eq_cons_iff.mp h.symm
    cases r with
    | nil =>
      obtain rfl := List.map_eq_nil_iff.mp hs
      rfl
    | cons b r =>
      obtain ⟨b', s, rfl, hb, -⟩ := List.map_eq_cons_iff.mp hs
      rw [adjacentDuplicate, adjacentDuplicate, ha, hb, ih hs.symm]

/-- In tag order, neighbours differ exactly when all tags do. -/
theorem adjacentDuplicate_eq_none_iff {ν : Type} {r : List (UInt32 × ν)}
    (hle : r.Pairwise fun a b => a.1 ≤ b.1) : adjacentDuplicate r = none ↔ (r.map Prod.fst).Nodup := by
  constructor
  · intro h
    exact (sorted_of_adjacentDuplicate hle h).imp ne_of_lt
  · intro h
    have hsorted : SortedMap.Sorted r :=
      (List.pairwise_map.mpr hle).imp₂ (fun _ _ hab hne => lt_of_le_of_ne hab hne) h
    exact adjacentDuplicate_of_sorted hsorted

/-- The scan of sorted entries. -/
def checkSorted (s : Record) : Result Canon :=
  match adjacentDuplicate s with
  | some tag => .error (.canonError (ascii "Canon::mk_record: duplicate tag " ++ decimal tag.toNat))
  | none => .ok (.record s)

/-- Any way of sorting the entries by tag gives the same result. -/
theorem checkSorted_of_perm {r s : Record} (hperm : s.Perm r) (hle : s.Pairwise fun a b => a.1 ≤ b.1) :
    checkSorted s = mkRecord r := by
  have hperm' : s.Perm (sortByTag r) := hperm.trans (sortByTag_perm r).symm
  have htags : s.map Prod.fst = (sortByTag r).map Prod.fst :=
    (hperm'.map Prod.fst).eq_of_pairwise' (List.pairwise_map.mpr hle)
      (List.pairwise_map.mpr (pairwise_sortByTag r))
  rw [checkSorted, mkRecord, adjacentDuplicate_congr htags]
  cases h : adjacentDuplicate (sortByTag r) with
  | some tag => rfl
  | none =>
    have hsorted := sorted_of_adjacentDuplicate (pairwise_sortByTag r) h
    have hsorted' : SortedMap.Sorted s := by rwa [SortedMap.Sorted, htags]
    have hne : ∀ a b : UInt32 × Canon, a.1 < b.1 → ¬ b.1 < a.1 := fun a b hab => hab.not_gt
    have heq : s = sortByTag r := hperm'.eq_of_pairwise
      (fun a b _ _ hab hba => absurd hba (hne a b hab)) (List.pairwise_map.mp hsorted')
      (List.pairwise_map.mp hsorted)
    rw [heq]

theorem mkRecord_perm {r r' : Record} (h : r.Perm r') : mkRecord r = mkRecord r' :=
  (checkSorted_of_perm ((sortByTag_perm r).trans h) (pairwise_sortByTag r)).symm.trans
    (checkSorted_of_perm (sortByTag_perm r) (pairwise_sortByTag r)) |>.symm

theorem mkRecord_isOk {r : Record} : (∃ c, mkRecord r = .ok c) ↔ (r.map Prod.fst).Nodup := by
  rw [← ((sortByTag_perm r).map Prod.fst).nodup_iff,
    ← adjacentDuplicate_eq_none_iff (pairwise_sortByTag r), mkRecord]
  cases adjacentDuplicate (sortByTag r) <;> simp

/-- The fields of a record are its entries. -/
theorem mkRecord_field {r : Record} {c : Canon} (h : mkRecord r = .ok c) (tag : UInt32) (v : Canon) :
    c.field tag = some v ↔ (tag, v) ∈ r := by
  obtain ⟨r', rfl, hsorted, hperm⟩ := mkRecord_eq_ok h
  rw [field, SortedMap.find_eq_some_iff hsorted, hperm.mem_iff]

/-! ### Nested records -/

mutual
/-- The calls that make a value of a draft, the innermost first. -/
def assemble : Canon → Result Canon
  | .record r => do
    let r ← assembleEntries r
    mkRecord r
  | .sequence q => do
    let q ← assembleAll q
    .ok (.sequence q)
  | c => .ok c

def assembleEntries : Record → Result Record
  | [] => .ok []
  | (tag, d) :: r => do
    let c ← assemble d
    let r ← assembleEntries r
    .ok ((tag, c) :: r)

def assembleAll : Seq → Result Seq
  | [] => .ok []
  | d :: q => do
    let c ← assemble d
    let q ← assembleAll q
    .ok (c :: q)
end

mutual
/-- No record of the draft has two entries of one tag. -/
def Distinct : Canon → Prop
  | .record r => (r.map Prod.fst).Nodup ∧ DistinctEntries r
  | .sequence q => DistinctAll q
  | _ => True

def DistinctEntries : Record → Prop
  | [] => True
  | (_, d) :: r => d.Distinct ∧ DistinctEntries r

def DistinctAll : Seq → Prop
  | [] => True
  | d :: q => d.Distinct ∧ DistinctAll q
end

theorem assembleEntries_eq_ok {r r' : Record} :
    assembleEntries r = .ok r' ↔ List.Forall₂ (fun e e' => e.1 = e'.1 ∧ assemble e.2 = .ok e'.2) r r' := by
  induction r generalizing r' with
  | nil =>
    rw [assembleEntries, List.forall₂_nil_left_iff, Except.ok.injEq]
    exact eq_comm
  | cons e r ih =>
    obtain ⟨tag, d⟩ := e
    rw [assembleEntries, List.forall₂_cons_left_iff]
    simp only [Result.bind_eq_ok, ih, Except.ok.injEq]
    constructor
    · rintro ⟨c, hc, s, hs, rfl⟩
      exact ⟨(tag, c), s, ⟨rfl, hc⟩, hs, rfl⟩
    · rintro ⟨⟨tag', c⟩, s, ⟨rfl, hc⟩, hs, rfl⟩
      exact ⟨c, hc, s, hs, rfl⟩

theorem assembleEntries_tags {r r' : Record} (h : assembleEntries r = .ok r') :
    r'.map Prod.fst = r.map Prod.fst := by
  have hforall := assembleEntries_eq_ok.mp h
  induction hforall with
  | nil => rfl
  | cons he hr ih => rw [List.map_cons, List.map_cons, he.1, ih (assembleEntries_eq_ok.mpr hr)]

mutual
/-- A draft gives a value unless a tag occurs twice in one of its records. -/
theorem assemble_isOk : ∀ d : Canon, (∃ c, assemble d = .ok c) ↔ d.Distinct
  | .record r => by
    rw [assemble, Distinct, ← assembleEntries_isOk r]
    simp only [Result.bind_eq_ok]
    constructor
    · rintro ⟨c, r', hr', hc⟩
      exact ⟨assembleEntries_tags hr' ▸ mkRecord_isOk.mp ⟨c, hc⟩, r', hr'⟩
    · rintro ⟨hnodup, r', hr'⟩
      obtain ⟨c, hc⟩ := mkRecord_isOk.mpr ((assembleEntries_tags hr').symm ▸ hnodup)
      exact ⟨c, r', hr', hc⟩
  | .sequence q => by
    rw [assemble, Distinct, ← assembleAll_isOk q]
    simp [Result.bind_eq_ok]
  | .null | .uint _ | .int _ | .bool _ | .str _ | .bytes _ | .uuid _ | .float _ => by
    simp [assemble, Distinct]

theorem assembleEntries_isOk : ∀ r : Record, (∃ r', assembleEntries r = .ok r') ↔ DistinctEntries r
  | [] => by simp [assembleEntries, DistinctEntries]
  | (tag, d) :: r => by
    rw [assembleEntries, DistinctEntries, ← assemble_isOk d, ← assembleEntries_isOk r]
    simp only [Result.bind_eq_ok, Except.ok.injEq]
    constructor
    · rintro ⟨_, c, hc, s, hs, -⟩
      exact ⟨⟨c, hc⟩, s, hs⟩
    · rintro ⟨⟨c, hc⟩, s, hs⟩
      exact ⟨_, c, hc, s, hs, rfl⟩

theorem assembleAll_isOk : ∀ q : Seq, (∃ q', assembleAll q = .ok q') ↔ DistinctAll q
  | [] => by simp [assembleAll, DistinctAll]
  | d :: q => by
    rw [assembleAll, DistinctAll, ← assemble_isOk d, ← assembleAll_isOk q]
    simp only [Result.bind_eq_ok, Except.ok.injEq]
    constructor
    · rintro ⟨_, c, hc, s, hs, -⟩
      exact ⟨⟨c, hc⟩, s, hs⟩
    · rintro ⟨⟨c, hc⟩, s, hs⟩
      exact ⟨_, c, hc, s, hs, rfl⟩
end

/-- Drafts that differ in the order of the entries of their records, at any depth. -/
inductive Shuffled : Canon → Canon → Prop
  | refl (d : Canon) : Shuffled d d
  | trans {d₁ d₂ d₃ : Canon} (h₁ : Shuffled d₁ d₂) (h₂ : Shuffled d₂ d₃) : Shuffled d₁ d₃
  | perm {r r' : Record} (h : r.Perm r') : Shuffled (.record r) (.record r')
  | entry {d d' : Canon} (p s : Record) (tag : UInt32) (h : Shuffled d d') :
      Shuffled (.record (p ++ (tag, d) :: s)) (.record (p ++ (tag, d') :: s))
  | element {d d' : Canon} (p s : Seq) (h : Shuffled d d') :
      Shuffled (.sequence (p ++ d :: s)) (.sequence (p ++ d' :: s))

theorem assemble_record_perm {r r' : Record} (h : r.Perm r') {c : Canon}
    (hc : assemble (.record r) = .ok c) : assemble (.record r') = .ok c := by
  rw [assemble] at hc ⊢
  obtain ⟨s, hs, hc⟩ := Result.bind_eq_ok.mp hc
  obtain ⟨s', hs', hperm⟩ := List.perm_comp_forall₂ h.symm (assembleEntries_eq_ok.mp hs)
  exact Result.bind_eq_ok.mpr ⟨s', assembleEntries_eq_ok.mpr hs', (mkRecord_perm hperm).trans hc⟩

/-- Only what an entry comes to matters. -/
theorem assembleEntries_entry {d d' : Canon} (h : ∀ c, assemble d = .ok c ↔ assemble d' = .ok c) (p s : Record)
    (tag : UInt32) (r : Record) :
    assembleEntries (p ++ (tag, d) :: s) = .ok r ↔ assembleEntries (p ++ (tag, d') :: s) = .ok r := by
  induction p generalizing r with
  | nil => simp only [List.nil_append, assembleEntries, Result.bind_eq_ok, h]
  | cons e p ih =>
    obtain ⟨tag', d₀⟩ := e
    simp only [List.cons_append, assembleEntries, Result.bind_eq_ok, ih]

theorem assembleAll_element {d d' : Canon} (h : ∀ c, assemble d = .ok c ↔ assemble d' = .ok c) (p s : Seq)
    (q : Seq) : assembleAll (p ++ d :: s) = .ok q ↔ assembleAll (p ++ d' :: s) = .ok q := by
  induction p generalizing q with
  | nil => simp only [List.nil_append, assembleAll, Result.bind_eq_ok, h]
  | cons d₀ p ih => simp only [List.cons_append, assembleAll, Result.bind_eq_ok, ih]

theorem Shuffled.assemble_iff {d d' : Canon} (h : Shuffled d d') (c : Canon) :
    assemble d = .ok c ↔ assemble d' = .ok c := by
  induction h generalizing c with
  | refl d => rfl
  | trans h₁ h₂ ih₁ ih₂ => exact (ih₁ c).trans (ih₂ c)
  | perm h => exact ⟨assemble_record_perm h, assemble_record_perm h.symm⟩
  | entry p s tag h ih => simp only [assemble, Result.bind_eq_ok, assembleEntries_entry ih]
  | element p s h ih => simp only [assemble, Result.bind_eq_ok, assembleAll_element ih]

mutual
theorem assemble_wf : ∀ (d c : Canon), assemble d = .ok c → c.WF
  | .record r, c, h => by
    rw [assemble] at h
    obtain ⟨r', hr', hc⟩ := Result.bind_eq_ok.mp h
    exact mkRecord_wf (wfRecord_iff.mp (assembleEntries_wf r r' hr')) hc
  | .sequence q, c, h => by
    rw [assemble] at h
    obtain ⟨q', hq', hc⟩ := Result.bind_eq_ok.mp h
    cases hc
    exact assembleAll_wf q q' hq'
  | .null, c, h | .uint _, c, h | .int _, c, h | .bool _, c, h | .str _, c, h | .bytes _, c, h
  | .uuid _, c, h | .float _, c, h => by
    simp only [assemble, Except.ok.injEq] at h
    subst h
    trivial

theorem assembleEntries_wf : ∀ r r' : Record, assembleEntries r = .ok r' → WFRecord r'
  | [], r', h => by
    cases h
    trivial
  | (tag, d) :: r, r', h => by
    rw [assembleEntries] at h
    obtain ⟨c, hc, h⟩ := Result.bind_eq_ok.mp h
    obtain ⟨s, hs, h⟩ := Result.bind_eq_ok.mp h
    cases h
    exact ⟨assemble_wf d c hc, assembleEntries_wf r s hs⟩

theorem assembleAll_wf : ∀ q q' : Seq, assembleAll q = .ok q' → WFSeq q'
  | [], q', h => by
    cases h
    trivial
  | d :: q, q', h => by
    rw [assembleAll] at h
    obtain ⟨c, hc, h⟩ := Result.bind_eq_ok.mp h
    obtain ⟨s, hs, h⟩ := Result.bind_eq_ok.mp h
    cases h
    exact ⟨assemble_wf d c hc, assembleAll_wf q s hs⟩
end

theorem assemble_field {r : Record} {c : Canon} (h : assemble (.record r) = .ok c) (tag : UInt32) (v : Canon) :
    c.field tag = some v ↔ ∃ d, (tag, d) ∈ r ∧ assemble d = .ok v := by
  rw [assemble] at h
  obtain ⟨r', hr', hc⟩ := Result.bind_eq_ok.mp h
  have hforall := assembleEntries_eq_ok.mp hr'
  rw [mkRecord_field hc]
  constructor
  · intro hmem
    obtain ⟨⟨tag', d⟩, hd, rfl, hv⟩ := Result.forall₂_mem_left hforall.flip hmem
    exact ⟨d, hd, hv⟩
  · rintro ⟨d, hd, hv⟩
    obtain ⟨⟨tag', w⟩, hw, rfl, hw'⟩ := Result.forall₂_mem_left hforall hd
    rw [hv] at hw'
    cases hw'
    exact hw

/-! ### The canonical form -/

/-- Two lists of entries make the same record, or none for a tag that occurs twice. -/
structure OrderFree (r r' : Record) : Prop where
  same : mkRecord r' = mkRecord r
  throws : (∃ e, mkRecord r = .error e) ↔ ¬ (r.map Prod.fst).Nodup
  anySort : ∀ s : Record, s.Perm r → (s.Pairwise fun a b => a.1 ≤ b.1) → checkSorted s = mkRecord r
  field : ∀ c, mkRecord r = .ok c → ∀ tag v, c.field tag = some v ↔ (tag, v) ∈ r

/-- Two drafts come to one value with one fingerprint, or to none for a tag that occurs
twice in one of their records. -/
structure BuildAlike (d d' : Canon) : Prop where
  throws : (∃ e, assemble d = .error e) ↔ ¬ d.Distinct
  throws' : (∃ e, assemble d' = .error e) ↔ ¬ d'.Distinct
  same : ∀ c, assemble d = .ok c ↔ assemble d' = .ok c
  fingerprint : ∀ c c', assemble d = .ok c → assemble d' = .ok c' →
    ∃ f, canonicalFingerprint c = .ok f ∧ canonicalFingerprint c' = .ok f
  field : ∀ r c, d = .record r → assemble d = .ok c →
    ∀ tag v, c.field tag = some v ↔ ∃ x, (tag, x) ∈ r ∧ assemble x = .ok v

theorem assemble_throws (d : Canon) : (∃ e, assemble d = .error e) ↔ ¬ d.Distinct := by
  rw [Result.exists_error_iff, assemble_isOk]

/-- `mk_record` makes a canonical form of its entries, at every depth. -/
theorem mkRecord_canonical :
    (∀ r r' : Record, r.Perm r' → OrderFree r r') ∧ ∀ d d' : Canon, Shuffled d d' → BuildAlike d d' := by
  constructor
  · intro r r' h
    refine ⟨mkRecord_perm h.symm, ?_, fun s hs hle => checkSorted_of_perm hs hle, fun c hc => mkRecord_field hc⟩
    rw [Result.exists_error_iff, mkRecord_isOk]
  · intro d d' h
    refine ⟨assemble_throws d, assemble_throws d', h.assemble_iff, fun c c' hc hc' => ?_, ?_⟩
    · obtain rfl : c' = c := Except.ok.inj (hc'.symm.trans ((h.assemble_iff c).mp hc))
      exact ⟨_, canonicalFingerprint_of_wf (assemble_wf d c' hc), canonicalFingerprint_of_wf (assemble_wf d c' hc)⟩
    · rintro r c rfl hc
      exact assemble_field hc

theorem mkRecord_canonical_swap :
    OrderFree [(2, .null), (1, .record [(4, .null), (3, .null)])]
        [(1, .record [(4, .null), (3, .null)]), (2, .null)] ∧
      BuildAlike (.record [(2, .null), (1, .record [(4, .null), (3, .null)])])
        (.record [(2, .null), (1, .record [(3, .null), (4, .null)])]) :=
  ⟨mkRecord_canonical.1 _ _ (.swap _ _ _),
    mkRecord_canonical.2 _ _ (.entry [(2, .null)] [] 1 (.perm (.swap _ _ _)))⟩

end Canon

end CompatRegistry
