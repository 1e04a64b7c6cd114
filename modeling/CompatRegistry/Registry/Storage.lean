import CompatRegistry.Net.Lengths
import CompatRegistry.Registry.Recoverable

/-! The files that registries are saved to and loaded from. A save empties the file, and the bytes
of the snapshot come to it in order: any number of them may be there when the program stops or
when another program reads. Nothing but the complete snapshot is ever loaded. -/

namespace CompatRegistry

open Foundation Canon

namespace Canon

/-- No encoding begins another one. -/
theorem eq_of_encoding_front {c c' : Canon} (hc : c.WF) (hc' : c'.WF) (hfits : c.Fits) (hfits' : c'.Fits)
    (h : c.encoding <+: c'.encoding) : c = c' := by
  have hlength : ∀ d : Canon, d.encoding.length = 5 + d.element.length := fun d => (eq_encoding_iff.mp rfl).2.2.2
  have hat : ∀ {d : Canon}, d.encoding <+: c'.encoding → At c'.encoding 5 d.element := by
    rintro d ⟨rest, hrest⟩
    refine ⟨rest, ?_⟩
    rw [← hrest]
    rfl
  have hreads : ∀ {d : Canon}, d.WF → d.Fits → d.encoding <+: c'.encoding →
      parseElement c'.encoding c'.encoding.length 5 c'.encoding.length = .ok (d, 5 + d.element.length) := by
    intro d hd hdfits hfront
    have hle := hfront.length_le
    have hlo : c'.encoding.length - 5 < c'.encoding.length := by
      have := hlength c'
      omega
    have hcomplete : Complete c'.encoding 5 (parseElement c'.encoding c'.encoding.length) :=
      parseElement_complete _ hlo
    refine hcomplete 5 _ d le_rfl hd hdfits ?_ (hat hfront) ?_
    · rw [hlength]
      omega
    · rw [← hlength]
      exact hle
  have hread := hreads hc hfits h
  rw [hreads hc' hfits' List.prefix_rfl] at hread
  exact (Prod.mk.inj (Except.ok.inj hread)).1.symm

end Canon

namespace Registry

/-! ### Parts of snapshots -/

theorem openContainer_eq_ok {bytes payload : Bytes} :
    openContainer bytes = .ok payload ↔ bytes = sealContainer payload := by
  constructor
  · intro h
    unfold openContainer at h
    split_ifs at h with hsize hmagic hversion
    simp only at h
    split_ifs at h with hsum
    obtain rfl := Except.ok.inj h
    simp only [ne_eq, not_not] at hmagic hversion hsum
    have hsix : bytes.take 6 = containerMagic ++ [containerVersion] := by
      rw [List.take_add_one, hmagic, hversion]
      rfl
    unfold sealContainer
    rw [hsum, ← hsix, List.append_assoc, ← List.drop_drop, List.take_append_drop, List.take_append_drop]
  · rintro rfl
    exact openContainer_sealContainer payload

/-- A file that holds the beginning of a snapshot is not recovered from. -/
theorem not_recover_take {s : Registry} (h : Inv s) (hsize : s.encodedSize < 2 ^ 32) {n : ℕ}
    (hn : n < (sealContainer s.storedRoot.encoding).length) (t : Registry) :
    recover ((sealContainer s.storedRoot.encoding).take n) ≠ .ok t := by
  intro hrecover
  obtain ⟨payload, hopen, hrecover⟩ := Result.bind_eq_ok.mp hrecover
  obtain ⟨doc, hdoc, -⟩ := Result.bind_eq_ok.mp hrecover
  obtain ⟨hwf, hfits, rfl⟩ := canonicalDecode_eq_ok.mp hdoc
  obtain ⟨hroot, hrootfits, -⟩ := canonicalDecode_eq_ok.mp ((canonicalDecode_storedRoot h).mpr ⟨hsize, rfl⟩)
  have hcut := openContainer_eq_ok.mp hopen
  have hlength := congrArg List.length hcut
  rw [List.length_take, min_eq_left hn.le] at hlength
  have hseal : ∀ payload, (sealContainer payload).length = 6 + payload.length + 32 := by
    intro payload
    simp only [sealContainer, containerMagic, containerVersion, List.length_append, List.length_cons,
      List.length_nil, (Sha256.compute payload).size]
  have hshort : doc.encoding.length < s.storedRoot.encoding.length := by
    rw [hlength, hseal, hseal] at hn
    omega
  -- behind the six bytes of the container both begin with their payloads
  have hfront : doc.encoding <+: s.storedRoot.encoding := by
    have htake : sealContainer doc.encoding <+: sealContainer s.storedRoot.encoding := hcut ▸ List.take_prefix _ _
    simp only [sealContainer, List.append_assoc, List.prefix_append_right_inj] at htake
    exact List.prefix_of_prefix_length_le ((List.prefix_append _ _).trans htake) (List.prefix_append _ _) hshort.le
  rw [eq_of_encoding_front hwf hroot hfits hrootfits hfront] at hshort
  exact hshort.false

/-! ### Files -/

/-- The bytes in the files, by path. -/
abbrev Files := Bytes → Option Bytes

/-- The output stream of a save: whether it opens the file, how many bytes have come to the file
when the call returns, and whether the stream has noticed an error. -/
structure OutputStream where
  opens : Bool
  written : ℕ
  good : Bool

def save (path : Bytes) (f : OutputStream) (s : Registry) (files : Files) : Result Bool × Files :=
  match s.snapshot with
  | .error e => (.error e, files)
  | .ok data =>
    if f.opens then (.ok f.good, Function.update files path (some (data.take f.written))) else (.ok false, files)

/-- `reads` is how many bytes the input stream gives, if it opens the file. -/
def load (path : Bytes) (reads : Option ℕ) (files : Files) : Result Registry :=
  match reads, files path with
  | some n, some data => recover (data.take n)
  | _, _ => .error (.runtimeError (ascii "load: cannot open " ++ path))

/-- What has been saved to a path last, and how many bytes of it have come to the file. -/
structure LastSave where
  registry : Registry
  arrived : ℕ

/-- Programs that save registries to the same files and load them from there. A program may start
anew at any time, and what is left of a save may come to the file later or never. -/
inductive Storing : (Bytes → Option LastSave) → (ℕ → Registry) → Files → Prop
  | start : Storing (fun _ => none) (fun _ => {}) fun _ => none
  | restart {saves : Bytes → Option LastSave} {registries : ℕ → Registry} {files : Files}
      (h : Storing saves registries files) (i : ℕ) : Storing saves (Function.update registries i {}) files
  | call {saves : Bytes → Option LastSave} {registries : ℕ → Registry} {files : Files}
      (h : Storing saves registries files) (i : ℕ) {op : Op} (wf : op.WF) :
      Storing saves (Function.update registries i (op.run (registries i))) files
  | reorder {saves : Bytes → Option LastSave} {registries : ℕ → Registry} {files : Files}
      (h : Storing saves registries files) (i : ℕ) {t : Registry} (reordered : Reordered (registries i) t) :
      Storing saves (Function.update registries i t) files
  | save {saves : Bytes → Option LastSave} {registries : ℕ → Registry} {files : Files}
      (h : Storing saves registries files) (i : ℕ) (path : Bytes) (f : OutputStream)
      (size : (registries i).encodedSize < 2 ^ 32) :
      Storing (if f.opens then Function.update saves path (some ⟨registries i, f.written⟩) else saves) registries
        (Registry.save path f (registries i) files).2
  | arrive {saves : Bytes → Option LastSave} {registries : ℕ → Registry} {files : Files}
      (h : Storing saves registries files) {path : Bytes} {s : Registry} {n n' : ℕ} {data : Bytes}
      (saved : saves path = some ⟨s, n⟩) (snapshot : s.snapshot = .ok data) (more : n ≤ n') :
      Storing (Function.update saves path (some ⟨s, n'⟩)) registries
        (Function.update files path (some (data.take n')))
  | load {saves : Bytes → Option LastSave} {registries : ℕ → Registry} {files : Files}
      (h : Storing saves registries files) (i : ℕ) {path : Bytes} {reads : Option ℕ} {t : Registry}
      (loaded : Registry.load path reads files = .ok t) : Storing saves (Function.update registries i t) files

/-- A file that is there holds the beginning of the snapshot that was saved last. -/
inductive Holds : Option LastSave → Option Bytes → Prop
  | absent : Holds none none
  | begun {s : Registry} (reachable : Reachable s) (size : s.encodedSize < 2 ^ 32) (n : ℕ) :
      Holds (some ⟨s, n⟩) (some ((sealContainer s.storedRoot.encoding).take n))

theorem recover_take_iff {s : Registry} (h : Inv s) (hsize : s.encodedSize < 2 ^ 32) {n : ℕ} {t : Registry} :
    recover ((sealContainer s.storedRoot.encoding).take n) = .ok t ↔
      (sealContainer s.storedRoot.encoding).length ≤ n ∧ recover (sealContainer s.storedRoot.encoding) = .ok t := by
  by_cases hn : (sealContainer s.storedRoot.encoding).length ≤ n
  · rw [List.take_of_length_le hn]
    simp only [hn, true_and]
  · refine iff_of_false (not_recover_take h hsize (by omega) t) ?_
    rintro ⟨hle, -⟩
    exact hn hle

theorem recover_eq_ok_iff {s : Registry} (h : Inv s) {t : Registry} :
    recover (sealContainer s.storedRoot.encoding) = .ok t ↔ t = s.restored ∧ s.Rereadable := by
  have hrestored : ∀ {t}, recover (sealContainer s.storedRoot.encoding) = .ok t → t = s.restored :=
    fun ht => ((recover_snapshot h).mp ⟨_, snapshot_eq h, ht⟩).1
  constructor
  · intro ht
    refine ⟨hrestored ht, (snapshotAccepted_iff h).mp fun data hdata => ⟨t, ?_⟩⟩
    obtain rfl := Except.ok.inj ((snapshot_eq h).symm.trans hdata)
    exact ht
  · rintro ⟨rfl, hrereadable⟩
    obtain ⟨t, ht⟩ := (snapshotAccepted_iff h).mpr hrereadable _ (snapshot_eq h)
    rw [ht, hrestored ht]

/-- What loading gives from a file that holds the last save. -/
theorem Holds.load_iff {saves : Bytes → Option LastSave} {files : Files} {path : Bytes}
    (h : Holds (saves path) (files path)) {reads : Option ℕ} {t : Registry} :
    load path reads files = .ok t ↔ ∃ s n k data, saves path = some ⟨s, n⟩ ∧ reads = some k ∧
      s.snapshot = .ok data ∧ data.length ≤ n ∧ data.length ≤ k ∧ t = s.restored ∧ s.Rereadable := by
  unfold load
  generalize saves path = saved at h
  generalize files path = file at h
  cases h with
  | absent => cases reads <;> simp
  | @begun s reachable size n =>
    have hsnapshot := snapshot_eq reachable.inv
    cases reads with
    | none => simp
    | some k =>
      change recover (List.take k (List.take n _)) = .ok t ↔ _
      rw [List.take_take, recover_take_iff reachable.inv size, recover_eq_ok_iff reachable.inv, le_min_iff]
      constructor
      · rintro ⟨⟨hk, hn⟩, ht⟩
        exact ⟨s, n, k, _, rfl, rfl, hsnapshot, hn, hk, ht⟩
      · rintro ⟨s', n', k', data, hsaved, hreads, hdata, hn, hk, ht⟩
        obtain ⟨rfl, rfl⟩ := LastSave.mk.inj (Option.some.inj hsaved)
        obtain rfl := Option.some.inj hreads
        obtain rfl := Except.ok.inj (hsnapshot.symm.trans hdata)
        exact ⟨⟨hk, hn⟩, ht⟩

theorem Storing.holds {saves : Bytes → Option LastSave} {registries : ℕ → Registry} {files : Files}
    (h : Storing saves registries files) :
    (∀ i, Reachable (registries i)) ∧ ∀ path, Holds (saves path) (files path) := by
  have hupdate : ∀ {registries : ℕ → Registry} {i : ℕ} {t : Registry}, (∀ i, Reachable (registries i)) →
      Reachable t → ∀ j, Reachable (Function.update registries i t j) := by
    intro registries i t hregistries ht j
    obtain rfl | hne := eq_or_ne j i
    · rwa [Function.update_self]
    · rw [Function.update_of_ne hne]
      exact hregistries j
  induction h with
  | start => exact ⟨fun _ => .empty, fun _ => .absent⟩
  | restart h i ih => exact ⟨hupdate ih.1 .empty, ih.2⟩
  | call h i wf ih => exact ⟨hupdate ih.1 ((ih.1 i).step _ wf), ih.2⟩
  | reorder h i reordered ih => exact ⟨hupdate ih.1 ((ih.1 i).reorder reordered), ih.2⟩
  | @save saves registries files h i path f size ih =>
    refine ⟨ih.1, fun path' => ?_⟩
    unfold Registry.save
    rw [snapshot_eq (ih.1 i).inv]
    cases f.opens with
    | false => exact ih.2 path'
    | true =>
      obtain rfl | hne := eq_or_ne path' path
      · simp only [↓reduceIte, Function.update_self]
        exact .begun (ih.1 i) size f.written
      · simp only [↓reduceIte, Function.update_of_ne hne]
        exact ih.2 path'
  | @arrive saves registries files h path s n n' data saved snapshot more ih =>
    refine ⟨ih.1, fun path' => ?_⟩
    obtain rfl | hne := eq_or_ne path' path
    · have hholds := ih.2 path'
      rw [saved] at hholds
      generalize files path' = file at hholds
      cases hholds with
      | begun reachable size =>
        obtain rfl := Except.ok.inj ((snapshot_eq reachable.inv).symm.trans snapshot)
        simp only [Function.update_self]
        exact .begun reachable size n'
    · simp only [Function.update_of_ne hne]
      exact ih.2 path'
  | @load saves registries files h i path reads t loaded ih =>
    obtain ⟨s, n, k, data, saved, -, snapshot, -, -, rfl, hrereadable⟩ := (ih.2 path).load_iff.mp loaded
    have hholds := ih.2 path
    rw [saved] at hholds
    generalize files path = file at hholds
    cases hholds with
    | begun reachable size =>
      have hrecover := (recover_eq_ok_iff reachable.inv).mpr ⟨rfl, hrereadable⟩
      exact ⟨hupdate ih.1 (reachable.recover (snapshot_eq reachable.inv) hrecover), ih.2⟩

/-- Whatever programs do, and wherever they stop, loading a path gives the registry that was saved
there last, as its snapshot holds it, once all of its bytes have arrived and are read; it throws
otherwise. -/
theorem storing_loads {saves : Bytes → Option LastSave} {registries : ℕ → Registry} {files : Files}
    (h : Storing saves registries files) :
    (∀ i, Reachable (registries i)) ∧ ∀ path reads t, load path reads files = .ok t ↔
      ∃ s n k data, saves path = some ⟨s, n⟩ ∧ reads = some k ∧ s.snapshot = .ok data ∧
        data.length ≤ n ∧ data.length ≤ k ∧ t = s.restored ∧ s.Rereadable :=
  ⟨h.holds.1, fun path _ _ => (h.holds.2 path).load_iff⟩

theorem Storing.calls {saves : Bytes → Option LastSave} {registries : ℕ → Registry} {files : Files}
    (h : Storing saves registries files) (i : ℕ) {ops : List Op} (hops : ∀ op ∈ ops, op.WF) :
    Storing saves (Function.update registries i (runOps ops (registries i))) files := by
  induction ops generalizing registries with
  | nil =>
    rw [runOps, Function.update_eq_self]
    exact h
  | cons op ops ih =>
    obtain ⟨hop, hops⟩ := List.forall_mem_cons.mp hops
    have hrun := ih (h.call i hop) hops
    rwa [Function.update_self, Function.update_idem] at hrun

/-- Two profiles, a rule and a piece of evidence are saved by one program and loaded by another, but
not by one that reads the first 40 bytes. -/
theorem storing_loads_small : ∃ saves registries files, Storing saves registries files ∧
    (∃ t, load (ascii "registry.bin") (some 5000) files = .ok t ∧ SameContents (runOps smallOps {}) t) ∧
    ∀ t, load (ascii "registry.bin") (some 40) files ≠ .ok t := by
  have hinv := smallOps_reachable.inv
  have hsmall := smallOps_recoverable
  have hlength : 40 < (sealContainer (runOps smallOps {}).storedRoot.encoding).length ∧
      (sealContainer (runOps smallOps {}).storedRoot.encoding).length ≤ 5000 := by
    decide +kernel
  have hcalls := Storing.start.calls 0 smallOps_wf
  have hstored : Function.update (fun _ : ℕ => ({} : Registry)) 0 (runOps smallOps {}) 0 = runOps smallOps {} := by
    rw [Function.update_self]
  have hstoring := hcalls.save 0 (ascii "registry.bin") ⟨true, 5000, true⟩ (hstored ▸ hsmall.size)
  obtain ⟨-, hloads⟩ := storing_loads hstoring
  rw [hstored] at hloads
  refine ⟨_, _, _, hstoring, ⟨(runOps smallOps {}).restored, ?_, ?_⟩, fun t ht => ?_⟩
  · refine (hloads _ _ _).mpr ⟨_, 5000, 5000, _, ?_, rfl, snapshot_eq hinv, hlength.2, hlength.2, rfl,
      hsmall.size, fun id p hp => .inl (hsmall.payloads id p hp), hsmall.acyclic⟩
    simp
  · exact (sameContents_restored_iff hinv).mpr
      ⟨hsmall.payloads, hsmall.values, hsmall.rules, hsmall.decisions⟩
  · obtain ⟨s', n, k, data, hsaved, hreads, hdata, -, hk, -⟩ := (hloads _ _ _).mp ht
    obtain ⟨rfl, -⟩ : runOps smallOps {} = s' ∧ 5000 = n := by simpa using hsaved
    obtain rfl := Option.some.inj hreads
    obtain rfl := Except.ok.inj ((snapshot_eq hinv).symm.trans hdata)
    omega

end Registry

end CompatRegistry
