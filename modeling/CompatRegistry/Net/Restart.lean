import CompatRegistry.Canon.Lengths
import CompatRegistry.Net.Ledger

/-! Restarts of a coordinator. It hands out snapshots on request, and may at any time be
replaced by a new one that recovers from any snapshot that an earlier one has handed out. The
ledger goes back to what it was at that snapshot, and no source is known any more. -/

namespace CompatRegistry

open Foundation Canon

/-- What a restart finds in a ledger. A snapshot holds evidence values as records only. -/
def Ledger.restart (l : Ledger) : Ledger where
  profiles := l.profiles
  rules := l.rules
  evidence := fun id => (l.evidence id).map EvidenceRecord.forced

/-- The ledger knows active rules only. -/
def Ledger.Plain (l : Ledger) : Prop := ∀ id rule, l.rules id = some rule → rule.active = true

namespace Coordinator

/-! ### One restart -/

theorem recordOf_forced (id : Uuid) (p : Publication) :
    (Ledger.recordOf id p).forced = Ledger.recordOf id p := rfl

section Restart
variable {s : Coordinator} {l : Ledger}

theorem Keeps.records (h : Keeps s l) : ∀ id, ∀ p ∈ s.registry.historyOf id, p.forced = p ∧ p.deps = [] := by
  intro id p hp
  rw [h.profiles, Option.mem_toList] at hp
  obtain ⟨publication, -, rfl⟩ := Option.mem_map.mp hp
  exact ⟨recordOf_forced id publication, rfl⟩

theorem newestDeps_nil (h : Keeps s l) (id : Uuid) : s.registry.newestDeps id = [] := by
  unfold Registry.newestDeps
  cases hlast : (s.registry.historyOf id).getLast? with
  | none => rfl
  | some p =>
    have hdeps := (h.records id p (List.mem_of_getLast? hlast)).2
    simp only [Option.elim, hdeps, List.filter_nil]

/-- There are no edges to rebuild. -/
theorem rebuildEdges_eq_self {t : Registry} (hdeps : t.deps = ∅)
    (hrecords : ∀ id, ∀ p ∈ t.historyOf id, p.deps = []) :
    Registry.rebuildEdges t = t := by
  refine List.foldlRecOn (motive := (· = t)) _ _ rfl fun b hb e he => ?_
  refine List.foldlRecOn (motive := (· = t)) _ _ hb fun b hb p hp => ?_
  have hhistory : t.historyOf e.1 = e.2.records := by
    unfold Registry.historyOf
    rw [UMap.mem_entries_iff.mp he]
  rw [hb]
  unfold Registry.addDependency
  rw [hdeps, AList.lookup_empty, hrecords e.1 p (hhistory ▸ hp), Registry.pushEdges]

theorem Keeps.restored_deps (h : Keeps s l) (hs : Inv s) : s.registry.restored.deps = ∅ := by
  unfold Registry.restored Registry.restoredFrom
  rw [rebuildEdges_eq_self]
  · rfl
  · intro id p hp
    have hhistory := Registry.historyOf_restored hs.registry id
    rw [Registry.historyOf, Registry.restored_profiles] at hhistory
    change p ∈ Registry.historyOf { profiles := Registry.fillProfiles _ ∅ } id at hp
    rw [Registry.historyOf, hhistory] at hp
    obtain ⟨q, hq, rfl⟩ := List.mem_map.mp hp
    exact (h.records id q hq).2

theorem Keeps.restart (h : Keeps s l) (hs : Inv s) (hl : l.Plain) {bytes : Bytes} {t : Registry}
    (hsnapshot : s.registry.snapshot = .ok bytes) (hrecover : Registry.recover bytes = .ok t) :
    Keeps { registry := t } l.restart ∧ Inv { registry := t } := by
  obtain ⟨rfl, -, hsound, -⟩ := (Registry.recover_snapshot hs.registry).mp ⟨bytes, hsnapshot, hrecover⟩
  refine ⟨⟨rfl, fun source => rfl, fun id => ?_, fun id => ?_, fun id => ?_⟩,
    ⟨Registry.restored_inv hs.registry hsound, h.restored_deps hs⟩⟩
  · refine (Registry.historyOf_restored hs.registry id).trans (Eq.trans ?_ (h.profiles id))
    exact (List.map_congr_left fun p hp => (h.records id p hp).1).trans (List.map_id _)
  · have hrule := h.rules id
    simp only [Registry.rules_restored hs.registry]
    have hactive := hl id
    unfold Ledger.restart
    generalize l.rules id = held at hrule hactive
    generalize s.registry.rules.lookup id = stored at hrule
    cases hrule with
    | none => exact .none
    | @some rule rr hrr =>
      obtain ⟨generation, rfl⟩ := hrr
      refine .some ⟨generation, ?_⟩
      simp only [RuleRecord.reset, ← hactive rule rfl]
  · have hevidence := h.evidence id
    simp only [Registry.findEvidence] at hevidence
    simp only [Registry.findEvidence, Registry.evidence_restored hs.registry, hevidence, Ledger.restart]

/-- A snapshot of less than `2^32` bytes is never refused. -/
theorem Keeps.recovers (h : Keeps s l) (hs : Inv s) {bytes : Bytes} (hsnapshot : s.registry.snapshot = .ok bytes)
    (hsize : bytes.length < 2 ^ 32) : ∃ t, Registry.recover bytes = .ok t := by
  have hsound : ∀ p ∈ s.registry.allRecords, p.forced.Sound p.id := by
    intro p hp
    obtain ⟨id, hid⟩ := Registry.mem_allRecords.mp hp
    rw [(h.records id p hid).1]
    exact hs.registry.allRecords hp
  have hacyclic : ¬ DepthFirst.Cyclic s.registry.newestDeps := by
    rintro ⟨x, hx⟩
    obtain ⟨y, hxy, -⟩ := Relation.TransGen.head'_iff.mp hx
    have hmem : y ∈ s.registry.newestDeps x := hxy
    rw [newestDeps_nil h] at hmem
    cases hmem
  have hencoded : s.registry.encodedSize < 2 ^ 32 := by
    rw [Registry.snapshot_eq hs.registry, Except.ok.injEq] at hsnapshot
    have hlength : s.registry.storedRoot.element.length < 2 ^ 32 := by
      rw [← hsnapshot] at hsize
      simp only [Registry.sealContainer, List.length_append, Canon.encoding_length] at hsize
      rw [Canon.element_length]
      omega
    exact ((Registry.canonicalDecode_storedRoot hs.registry).mp (canonicalDecode_eq_ok.mpr
      ⟨Registry.storedRoot_wf hs.registry, fits_of_length _ hlength, rfl⟩)).1
  obtain ⟨bytes', hsnapshot', hrecover⟩ :=
    (Registry.recover_snapshot hs.registry).mpr ⟨rfl, hencoded, hsound, hacyclic⟩
  rw [hsnapshot, Except.ok.injEq] at hsnapshot'
  exact ⟨_, hsnapshot' ▸ hrecover⟩

end Restart

/-! ### Every run -/

/-- A run with restarts: the identities that have been issued, the snapshots that have been handed
out with the ledgers at those times, and what the coordinator and the ledger are now. -/
inductive Serves : List Uuid → List (Bytes × Ledger) → Coordinator → Ledger → Prop
  | start : Serves [] [] {} {}
  | request {issued : List Uuid} {kept : List (Bytes × Ledger)} {s : Coordinator} {l : Ledger}
      (h : Serves issued kept s l) {seed : Uuid} {msg : NetMessage} (fresh : seed ∉ issued) (wf : msg.payload.WF) :
      Serves (seed :: issued) kept (handleRequest seed msg s).2 (l.record (seed, msg))
  | keep {issued : List Uuid} {kept : List (Bytes × Ledger)} {s : Coordinator} {l : Ledger}
      (h : Serves issued kept s l) {seed : Uuid} {msg : NetMessage} {bytes : Bytes}
      (asked : msg.type = .declared .snapshot)
      (answer : (handleRequest seed msg s).1 = .ok (true, { payload := ofEntries [(1, .bytes bytes)] })) :
      Serves issued ((bytes, l) :: kept) s l
  | restart {issued : List Uuid} {kept : List (Bytes × Ledger)} {s : Coordinator} {l l' : Ledger} {bytes : Bytes}
      {t : Registry} (h : Serves issued kept s l) (handed : (bytes, l') ∈ kept)
      (recovered : Registry.recover bytes = .ok t) : Serves issued kept { registry := t } l'.restart

/-- A ledger that is kept, and knows no identity but those that have been issued. -/
structure Books (issued : List Uuid) (s : Coordinator) (l : Ledger) : Prop where
  keeps : Keeps s l
  inv : Inv s
  plain : l.Plain
  fresh : ∀ id, id ∉ issued → l.profiles id = none

theorem plain_handle {seed : Uuid} {msg : NetMessage} {l l' : Ledger} (hl : l.Plain)
    (h : l.handle seed msg = some l') : l'.Plain := by
  unfold Ledger.handle at h
  split at h
  · split_ifs at h
    obtain rfl := Option.some.inj h
    exact hl
  · obtain ⟨p, -, h⟩ := Option.bind_eq_some_iff.mp h
    split_ifs at h
    obtain rfl := Option.some.inj h
    exact hl
  · split_ifs at h
    obtain rfl := Option.some.inj h
    intro id rule hrule
    simp only [Ledger.rule, Function.update_apply] at hrule
    split_ifs at hrule
    · obtain rfl := Option.some.inj hrule
      rfl
    · exact hl id rule hrule
  all_goals first | (split_ifs at h; obtain rfl := Option.some.inj h; exact hl) |
    (obtain rfl := Option.some.inj h; exact hl) | cases h

section Run
variable {issued : List Uuid} {s : Coordinator} {l : Ledger}

theorem Books.follows (h : Books issued s l) {seed : Uuid} (fresh : seed ∉ issued) {msg : NetMessage}
    (wf : msg.payload.WF) : Follows (handleRequest seed msg s) s (l.handle seed msg) :=
  handleRequest_follows h.keeps h.inv wf (h.fresh seed fresh)

theorem Books.more (h : Books issued s l) (seed : Uuid) : Books (seed :: issued) s l :=
  ⟨h.keeps, h.inv, h.plain, fun id hid => h.fresh id (List.not_mem_of_not_mem_cons hid)⟩

theorem Books.request (h : Books issued s l) {seed : Uuid} (fresh : seed ∉ issued) {msg : NetMessage}
    (wf : msg.payload.WF) : Books (seed :: issued) (handleRequest seed msg s).2 (l.record (seed, msg)) := by
  have hfollows := h.follows fresh wf
  have hinv := (handleRequest_isOk h.inv wf seed).2
  unfold Ledger.record
  cases hhandle : l.handle seed msg with
  | none =>
    rw [hhandle] at hfollows
    rw [hfollows.2]
    exact h.more seed
  | some l' =>
    rw [hhandle] at hfollows
    refine ⟨hfollows.2, hinv, plain_handle h.plain hhandle, fun id hid => ?_⟩
    rw [List.mem_cons, not_or] at hid
    obtain ⟨hne, hid⟩ := hid
    exact profiles_handle hhandle hne (h.fresh id hid)

theorem Books.restart (h : Books issued s l) {bytes : Bytes} {t : Registry}
    (hsnapshot : s.registry.snapshot = .ok bytes) (hrecover : Registry.recover bytes = .ok t) :
    Books issued { registry := t } l.restart := by
  obtain ⟨hkeeps, hinv⟩ := h.keeps.restart h.inv h.plain hsnapshot hrecover
  exact ⟨hkeeps, hinv, h.plain, h.fresh⟩

theorem snapshot_of_answer {seed : Uuid} {msg : NetMessage} {bytes : Bytes} (asked : msg.type = .declared .snapshot)
    (answer : (handleRequest seed msg s).1 = .ok (true, { payload := ofEntries [(1, .bytes bytes)] })) :
    s.registry.snapshot = .ok bytes := by
  have hcall : handleRequest seed msg s = snapshot s := by
    unfold handleRequest
    rw [asked]
  rw [hcall] at answer
  obtain ⟨e, -, heq⟩ | ⟨bytes', hok, heq⟩ := andThen_cases (fun registry => (registry.snapshot, registry))
    (fun bytes => reply (ofEntries [(1, .bytes bytes)])) s
  · have hnever := (congrArg Prod.fst heq).symm.trans answer
    cases hnever
  · have hbytes := (congrArg Prod.fst heq).symm.trans answer
    simp only [reply, ofEntries, Except.ok.injEq, Prod.mk.injEq, NetMessage.mk.injEq, Canon.record.injEq,
      List.cons.injEq, Canon.bytes.injEq, and_true, true_and] at hbytes
    rw [← hbytes]
    exact hok

theorem Serves.books {kept : List (Bytes × Ledger)} (h : Serves issued kept s l) :
    Books issued s l ∧ ∀ e ∈ kept, ∃ s', Books issued s' e.2 ∧ s'.registry.snapshot = .ok e.1 := by
  induction h with
  | start =>
    refine ⟨⟨.empty, .empty, fun id rule hrule => ?_, fun _ _ => rfl⟩, fun e he => ?_⟩
    · cases hrule
    · cases he
  | @request issued kept s l h seed msg fresh wf ih =>
    obtain ⟨hbooks, hkept⟩ := ih
    refine ⟨hbooks.request fresh wf, fun e he => ?_⟩
    obtain ⟨s', hs', hsnapshot⟩ := hkept e he
    exact ⟨s', hs'.more seed, hsnapshot⟩
  | @keep issued kept s l h seed msg bytes asked answer ih =>
    obtain ⟨hbooks, hkept⟩ := ih
    exact ⟨hbooks, List.forall_mem_cons.mpr ⟨⟨s, hbooks, snapshot_of_answer asked answer⟩, hkept⟩⟩
  | restart h handed recovered ih =>
    obtain ⟨hbooks, hkept⟩ := ih
    obtain ⟨s', hs', hsnapshot⟩ := hkept _ handed
    exact ⟨hs'.restart hsnapshot recovered, hkept⟩

/-- Through any restarts the coordinator is the ledger: it holds what is in the ledger, refuses
what the ledger refuses, and every snapshot that it has handed out and that has less than `2^32`
bytes recovers to the ledger of that time, without its sources. -/
theorem serves_keeps {kept : List (Bytes × Ledger)} (h : Serves issued kept s l) :
    Keeps s l ∧
      (∀ seed msg, seed ∉ issued → msg.payload.WF → Follows (handleRequest seed msg s) s (l.handle seed msg)) ∧
      ∀ e ∈ kept, e.1.length < 2 ^ 32 →
        ∃ t, Registry.recover e.1 = .ok t ∧ Keeps { registry := t } e.2.restart := by
  obtain ⟨hbooks, hkept⟩ := h.books
  refine ⟨hbooks.keeps, fun seed msg fresh wf => hbooks.follows fresh wf, fun e he hsize => ?_⟩
  obtain ⟨s', hs', hsnapshot⟩ := hkept e he
  obtain ⟨t, hrecover⟩ := hs'.keeps.recovers hs'.inv hsnapshot hsize
  exact ⟨t, hrecover, (hs'.restart hsnapshot hrecover).keeps⟩

theorem handleRequest_snapshot {bytes : Bytes} (hsnapshot : s.registry.snapshot = .ok bytes) (seed : Uuid) :
    (handleRequest seed { type := .declared .snapshot } s).1 =
      .ok (true, { payload := ofEntries [(1, .bytes bytes)] }) := by
  simp only [handleRequest, snapshot, andThen, hsnapshot, reply]

/-- A source publishes a profile, and the coordinator starts again from a snapshot of it: the
profile is still there and the source is not. -/
theorem serves_keeps_restarted : ∃ issued kept s l, Serves issued kept s l ∧ Keeps s l ∧
    l.profiles (uuidOf 1) ≠ none ∧ s.sources.lookup (ascii "bench") = none := by
  obtain ⟨hsource, hprofile⟩ : sourceRequest.2.payload.WF ∧ (profileRequest 1 []).2.payload.WF := by
    simp [sourceRequest, profileRequest, WF, WFRecord, SortedMap.Sorted]
  have hfresh : uuidOf 1 ∉ [sourceRequest.1] := by decide
  have hserves := (Serves.start.request List.not_mem_nil hsource).request hfresh hprofile
  generalize hs : (handleRequest (uuidOf 1) (profileRequest 1 []).2
    (handleRequest sourceRequest.1 sourceRequest.2 {}).2).2 = s at hserves
  have hpublished : s.registry.historyOf (uuidOf 1) ≠ [] := by
    rw [← hs]
    exact List.ne_nil_of_length_pos (by decide +kernel)
  have hsize : (Registry.sealContainer s.registry.storedRoot.encoding).length < 2 ^ 32 := by
    rw [← hs]
    decide +kernel
  have hsnapshot := Registry.snapshot_eq hserves.books.1.inv.registry
  have hkept := hserves.keep rfl (handleRequest_snapshot hsnapshot Uuid.zero)
  obtain ⟨-, -, hrecovers⟩ := serves_keeps hkept
  obtain ⟨t, hrecover, -⟩ := hrecovers _ List.mem_cons_self hsize
  have hrestarted := hkept.restart List.mem_cons_self hrecover
  refine ⟨_, _, _, _, hrestarted, (serves_keeps hrestarted).1, fun hnone => ?_, rfl⟩
  have hhistory := hserves.books.1.keeps.profiles (uuidOf 1)
  rw [show (Ledger.record _ _).profiles (uuidOf 1) = none from hnone] at hhistory
  exact hpublished hhistory

end Run

end Coordinator

end CompatRegistry
