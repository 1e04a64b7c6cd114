import CompatRegistry.Registry.Reachable
import CompatRegistry.Registry.Recoverable
import CompatRegistry.Registry.PairSpec

/-! Evaluation on a recovered registry. The records, the rules, the policy and the
generation that an evaluation reads come back from a snapshot; the `active` flag of
a rule itself, which does not, is read by no step of it. The cached decisions come
back under their digests, which are still the digests of what they say. -/

namespace CompatRegistry

open Foundation Canon

/-- A rule with its own flag set. -/
def CompatibilityRule.activated (rule : CompatibilityRule) : CompatibilityRule :=
  { rule with active := true }

/-- The same evaluation, of the rule with its own flag set. -/
def RuleEval.activated (e : RuleEval) : RuleEval := { e with rule := e.rule.activated }

/-! ### The flag of a rule is not read -/

/-- What commutes with each note of a loop that gathers commutes with the loop. -/
theorem Gathers.map {l r : Subject} {pass fail : Constraint → Verdict → RuleEval → RuleEval}
    {unknown : Constraint → RuleEval → RuleEval} {loop : List Constraint → RuleEval → Result (RuleEval × Bool)}
    (hloop : Gathers l r pass fail unknown loop) {f : RuleEval → RuleEval}
    (hpass : ∀ c v e, pass c v (f e) = f (pass c v e)) (hfail : ∀ c v e, fail c v (f e) = f (fail c v e))
    (hunknown : ∀ c e, unknown c (f e) = f (unknown c e)) (cs : List Constraint) (e : RuleEval) :
    loop cs (f e) = Prod.map f id <$> loop cs e := by
  induction cs generalizing e with
  | nil =>
    rw [hloop.nil, hloop.nil]
    rfl
  | cons c cs ih =>
    rw [hloop.cons, hloop.cons]
    split_ifs
    · rw [map_bind]
      congr 1
      funext v
      split_ifs
      · rw [hpass, ih]
      · rw [hfail, ih, bind_map_left, map_bind]
        rfl
    · rw [hunknown, ih, bind_map_left, map_bind]
      rfl

/-- And so it does for a loop that stops. -/
theorem Stops.map {l r : Subject} {σ : Type} {found fail : Constraint → Verdict → σ → σ}
    {unknown : Constraint → σ → σ} {loop : List Constraint → σ → Result (σ × Bool)}
    (hloop : Stops l r found fail unknown loop) {f : σ → σ}
    (hfound : ∀ c v s, found c v (f s) = f (found c v s)) (hfail : ∀ c v s, fail c v (f s) = f (fail c v s))
    (hunknown : ∀ c s, unknown c (f s) = f (unknown c s)) (cs : List Constraint) (s : σ) :
    loop cs (f s) = Prod.map f id <$> loop cs s := by
  induction cs generalizing s with
  | nil =>
    rw [hloop.nil, hloop.nil]
    rfl
  | cons c cs ih =>
    rw [hloop.cons, hloop.cons]
    split_ifs
    · rw [map_bind]
      congr 1
      funext v
      split_ifs
      · rw [hfound]
        rfl
      · rw [hfail, ih]
    · rw [hunknown, ih]

section Activated
variable (l r : Subject)

theorem vetoLoop_activated (cs : List Constraint) (e : RuleEval) :
    vetoLoop l r cs e.activated = Prod.map RuleEval.activated id <$> vetoLoop l r cs e :=
  vetoLoop_stops.map (fun _ _ _ => rfl) (fun _ _ _ => rfl) (fun _ _ => rfl) cs e

theorem requiredLoop_activated (cs : List Constraint) (e : RuleEval) :
    requiredLoop l r cs e.activated = Prod.map RuleEval.activated id <$> requiredLoop l r cs e :=
  requiredLoop_gathers.map (fun _ _ _ => rfl) (fun _ _ _ => rfl) (fun _ _ => rfl) cs e

theorem conditionLoop_activated (cs : List Constraint) (e : RuleEval) :
    conditionLoop l r cs e.activated = Prod.map RuleEval.activated id <$> conditionLoop l r cs e :=
  conditionLoop_gathers.map (fun _ _ _ => rfl) (fun _ _ _ => rfl) (fun _ _ => rfl) cs e

theorem anyLoop_activated (cs : List Constraint) (m : Bool) (e : RuleEval) :
    anyLoop l r cs m e.activated = Prod.map RuleEval.activated id <$> anyLoop l r cs m e := by
  have hstate : anyState l r cs (e.activated, m) =
      Prod.map (Prod.map RuleEval.activated id) id <$> anyState l r cs (e, m) :=
    anyLoop_stops.map (f := Prod.map RuleEval.activated id) (fun _ _ _ => rfl) (fun _ _ _ => rfl) (fun _ _ => rfl) cs (e, m)
  rw [anyLoop_eq, anyLoop_eq, hstate, Functor.map_map, Functor.map_map]
  rfl

theorem kindResult_activated (rule : CompatibilityRule) (e : RuleEval) :
    kindResult l r rule.activated e.activated = RuleEval.activated <$> kindResult l r rule e := by
  have hkind : rule.activated.kind = rule.kind := rfl
  unfold kindResult
  rw [hkind]
  split
  · have hloop := conditionLoop_activated l r rule.conditions e
    change (conditionLoop l r rule.conditions e.activated >>= _) = _
    rw [hloop, bind_map_left, map_bind]
    rfl
  all_goals rfl

theorem evalRule_activated (rule : CompatibilityRule) :
    evalRule l r rule.activated = RuleEval.activated <$> evalRule l r rule := by
  have hveto := vetoLoop_activated l r rule.incompatibleWith { rule }
  unfold evalRule
  change (vetoLoop l r rule.incompatibleWith (RuleEval.activated { rule }) >>= _) = _
  rw [hveto, bind_map_left, map_bind]
  congr 1
  funext ⟨e₁, vetoed⟩
  cases vetoed with
  | true => rfl
  | false =>
    simp only [Prod.map, id, Bool.false_eq_true, if_false]
    change (requiredLoop l r rule.required e₁.activated >>= _) = _
    rw [requiredLoop_activated, bind_map_left, map_bind]
    congr 1
    funext ⟨e₂, all⟩
    cases all with
    | false =>
      simp only [Prod.map, id, if_true]
      change Except.ok (if e₂.missing then _ else _) = Except.ok _
      split_ifs <;> rfl
    | true =>
      simp only [Prod.map, id, Bool.true_eq_false, if_false]
      change (if rule.anyOf = [] then _ else _) = _
      split_ifs
      · exact kindResult_activated l r rule e₂
      · change (anyLoop l r rule.anyOf false e₂.activated >>= _) = _
        rw [anyLoop_activated, bind_map_left, map_bind]
        congr 1
        funext ⟨e₃, any, m⟩
        cases any with
        | false => cases m <;> rfl
        | true => exact kindResult_activated l r rule e₃

theorem mapM_evalRule_activated (rules : List CompatibilityRule) :
    (rules.map CompatibilityRule.activated).mapM (evalRule l r) =
      List.map RuleEval.activated <$> rules.mapM (evalRule l r) := by
  induction rules with
  | nil => rfl
  | cons rule rules ih =>
    rw [List.map_cons, List.mapM_cons, List.mapM_cons, evalRule_activated, ih, bind_map_left, map_bind]
    congr 1
    funext e
    rw [bind_map_left, map_bind]
    rfl

end Activated

namespace Registry

theorem conflictLines_activated (best : Enum8 Outcome) (others : List RuleEval) :
    conflictLines best (others.map RuleEval.activated) = conflictLines best others := by
  unfold conflictLines
  rw [List.filter_map, List.mapM_map]
  rfl

theorem resolveRules_activated (d : CompatibilityDecision) (cand : List CompatibilityRule)
    (evals : List RuleEval) :
    resolveRules d (cand.map CompatibilityRule.activated) (evals.map RuleEval.activated) =
      resolveRules d cand evals := by
  have hfilter : (evals.map RuleEval.activated).filter (·.conclusive) =
      (evals.filter (·.conclusive)).map RuleEval.activated := List.filter_map
  have hany : (evals.map RuleEval.activated).any (·.missing) = evals.any (·.missing) := List.any_map
  unfold resolveRules
  rw [hfilter, hany]
  cases evals.filter (·.conclusive) with
  | nil => cases cand <;> rfl
  | cons best others =>
    have hlines := conflictLines_activated best.outcome others
    change (conflictLines best.outcome (others.map RuleEval.activated) >>= _) = _
    rw [hlines]
    rfl

/-! ### The inputs of an evaluation -/

/-- What an evaluation reads, up to the flags that it does not. -/
structure SameReadings (s t : Registry) : Prop where
  newestActive : ∀ id, t.newestActive id = s.newestActive id
  rules : ∀ id, t.rules.lookup id = (s.rules.lookup id).map RuleRecord.reset
  registryGen : t.registryGen = s.registryGen
  policyId : t.policyId = s.policyId

theorem SameReadings.candidates {s t : Registry} (h : SameReadings s t) (hs : Inv s) (ht : Inv t)
    (scope : Bytes) (l r : ProfileRecord) :
    candidates t scope l r = (candidates s scope l r).map CompatibilityRule.activated := by
  have hsorted := candidates_sorted hs scope l r
  refine (candidates_sorted ht scope l r).unique (fun _ => rfl) ⟨?_, fun rule => ?_⟩
  · exact hsorted.sorted.map CompatibilityRule.activated fun _ _ hab => hab
  · simp only [List.mem_map, hsorted.mem, h.rules, Option.map_eq_some_iff]
    constructor
    · rintro ⟨_, ⟨id, rr, hl, happ, rfl⟩, rfl⟩
      exact ⟨id, rr.reset, ⟨rr, hl, rfl⟩, happ, rfl⟩
    · rintro ⟨id, _, ⟨rr, hl, rfl⟩, happ, rfl⟩
      exact ⟨rr.rule, ⟨id, rr, hl, happ, rfl⟩, rfl⟩

theorem SameReadings.evaluateLocked {s t : Registry} (h : SameReadings s t) (hs : Inv s) (ht : Inv t)
    (left right : Uuid) (requirement : Bool) :
    evaluateLocked t left right requirement = evaluateLocked s left right requirement := by
  have hrules : ∀ l r, ruleDecision t l r requirement = ruleDecision s l r requirement := by
    intro l r
    unfold ruleDecision
    simp only [h.candidates hs ht, mapM_evalRule_activated, bind_map_left, resolveRules_activated,
      sealDecision, openDecision, identityRecord, h.registryGen, h.policyId]
  unfold Registry.evaluateLocked
  rw [h.newestActive, h.newestActive]
  simp only [absentDecision, exactDecision, openDecision, hrules, h.registryGen, h.policyId]

/-! ### Digests of cached decisions -/

/-- Every cached decision has its key as the digest of what it says. -/
theorem Reachable.cached_digest {s : Registry} (h : Reachable s) {k : Digest} {d : CompatibilityDecision}
    (hl : s.decisions.lookup k = some d) : d.computeDigest = .ok k := by
  induction h generalizing k d with
  | empty => simp at hl
  | @step s op hop hs ih =>
    rcases (Op.run_effect hop hs.inv).decisions with heq | ⟨left, right, requirement, d', hd', heq⟩
    · rw [heq] at hl
      exact ih hl
    · rw [heq, UMap.lookup_insert_ite] at hl
      split_ifs at hl with hk
      · cases hl
        rw [hk]
        exact evaluateLocked_digest hd'
      · exact ih hl
  | reorder _ hst ih =>
    rw [← hst.decisions.lookup] at hl
    exact ih hl
  | recover hs hsnap ht ih =>
    obtain ⟨rfl, -, -, -⟩ := (recover_snapshot hs.inv).mp ⟨_, hsnap, ht⟩
    rw [decisions_restored hs.inv] at hl
    obtain ⟨d', hl', rfl⟩ := Option.map_eq_some_iff.mp hl
    exact (ih hl' :)

/-! ### Recovery -/

/-- What is hashed for the fingerprints of the stored payloads, by the registry and
by the recovery. -/
def payloadEncodings (s : Registry) : List Bytes :=
  s.allRecords.map (fun p => p.payload.encoding) ++ s.allRecords.map fun p => p.forced.payload.encoding

/-- Equal digests of payloads come from equal encodings. -/
def PayloadsCollisionFree (s : Registry) : Prop :=
  ∀ a ∈ s.payloadEncodings, ∀ b ∈ s.payloadEncodings, Sha256.compute a = Sha256.compute b → a = b

/-- A value is written like a record only if it is one. -/
theorem kind_of_encoding_forced {c : Canon} (h : c.forced.encoding = c.encoding) : c.kind = .record := by
  cases c with
  | record r => rfl
  | _ => simp [forced, encoding, element, frame] at h

/-- Without a collision a record that passes the fingerprint check is the one that was stored. -/
theorem forced_eq_of_sound {s : Registry} (hcoll : s.PayloadsCollisionFree)
    {p : ProfileRecord} {id : Uuid} (hmem : p ∈ s.allRecords) (hp : p.Sound id)
    (hforced : p.forced.Sound id) : p.forced = p := by
  have hdigest : Sha256.compute p.forced.payload.encoding = Sha256.compute p.payload.encoding :=
    Sha256.hex_injective (hforced.fingerprint.symm.trans hp.fingerprint)
  have hwritten : p.forced.payload.encoding ∈ s.payloadEncodings :=
    List.mem_append_right _ (List.mem_map_of_mem hmem)
  have hstored : p.payload.encoding ∈ s.payloadEncodings :=
    List.mem_append_left _ (List.mem_map_of_mem hmem)
  exact ProfileRecord.forced_eq_self_iff.mpr
    (kind_of_encoding_forced (hcoll _ hwritten _ hstored hdigest))

theorem restored_sameReadings {s : Registry} (h : Inv s)
    (hcoll : s.PayloadsCollisionFree)
    (hsound : ∀ p ∈ s.allRecords, p.forced.Sound p.id) : SameReadings s s.restored where
  newestActive id := by
    have hhistory : s.restored.historyOf id = s.historyOf id := by
      rw [historyOf_restored h, map_eq_self_iff]
      intro p hp
      have hmem := mem_allRecords.mpr ⟨id, hp⟩
      exact forced_eq_of_sound hcoll hmem (h.allRecords hmem) (hsound p hmem)
    rw [newestActive_eq_find?, newestActive_eq_find?, hhistory]
  rules := rules_restored h
  registryGen := restored_registryGen s
  policyId := restored_policyId s

/-- A registry recovered from the snapshot of a reachable one evaluates as that one
does, and caches the same decisions under the same digests, which are theirs. -/
theorem recovered_evaluates_alike {s r : Registry} {bytes : Bytes} (h : Reachable s)
    (hcoll : s.PayloadsCollisionFree) (hs : s.snapshot = .ok bytes)
    (hr : recover bytes = .ok r) :
    (∀ left right, (evaluatePair left right r).1 = (evaluatePair left right s).1) ∧
    (∀ candidate requirement,
      (evaluateRequirement candidate requirement r).1 = (evaluateRequirement candidate requirement s).1) ∧
    (∀ k, r.decisions.lookup k = (s.decisions.lookup k).map CompatibilityDecision.bare) ∧
    ∀ k d, r.decisions.lookup k = some d → d.computeDigest = .ok k := by
  obtain ⟨rfl, -, hsound, -⟩ := (recover_snapshot h.inv).mp ⟨bytes, hs, hr⟩
  have hsame := restored_sameReadings h.inv hcoll hsound
  have heval := hsame.evaluateLocked h.inv (restored_inv h.inv hsound)
  refine ⟨fun left right => ?_, fun candidate requirement => ?_, decisions_restored h.inv,
    fun k d hl => (h.recover hs hr).cached_digest hl⟩
  · rw [evaluatePair_fst, evaluatePair_fst, heval]
  · unfold evaluateRequirement
    rw [evaluateWith_fst, evaluateWith_fst, heval]

/-- Two different profiles, a rule on them, and the decision that it gives. -/
def ruledOps : List Op := [
  .registerProfile (uuidOf 1) (.declared .model) (.record []) [] [],
  .registerProfile (uuidOf 2) (.declared .model) (.record [(1, .uint 1)]) [uuidOf 1] [],
  .registerRule { ruleId := uuidOf 3, scope := ascii "pair", active := false },
  .evaluatePair (uuidOf 1) (uuidOf 2)]

theorem ruledOps_reachable : Reachable (runOps ruledOps {}) := by
  refine runOps_reachable ?_ Reachable.empty
  simp only [ruledOps, List.forall_mem_cons, List.not_mem_nil, false_imp_iff, implies_true, and_true]
  refine ⟨?_, ?_, ⟨?_, ?_, ?_, ?_⟩, ?_⟩ <;> simp [Op.WF, WF, WFRecord, SortedMap.Sorted]

theorem recovered_evaluates_alike_ruled :
    ∃ bytes r, (runOps ruledOps {}).snapshot = .ok bytes ∧ recover bytes = .ok r ∧
      (evaluatePair (uuidOf 1) (uuidOf 2) r).1 =
        (evaluatePair (uuidOf 1) (uuidOf 2) (runOps ruledOps {})).1 := by
  have hinv := ruledOps_reachable.inv
  have hkinds : ∀ p ∈ (runOps ruledOps {}).allRecords, p.payload.kind = .record := by decide +kernel
  have hsound : ∀ p ∈ (runOps ruledOps {}).allRecords, p.forced.Sound p.id := by
    intro p hp
    rw [ProfileRecord.forced_eq_self_iff.mpr (hkinds p hp)]
    exact hinv.allRecords hp
  have hacyclic : (runOps ruledOps {}).restored.hasCycle = false := by decide +kernel
  obtain ⟨bytes, hs, hr⟩ := (recover_snapshot hinv).mpr ⟨rfl, by decide +kernel, hsound, by
    rw [← restored_hasCycle hinv, hacyclic]
    exact Bool.false_ne_true⟩
  have hcoll : (runOps ruledOps {}).PayloadsCollisionFree := by
    unfold PayloadsCollisionFree
    decide +kernel
  exact ⟨bytes, _, hs, hr,
    (recovered_evaluates_alike ruledOps_reachable hcoll hs hr).1 (uuidOf 1) (uuidOf 2)⟩

end Registry

end CompatRegistry
