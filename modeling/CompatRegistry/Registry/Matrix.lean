import CompatRegistry.Registry.Derived
import CompatRegistry.Registry.Reachable

/-! A matrix against the evaluations of its pairs, made one at a time. The counters and
the counts by name are those of its cells, and none is missing. -/

namespace CompatRegistry

open Foundation Canon

/-! ### Counts by name -/

def countOf (name : Bytes) : List (Bytes × ℕ) → ℕ
  | [] => 0
  | (name', n) :: counts => (if name' = name then n else 0) + countOf name counts

/-- Each name with the number of times it occurs, in ascending order. -/
structure Counts (names : List Bytes) (counts : List (Bytes × ℕ)) : Prop where
  sorted : counts.Pairwise fun p q => p.1 < q.1
  positive : ∀ p ∈ counts, p.2 ≠ 0
  count : ∀ name, countOf name counts = names.count name

theorem Counts.nil : Counts [] [] := ⟨.nil, by simp, fun _ => rfl⟩

theorem countOf_countReason (reason name : Bytes) (counts : List (Bytes × ℕ)) :
    countOf name (countReason reason counts) = countOf name counts + if reason = name then 1 else 0 := by
  induction counts with
  | nil => simp [countReason, countOf]
  | cons p counts ih =>
    obtain ⟨first, n⟩ := p
    simp only [countReason]
    by_cases hlt : reason < first
    · rw [if_pos hlt]
      simp only [countOf]
      omega
    · rw [if_neg hlt]
      by_cases heq : reason = first
      · rw [if_pos heq, heq]
        simp only [countOf]
        split_ifs <;> omega
      · rw [if_neg heq]
        simp only [countOf, ih]
        omega

theorem mem_countReason {reason : Bytes} {counts : List (Bytes × ℕ)} {p : Bytes × ℕ}
    (h : p ∈ countReason reason counts) : p.1 = reason ∧ p.2 ≠ 0 ∨ p ∈ counts := by
  induction counts with
  | nil =>
    rw [List.mem_singleton.mp h]
    exact .inl ⟨rfl, Nat.one_ne_zero⟩
  | cons q counts ih =>
    simp only [countReason] at h
    split_ifs at h with hlt heq
    · obtain rfl | h := List.mem_cons.mp h
      · exact .inl ⟨rfl, Nat.one_ne_zero⟩
      · exact .inr h
    · obtain rfl | h := List.mem_cons.mp h
      · exact .inl ⟨heq.symm, Nat.succ_ne_zero _⟩
      · exact .inr (List.mem_cons_of_mem _ h)
    · obtain rfl | h := List.mem_cons.mp h
      · exact .inr List.mem_cons_self
      · exact (ih h).imp_right (List.mem_cons_of_mem _)

theorem sorted_countReason (reason : Bytes) {counts : List (Bytes × ℕ)}
    (h : counts.Pairwise fun p q => p.1 < q.1) : (countReason reason counts).Pairwise fun p q => p.1 < q.1 := by
  induction counts with
  | nil => exact List.pairwise_singleton _ _
  | cons q counts ih =>
    obtain ⟨hq, hcounts⟩ := List.pairwise_cons.mp h
    simp only [countReason]
    split_ifs with hlt heq
    · refine List.pairwise_cons.mpr ⟨fun p hp => ?_, h⟩
      obtain rfl | hp := List.mem_cons.mp hp
      · exact hlt
      · exact hlt.trans (hq p hp)
    · exact List.pairwise_cons.mpr ⟨hq, hcounts⟩
    · refine List.pairwise_cons.mpr ⟨fun p hp => ?_, ih hcounts⟩
      obtain ⟨hname, -⟩ | hp := mem_countReason hp
      · rw [hname]
        exact lt_of_le_of_ne (not_lt.mp hlt) (Ne.symm heq)
      · exact hq p hp

theorem Counts.snoc {names : List Bytes} {counts : List (Bytes × ℕ)} (h : Counts names counts) (reason : Bytes) :
    Counts (names ++ [reason]) (countReason reason counts) where
  sorted := sorted_countReason reason h.sorted
  positive p hp := by
    obtain ⟨-, hpos⟩ | hp := mem_countReason hp
    · exact hpos
    · exact h.positive p hp
  count name := by
    rw [countOf_countReason, h.count, List.count_append, List.count_singleton]
    simp only [beq_iff_eq]

namespace MatrixResult

def counter (mr : MatrixResult) : Outcome → ℕ
  | .exact => mr.exact
  | .compatible => mr.compatible
  | .compatibleWithAdaptation => mr.compatibleWithAdaptation
  | .conditional => mr.conditional
  | .incompatible => mr.incompatible
  | .unknown => mr.unknown
  | .insufficientEvidence => mr.insufficientEvidence

theorem counter_count (mr : MatrixResult) (outcome o : Outcome) :
    (mr.count (.declared outcome)).counter o = mr.counter o + if outcome = o then 1 else 0 := by
  cases outcome <;> cases o <;> rfl

theorem count_frame (mr : MatrixResult) (outcome : Enum8 Outcome) :
    (mr.count outcome).cells = mr.cells ∧ (mr.count outcome).reasonCounts = mr.reasonCounts := by
  cases outcome with
  | declared o => cases o <;> exact ⟨rfl, rfl⟩
  | undeclared raw h => exact ⟨rfl, rfl⟩

end MatrixResult

namespace Registry

/-! ### The table -/

/-- Pairs evaluated one after the other. -/
def afterPairs (pairs : List (Uuid × Uuid)) : Registry → Registry :=
  runOps (pairs.map fun pair => .evaluatePair pair.1 pair.2)

/-- What has been evaluated changes no evaluation. -/
theorem evaluateLocked_afterPairs (pairs : List (Uuid × Uuid)) (s : Registry) (left right : Uuid)
    (requirement : Bool) :
    evaluateLocked (afterPairs pairs s) left right requirement = evaluateLocked s left right requirement := by
  induction pairs generalizing s with
  | nil => rfl
  | cons pair pairs ih =>
    refine (ih (evaluatePair pair.1 pair.2 s).2).trans ?_
    unfold evaluatePair evaluateWith
    cases evaluateLocked s pair.1 pair.2 false <;> rfl

/-- The cells are the pairs, each with the outcome that an evaluation of it gives, whatever has
been evaluated before, and the counters count them. -/
structure Tabulates (s : Registry) (pairs : List (Uuid × Uuid)) (mr : MatrixResult) : Prop where
  cells : mr.cells.map (fun cell => (cell.left, cell.right)) = pairs
  evaluated : ∀ cell ∈ mr.cells, ∀ earlier, ∃ d,
    (evaluatePair cell.left cell.right (afterPairs earlier s)).1 = .ok d ∧ cell.outcome = d.outcome ∧
      outcomeName cell.outcome = .ok cell.reason
  counters : ∀ o, mr.counter o = mr.cells.countP (·.outcome = .declared o)
  total : (Enumerated.enumerators.map mr.counter).sum = pairs.length
  reasons : Counts (mr.cells.map MatrixCell.reason) mr.reasonCounts

theorem Tabulates.empty (s : Registry) : Tabulates s [] {} where
  cells := rfl
  evaluated cell hcell := by cases hcell
  counters o := by cases o <;> rfl
  total := rfl
  reasons := .nil

theorem Tabulates.step {s : Registry} {pairs : List (Uuid × Uuid)} {mr mr' : MatrixResult} {pair : Uuid × Uuid}
    (h : Tabulates s pairs mr) (hstep : matrixStep s mr pair = .ok mr') : Tabulates s (pairs ++ [pair]) mr' := by
  obtain ⟨d, hd, hstep⟩ := Result.bind_eq_ok.mp hstep
  obtain ⟨reason, hreason, hstep⟩ := Result.bind_eq_ok.mp hstep
  obtain ⟨outcome, houtcome⟩ : ∃ outcome, d.outcome = .declared outcome := by
    cases hout : d.outcome with
    | declared outcome => exact ⟨outcome, rfl⟩
    | undeclared raw hraw =>
      rw [hout] at hreason
      cases hreason
  rw [Except.ok.injEq] at hstep
  rw [houtcome] at hstep hreason
  let cell : MatrixCell := { left := pair.1, right := pair.2, outcome := .declared outcome, reason := reason }
  have hcells : mr'.cells = mr.cells ++ [cell] := by
    rw [← hstep]
    exact (MatrixResult.count_frame _ _).1
  have hcounter : ∀ o, mr'.counter o = mr.counter o + if outcome = o then 1 else 0 := by
    intro o
    rw [← hstep]
    exact MatrixResult.counter_count { mr with cells := mr.cells ++ [cell] } outcome o
  constructor
  case cells => rw [hcells, List.map_append, h.cells, List.map_singleton]
  case evaluated =>
    intro c hc earlier
    rw [hcells] at hc
    obtain hc | hc := List.mem_append.mp hc
    · exact h.evaluated c hc earlier
    · rw [List.mem_singleton.mp hc]
      refine ⟨d, ?_, houtcome.symm, hreason⟩
      rw [evaluatePair, evaluateWith_fst, evaluateLocked_afterPairs]
      exact hd
  case counters =>
    intro o
    rw [hcounter, h.counters, hcells, List.countP_append, List.countP_singleton]
    simp only [cell, decide_eq_true_eq, Enum8.declared.injEq]
  case total =>
    rw [List.length_append, List.length_singleton, ← h.total]
    simp only [Enumerated.enumerators, List.map_cons, List.map_nil, List.sum_cons, List.sum_nil, hcounter]
    cases outcome <;> simp <;> omega
  case reasons =>
    have hreasons : mr'.reasonCounts = countReason reason mr.reasonCounts := by
      rw [← hstep]
      exact congrArg (countReason reason) (MatrixResult.count_frame _ _).2
    rw [hreasons, hcells, List.map_append]
    exact h.reasons.snoc reason

/-- An outcome that no name exists for never leaves an evaluation. -/
theorem evaluateLocked_isDeclared {s : Registry} {left right : Uuid} {requirement : Bool}
    {d : CompatibilityDecision} (h : evaluateLocked s left right requirement = .ok d) :
    d.outcome.isDeclared = true := by
  cases evaluateLocked_returned h with
  | absent missing decided =>
    obtain ⟨digest, heq⟩ := absentDecision_eq s left right
    rw [heq] at decided
    cases decided
    rfl
  | identical l r left_active right_active same decided =>
    obtain ⟨digest, heq⟩ := exactDecision_eq s l r
    rw [heq] at decided
    cases decided
    rfl
  | ruled l r left_active right_active differ decided =>
    obtain ⟨evals, -, decided⟩ := Result.bind_eq_ok.mp decided
    obtain ⟨d₁, -, decided⟩ := Result.bind_eq_ok.mp decided
    have hdeclared := sealDecision_isOk.mp ⟨d, decided⟩
    rw [sealDecision_eq] at decided
    obtain ⟨text, -, decided⟩ := Result.bind_eq_ok.mp decided
    cases decided
    exact hdeclared

theorem matrixStep_error {s : Registry} {mr : MatrixResult} {pair : Uuid × Uuid} {e : Fault}
    (h : matrixStep s mr pair = .error e) : evaluateLocked s pair.1 pair.2 false = .error e := by
  unfold matrixStep at h
  cases hd : evaluateLocked s pair.1 pair.2 false with
  | error e' =>
    rw [hd, Result.error_bind, Except.error.injEq] at h
    rw [h]
  | ok d =>
    obtain ⟨name, hname⟩ := outcomeName_isOk.mpr (evaluateLocked_isDeclared hd)
    rw [hd, Result.ok_bind, hname, Result.ok_bind] at h
    cases h

/-- The rows in order, to the end or to the first pair whose evaluation throws. -/
theorem foldlM_tabulates (s : Registry) (todo : List (Uuid × Uuid)) :
    ∀ {pairs mr}, Tabulates s pairs mr →
      (∃ mr', todo.foldlM (matrixStep s) mr = .ok mr' ∧ Tabulates s (pairs ++ todo) mr') ∨
        ∃ before pair after e, todo = before ++ pair :: after ∧ todo.foldlM (matrixStep s) mr = .error e ∧
          (∀ p ∈ before, ∃ d, evaluateLocked s p.1 p.2 false = .ok d) ∧
          evaluateLocked s pair.1 pair.2 false = .error e := by
  induction todo with
  | nil =>
    intro pairs mr h
    exact .inl ⟨mr, rfl, by rwa [List.append_nil]⟩
  | cons pair todo ih =>
    intro pairs mr h
    rw [List.foldlM_cons]
    cases hstep : matrixStep s mr pair with
    | error e => exact .inr ⟨[], pair, todo, e, rfl, rfl, by simp, matrixStep_error hstep⟩
    | ok mr' =>
      obtain ⟨d, hd, -⟩ := Result.bind_eq_ok.mp hstep
      obtain ⟨mr'', hmr, hall⟩ | ⟨before, failing, after, e, htodo, herror, hbefore, hfailing⟩ := ih (h.step hstep)
      · refine .inl ⟨mr'', hmr, ?_⟩
        rwa [List.append_assoc, List.singleton_append] at hall
      · refine .inr ⟨pair :: before, failing, after, e, ?_, herror, ?_, hfailing⟩
        · rw [htodo, List.cons_append]
        · exact List.forall_mem_cons.mpr ⟨⟨d, hd⟩, hbefore⟩

/-- A matrix throws what the first of its pairs throws, row by row, or returns the table of all of
them, and leaves the registry alone. -/
theorem matrix_tabulates (lefts rights : List Uuid) (s : Registry) :
    (matrix lefts rights s).2 = s ∧
      ((∃ mr, (matrix lefts rights s).1 = .ok mr ∧ Tabulates s (lefts.product rights) mr) ∨
        ∃ before pair after e, lefts.product rights = before ++ pair :: after ∧
          (matrix lefts rights s).1 = .error e ∧ (∀ p ∈ before, ∃ d, (evaluatePair p.1 p.2 s).1 = .ok d) ∧
          (evaluatePair pair.1 pair.2 s).1 = .error e) := by
  refine ⟨rfl, ?_⟩
  simp only [evaluatePair, evaluateWith_fst]
  exact foldlM_tabulates s (lefts.product rights) (Tabulates.empty s)

end Registry

end CompatRegistry
