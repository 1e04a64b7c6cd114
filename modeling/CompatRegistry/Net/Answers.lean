import CompatRegistry.Net.Restart
import CompatRegistry.Registry.MoreEvidence

/-! What a query is answered, said on the ledger: by the two publications and the rules that
apply to them, without the registry, its candidates and the generations that it assigns. -/

namespace CompatRegistry

open Foundation Canon

/-- What rules read of a publication. -/
def Publication.subject (p : Publication) : Subject := ⟨p.kind, .record p.payload⟩

namespace Ledger

/-- The publication, unless it has been withdrawn. -/
def current (l : Ledger) (id : Uuid) : Option Publication := (l.profiles id).filter fun p => !p.withdrawn

structure AppliesTo (l : Ledger) (scope : Bytes) (p q : Publication) (rule : CompatibilityRule) : Prop where
  stored : l.rules rule.ruleId = some rule
  scope : rule.scope = scope
  left : ∀ kind ∈ rule.leftKind, kind = p.kind
  right : ∀ kind ∈ rule.rightKind, kind = q.kind

/-- Two different publications that the rules are asked about. -/
structure Differ (l : Ledger) (left right : Uuid) (p q : Publication) : Prop where
  left : l.current left = some p
  right : l.current right = some q
  fingerprint : p.fingerprint ≠ q.fingerprint

/-- A rule yields `Unknown`. -/
def Passes (p q : Publication) (rule : CompatibilityRule) : Prop :=
  Evaluates p.subject q.subject rule (.declared .unknown)

/-- A rule that applies has a clause or requirement that it cannot read. -/
def Unread (l : Ledger) (scope : Bytes) (p q : Publication) : Prop :=
  ∃ rule, l.AppliesTo scope p q rule ∧ ∃ c ∈ rule.gates, ¬ Known p.subject q.subject c

open scoped Classical in
/-- The outcome for a pair. -/
inductive Answers (l : Ledger) (scope : Bytes) (left right : Uuid) : Enum8 Outcome → Prop
  | absent (missing : l.current left = none ∨ l.current right = none) : Answers l scope left right (.declared .unknown)
  | identical {p q : Publication} (left_current : l.current left = some p) (right_current : l.current right = some q)
      (same : p.fingerprint = q.fingerprint) : Answers l scope left right (.declared .exact)
  | concluded {p q : Publication} {rule : CompatibilityRule} {o : Enum8 Outcome} (pair : l.Differ left right p q)
      (applies : l.AppliesTo scope p q rule) (outcome : Evaluates p.subject q.subject rule o)
      (conclusive : o ≠ .declared .unknown)
      (first : ∀ earlier, l.AppliesTo scope p q earlier → RuleBefore earlier rule → Passes p q earlier) :
      Answers l scope left right o
  | undecided {p q : Publication} (pair : l.Differ left right p q)
      (silent : ∀ rule, l.AppliesTo scope p q rule → Passes p q rule) :
      Answers l scope left right (.declared (if l.Unread scope p q then .insufficientEvidence else .unknown))

section Unique
variable {l : Ledger} {scope : Bytes} {left right : Uuid} {p q p' q' : Publication}

theorem AppliesTo.trichotomous {rule rule' : CompatibilityRule} (h : l.AppliesTo scope p q rule)
    (h' : l.AppliesTo scope p q rule') : RuleBefore rule rule' ∨ rule = rule' ∨ RuleBefore rule' rule := by
  by_cases hbefore : RuleBefore rule rule'
  · exact .inl hbefore
  · by_cases hafter : RuleBefore rule' rule
    · exact .inr (.inr hafter)
    · have hstored := h.stored
      rw [ruleId_eq_of_not_before hbefore hafter, h'.stored] at hstored
      exact .inr (.inl (Option.some.inj hstored).symm)

theorem Differ.unique (h : l.Differ left right p q) (h' : l.Differ left right p' q') : p' = p ∧ q' = q :=
  ⟨Option.some.inj (h'.left.symm.trans h.left), Option.some.inj (h'.right.symm.trans h.right)⟩

theorem Differ.not_absent (h : l.Differ left right p q) : ¬ (l.current left = none ∨ l.current right = none) := by
  rw [h.left, h.right]
  simp

theorem Differ.not_identical (h : l.Differ left right p q) (hl : l.current left = some p')
    (hr : l.current right = some q') : p'.fingerprint ≠ q'.fingerprint := by
  obtain rfl := Option.some.inj (hl.symm.trans h.left)
  obtain rfl := Option.some.inj (hr.symm.trans h.right)
  exact h.fingerprint

/-- The ledger leaves no choice. -/
theorem Answers.unique {o o' : Enum8 Outcome} (h : l.Answers scope left right o)
    (h' : l.Answers scope left right o') : o' = o := by
  cases h with
  | absent missing =>
    cases h' with
    | absent missing' => rfl
    | identical hl hr same => simp [hl, hr] at missing
    | concluded pair => exact absurd missing pair.not_absent
    | undecided pair => exact absurd missing pair.not_absent
  | identical hl hr same =>
    cases h' with
    | absent missing => simp [hl, hr] at missing
    | identical hl' hr' same' => rfl
    | concluded pair => exact absurd same (pair.not_identical hl hr)
    | undecided pair => exact absurd same (pair.not_identical hl hr)
  | @concluded p q rule o pair applies outcome conclusive first =>
    cases h' with
    | absent missing => exact absurd missing pair.not_absent
    | identical hl hr same => exact absurd same (pair.not_identical hl hr)
    | @concluded p' q' rule' o' pair' applies' outcome' conclusive' first' =>
      obtain ⟨rfl, rfl⟩ := pair.unique pair'
      rcases applies.trichotomous applies' with hbefore | rfl | hafter
      · exact absurd (outcome.unique (first' rule applies hbefore)) conclusive
      · exact outcome'.unique outcome
      · exact absurd (outcome'.unique (first rule' applies' hafter)) conclusive'
    | undecided pair' silent =>
      obtain ⟨rfl, rfl⟩ := pair.unique pair'
      exact absurd (outcome.unique (silent rule applies)) conclusive
  | undecided pair silent =>
    cases h' with
    | absent missing => exact absurd missing pair.not_absent
    | identical hl hr same => exact absurd same (pair.not_identical hl hr)
    | concluded pair' applies outcome conclusive first =>
      obtain ⟨rfl, rfl⟩ := pair.unique pair'
      exact absurd (outcome.unique (silent _ applies)) conclusive
    | undecided pair' silent' =>
      obtain ⟨rfl, rfl⟩ := pair.unique pair'
      rfl

end Unique

end Ledger

/-! ### The rules of the ledger and those of the registry -/

/-- The generation of a rule is nothing that its evaluation reads. -/
theorem Evaluates.regenerate {l r : Subject} {rule : CompatibilityRule} {o : Enum8 Outcome}
    (h : Evaluates l r rule o) (generation : Generation) : Evaluates l r { rule with generation } o := by
  have hkind : ∀ {o}, KindYields l r rule o → KindYields l r { rule with generation } o := by
    intro o hkind
    cases hkind with
    | conditionsMet kind met => exact @KindYields.conditionsMet l r { rule with generation } kind met
    | conditional kind settled unmet => exact .conditional kind settled unmet
    | adaptation kind => exact .adaptation kind
    | explicitIncompat kind => exact .explicitIncompat kind
    | stated conditional adaptation explicitIncompat =>
      exact @KindYields.stated l r { rule with generation } conditional adaptation explicitIncompat
  have hconcludes : ∀ {o}, Concludes l r rule o → Concludes l r { rule with generation } o := by
    intro o hconcludes
    cases hconcludes with
    | noneHolds some fail => exact .noneHolds some fail
    | noneKnownHolds fail missing => exact .noneKnownHolds fail missing
    | byKind any kind => exact .byKind any (hkind kind)
  cases h with
  | vetoed veto => exact .vetoed veto
  | short clear settled unmet missing => exact .short clear settled unmet missing
  | unmet clear settled unmet known => exact .unmet clear settled unmet known
  | concluded clear met conclusion => exact .concluded clear met (hconcludes conclusion)

theorem evaluates_regenerated {l r : Subject} {rule : CompatibilityRule} {generation : Generation}
    {o : Enum8 Outcome} : Evaluates l r { rule with generation } o ↔ Evaluates l r rule o :=
  ⟨fun h => h.regenerate rule.generation, fun h => h.regenerate generation⟩

namespace Coordinator

section Query
variable {s : Coordinator} {l : Ledger} {scope : Bytes} {left right : Uuid} {p q : Publication}

theorem Keeps.newestActive (h : Keeps s l) (id : Uuid) :
    s.registry.newestActive id = (l.current id).map (Ledger.recordOf id) := by
  rw [Registry.newestActive_eq_find?, h.profiles]
  unfold Ledger.current
  cases l.profiles id with
  | none => rfl
  | some p =>
    obtain ⟨kind, payload, withdrawn⟩ := p
    cases withdrawn <;> rfl

theorem Keeps.candidate (h : Keeps s l) (hs : Inv s) {rule : CompatibilityRule}
    (hrule : rule ∈ Registry.candidates s.registry scope (Ledger.recordOf left p) (Ledger.recordOf right q)) :
    ∃ held generation, l.AppliesTo scope p q held ∧ rule = { held with generation } := by
  obtain ⟨id, rr, hlook, happ, rfl⟩ := Registry.mem_candidates.mp hrule
  have hheld := h.rules id
  rw [hlook] at hheld
  have hid := (hs.registry.rules id rr hlook).1
  generalize hl : l.rules id = stored at hheld
  cases hheld with
  | @some held rr hrr =>
    obtain ⟨generation, rfl⟩ := hrr
    change held.ruleId = id at hid
    simp only [Registry.applicable, Bool.and_eq_true, beq_iff_eq, Option.all_eq_true] at happ
    obtain ⟨⟨⟨-, hscope⟩, hleft⟩, hright⟩ := happ
    exact ⟨held, generation, ⟨hid ▸ hl, hscope, hleft, hright⟩, rfl⟩

theorem Keeps.candidate_of_applies (h : Keeps s l) {rule : CompatibilityRule} (hrule : l.AppliesTo scope p q rule)
    (left right : Uuid) : ∃ generation, { rule with generation } ∈
      Registry.candidates s.registry scope (Ledger.recordOf left p) (Ledger.recordOf right q) := by
  have hheld := h.rules rule.ruleId
  rw [hrule.stored] at hheld
  generalize hlook : s.registry.rules.lookup rule.ruleId = stored at hheld
  cases hheld with
  | @some _ rr hrr =>
    obtain ⟨generation, rfl⟩ := hrr
    refine ⟨generation, Registry.mem_candidates.mpr ⟨rule.ruleId, _, hlook, ?_, rfl⟩⟩
    simp only [Registry.applicable, Bool.and_eq_true, beq_iff_eq, Option.all_eq_true]
    exact ⟨⟨⟨trivial, hrule.scope⟩, hrule.left⟩, hrule.right⟩

theorem Keeps.current (h : Keeps s l) {id : Uuid} {record : ProfileRecord}
    (hrecord : s.registry.newestActive id = some record) :
    ∃ p, l.current id = some p ∧ record = Ledger.recordOf id p := by
  rw [h.newestActive] at hrecord
  obtain ⟨p, hp, rfl⟩ := Option.map_eq_some_iff.mp hrecord
  exact ⟨p, hp, rfl⟩

theorem Keeps.answers_of_ruled (h : Keeps s l) (hs : Inv s) {requirement : Bool}
    (hpair : l.Differ left right p q) {o : Enum8 Outcome}
    (ho : Registry.Ruled s.registry requirement (Ledger.recordOf left p) (Ledger.recordOf right q) o) :
    l.Answers (Registry.scopeOf requirement) left right o := by
  classical
  have hpasses : Registry.Undecided s.registry requirement (Ledger.recordOf left p) (Ledger.recordOf right q) →
      ∀ rule, l.AppliesTo (Registry.scopeOf requirement) p q rule → Ledger.Passes p q rule := by
    intro hundecided rule hrule
    obtain ⟨generation, hmem⟩ := h.candidate_of_applies hrule left right
    exact evaluates_regenerated.mp (hundecided _ hmem)
  cases ho with
  | @governed rule o governs =>
    obtain ⟨held, generation, happlies, rfl⟩ := h.candidate hs governs.mem
    obtain ⟨before, after, hcand, hbefore⟩ := governs.first
    refine .concluded hpair happlies (evaluates_regenerated.mp governs.outcome) governs.conclusive
      fun earlier hearlier hprecedes => ?_
    obtain ⟨generation', hmem⟩ := h.candidate_of_applies hearlier left right
    have hsorted := (Registry.candidates_sorted hs.registry (Registry.scopeOf requirement) (Ledger.recordOf left p)
      (Ledger.recordOf right q)).sorted
    have hprecedes' : RuleBefore { earlier with generation := generation' } { held with generation } := hprecedes
    rw [hcand] at hmem hsorted
    -- a rule that comes before the one that governs stands in front of it
    obtain hfront | hrest := List.mem_append.mp hmem
    · exact evaluates_regenerated.mp (hbefore _ hfront)
    · exfalso
      obtain heq | hrest := List.mem_cons.mp hrest
      · rw [heq] at hprecedes'
        exact hprecedes'.irrefl
      · have hbehind := (List.pairwise_cons.mp (List.pairwise_append.mp hsorted).2.1).1 _ hrest
        exact hprecedes'.asymm hbehind
  | @unread undecided rule mem c gate unknown =>
    obtain ⟨held, generation, happlies, rfl⟩ := h.candidate hs mem
    have hunread : l.Unread (Registry.scopeOf requirement) p q := ⟨held, happlies, c, gate, unknown⟩
    have hanswers := Ledger.Answers.undecided hpair (hpasses undecided)
    rwa [if_pos hunread] at hanswers
  | unknown undecided known =>
    have hread : ¬ l.Unread (Registry.scopeOf requirement) p q := by
      rintro ⟨rule, hrule, c, hc, hunknown⟩
      obtain ⟨generation, hmem⟩ := h.candidate_of_applies hrule left right
      exact hunknown (known _ hmem c hc)
    have hanswers := Ledger.Answers.undecided hpair (hpasses undecided)
    rwa [if_neg hread] at hanswers

theorem Keeps.answers (h : Keeps s l) (hs : Inv s) {requirement : Bool} {d : CompatibilityDecision}
    (hd : Registry.evaluateLocked s.registry left right requirement = .ok d) :
    l.Answers (Registry.scopeOf requirement) left right d.outcome := by
  have hnone : ∀ {id}, s.registry.newestActive id = none → l.current id = none := by
    intro id hid
    rw [h.newestActive] at hid
    exact Option.map_eq_none_iff.mp hid
  cases Registry.evaluateLocked_returned hd with
  | absent missing decided =>
    obtain ⟨digest, heq⟩ := Registry.absentDecision_eq s.registry left right
    rw [heq] at decided
    cases decided
    exact .absent (missing.imp hnone hnone)
  | identical lr rr left_active right_active same decided =>
    obtain ⟨p, hp, rfl⟩ := h.current left_active
    obtain ⟨q, hq, rfl⟩ := h.current right_active
    obtain ⟨digest, heq⟩ := Registry.exactDecision_eq s.registry (Ledger.recordOf left p) (Ledger.recordOf right q)
    rw [heq] at decided
    cases decided
    exact .identical hp hq same
  | ruled lr rr left_active right_active differ decided =>
    obtain ⟨p, hp, rfl⟩ := h.current left_active
    obtain ⟨q, hq, rfl⟩ := h.current right_active
    exact h.answers_of_ruled hs ⟨hp, hq, differ⟩ (Registry.ruled_of_ruleDecision decided)

end Query

theorem handleRequest_query {seed : Uuid} {msg : NetMessage} {s : Coordinator} {requirement : Bool}
    (hmsg : msg.type = .declared (if requirement then .queryRequirement else .queryPair)) :
    handleRequest seed msg s = query requirement msg s := by
  unfold handleRequest
  rw [hmsg]
  cases requirement <;> rfl

theorem Keeps.answered {s : Coordinator} {l : Ledger} (h : Keeps s l) (hs : Inv s) {seed : Uuid} {msg : NetMessage}
    {requirement : Bool} (hmsg : msg.type = .declared (if requirement then .queryRequirement else .queryPair))
    {out : Bool × NetMessage} (hout : (handleRequest seed msg s).1 = .ok out) :
    ∃ d, out = (true, { type := .declared .decision, payload := encDecisionWire d }) ∧
      ∀ o, l.Answers (Registry.scopeOf requirement) (msg.fieldUuid 1) (msg.fieldUuid 2) o ↔ o = d.outcome := by
  rw [handleRequest_query hmsg] at hout
  unfold query at hout
  obtain ⟨e, -, heq⟩ | ⟨d, hd, heq⟩ := andThen_cases
    (Registry.evaluateWith requirement (msg.fieldUuid 1) (msg.fieldUuid 2))
    (fun d s => (.ok (true, { type := .declared .decision, payload := encDecisionWire d }), s)) s
  · rw [heq] at hout
    cases hout
  · rw [heq] at hout
    cases hout
    rw [Registry.evaluateWith_fst] at hd
    have hanswers := h.answers hs hd
    refine ⟨d, rfl, fun o => ⟨fun ho => hanswers.unique ho, fun ho => ?_⟩⟩
    rw [ho]
    exact hanswers

/-- What a query is answered through any requests and restarts. The answer has the one outcome that
the ledger gives for the pair. -/
theorem queries_answered {issued : List Uuid} {kept : List (Bytes × Ledger)} {s : Coordinator} {l : Ledger}
    (h : Serves issued kept s l) {seed : Uuid} {msg : NetMessage} {requirement : Bool}
    (hmsg : msg.type = .declared (if requirement then .queryRequirement else .queryPair))
    {out : Bool × NetMessage} (hout : (handleRequest seed msg s).1 = .ok out) :
    ∃ d, out = (true, { type := .declared .decision, payload := encDecisionWire d }) ∧
      ∀ o, l.Answers (Registry.scopeOf requirement) (msg.fieldUuid 1) (msg.fieldUuid 2) o ↔ o = d.outcome :=
  h.books.1.keeps.answered h.books.1.inv hmsg hout

theorem serves_published :
    ∃ l, Serves [uuidOf 0, uuidOf 2, uuidOf 1, uuidOf 9] [] (after published {}) l := by
  have hwf : ∀ m ∈ published, m.2.payload.WF := by
    simp [published, sourceRequest, profileRequest, ruleRequest, WF, WFRecord, SortedMap.Sorted]
  simp only [published, List.forall_mem_cons] at hwf
  obtain ⟨hsource, hfirst, hsecond, hrule, -⟩ := hwf
  have hfresh₁ : uuidOf 1 ∉ [uuidOf 9] := by decide
  have hfresh₂ : uuidOf 2 ∉ [uuidOf 1, uuidOf 9] := by decide
  have hfresh₀ : uuidOf 0 ∉ [uuidOf 2, uuidOf 1, uuidOf 9] := by decide
  exact ⟨_, (((Serves.start.request List.not_mem_nil hsource).request hfresh₁ hfirst).request
    hfresh₂ hsecond).request hfresh₀ hrule⟩

/-- A source publishes two profiles and a rule, and asks about the two. -/
theorem queries_answered_published : ∃ issued kept s l, Serves issued kept s l ∧
    ∃ d, (handleRequest (uuidOf 0) (queryRequest 1 2).2 s).1 =
        .ok (true, { type := .declared .decision, payload := encDecisionWire d }) ∧
      ∀ o, l.Answers (ascii "pair") (uuidOf 1) (uuidOf 2) o ↔ o = d.outcome := by
  obtain ⟨l, hserves⟩ := serves_published
  have hok : (handleRequest (uuidOf 0) (queryRequest 1 2).2 (after published {})).1.isOk = true := by
    decide +kernel
  generalize after published {} = s at hserves hok
  cases hout : (handleRequest (uuidOf 0) (queryRequest 1 2).2 s).1 with
  | error e =>
    rw [hout] at hok
    cases hok
  | ok out =>
    obtain ⟨d, rfl, hanswers⟩ := @queries_answered _ _ s _ hserves (uuidOf 0) (queryRequest 1 2).2 false rfl out hout
    exact ⟨_, _, s, _, hserves, d, hout, hanswers⟩

end Coordinator

end CompatRegistry
